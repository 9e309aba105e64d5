import Mathlib.Data.List.Basic
import Mathlib.Data.UInt

/-! Operations of the Rust standard library and of its byte buffers that panic
outside their domain, on a 64-bit target, as total functions into `Except`.
Each comes with its value inside the domain, so a caller proves absence of
panics by meeting the bounds. -/

namespace ConstructTransport.Checked

universe u

variable {α : Type u}

inductive Panic
  | indexOutOfBounds
  | rangeOutOfBounds
  | arithmeticOverflow
  | divideByZero
  | advancePastEnd
  deriving DecidableEq, Repr

/-- `std::task::Poll`. -/
inductive Poll (α : Type)
  | ready (a : α)
  | pending
  deriving DecidableEq, Repr

def usizeAdd (a b : ℕ) : Except Panic ℕ :=
  if a + b < 2 ^ 64 then .ok (a + b) else .error .arithmeticOverflow

/-- `xs[i]` as a value. -/
def index (xs : List α) (i : ℕ) : Except Panic α :=
  match xs[i]? with
  | some x => .ok x
  | none => .error .indexOutOfBounds

def assign (xs : List α) (i : ℕ) (x : α) : Except Panic (List α) :=
  if i < xs.length then .ok (xs.set i x) else .error .indexOutOfBounds

/-- `xs[..n]` as a value. -/
def sliceTo (xs : List α) (n : ℕ) : Except Panic (List α) :=
  if n ≤ xs.length then .ok (xs.take n) else .error .rangeOutOfBounds

/-- `xs[..src.len()].copy_from_slice(src)`. -/
def copyFront (xs src : List α) : Except Panic (List α) :=
  if src.length ≤ xs.length then .ok (src ++ xs.drop src.length) else .error .rangeOutOfBounds

/-- `BytesMut::split_to`: the front and what stays in the buffer. -/
def splitTo (xs : List α) (n : ℕ) : Except Panic (List α × List α) :=
  if n ≤ xs.length then .ok (xs.take n, xs.drop n) else .error .rangeOutOfBounds

def advance (xs : List α) (n : ℕ) : Except Panic (List α) :=
  if n ≤ xs.length then .ok (xs.drop n) else .error .advancePastEnd

def divide (a b : ℕ) : Except Panic ℕ := if b = 0 then .error .divideByZero else .ok (a / b)

theorem ok_bind {A B : Type u} (a : A) (f : A → Except Panic B) : (Except.ok a >>= f) = f a := rfl

theorem usizeAdd_ok {a b : ℕ} (h : a + b < 2 ^ 64) : usizeAdd a b = .ok (a + b) := if_pos h

theorem index_ok {xs : List α} {i : ℕ} (h : i < xs.length) : index xs i = .ok xs[i] := by
  simp [index, h]

theorem assign_ok {xs : List α} {i : ℕ} (h : i < xs.length) (x : α) :
    assign xs i x = .ok (xs.set i x) := if_pos h

theorem sliceTo_ok {xs : List α} {n : ℕ} (h : n ≤ xs.length) : sliceTo xs n = .ok (xs.take n) :=
  if_pos h

theorem copyFront_ok {xs src : List α} (h : src.length ≤ xs.length) :
    copyFront xs src = .ok (src ++ xs.drop src.length) := if_pos h

theorem splitTo_ok {xs : List α} {n : ℕ} (h : n ≤ xs.length) :
    splitTo xs n = .ok (xs.take n, xs.drop n) := if_pos h

theorem advance_ok {xs : List α} {n : ℕ} (h : n ≤ xs.length) : advance xs n = .ok (xs.drop n) :=
  if_pos h

theorem divide_ok {a b : ℕ} (h : b ≠ 0) : divide a b = .ok (a / b) := if_neg h

/-! ### Big-endian 32-bit integers -/

def u32FromBeBytes (b₀ b₁ b₂ b₃ : UInt8) : UInt32 :=
  UInt32.ofNat (b₀.toNat * 2 ^ 24 + b₁.toNat * 2 ^ 16 + b₂.toNat * 2 ^ 8 + b₃.toNat)

/-- The bytes `BufMut::put_u32` appends. -/
def putU32 (n : UInt32) : List UInt8 :=
  [.ofNat (n.toNat / 2 ^ 24), .ofNat (n.toNat / 2 ^ 16), .ofNat (n.toNat / 2 ^ 8), .ofNat n.toNat]

@[simp] theorem putU32_length (n : UInt32) : (putU32 n).length = 4 := rfl

theorem u32FromBeBytes_toNat (b₀ b₁ b₂ b₃ : UInt8) :
    (u32FromBeBytes b₀ b₁ b₂ b₃).toNat =
      b₀.toNat * 2 ^ 24 + b₁.toNat * 2 ^ 16 + b₂.toNat * 2 ^ 8 + b₃.toNat := by
  have h₀ := b₀.toNat_lt
  have h₁ := b₁.toNat_lt
  have h₂ := b₂.toNat_lt
  have h₃ := b₃.toNat_lt
  rw [u32FromBeBytes, UInt32.toNat_ofNat', Nat.mod_eq_of_lt (by omega)]

theorem putU32_fromBeBytes (b₀ b₁ b₂ b₃ : UInt8) :
    putU32 (u32FromBeBytes b₀ b₁ b₂ b₃) = [b₀, b₁, b₂, b₃] := by
  have h₀ := b₀.toNat_lt
  have h₁ := b₁.toNat_lt
  have h₂ := b₂.toNat_lt
  have h₃ := b₃.toNat_lt
  simp only [putU32, u32FromBeBytes_toNat, List.cons.injEq, and_true]
  refine ⟨?_, ?_, ?_, ?_⟩ <;> apply UInt8.toNat_inj.mp <;> rw [UInt8.toNat_ofNat'] <;> omega

theorem u32FromBeBytes_putU32 (n : UInt32) :
    ∃ b₀ b₁ b₂ b₃, putU32 n = [b₀, b₁, b₂, b₃] ∧ u32FromBeBytes b₀ b₁ b₂ b₃ = n := by
  refine ⟨_, _, _, _, rfl, ?_⟩
  have h := n.toNat_lt
  apply UInt32.toNat_inj.mp
  simp only [u32FromBeBytes_toNat, UInt8.toNat_ofNat']
  omega

end ConstructTransport.Checked
