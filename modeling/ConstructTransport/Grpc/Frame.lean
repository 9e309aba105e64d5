import ConstructTransport.Basic.Checked
import ConstructTransport.Basic.Framing

/-! gRPC length-prefix framing (`grpc.rs`). A frame on the wire is a flag byte,
a big-endian length and that many body bytes. Frames are a self-delimiting code,
`takeFrame` is its decoder with the flag dropped, and `encodeFrame` writes the
frame with flag zero as long as the length fits its prefix. -/

namespace ConstructTransport.Grpc

open Checked Framing

/-! ### The source's functions -/

/-- `encode_frame`. The cast of the length wraps at 32 bits. -/
def encodeFrame (body : List UInt8) : List UInt8 :=
  let buf := [0]
  let buf := buf ++ putU32 (UInt32.ofNat body.length)
  buf ++ body

/-- `take_frame`: the body, if a whole frame is buffered, and the buffer left. -/
def takeFrame (buf : List UInt8) : Except Panic (Option (List UInt8) × List UInt8) :=
  if buf.length < 5 then .ok (none, buf)
  else do
    let len := u32FromBeBytes (← index buf 1) (← index buf 2) (← index buf 3) (← index buf 4)
    let total ← usizeAdd 5 len.toNat
    if buf.length < total then return (none, buf)
    let (frame, buf) ← splitTo buf total
    let frame ← advance frame 5
    return (some frame, buf)

/-! ### Frames on the wire -/

/-- A whole frame, whoever wrote it: any flag, and a body its prefix can count. -/
@[ext] structure RawFrame where
  flag : UInt8
  body : List UInt8
  small : body.length < 2 ^ 32

namespace RawFrame

def header (f : RawFrame) : List UInt8 := f.flag :: putU32 (UInt32.ofNat f.body.length)

def bytes (f : RawFrame) : List UInt8 := f.header ++ f.body

theorem take_small (n : UInt32) (xs : List UInt8) : (xs.take n.toNat).length < 2 ^ 32 :=
  (List.length_take_le _ _).trans_lt n.toNat_lt

def take : List UInt8 → Option (RawFrame × List UInt8)
  | flag :: b₀ :: b₁ :: b₂ :: b₃ :: rest =>
    let len := u32FromBeBytes b₀ b₁ b₂ b₃
    if len.toNat ≤ rest.length then
      some (⟨flag, rest.take len.toNat, take_small len rest⟩, rest.drop len.toNat)
    else none
  | _ => none

@[simp] theorem header_length (f : RawFrame) : f.header.length = 5 := rfl

theorem bytes_ne_nil (f : RawFrame) : f.bytes ≠ [] := List.cons_ne_nil _ _

theorem length_toNat (f : RawFrame) : (UInt32.ofNat f.body.length).toNat = f.body.length := by
  rw [UInt32.toNat_ofNat', Nat.mod_eq_of_lt f.small]

theorem take_cons (flag b₀ b₁ b₂ b₃ : UInt8) (rest : List UInt8) :
    take (flag :: b₀ :: b₁ :: b₂ :: b₃ :: rest) =
      if (u32FromBeBytes b₀ b₁ b₂ b₃).toNat ≤ rest.length then
        some (⟨flag, rest.take (u32FromBeBytes b₀ b₁ b₂ b₃).toNat, take_small _ rest⟩,
          rest.drop (u32FromBeBytes b₀ b₁ b₂ b₃).toNat)
      else none := rfl

theorem take_bytes (f : RawFrame) (rest : List UInt8) :
    take (f.bytes ++ rest) = some (f, rest) := by
  obtain ⟨b₀, b₁, b₂, b₃, hp, hn⟩ := u32FromBeBytes_putU32 (UInt32.ofNat f.body.length)
  have hb : f.bytes ++ rest = f.flag :: b₀ :: b₁ :: b₂ :: b₃ :: (f.body ++ rest) := by
    simp only [bytes, header, hp, List.cons_append, List.nil_append]
  rw [hb, take_cons]
  generalize u32FromBeBytes b₀ b₁ b₂ b₃ = len at hn
  have hl : len.toNat = f.body.length := by rw [hn, f.length_toNat]
  have ht : (f.body ++ rest).take len.toNat = f.body := by rw [hl]; exact List.take_left
  have hd : (f.body ++ rest).drop len.toNat = rest := by rw [hl]; exact List.drop_left
  have hle : len.toNat ≤ (f.body ++ rest).length := by rw [hl, List.length_append]; omega
  have hf : (⟨f.flag, (f.body ++ rest).take len.toNat, take_small len _⟩ : RawFrame) = f :=
    RawFrame.ext rfl ht
  rw [if_pos hle, hf, hd]

theorem bytes_take {xs rest : List UInt8} {f : RawFrame} (h : take xs = some (f, rest)) :
    xs = f.bytes ++ rest := by
  rcases xs with _ | ⟨flag, _ | ⟨b₀, _ | ⟨b₁, _ | ⟨b₂, _ | ⟨b₃, tail⟩⟩⟩⟩⟩
  case cons.cons.cons.cons.cons =>
    rw [take_cons] at h
    have hp := putU32_fromBeBytes b₀ b₁ b₂ b₃
    generalize u32FromBeBytes b₀ b₁ b₂ b₃ = len at h hp
    split_ifs at h with hle
    obtain ⟨hf, hr⟩ := Prod.mk.inj (Option.some.inj h)
    have hflag : flag = f.flag := congrArg RawFrame.flag hf
    have hbody : tail.take len.toNat = f.body := congrArg RawFrame.body hf
    have hl : UInt32.ofNat f.body.length = len := by
      rw [← hbody, List.length_take_of_le hle, UInt32.ofNat_toNat]
    rw [bytes, header, hl, hp, ← hbody, ← hr, ← hflag, List.append_assoc, List.take_append_drop]
    rfl
  all_goals contradiction

end RawFrame

/-- Frames as a self-delimiting code. -/
def frames : Code RawFrame UInt8 where
  bytes := RawFrame.bytes
  take := RawFrame.take
  take_bytes := RawFrame.take_bytes
  bytes_take := RawFrame.bytes_take
  bytes_ne_nil := RawFrame.bytes_ne_nil

/-- The messages of a byte string: the bodies of its whole frames. -/
def messages (xs : List UInt8) : List (List UInt8) := (frames.parse xs).1.map RawFrame.body

/-- What follows the last whole frame of a byte string. -/
def residue (xs : List UInt8) : List UInt8 := (frames.parse xs).2

@[simp] theorem messages_nil : messages [] = [] := by
  rw [messages, frames.parse_none frames.take_nil]
  rfl

theorem messages_prefix {xs ys : List UInt8} (h : xs <+: ys) : messages xs <+: messages ys :=
  (frames.parse_prefix h).map _

/-! ### The functions against the code -/

theorem splitFrame_ok {hd rest : List UInt8} {n : ℕ} (hh : hd.length = 5) (h : n ≤ rest.length) :
    (splitTo (hd ++ rest) (5 + n) >>= fun p => advance p.1 5 >>= fun frame =>
      .ok (some frame, p.2)) = .ok (some (rest.take n), rest.drop n) := by
  have ht : (hd ++ rest).take (5 + n) = hd ++ rest.take n := by
    rw [← hh]; exact List.take_length_add_append n
  have hd : (hd ++ rest).drop (5 + n) = rest.drop n := by
    rw [← hh]; exact List.drop_length_add_append n
  rw [splitTo_ok (by rw [List.length_append]; omega), ht, hd, ok_bind,
    advance_ok (by rw [List.length_append]; omega), ok_bind, List.drop_left' hh]

theorem takeFrame_cons (flag b₀ b₁ b₂ b₃ : UInt8) (rest : List UInt8) :
    takeFrame (flag :: b₀ :: b₁ :: b₂ :: b₃ :: rest) =
      if (u32FromBeBytes b₀ b₁ b₂ b₃).toNat ≤ rest.length then
        .ok (some (rest.take (u32FromBeBytes b₀ b₁ b₂ b₃).toNat),
          rest.drop (u32FromBeBytes b₀ b₁ b₂ b₃).toNat)
      else .ok (none, flag :: b₀ :: b₁ :: b₂ :: b₃ :: rest) := by
  set hd := [flag, b₀, b₁, b₂, b₃] with hhd
  have hbuf : flag :: b₀ :: b₁ :: b₂ :: b₃ :: rest = hd ++ rest := rfl
  have hlen : (hd ++ rest).length = 5 + rest.length := by rw [List.length_append, hhd]; rfl
  have h₁ : index (hd ++ rest) 1 = .ok b₀ := rfl
  have h₂ : index (hd ++ rest) 2 = .ok b₁ := rfl
  have h₃ : index (hd ++ rest) 3 = .ok b₂ := rfl
  have h₄ : index (hd ++ rest) 4 = .ok b₃ := rfl
  have hn := (u32FromBeBytes b₀ b₁ b₂ b₃).toNat_lt
  rw [hbuf, takeFrame, if_neg (by omega), h₁, ok_bind, h₂, ok_bind, h₃, ok_bind, h₄, ok_bind]
  dsimp only
  rw [usizeAdd_ok (by omega), ok_bind]
  by_cases h : (u32FromBeBytes b₀ b₁ b₂ b₃).toNat ≤ rest.length
  · rw [if_pos h, if_neg (by omega)]
    exact splitFrame_ok rfl h
  · rw [if_neg h, if_pos (by omega)]
    rfl

theorem takeFrame_short {buf : List UInt8} (h : buf.length < 5) : takeFrame buf = .ok (none, buf) :=
  if_pos h

/-- `take_frame` never panics, takes a frame exactly when one is whole, and
returns its body. -/
theorem takeFrame_eq (buf : List UInt8) :
    takeFrame buf = .ok (match frames.take buf with
      | some (f, rest) => (some f.body, rest)
      | none => (none, buf)) := by
  rcases buf with _ | ⟨flag, _ | ⟨b₀, _ | ⟨b₁, _ | ⟨b₂, _ | ⟨b₃, rest⟩⟩⟩⟩⟩
  case cons.cons.cons.cons.cons =>
    rw [takeFrame_cons, show frames.take = RawFrame.take from rfl, RawFrame.take_cons]
    split_ifs <;> rfl
  all_goals exact takeFrame_short (by simp)

theorem encodeFrame_eq {body : List UInt8} (h : body.length < 2 ^ 32) :
    encodeFrame body = frames.bytes ⟨0, body, h⟩ := rfl

example : takeFrame (encodeFrame [7, 8] ++ [0, 0]) = .ok (some [7, 8], [0, 0]) := by decide

end ConstructTransport.Grpc
