import ConstructTransport.Basic.Checked

/-! Strings of the Rust standard library: their bytes, slices at byte offsets,
which panic inside a character, and integers parsed from them. A string is a
sequence of characters and its bytes are their UTF-8 encodings, so that a byte
below 128 is a character of its own. -/

namespace ConstructTransport.Text

open Checked

/-! ### Bytes -/

def asBytes (s : String) : List UInt8 := s.toList.flatMap String.utf8EncodeChar

/-- A byte within the encoding of a character, after its first. -/
def isContinuation (b : UInt8) : Bool := 0x80 ≤ b && b < 0xC0

def isCharBoundary (s : String) (i : ℕ) : Bool :=
  i == 0 ||
    match (asBytes s)[i]? with
    | none => i == (asBytes s).length
    | some b => !isContinuation b

/-- The bytes of `&s[a..b]`, which panics alike outside the string and inside a character. -/
def slice (s : String) (a b : ℕ) : Except Panic (List UInt8) :=
  if a ≤ b ∧ isCharBoundary s a ∧ isCharBoundary s b then .ok (((asBytes s).drop a).take (b - a))
  else .error .rangeOutOfBounds

def isWhitespace (c : Char) : Bool :=
  c.toNat ∈ [0x20, 0x85, 0xA0, 0x1680, 0x2028, 0x2029, 0x202F, 0x205F, 0x3000] ||
    0x9 ≤ c.toNat && c.toNat ≤ 0xD || 0x2000 ≤ c.toNat && c.toNat ≤ 0x200A

def splitWhitespace (s : String) : List String :=
  ((s.toList.splitOnP isWhitespace).filter (· ≠ [])).map String.ofList

def startsWith (s pat : String) : Bool := pat.toList.isPrefixOf s.toList

def contains (s pat : String) : Bool := decide (pat.toList <:+: s.toList)

section Encoding

variable {c : Char} {cs : List Char} {b : UInt8} {i : ℕ}

theorem utf8EncodeChar_of_lt (h : c.toNat < 128) :
    String.utf8EncodeChar c = [UInt8.ofNat c.toNat] :=
  if_pos (Nat.le_of_lt_succ h)

theorem utf8EncodeChar_of_le (h : 128 ≤ c.toNat) : ∀ b ∈ String.utf8EncodeChar c, 128 ≤ b := by
  have hv : c.val.toNat = c.toNat := rfl
  unfold String.utf8EncodeChar
  simp only [hv]
  split_ifs
  · omega
  all_goals
    simp [UInt8.le_iff_toNat_le]
    omega

/-- No encoding begins with a continuation byte. -/
theorem utf8EncodeChar_eq_cons (c : Char) :
    ∃ b bs, String.utf8EncodeChar c = b :: bs ∧ isContinuation b = false := by
  have hv : c.val.toNat = c.toNat := rfl
  unfold String.utf8EncodeChar
  simp only [hv]
  split_ifs <;> refine ⟨_, _, rfl, ?_⟩
  all_goals
    simp [isContinuation, UInt8.le_iff_toNat_le, UInt8.lt_iff_toNat_lt]
    omega

theorem head_not_continuation (h : (cs.flatMap String.utf8EncodeChar)[0]? = some b) :
    isContinuation b = false := by
  cases cs with
  | nil => cases h
  | cons c cs =>
    obtain ⟨b', bs, he, hb⟩ := utf8EncodeChar_eq_cons c
    rw [List.flatMap_cons, he] at h
    cases h
    exact hb

/-- What follows a byte below 128 begins a character. -/
theorem next_not_continuation (hb : (cs.flatMap String.utf8EncodeChar)[i]? = some b)
    (hlt : b < 128) {b' : UInt8} (hb' : (cs.flatMap String.utf8EncodeChar)[i + 1]? = some b') :
    isContinuation b' = false := by
  induction cs generalizing i with
  | nil => cases hb
  | cons c cs ih =>
    rw [List.flatMap_cons] at hb hb'
    by_cases hi : i < (String.utf8EncodeChar c).length
    · rw [List.getElem?_append_left hi] at hb
      have hc : c.toNat < 128 := by
        refine Nat.lt_of_not_le fun hc => ?_
        exact absurd hlt (UInt8.not_lt.mpr (utf8EncodeChar_of_le hc b (List.mem_of_getElem? hb)))
      rw [utf8EncodeChar_of_lt hc] at hi hb'
      cases Nat.lt_one_iff.mp hi
      exact head_not_continuation hb'
    · have hle := Nat.le_of_not_lt hi
      rw [List.getElem?_append_right hle] at hb
      rw [List.getElem?_append_right (hle.trans i.le_succ), Nat.succ_sub hle] at hb'
      exact ih hb hb'

end Encoding

theorem isCharBoundary_succ {s : String} {i : ℕ} {b : UInt8} (hb : (asBytes s)[i]? = some b)
    (hlt : b < 128) : isCharBoundary s (i + 1) = true := by
  have hi := (List.getElem?_eq_some_iff.mp hb).1
  unfold isCharBoundary
  cases hn : (asBytes s)[i + 1]? with
  | none =>
    have := List.getElem?_eq_none_iff.mp hn
    simp
    omega
  | some b' => simp [next_not_continuation hb hlt hn]

/-- Where a character begins or the string ends. -/
theorem isCharBoundary_append {s : String} {pre cs : List Char} (hs : s.toList = pre ++ cs) :
    isCharBoundary s (pre.flatMap String.utf8EncodeChar).length = true := by
  have hb : asBytes s = pre.flatMap String.utf8EncodeChar ++ cs.flatMap String.utf8EncodeChar := by
    rw [asBytes, hs, List.flatMap_append]
  unfold isCharBoundary
  rw [hb, List.getElem?_append_right le_rfl, Nat.sub_self]
  cases hh : (cs.flatMap String.utf8EncodeChar)[0]? with
  | none =>
    rw [List.getElem?_eq_none_iff, Nat.le_zero, List.length_eq_zero_iff] at hh
    simp [hh]
  | some b => simp [head_not_continuation hh]

theorem slice_ok {s : String} {a b : ℕ} (h : a ≤ b) (ha : isCharBoundary s a = true)
    (hb : isCharBoundary s b = true) : slice s a b = .ok (((asBytes s).drop a).take (b - a)) :=
  if_pos ⟨h, ha, hb⟩

/-! ### Integers -/

/-- `core::num::IntErrorKind`, what parsing a `u8` uses of it. -/
inductive IntErrorKind
  | empty
  | invalidDigit
  | posOverflow
  deriving DecidableEq, Repr

/-- `ParseIntError` as it is displayed. -/
def IntErrorKind.display : IntErrorKind → String
  | empty => "cannot parse integer from empty string"
  | invalidDigit => "invalid digit found in string"
  | posOverflow => "number too large to fit in target type"

/-- `char::to_digit`, of a byte as a character. -/
def toDigit (radix : ℕ) (b : UInt8) : Option ℕ :=
  let digit :=
    if 48 ≤ b ∧ b ≤ 57 then b.toNat - 48
    else if 97 ≤ b ∧ b ≤ 122 then b.toNat - 97 + 10
    else if 65 ≤ b ∧ b ≤ 90 then b.toNat - 65 + 10
    else radix
  if digit < radix then some digit else none

/-- The loop of `u8::from_str_radix`, its arithmetic checked. -/
def accumulate (radix : ℕ) : List UInt8 → ℕ → Except IntErrorKind UInt8
  | [], result => .ok (UInt8.ofNat result)
  | c :: cs, result =>
    match toDigit radix c with
    | none => .error .invalidDigit
    | some x =>
      if result * radix + x < 2 ^ 8 then accumulate radix cs (result * radix + x)
      else .error .posOverflow

/-- `u8::from_str_radix` with a radix it takes: a leading plus sign is passed over. -/
def u8FromStrRadix (src : List UInt8) (radix : ℕ) : Except IntErrorKind UInt8 :=
  match src with
  | [] => .error .empty
  | [c] => if c = 43 ∨ c = 45 then .error .invalidDigit else accumulate radix [c] 0
  | c :: cs => if c = 43 then accumulate radix cs 0 else accumulate radix (c :: cs) 0

/-- The loop of `from_str` for the integers below a bound, its arithmetic checked. -/
def accumulateBelow (bound : ℕ) : List UInt8 → ℕ → Option ℕ
  | [], result => some result
  | c :: cs, result =>
    match toDigit 10 c with
    | none => none
    | some x =>
      if result * 10 + x < bound then accumulateBelow bound cs (result * 10 + x) else none

/-- `str::parse` for an unsigned integer type: a leading plus sign is passed over. -/
def parseUnsigned (bound : ℕ) (s : String) : Option ℕ :=
  match asBytes s with
  | [] => none
  | [c] => if c = 43 ∨ c = 45 then none else accumulateBelow bound [c] 0
  | c :: cs => if c = 43 then accumulateBelow bound cs 0 else accumulateBelow bound (c :: cs) 0

theorem toDigit_lt {radix : ℕ} {b : UInt8} {x : ℕ} (h : toDigit radix b = some x) : x < radix := by
  obtain ⟨hd, he⟩ := Option.ite_none_right_eq_some.mp h
  cases he
  exact hd

theorem lt_of_toDigit {radix : ℕ} {b : UInt8} {x : ℕ} (h : toDigit radix b = some x) :
    b < 128 := by
  refine UInt8.not_le.mp fun hb => ?_
  have above : ∀ d : UInt8, d < 128 → ¬b ≤ d := fun d hd hle =>
    UInt8.not_lt.mpr hb (UInt8.lt_of_le_of_lt hle hd)
  have none_of : toDigit radix b = none := by
    unfold toDigit
    rw [if_neg (fun hd : 48 ≤ b ∧ b ≤ 57 => above 57 (by decide) hd.2),
      if_neg (fun hd : 97 ≤ b ∧ b ≤ 122 => above 122 (by decide) hd.2),
      if_neg (fun hd : 65 ≤ b ∧ b ≤ 90 => above 90 (by decide) hd.2)]
    exact if_neg (lt_irrefl radix)
  cases none_of.symm.trans h

/-- Of two bytes, the second is a hex digit, and the first is one or a plus sign. -/
theorem u8FromStrRadix_pair (a b : UInt8) : u8FromStrRadix [a, b] 16 =
    match if a = 43 then some 0 else toDigit 16 a, toDigit 16 b with
    | some x, some y => .ok (UInt8.ofNat (16 * x + y))
    | _, _ => .error .invalidDigit := by
  by_cases ha : a = 43
  · subst ha
    rw [if_pos rfl]
    cases hb : toDigit 16 b with
    | none => simp [u8FromStrRadix, accumulate, hb]
    | some y =>
      have hy : y < 256 := (toDigit_lt hb).trans (by decide)
      simp [u8FromStrRadix, accumulate, hb, hy]
  · rw [if_neg ha]
    cases hx : toDigit 16 a with
    | none => simp [u8FromStrRadix, accumulate, ha, hx]
    | some x =>
      have hx16 := toDigit_lt hx
      have hx256 : x < 256 := hx16.trans (by decide)
      cases hb : toDigit 16 b with
      | none => simp [u8FromStrRadix, accumulate, ha, hx, hb, hx256]
      | some y =>
        have hy16 := toDigit_lt hb
        have hxy : 16 * x + y < 256 := by omega
        simp [u8FromStrRadix, accumulate, ha, hx, hb, hx256, Nat.mul_comm x, hxy]

theorem u8FromStrRadix_digits {a b : UInt8} {x y : ℕ} (ha : toDigit 16 a = some x)
    (hb : toDigit 16 b = some y) : u8FromStrRadix [a, b] 16 = .ok (UInt8.ofNat (16 * x + y)) := by
  have hne : a ≠ 43 := by
    rintro rfl
    exact absurd ha (by decide +revert)
  rw [u8FromStrRadix_pair, if_neg hne, ha, hb]

/-! ### Hex -/

def isAsciiHexdigit (c : Char) : Bool :=
  '0' ≤ c && c ≤ '9' || 'a' ≤ c && c ≤ 'f' || 'A' ≤ c && c ≤ 'F'

def encodeHex (bytes : List UInt8) : String :=
  .ofList (bytes.flatMap fun b => [Nat.digitChar (b.toNat / 16), Nat.digitChar (b.toNat % 16)])

theorem toList_encodeHex_cons {x y : ℕ} (hx : x < 16) (hy : y < 16) (bytes : List UInt8) :
    (encodeHex (UInt8.ofNat (16 * x + y) :: bytes)).toList =
      Nat.digitChar x :: Nat.digitChar y :: (encodeHex bytes).toList := by
  have hv : (16 * x + y) % 256 = 16 * x + y := Nat.mod_eq_of_lt (by omega)
  have hhi : (16 * x + y) / 16 = x := by omega
  have hlo : (16 * x + y) % 16 = y := by omega
  simp [encodeHex, hv, hhi, hlo]

/-- An even number of ASCII hex digits. -/
def IsHex (s : String) : Prop := 2 ∣ s.length ∧ ∀ c ∈ s.toList, isAsciiHexdigit c = true

/-- A hex digit is one byte, and as a digit of 16 it stands for its lower case. -/
theorem toDigit_of_isAsciiHexdigit {c : Char} (h : isAsciiHexdigit c = true) :
    c.toNat < 128 ∧ ∃ x < 16, toDigit 16 (UInt8.ofNat c.toNat) = some x ∧
      Nat.digitChar x = c.toLower := by
  have table : ∀ n < 128, isAsciiHexdigit (Char.ofNat n) = true →
      ∃ x < 16, toDigit 16 (UInt8.ofNat n) = some x ∧ Nat.digitChar x = (Char.ofNat n).toLower := by
    decide
  have hlt : c.toNat < 128 := by
    simp only [isAsciiHexdigit, Bool.or_eq_true, Bool.and_eq_true, decide_eq_true_eq] at h
    rcases h with (⟨-, h⟩ | ⟨-, h⟩) | ⟨-, h⟩ <;> exact Nat.lt_of_le_of_lt h (by decide)
  have hc := table c.toNat hlt
  rw [Char.ofNat_toNat] at hc
  exact ⟨hlt, hc h⟩

theorem IsHex.length_asBytes {s : String} (h : IsHex s) : (asBytes s).length = s.length := by
  have one : ∀ c ∈ s.toList, (String.utf8EncodeChar c).length = 1 := fun c hc => by
    rw [utf8EncodeChar_of_lt (toDigit_of_isAsciiHexdigit (h.2 c hc)).1, List.length_singleton]
  rw [asBytes, List.length_flatMap, List.map_congr_left one, List.map_const',
    List.sum_replicate_nat, String.length_toList, Nat.mul_one]

/-! ### Tokens -/

theorem isWhitespace_of_isDigit {c : Char} (h : c.isDigit = true) : isWhitespace c = false := by
  have hlo : 48 ≤ c.toNat ∧ c.toNat ≤ 57 := by
    simpa [Char.isDigit, UInt32.le_iff_toNat_le] using h
  simp [isWhitespace]
  omega

theorem isDigit_of_mem_repr {c : Char} {n : ℕ} (h : c ∈ n.repr.toList) : c.isDigit = true := by
  rw [Nat.toList_repr] at h
  exact Nat.isDigit_of_mem_toDigits (by decide) (by decide) h

theorem repr_injective : Function.Injective Nat.repr := fun m n h => by
  have hd := congrArg String.toList h
  rw [Nat.toList_repr, Nat.toList_repr] at hd
  rw [← Nat.ofDigitChars_ten_toDigits (n := m), hd, Nat.ofDigitChars_ten_toDigits]

/-- A token, then a blank, is split off. -/
theorem splitWhitespace_append {token rest : String} (ht : token ≠ "")
    (h : ∀ c ∈ token.toList, isWhitespace c = false) :
    splitWhitespace (token ++ " " ++ rest) = token :: splitWhitespace rest := by
  have hne : token.toList ≠ [] := fun he => ht (String.toList_eq_nil_iff.mp he)
  have hl : (token ++ " " ++ rest).toList = token.toList ++ ' ' :: rest.toList := by
    simp
  rw [splitWhitespace, hl, List.splitOnP_append_cons_of_forall_mem h ' ' (by decide),
    List.filter_cons_of_pos (by simpa using hne), List.map_cons, String.ofList_toList]
  rfl

end ConstructTransport.Text
