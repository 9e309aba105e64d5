import ConstructTransport.Basic.Loops
import ConstructTransport.Basic.Text
import Mathlib.Data.List.Induction

/-! The shared key of the obfuscation as the gateway and `udpcheck` read it from
hex. They take the bytes of the string two at a time. A slice panics inside a
character, and the integer parser passes over a plus sign. So what is not hex is
refused only if a pair that the parser does not take comes before any that ends
inside a character. -/

namespace ConstructTransport.Bin

open Checked Text

/-! ### The two decoders -/

/-- The pass of `decode_hex` at byte `i`. -/
def readPair (invalid s : String) (i : ℕ) : Except Panic (Except String UInt8) := do
  let pair ← slice s i (i + 2)
  return (u8FromStrRadix pair 16).mapError fun e => invalid ++ e.display

/-- `decode_hex`, up to what its errors say. -/
def decodeHexWith (even invalid s : String) : Except Panic (Except String (List UInt8)) :=
  if (asBytes s).length % 2 ≠ 0 then .ok (.error even)
  else collect (readPair invalid s) (List.range' 0 (((asBytes s).length + 1) / 2) 2)

/-- The `decode_hex` of the gateway, for `QUIC_OBF_PSK`. -/
def Gateway.decodeHex : String → Except Panic (Except String (List UInt8)) :=
  decodeHexWith "QUIC_OBF_PSK hex must have even length" "QUIC_OBF_PSK invalid hex: "

/-- The `decode_hex` of `udpcheck`, for `--psk`. -/
def Udpcheck.decodeHex : String → Except Panic (Except String (List UInt8)) :=
  decodeHexWith "hex PSK must have even length" "invalid hex: "

/-! ### What is read exactly -/

/-- `decode_hex` of a string, as a hex decoder. -/
structure Exact (s : String) (decoded : Except Panic (Except String (List UInt8))) : Prop where
  total : ∃ result, decoded = .ok result
  accepts : (∃ bytes, decoded = .ok (.ok bytes)) ↔ IsHex s
  bytes : ∀ bytes, decoded = .ok (.ok bytes) → encodeHex bytes = s.toLower

/-- Both decoders are hex decoders on a string, and agree up to what their errors say. -/
structure ReadsHex (s : String) : Prop where
  gateway : Exact s (Gateway.decodeHex s)
  udpcheck : Exact s (Udpcheck.decodeHex s)
  agree : (Gateway.decodeHex s).map Except.toOption = (Udpcheck.decodeHex s).map Except.toOption

def pairAt (s : String) (k : ℕ) : List UInt8 := ((asBytes s).drop (2 * k)).take 2

/-- Two hex digits, or a plus sign and one. -/
def passes : List UInt8 → Bool
  | [a, b] => (a == 43 || (toDigit 16 a).isSome) && (toDigit 16 b).isSome
  | _ => false

/-- A pair that does not pass comes before any that does not end with a character. -/
def Refused (s : String) : Prop :=
  ∃ k, 2 * k + 2 ≤ (asBytes s).length ∧ (∀ j < k, passes (pairAt s j) = true) ∧
    isCharBoundary s (2 * k + 2) = true ∧ passes (pairAt s k) = false

/-! ### One pass -/

variable {s : String} {k : ℕ} {invalid : String}

theorem pairAt_eq (hk : 2 * k + 2 ≤ (asBytes s).length) :
    ∃ a b, pairAt s k = [a, b] ∧ (asBytes s)[2 * k + 1]? = some b := by
  have h₀ : (asBytes s).drop (2 * k) = (asBytes s)[2 * k] :: (asBytes s).drop (2 * k + 1) :=
    List.drop_eq_getElem_cons (by omega)
  have h₁ : (asBytes s).drop (2 * k + 1) = (asBytes s)[2 * k + 1] :: (asBytes s).drop (2 * k + 2) :=
    List.drop_eq_getElem_cons (by omega)
  refine ⟨(asBytes s)[2 * k], (asBytes s)[2 * k + 1], ?_, List.getElem?_eq_getElem (by omega)⟩
  rw [pairAt, h₀, h₁]
  rfl

theorem u8FromStrRadix_eq_ok_iff {a b : UInt8} :
    (∃ v, u8FromStrRadix [a, b] 16 = .ok v) ↔ passes [a, b] = true := by
  rw [u8FromStrRadix_pair, passes]
  by_cases ha : a = 43
  · cases toDigit 16 b <;> simp [ha]
  · cases toDigit 16 a <;> cases toDigit 16 b <;> simp [ha]

theorem isCharBoundary_of_passes (hk : 2 * k ≤ (asBytes s).length)
    (h : ∀ j < k, passes (pairAt s j) = true) : isCharBoundary s (2 * k) = true := by
  cases k with
  | zero => rfl
  | succ k =>
    obtain ⟨a, b, hp, hb⟩ := pairAt_eq (s := s) (k := k) hk
    have hpass := h k k.lt_succ_self
    rw [hp, passes, Bool.and_eq_true] at hpass
    obtain ⟨x, hx⟩ := Option.isSome_iff_exists.mp hpass.2
    exact isCharBoundary_succ hb (lt_of_toDigit hx)

theorem readPair_eq (hk : 2 * k ≤ (asBytes s).length) (h : ∀ j < k, passes (pairAt s j) = true)
    (hb : isCharBoundary s (2 * k + 2) = true) : readPair invalid s (2 * k) =
      .ok ((u8FromStrRadix (pairAt s k) 16).mapError fun e => invalid ++ e.display) := by
  rw [readPair, slice_ok (Nat.le_add_right _ _) (isCharBoundary_of_passes hk h) hb, ok_bind,
    Nat.add_sub_cancel_left, pairAt]
  rfl

theorem readPair_eq_ok {i : ℕ} {r : Except String UInt8} (h : readPair invalid s i = .ok r) :
    isCharBoundary s (i + 2) = true ∧
      r = (u8FromStrRadix (((asBytes s).drop i).take 2) 16).mapError
        fun e => invalid ++ e.display := by
  unfold readPair slice at h
  split_ifs at h with hs
  · cases h
    rw [Nat.add_sub_cancel_left]
    exact ⟨hs.2.2, rfl⟩
  · cases h

theorem readPair_of_passes (invalid : String) (hk : 2 * k + 2 ≤ (asBytes s).length)
    (h : ∀ j ≤ k, passes (pairAt s j) = true) : ∃ v, readPair invalid s (2 * k) = .ok (.ok v) := by
  obtain ⟨a, b, hp, -⟩ := pairAt_eq hk
  obtain ⟨v, hv⟩ := u8FromStrRadix_eq_ok_iff.mpr (hp ▸ h k le_rfl)
  refine ⟨v, ?_⟩
  rw [readPair_eq (Nat.le_of_lt (Nat.lt_of_succ_lt hk)) (fun j hj => h j hj.le)
    (isCharBoundary_of_passes (k := k + 1) hk fun j hj => h j (Nat.le_of_lt_succ hj)), hp, hv]
  rfl

theorem passes_of_readPair {v : UInt8} (hk : 2 * k + 2 ≤ (asBytes s).length)
    (h : readPair invalid s (2 * k) = .ok (.ok v)) : passes (pairAt s k) = true := by
  obtain ⟨a, b, hp, -⟩ := pairAt_eq hk
  have hr : Except.ok v = (u8FromStrRadix (pairAt s k) 16).mapError _ := (readPair_eq_ok h).2
  rw [hp] at hr ⊢
  refine u8FromStrRadix_eq_ok_iff.mp ?_
  cases hu : u8FromStrRadix [a, b] 16 with
  | ok w => exact ⟨w, rfl⟩
  | error e =>
    rw [hu] at hr
    cases hr

theorem readPair_error_iff (invalid : String) (hk : 2 * k + 2 ≤ (asBytes s).length)
    (h : ∀ j < k, passes (pairAt s j) = true) :
    (∃ e, readPair invalid s (2 * k) = .ok (.error e)) ↔
      isCharBoundary s (2 * k + 2) = true ∧ passes (pairAt s k) = false := by
  obtain ⟨a, b, hp, -⟩ := pairAt_eq hk
  constructor
  · rintro ⟨e, he⟩
    obtain ⟨hb, hr⟩ := readPair_eq_ok he
    refine ⟨hb, Bool.eq_false_iff.mpr fun hpass => ?_⟩
    obtain ⟨v, hv⟩ := readPair_of_passes invalid hk fun j hj =>
      (Nat.lt_or_eq_of_le hj).elim (h j) fun hj => hj ▸ hpass
    cases he.symm.trans hv
  · rintro ⟨hb, hpass⟩
    have hle : 2 * k ≤ (asBytes s).length := Nat.le_of_lt (Nat.lt_of_succ_lt hk)
    cases hr : readPair invalid s (2 * k) with
    | error p =>
      rw [readPair_eq hle h hb] at hr
      cases hr
    | ok r =>
      cases r with
      | error e => exact ⟨e, rfl⟩
      | ok v => exact absurd (passes_of_readPair hk hr) (Bool.eq_false_iff.mp hpass)

/-! ### The decoder -/

variable {even : String}

/-- Over hex digits, what the passes collect encodes back to them. -/
theorem collect_hex (invalid : String) {cs pre : List Char} (hs : s.toList = pre ++ cs)
    (hlen : 2 ∣ cs.length) (hcs : ∀ c ∈ cs, isAsciiHexdigit c = true) :
    ∃ bytes, collect (readPair invalid s)
        (List.range' (pre.flatMap String.utf8EncodeChar).length (cs.length / 2) 2) =
        .ok (.ok bytes) ∧ (encodeHex bytes).toList = cs.map Char.toLower := by
  induction cs using List.twoStepInduction generalizing pre with
  | nil => exact ⟨[], rfl, rfl⟩
  | singleton c => exact absurd hlen (by simp)
  | cons_cons c d cs ih =>
    obtain ⟨hc, hd, hcs⟩ : _ ∧ _ ∧ ∀ x ∈ cs, isAsciiHexdigit x = true := by
      simpa only [List.forall_mem_cons] using hcs
    obtain ⟨hc, x, hx, hxc, hcx⟩ := toDigit_of_isAsciiHexdigit hc
    obtain ⟨hd, y, hy, hyd, hdy⟩ := toDigit_of_isAsciiHexdigit hd
    have hs' : s.toList = (pre ++ [c, d]) ++ cs := by simpa using hs
    have hi : ((pre ++ [c, d]).flatMap String.utf8EncodeChar).length =
        (pre.flatMap String.utf8EncodeChar).length + 2 := by
      simp [utf8EncodeChar_of_lt hc, utf8EncodeChar_of_lt hd]
    have hread : readPair invalid s (pre.flatMap String.utf8EncodeChar).length =
        .ok (.ok (UInt8.ofNat (16 * x + y))) := by
      have hbytes : asBytes s = pre.flatMap String.utf8EncodeChar ++
          UInt8.ofNat c.toNat :: UInt8.ofNat d.toNat :: cs.flatMap String.utf8EncodeChar := by
        simp [asBytes, hs, utf8EncodeChar_of_lt hc, utf8EncodeChar_of_lt hd]
      rw [readPair, slice_ok (Nat.le_add_right _ _) (isCharBoundary_append hs)
        (hi ▸ isCharBoundary_append hs'), ok_bind, hbytes, List.drop_left, Nat.add_sub_cancel_left,
        List.take_succ_cons, List.take_succ_cons, List.take_zero, u8FromStrRadix_digits hxc hyd]
      rfl
    obtain ⟨bytes, hrest, henc⟩ := ih hs' (by simpa using hlen) hcs
    refine ⟨UInt8.ofNat (16 * x + y) :: bytes, ?_, ?_⟩
    · have hn : (c :: d :: cs).length / 2 = cs.length / 2 + 1 :=
        Nat.add_div_right cs.length Nat.two_pos
      rw [hn, List.range'_succ, collect_cons_ok hread, ← hi, hrest]
      rfl
    · rw [toList_encodeHex_cons hx hy, henc, hcx, hdy]
      rfl

theorem decodeHexWith_error_iff (heven : 2 ∣ (asBytes s).length) :
    (∃ e, decodeHexWith even invalid s = .ok (.error e)) ↔ Refused s := by
  have hn : 2 * (((asBytes s).length + 1) / 2) = (asBytes s).length := by omega
  rw [decodeHexWith, if_neg (not_not.mpr (Nat.mod_eq_zero_of_dvd heven))]
  simp only [collect_range'_eq_error_iff, Nat.zero_add]
  constructor
  · rintro ⟨e, k, hk, hall, he⟩
    have hpass : ∀ j < k, passes (pairAt s j) = true := fun j hj =>
      (hall j hj).elim fun v hv => passes_of_readPair (by omega) hv
    obtain ⟨hb, hf⟩ := (readPair_error_iff invalid (by omega) hpass).mp ⟨e, he⟩
    exact ⟨k, by omega, hpass, hb, hf⟩
  · rintro ⟨k, hk, hpass, hb, hf⟩
    obtain ⟨e, he⟩ := (readPair_error_iff invalid hk hpass).mpr ⟨hb, hf⟩
    refine ⟨e, k, by omega, fun j hj => ?_, he⟩
    exact readPair_of_passes invalid (by omega) fun i hi => hpass i (by omega)

theorem decodeHexWith_odd (hodd : ¬2 ∣ (asBytes s).length) :
    decodeHexWith even invalid s = .ok (.error even) :=
  if_pos fun h => hodd (Nat.dvd_of_mod_eq_zero h)

/-- The decoder reads a hex string, and reads it right. -/
theorem decodeHexWith_hex (even invalid : String) (h : IsHex s) :
    ∃ bytes, decodeHexWith even invalid s = .ok (.ok bytes) ∧ encodeHex bytes = s.toLower := by
  have hlen := h.length_asBytes
  have heven : 2 ∣ (asBytes s).length := hlen ▸ h.1
  have hn : ((asBytes s).length + 1) / 2 = s.toList.length / 2 := by
    rw [String.length_toList, ← hlen]
    omega
  have hs : s.toList = [] ++ s.toList := rfl
  obtain ⟨bytes, hc, he⟩ := collect_hex invalid hs (String.length_toList.symm ▸ h.1) h.2
  refine ⟨bytes, ?_, ?_⟩
  · rw [decodeHexWith, if_neg (not_not.mpr (Nat.mod_eq_zero_of_dvd heven)), hn]
    exact hc
  · exact String.ext_iff.mpr (he.trans String.toList_map.symm)

theorem exact_of_error {decoded : Except Panic (Except String (List UInt8))} (hs : ¬IsHex s)
    (h : ∃ e, decoded = .ok (.error e)) : Exact s decoded := by
  obtain ⟨e, rfl⟩ := h
  refine ⟨⟨_, rfl⟩, iff_of_false ?_ hs, nofun⟩
  rintro ⟨bytes, hb⟩
  cases hb

theorem exact_iff (even invalid s : String) : Exact s (decodeHexWith even invalid s) ↔
    ¬2 ∣ (asBytes s).length ∨ IsHex s ∨ Refused s := by
  constructor
  · rintro ⟨⟨r, hr⟩, hacc, -⟩
    by_cases heven : 2 ∣ (asBytes s).length
    · cases r with
      | error e => exact .inr (.inr ((decodeHexWith_error_iff heven).mp ⟨e, hr⟩))
      | ok bytes => exact .inr (.inl (hacc.mp ⟨bytes, hr⟩))
    · exact .inl heven
  · by_cases hs : IsHex s
    · intro _
      obtain ⟨bytes, hd, he⟩ := decodeHexWith_hex even invalid hs
      refine ⟨⟨_, hd⟩, iff_of_true ⟨bytes, hd⟩ hs, fun bytes' hb => ?_⟩
      cases hd.symm.trans hb
      exact he
    · intro h
      refine exact_of_error hs ?_
      by_cases heven : 2 ∣ (asBytes s).length
      · rcases h with hodd | hhex | href
        · exact absurd heven hodd
        · exact absurd hhex hs
        · exact (decodeHexWith_error_iff heven).mpr href
      · exact ⟨_, decodeHexWith_odd heven⟩

/-- The two decoders differ in what their errors say and in nothing else. -/
theorem decodeHex_agree (s : String) :
    (Gateway.decodeHex s).map Except.toOption = (Udpcheck.decodeHex s).map Except.toOption := by
  unfold Gateway.decodeHex Udpcheck.decodeHex decodeHexWith
  split_ifs with hodd
  · rfl
  · refine collect_toOption (fun i => ?_) _
    unfold readPair
    cases slice s i (i + 2) with
    | error p => rfl
    | ok pair =>
      rw [ok_bind, ok_bind]
      cases u8FromStrRadix pair 16 <;> rfl

/-- Both decoders read exactly hex from a string of odd length, from hex, and from a
string in which the first pair that does not pass ends with a character. -/
theorem reads_hex_iff (s : String) :
    ReadsHex s ↔ ¬2 ∣ (asBytes s).length ∨ IsHex s ∨ Refused s :=
  ⟨fun h => (exact_iff _ _ s).mp h.gateway,
    fun h => ⟨(exact_iff _ _ s).mpr h, (exact_iff _ _ s).mpr h, decodeHex_agree s⟩⟩

/-- A plus sign is read as nothing, a wide character at an odd offset is a panic. -/
theorem plus_sign_reads : Gateway.decodeHex "+f" = .ok (.ok [15]) ∧
    Gateway.decodeHex "a€" = .error .rangeOutOfBounds ∧ ¬∀ s, ReadsHex s := by
  refine ⟨by decide, by decide, fun h => ?_⟩
  have hx : IsHex "+f" := (h "+f").gateway.accepts.mp ⟨[15], by decide⟩
  exact absurd (hx.2 '+' (by decide)) (by decide)

end ConstructTransport.Bin
