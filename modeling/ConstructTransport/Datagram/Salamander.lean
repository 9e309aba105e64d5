import ConstructTransport.Basic.Loops
import Mathlib.Data.List.Basic

/-! Salamander obfuscation: an eight byte salt, then the plaintext XORed with a
32 byte key that repeats. The key is a hash of the shared key and the salt. The
encoder writes into a buffer of the caller, the decoder overwrites the buffer it
reads. Both are the mask of the salt, which is its own inverse. -/

namespace ConstructTransport.Datagram

open Checked

def saltLen : ℕ := 8

def keyLen : ℕ := 32

/-- BLAKE2b-256, of which nothing is used but that it is a function. -/
abbrev Blake2b256 := List UInt8 → Vector UInt8 keyLen

structure Salamander where
  psk : List UInt8
  deriving DecidableEq, Repr

namespace Salamander

variable (blake2b256 : Blake2b256) (obf : Salamander)

def key (salt : List UInt8) : Vector UInt8 keyLen := blake2b256 (obf.psk ++ salt)

def xorKey (key : Vector UInt8 keyLen) (i : ℕ) (b : UInt8) : UInt8 :=
  b ^^^ key.get ⟨i % keyLen, Nat.mod_lt _ (by decide)⟩

/-- `Salamander::obfuscate`: the buffer afterwards and the bytes written. -/
def obfuscate (plain : List UInt8) (salt : Vector UInt8 saltLen) (out : List UInt8) :
    Except Panic (List UInt8 × ℕ) := do
  let out ← copyFront out salt.toList
  let key := obf.key blake2b256 salt.toList
  let out ← forEach plain.zipIdx
    (fun p out => assign out (saltLen + p.2) (xorKey key p.2 p.1)) out
  return (out, saltLen + plain.length)

/-- `Salamander::deobfuscate_in_place`: the buffer afterwards and the plaintext length. -/
def deobfuscateInPlace (buf : List UInt8) (len : ℕ) : Except Panic (List UInt8 × Option ℕ) :=
  if len < saltLen then return (buf, none)
  else do
    let salt ← sliceTo buf saltLen
    let key := obf.key blake2b256 salt
    let plainLen := len - saltLen
    let buf ← forEach (List.range plainLen) (fun i buf => do
      let x ← index buf (saltLen + i)
      assign buf i (xorKey key i x)) buf
    return (buf, some plainLen)

/-! ### The mask of a salt -/

def mask (salt xs : List UInt8) : List UInt8 := xs.mapIdx (xorKey (obf.key blake2b256 salt))

@[simp] theorem mask_length (salt xs : List UInt8) :
    (obf.mask blake2b256 salt xs).length = xs.length := List.length_mapIdx

theorem xorKey_xorKey (key : Vector UInt8 keyLen) (i : ℕ) (b : UInt8) :
    xorKey key i (xorKey key i b) = b := by
  unfold xorKey
  rw [UInt8.xor_assoc, UInt8.xor_self, UInt8.xor_zero]

@[simp] theorem mask_mask (salt xs : List UInt8) :
    obf.mask blake2b256 salt (obf.mask blake2b256 salt xs) = xs := by
  unfold mask
  rw [List.mapIdx_mapIdx]
  apply List.ext_getElem?
  intro i
  rw [List.getElem?_mapIdx]
  cases xs[i]? with
  | none => rfl
  | some b => exact congrArg some (xorKey_xorKey _ i b)

/-- The datagram that carries `plain` under `salt`. -/
def datagram (salt : Vector UInt8 saltLen) (plain : List UInt8) : List UInt8 :=
  salt.toList ++ obf.mask blake2b256 salt.toList plain

@[simp] theorem datagram_length (salt : Vector UInt8 saltLen) (plain : List UInt8) :
    (obf.datagram blake2b256 salt plain).length = saltLen + plain.length := by
  simp [datagram]

theorem obfuscate_eq {plain out : List UInt8} (salt : Vector UInt8 saltLen)
    (h : saltLen + plain.length ≤ out.length) :
    obf.obfuscate blake2b256 plain salt out =
      .ok (obf.datagram blake2b256 salt plain ++ out.drop (saltLen + plain.length),
        saltLen + plain.length) := by
  have hs : salt.toList.length = saltLen := salt.length_toList
  have hl : (salt.toList ++ out.drop saltLen).length = out.length := by
    rw [List.length_append, hs, List.length_drop]
    omega
  have hf := forEach_write (xorKey (obf.key blake2b256 salt.toList)) plain
    (show saltLen + plain.length ≤ (salt.toList ++ out.drop saltLen).length by omega)
  have ht : (salt.toList ++ out.drop saltLen).take saltLen = salt.toList := List.take_left' hs
  have hd : (salt.toList ++ out.drop saltLen).drop (saltLen + plain.length) =
      out.drop (saltLen + plain.length) := by
    rw [← List.drop_drop, List.drop_left' hs, List.drop_drop]
  unfold obfuscate
  rw [copyFront_ok (by omega), ok_bind, hs]
  simp only [hf, ok_bind, ht, hd]
  rfl

/-- Decoding leaves the unmasked body in front and the rest of the buffer as it was. -/
theorem deobfuscateInPlace_eq {buf : List UInt8} {len : ℕ} (hs : saltLen ≤ len)
    (hl : len ≤ buf.length) :
    obf.deobfuscateInPlace blake2b256 buf len =
      .ok (obf.mask blake2b256 (buf.take saltLen) ((buf.drop saltLen).take (len - saltLen)) ++
        buf.drop (len - saltLen), some (len - saltLen)) := by
  unfold deobfuscateInPlace
  rw [if_neg (by omega), sliceTo_ok (by omega), ok_bind]
  simp only [forEach_shift _ (show saltLen + (len - saltLen) ≤ buf.length by omega), ok_bind]
  rfl

theorem deobfuscateInPlace_short {len : ℕ} (h : len < saltLen) (buf : List UInt8) :
    obf.deobfuscateInPlace blake2b256 buf len = .ok (buf, none) := if_pos h

/-- A buffer that holds a datagram decodes to its plaintext, whatever is behind it. -/
theorem deobfuscateInPlace_datagram (salt : Vector UInt8 saltLen) (plain stale : List UInt8) :
    ∃ rest, obf.deobfuscateInPlace blake2b256 (obf.datagram blake2b256 salt plain ++ stale)
      (saltLen + plain.length) = .ok (plain ++ rest, some plain.length) := by
  have hs : salt.toList.length = saltLen := salt.length_toList
  have hm := obf.mask_length blake2b256 salt.toList plain
  rw [obf.deobfuscateInPlace_eq blake2b256 (by omega) (by simp), Nat.add_sub_cancel_left]
  unfold datagram
  have ht : (salt.toList ++ obf.mask blake2b256 salt.toList plain ++ stale).take saltLen =
      salt.toList := by
    rw [List.append_assoc, List.take_left' hs]
  have hd : (salt.toList ++ obf.mask blake2b256 salt.toList plain ++ stale).drop saltLen =
      obf.mask blake2b256 salt.toList plain ++ stale := by
    rw [List.append_assoc, List.drop_left' hs]
  rw [ht, hd, List.take_left' hm, mask_mask]
  exact ⟨_, rfl⟩

/-! ### Both ways round -/

theorem deobfuscateInPlace_parts {buf : List UInt8} {len : ℕ} (hs : saltLen ≤ len)
    (hl : len ≤ buf.length) :
    ∃ buf', obf.deobfuscateInPlace blake2b256 buf len = .ok (buf', some (len - saltLen)) ∧
      buf'.take (len - saltLen) =
        obf.mask blake2b256 (buf.take saltLen) ((buf.drop saltLen).take (len - saltLen)) ∧
      buf'.drop (len - saltLen) = buf.drop (len - saltLen) := by
  have hm : (obf.mask blake2b256 (buf.take saltLen)
      ((buf.drop saltLen).take (len - saltLen))).length = len - saltLen := by
    rw [mask_length, List.length_take, List.length_drop]
    omega
  exact ⟨_, obf.deobfuscateInPlace_eq blake2b256 hs hl, List.take_left' hm, List.drop_left' hm⟩

theorem datagram_mask {data : List UInt8} {salt : Vector UInt8 saltLen}
    (hs : salt.toList = data.take saltLen) :
    obf.datagram blake2b256 salt (obf.mask blake2b256 (data.take saltLen) (data.drop saltLen)) =
      data := by
  rw [datagram, hs, mask_mask, List.take_append_drop]

/-- What the encoder wrote decodes to the plaintext, and nothing else in either buffer changes. -/
theorem deobfuscate_obfuscate (salt : Vector UInt8 saltLen) {plain out : List UInt8}
    (stale : List UInt8) (h : saltLen + plain.length ≤ out.length) :
    ∃ out' buf n, obf.obfuscate blake2b256 plain salt out = .ok (out', n) ∧
      n = saltLen + plain.length ∧ out'.length = out.length ∧ out'.drop n = out.drop n ∧
      obf.deobfuscateInPlace blake2b256 (out'.take n ++ stale) n =
        .ok (buf, some plain.length) ∧
      buf.take plain.length = plain ∧
      buf.drop plain.length = (out'.take n ++ stale).drop plain.length := by
  have hd := obf.datagram_length blake2b256 salt plain
  have ht : (obf.datagram blake2b256 salt plain ++ out.drop (saltLen + plain.length)).take
      (saltLen + plain.length) = obf.datagram blake2b256 salt plain := List.take_left' hd
  obtain ⟨rest, hr⟩ := obf.deobfuscateInPlace_datagram blake2b256 salt plain stale
  have hl : saltLen + plain.length ≤ (obf.datagram blake2b256 salt plain ++ stale).length := by
    rw [List.length_append]
    omega
  obtain ⟨buf, hb, -, hkept⟩ :=
    obf.deobfuscateInPlace_parts blake2b256 (Nat.le_add_right _ _) hl
  rw [Nat.add_sub_cancel_left] at hb hkept
  cases hr.symm.trans hb
  refine ⟨_, plain ++ rest, _, obf.obfuscate_eq blake2b256 salt h, rfl, ?_, List.drop_left' hd, ?_,
    List.take_left, ?_⟩
  · rw [List.length_append, hd, List.length_drop]
    omega
  · rw [ht]
    exact hb
  · rw [ht]
    exact hkept

/-- What the decoder recovered encodes, under the salt it came with, to what it was. -/
theorem obfuscate_deobfuscate {buf : List UInt8} {len : ℕ} (hs : saltLen ≤ len)
    (hl : len ≤ buf.length) :
    ∃ buf', obf.deobfuscateInPlace blake2b256 buf len = .ok (buf', some (len - saltLen)) ∧
      buf'.drop (len - saltLen) = buf.drop (len - saltLen) ∧ buf'.length = buf.length ∧
      ∀ (salt : Vector UInt8 saltLen) (out : List UInt8), salt.toList = buf.take saltLen →
        len ≤ out.length →
        obf.obfuscate blake2b256 (buf'.take (len - saltLen)) salt out =
          .ok (buf.take len ++ out.drop len, len) := by
  obtain ⟨buf', hb, hbody, hkept⟩ := obf.deobfuscateInPlace_parts blake2b256 hs hl
  have hlen : (buf'.take (len - saltLen)).length = len - saltLen := by
    rw [hbody, mask_length, List.length_take, List.length_drop]
    omega
  refine ⟨buf', hb, hkept, ?_, fun salt out hsalt hout => ?_⟩
  · rw [← List.take_append_drop (len - saltLen) buf', List.length_append, hlen, hkept,
      List.length_drop]
    omega
  · have hn : saltLen + (buf'.take (len - saltLen)).length = len := by omega
    have hfront : (buf.take len).take saltLen = buf.take saltLen := by
      rw [List.take_take, Nat.min_eq_left hs]
    have hdatagram : obf.datagram blake2b256 salt (buf'.take (len - saltLen)) = buf.take len := by
      rw [hbody, ← List.drop_take, ← hfront]
      exact obf.datagram_mask blake2b256 (hsalt.trans hfront.symm)
    rw [obf.obfuscate_eq blake2b256 salt (by omega), hn, hdatagram]

/-- Encoding and decoding under one salt undo each other, in place and within bounds,
and touch nothing outside the datagram and the plaintext. -/
theorem salted_bijection :
    (∀ (salt : Vector UInt8 saltLen) (plain out stale : List UInt8),
      saltLen + plain.length ≤ out.length →
      ∃ out' buf n, obf.obfuscate blake2b256 plain salt out = .ok (out', n) ∧
        n = saltLen + plain.length ∧ out'.length = out.length ∧ out'.drop n = out.drop n ∧
        obf.deobfuscateInPlace blake2b256 (out'.take n ++ stale) n =
          .ok (buf, some plain.length) ∧
        buf.take plain.length = plain ∧
        buf.drop plain.length = (out'.take n ++ stale).drop plain.length) ∧
    (∀ (buf : List UInt8) (len : ℕ), saltLen ≤ len → len ≤ buf.length →
      ∃ buf', obf.deobfuscateInPlace blake2b256 buf len = .ok (buf', some (len - saltLen)) ∧
        buf'.drop (len - saltLen) = buf.drop (len - saltLen) ∧ buf'.length = buf.length ∧
        ∀ (salt : Vector UInt8 saltLen) (out : List UInt8), salt.toList = buf.take saltLen →
          len ≤ out.length →
          obf.obfuscate blake2b256 (buf'.take (len - saltLen)) salt out =
            .ok (buf.take len ++ out.drop len, len)) ∧
    ∀ (buf : List UInt8) (len : ℕ), len < saltLen →
      obf.deobfuscateInPlace blake2b256 buf len = .ok (buf, none) :=
  ⟨fun salt _ _ stale => obf.deobfuscate_obfuscate blake2b256 salt stale,
    fun _ _ => obf.obfuscate_deobfuscate blake2b256,
    fun buf _ h => obf.deobfuscateInPlace_short blake2b256 h buf⟩

end Salamander

end ConstructTransport.Datagram
