import Mathlib.Data.List.Basic

/-! Files that are read and written in pieces. A write past the end of a file
leaves zeros between; a read past its end is empty, which is how a reader learns
that it has all. What has been written of a file from its start is at each
moment a prefix, and so is what has been read, as long as nobody else writes. -/

namespace ConstructTransport.Files

variable {xs got got' new : List UInt8} {off off' n : ℕ}

/-- What a read of up to `n` bytes at an offset returns. -/
def readAt (xs : List UInt8) (off n : ℕ) : List UInt8 := (xs.drop off).take n

def writeAt (xs : List UInt8) (off : ℕ) (chunk : List UInt8) : List UInt8 :=
  xs.take off ++ List.replicate (off - xs.length) 0 ++ chunk ++ xs.drop (off + chunk.length)

/-- The next piece of a file of which `got` has been read; `none` at its end. A
file that is not there is not read. -/
def readPiece (file : Option (List UInt8)) (got : List UInt8) (n : ℕ) :
    Option (Option (List UInt8)) :=
  match file with
  | none => none
  | some xs =>
    if n = 0 then none
    else
      let chunk := readAt xs got.length n
      some (if chunk = [] then none else some (got ++ chunk))

/-- The next piece of `xs`, of which `off` bytes have been written. -/
def writePiece (file : Option (List UInt8)) (xs : List UInt8) (off n : ℕ) :
    Option (List UInt8 × ℕ) :=
  let chunk := readAt xs off n
  match file with
  | none => none
  | some old => if chunk = [] then none else some (writeAt old off chunk, off + chunk.length)

theorem take_append_readAt (xs : List UInt8) (off n : ℕ) :
    xs.take off ++ readAt xs off n = xs.take (off + n) := by
  rw [readAt, List.take_add]

theorem readAt_length_le (h : off ≤ xs.length) : off + (readAt xs off n).length ≤ xs.length := by
  rw [readAt, List.length_take, List.length_drop]
  omega

theorem writeAt_take (h : off ≤ xs.length) :
    writeAt (xs.take off) off (readAt xs off n) = xs.take (off + (readAt xs off n).length) := by
  have hlen : (xs.take off).length = off := List.length_take_of_le h
  have hpad : off - (xs.take off).length = 0 := by omega
  have hend : (xs.take off).drop (off + (readAt xs off n).length) = [] :=
    List.drop_eq_nil_of_le (by omega)
  have hchunk : readAt xs off n = readAt xs off (readAt xs off n).length := by
    simp only [readAt, List.length_take, List.take_eq_take_iff, List.length_drop]
    omega
  rw [writeAt, hpad, hend, List.take_take, Nat.min_self, List.replicate_zero, List.append_nil,
    List.append_nil, ← take_append_readAt, ← hchunk]

theorem readPiece_more (h : readPiece (some xs) got n = some (some got')) (hg : got <+: xs) :
    got' <+: xs := by
  simp only [readPiece] at h
  split at h
  · contradiction
  · split at h
    · cases h
    · cases h
      rw [List.prefix_iff_eq_take.mp hg, List.length_take, Nat.min_eq_left hg.length_le,
        take_append_readAt]
      exact List.take_prefix _ _

theorem readPiece_end (h : readPiece (some xs) got n = some none) (hg : got <+: xs) :
    got = xs := by
  simp only [readPiece] at h
  split at h
  · contradiction
  · next hn =>
    split at h
    · next hnil =>
      rw [readAt, List.take_eq_nil_iff, List.drop_eq_nil_iff] at hnil
      exact hg.eq_of_length_le (hnil.resolve_left hn)
    · cases h

theorem writePiece_next (h : writePiece (some (xs.take off)) xs off n = some (new, off'))
    (ho : off ≤ xs.length) : new = xs.take off' ∧ off' ≤ xs.length := by
  simp only [writePiece] at h
  split at h
  · contradiction
  · cases h
    exact ⟨writeAt_take ho, readAt_length_le ho⟩

theorem writePiece_lt {file : Option (List UInt8)} {r : List UInt8 × ℕ}
    (h : writePiece file xs off n = some r) : off < xs.length := by
  simp only [writePiece] at h
  split at h
  · contradiction
  · split at h
    · contradiction
    · next hne =>
      by_contra hge
      rw [readAt, List.drop_eq_nil_of_le (Nat.le_of_not_lt hge)] at hne
      exact hne List.take_nil

example : writePiece (some [1, 2]) [7, 8, 9] 2 5 = some ([1, 2, 9], 3) := by decide

end ConstructTransport.Files
