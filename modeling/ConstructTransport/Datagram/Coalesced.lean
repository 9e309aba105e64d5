import ConstructTransport.Datagram.ObfSocket

/-! Receive offload under the obfuscating socket. The kernel may put several
datagrams of one sender into a buffer, at multiples of the stride and the last
of them perhaps shorter, and quinn cuts the buffer there. The socket decodes a
buffer as one datagram, so what it merges no longer comes apart. -/

namespace ConstructTransport.Datagram.Coalesced

open Checked ObfuscatedUdpSocket

/-- What the inner socket reports: `count` filled buffers, each with any number of datagrams. -/
structure Batch where
  bufs : List (List UInt8)
  metas : List RecvMeta
  count : ℕ
  count_le_bufs : count ≤ bufs.length
  count_le_metas : count ≤ metas.length
  filled : ∀ i buf m, i < count → bufs[i]? = some buf → metas[i]? = some m →
    m.len ≤ buf.length ∧ (0 < m.len → 0 < m.stride)

/-- Pieces of `stride` bytes, of which there is at least one, and a shorter one at the end. -/
def cut (stride : ℕ) (data : List UInt8) : List (List UInt8) :=
  match data with
  | [] => []
  | b :: rest => (b :: rest).take stride :: cut stride (rest.drop (stride - 1))
termination_by data.length
decreasing_by
  rw [List.length_drop, List.length_cons]
  omega

/-- The datagrams in a buffer, as quinn takes them out. -/
def datagrams (buf : List UInt8) (m : RecvMeta) : List (List UInt8) :=
  cut m.stride (buf.take m.len)

variable (blake2b256 : Blake2b256) (obf : Salamander)

/-- What one datagram carries; nothing if there is no byte behind the salt. -/
def plaintext (dg : List UInt8) : Option (List UInt8) :=
  if dg.length ≤ saltLen then none
  else some (obf.mask blake2b256 (dg.take saltLen) (dg.drop saltLen))

/-- The wrapper hands over the datagrams of a buffer one by one. -/
def Split (buf : List UInt8) (m : RecvMeta) (buf' : List UInt8) (m' : RecvMeta) : Prop :=
  datagrams buf' m' = (datagrams buf m).filterMap (plaintext blake2b256 obf)

theorem plaintext_datagram (salt : Vector UInt8 saltLen) {plain : List UInt8} (h : plain ≠ []) :
    plaintext blake2b256 obf (obf.datagram blake2b256 salt plain) = some plain := by
  have hpos : 0 < plain.length := List.length_pos_of_ne_nil h
  have hs : salt.toList.length = saltLen := salt.length_toList
  have hlen := obf.datagram_length blake2b256 salt plain
  rw [plaintext, if_neg (by omega), Salamander.datagram, List.take_left' hs, List.drop_left' hs,
    obf.mask_mask]

/-! ### The pieces -/

theorem cut_nil (stride : ℕ) : cut stride [] = [] := by rw [cut]

theorem cut_whole {stride : ℕ} {data : List UInt8} (hd : data ≠ []) (h : data.length ≤ stride) :
    cut stride data = [data] := by
  cases data with
  | nil => contradiction
  | cons b rest =>
    have hrest : rest.length ≤ stride - 1 := Nat.le_sub_one_of_lt h
    rw [cut, List.take_of_length_le h, List.drop_eq_nil_of_le hrest, cut_nil]

theorem length_le_of_mem_cut {stride : ℕ} {data p : List UInt8} (h : p ∈ cut stride data) :
    p.length ≤ stride ∧ p.length ≤ data.length := by
  induction data using cut.induct stride with
  | case1 => rw [cut_nil] at h; contradiction
  | case2 b rest ih =>
    rw [cut] at h
    rcases List.mem_cons.mp h with rfl | h
    · rw [List.length_take]
      exact ⟨Nat.min_le_left _ _, Nat.min_le_right _ _⟩
    · obtain ⟨hs, hl⟩ := ih h
      rw [List.length_drop] at hl
      exact ⟨hs, hl.trans ((Nat.sub_le _ _).trans (Nat.le_succ _))⟩

theorem length_of_plaintext {dg plain : List UInt8} (h : plaintext blake2b256 obf dg = some plain) :
    plain.length + saltLen = dg.length := by
  unfold plaintext at h
  split at h
  · contradiction
  · cases h
    rw [obf.mask_length, List.length_drop]
    omega

/-! ### One buffer -/

/-- A buffer that is one datagram long, or too short for any, is split; no other is. -/
theorem recover_split_iff {buf : List UInt8} {m : RecvMeta} (hl : m.len ≤ buf.length) :
    Split blake2b256 obf buf m (recover blake2b256 obf buf m).1 (recover blake2b256 obf buf m).2 ↔
      m.len ≤ m.stride ∨ m.len ≤ saltLen := by
  have hlen : (buf.take m.len).length = m.len := List.length_take_of_le hl
  unfold Split
  by_cases hs : m.len ≤ saltLen
  · -- nothing is decoded, and no piece carries anything
    refine iff_of_true ?_ (.inr hs)
    have hnone : (datagrams buf m).filterMap (plaintext blake2b256 obf) = [] := by
      refine List.filterMap_eq_nil_iff.mpr fun dg hdg => if_pos ?_
      exact (length_le_of_mem_cut hdg).2.trans (hlen.trans_le hs)
    have hzero : (recover blake2b256 obf buf m).2.len = 0 := by
      unfold recover
      split
      · rfl
      · exact Nat.sub_eq_zero_of_le hs
    rw [hnone, datagrams, hzero, List.take_zero, cut_nil]
  · have hsalt : saltLen ≤ m.len := by omega
    have hpos : 0 < m.len - saltLen := by omega
    have htake : (recover blake2b256 obf buf m).1.take (m.len - saltLen) =
        obf.mask blake2b256 (buf.take saltLen) ((buf.drop saltLen).take (m.len - saltLen)) := by
      rw [recover, if_neg (by omega)]
      refine List.take_left' ?_
      rw [obf.mask_length, List.length_take, List.length_drop]
      omega
    have hone : datagrams (recover blake2b256 obf buf m).1 (recover blake2b256 obf buf m).2 =
        [obf.mask blake2b256 (buf.take saltLen)
          ((buf.drop saltLen).take (m.len - saltLen))] := by
      have hbody : (obf.mask blake2b256 (buf.take saltLen)
          ((buf.drop saltLen).take (m.len - saltLen))).length = m.len - saltLen := by
        rw [obf.mask_length, List.length_take, List.length_drop]
        omega
      rw [datagrams, recover_salted blake2b256 obf hsalt, htake]
      refine cut_whole (List.ne_nil_of_length_pos ?_) hbody.le
      rw [hbody]
      exact hpos
    rw [hone]
    constructor
    · intro he
      -- the whole body is longer than any piece of the stride
      have hmem := List.mem_singleton_self (obf.mask blake2b256 (buf.take saltLen)
        ((buf.drop saltLen).take (m.len - saltLen)))
      rw [he] at hmem
      obtain ⟨dg, hdg, hp⟩ := List.mem_filterMap.mp hmem
      have h₁ := length_of_plaintext blake2b256 obf hp
      have h₂ := (length_le_of_mem_cut hdg).1
      rw [obf.mask_length, List.length_take, List.length_drop] at h₁
      left
      omega
    · intro hc
      have hstride : m.len ≤ m.stride := hc.resolve_right hs
      have hwhole : datagrams buf m = [buf.take m.len] :=
        cut_whole (List.ne_nil_of_length_pos (by omega)) (hlen.trans_le hstride)
      have hplain : plaintext blake2b256 obf (buf.take m.len) =
          some (obf.mask blake2b256 (buf.take saltLen)
            ((buf.drop saltLen).take (m.len - saltLen))) := by
        rw [plaintext, if_neg (by omega), List.take_take, Nat.min_eq_left hsalt, List.drop_take]
      rw [hwhole, List.filterMap_cons_some hplain, List.filterMap_nil]

/-! ### A batch -/

/-- The wrapper splits a batch exactly where each of its buffers holds one datagram,
or none that carries anything. -/
theorem poll_recv_splits_iff {ε : Type} (batch : Batch) : ∃ bufs metas,
    pollRecv (ε := ε) blake2b256 obf (.ready (.ok batch.count)) batch.bufs batch.metas =
      .ok (.ready (.ok batch.count), bufs, metas) ∧
    ((∀ i buf m buf' m', i < batch.count → batch.bufs[i]? = some buf →
        batch.metas[i]? = some m → bufs[i]? = some buf' → metas[i]? = some m' →
        Split blake2b256 obf buf m buf' m') ↔
      ∀ i m, i < batch.count → batch.metas[i]? = some m → m.len ≤ m.stride ∨ m.len ≤ saltLen) ∧
    ∀ salt plain, plain ≠ [] →
      plaintext blake2b256 obf (obf.datagram blake2b256 salt plain) = some plain := by
  have hl : ∀ i buf m, i < batch.count → batch.bufs[i]? = some buf →
      batch.metas[i]? = some m → m.len ≤ buf.length :=
    fun i buf m hi hb hm => (batch.filled i buf m hi hb hm).1
  obtain ⟨bufs, metas, hr, hd, -⟩ :=
    pollRecv_eq (ε := ε) blake2b256 obf batch.count_le_bufs batch.count_le_metas hl
  refine ⟨bufs, metas, hr, ⟨fun h i m hi hm => ?_, fun h i buf m buf' m' hi hb hm hb' hm' => ?_⟩,
    fun salt plain => plaintext_datagram blake2b256 obf salt⟩
  · have hlt : i < batch.bufs.length := hi.trans_le batch.count_le_bufs
    have hb : batch.bufs[i]? = some batch.bufs[i] := List.getElem?_eq_getElem hlt
    obtain ⟨hb', hm'⟩ := hd i _ m hi hb hm
    exact (recover_split_iff blake2b256 obf (hl i _ m hi hb hm)).mp (h i _ m _ _ hi hb hm hb' hm')
  · obtain ⟨hb₁, hm₁⟩ := hd i buf m hi hb hm
    cases hb'.symm.trans hb₁
    cases hm'.symm.trans hm₁
    exact (recover_split_iff blake2b256 obf (hl i buf m hi hb hm)).mpr (h i m hi hm)

/-- Two datagrams of ten bytes in one buffer. -/
def pair : Batch where
  bufs := [[1, 1, 1, 1, 1, 1, 1, 1, 65, 66, 2, 2, 2, 2, 2, 2, 2, 2, 67, 68]]
  metas := [⟨⟨.v4 1, 443⟩, 20, 10, none, none⟩]
  count := 1
  count_le_bufs := le_rfl
  count_le_metas := le_rfl
  filled i buf m hi hb hm := by
    obtain rfl : i = 0 := Nat.lt_one_iff.mp hi
    cases hb
    cases hm
    exact ⟨by decide, fun _ => by decide⟩

/-- Whatever the hash is, two datagrams that arrive in one buffer come out as one. -/
theorem pair_is_merged : ¬∃ blake2b256 : Blake2b256, ∀ (obf : Salamander) (batch : Batch)
    (bufs : List (List UInt8)) (metas : List RecvMeta),
    pollRecv (ε := Unit) blake2b256 obf (.ready (.ok batch.count)) batch.bufs batch.metas =
      .ok (.ready (.ok batch.count), bufs, metas) →
    ∀ i buf m buf' m', i < batch.count → batch.bufs[i]? = some buf → batch.metas[i]? = some m →
      bufs[i]? = some buf' → metas[i]? = some m' → Split blake2b256 obf buf m buf' m' := by
  rintro ⟨blake2b256, h⟩
  obtain ⟨buf, m, hb, hm, hlen, hl, hstride⟩ : ∃ buf m, pair.bufs = [buf] ∧ pair.metas = [m] ∧
      m.len = 20 ∧ m.len ≤ buf.length ∧ m.stride = 10 := ⟨_, _, rfl, rfl, rfl, by decide, rfl⟩
  have hr := pollRecv_single (ε := Unit) blake2b256 ⟨[7]⟩ hl
  rw [← hb, ← hm] at hr
  have hs := h ⟨[7]⟩ pair _ _ hr 0 buf m _ _ Nat.one_pos (by rw [hb]; rfl) (by rw [hm]; rfl) rfl rfl
  rcases (recover_split_iff blake2b256 ⟨[7]⟩ hl).mp hs with hle | hle
  · omega
  · rw [hlen] at hle
    exact absurd hle (by decide)

end ConstructTransport.Datagram.Coalesced
