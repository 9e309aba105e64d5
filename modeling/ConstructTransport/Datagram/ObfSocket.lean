import ConstructTransport.Datagram.Salamander
import ConstructTransport.Datagram.Udp

/-! The obfuscating socket: every transmit goes to the inner socket as one salted
datagram, every receive buffer the inner socket filled is decoded in place and
its metadata corrected. The loop over a batch acts on each slot alone. -/

namespace ConstructTransport.Datagram

open Checked

namespace ObfuscatedUdpSocket

variable {ε : Type} (blake2b256 : Blake2b256) (obf : Salamander)

/-- `try_send`: the transmit handed to the inner socket, whose answer is returned as it is. -/
def trySend (salt : Vector UInt8 saltLen) (transmit : Transmit) : Except Panic Transmit := do
  let buf := List.replicate (transmit.contents.length + saltLen) 0
  let (buf, _) ← obf.obfuscate blake2b256 transmit.contents salt buf
  return {
    destination := transmit.destination
    ecn := transmit.ecn
    contents := buf
    segmentSize := none
    srcIp := transmit.srcIp }

/-- The body of the loop of `poll_recv`. -/
def decodeSlot (i : ℕ) (slots : List (List UInt8) × List RecvMeta) :
    Except Panic (List (List UInt8) × List RecvMeta) := do
  let m ← index slots.2 i
  let buf ← index slots.1 i
  let (buf, plainLen) ← obf.deobfuscateInPlace blake2b256 buf m.len
  let bufs ← assign slots.1 i buf
  let metas ← assign slots.2 i (match plainLen with
    | some plainLen => { m with len := plainLen, stride := plainLen }
    | none => { m with len := 0, stride := 0 })
  return (bufs, metas)

/-- `poll_recv`, given the answer, the buffers and the metadata of the inner socket. -/
def pollRecv (inner : Poll (Except ε ℕ)) (bufs : List (List UInt8)) (metas : List RecvMeta) :
    Except Panic (Poll (Except ε ℕ) × List (List UInt8) × List RecvMeta) :=
  match inner with
  | .ready (.ok n) => do
    let slots ← forEach (List.range n) (decodeSlot blake2b256 obf) (bufs, metas)
    return (.ready (.ok n), slots)
  | other => return (other, bufs, metas)

theorem pollRecv_answer {inner : Poll (Except ε ℕ)} {bufs : List (List UInt8)}
    {metas : List RecvMeta} {r : Poll (Except ε ℕ) × List (List UInt8) × List RecvMeta}
    (h : pollRecv blake2b256 obf inner bufs metas = .ok r) : r.1 = inner := by
  unfold pollRecv at h
  split at h
  · next n =>
    cases hs : forEach (List.range n) (decodeSlot blake2b256 obf) (bufs, metas) with
    | error e => simp [hs, bind, Except.bind] at h
    | ok slots =>
      rw [hs, ok_bind] at h
      cases h
      rfl
  · cases h
    rfl

/-- The wire form of a transmit: the salted datagram, everything else kept. -/
theorem trySend_eq (salt : Vector UInt8 saltLen) (t : Transmit) :
    trySend blake2b256 obf salt t = .ok { t with
      contents := obf.datagram blake2b256 salt t.contents
      segmentSize := none } := by
  have hl : (List.replicate (t.contents.length + saltLen) (0 : UInt8)).length =
      saltLen + t.contents.length := by
    rw [List.length_replicate, Nat.add_comm]
  have hd := List.drop_eq_nil_of_le hl.le
  simp only [trySend, obf.obfuscate_eq blake2b256 salt hl.ge, hd, List.append_nil, ok_bind]
  rfl

/-! ### One slot -/

def recover (buf : List UInt8) (m : RecvMeta) : List UInt8 × RecvMeta :=
  if m.len < saltLen then (buf, { m with len := 0, stride := 0 })
  else
    (obf.mask blake2b256 (buf.take saltLen) ((buf.drop saltLen).take (m.len - saltLen)) ++
      buf.drop (m.len - saltLen),
    { m with len := m.len - saltLen, stride := m.len - saltLen })

theorem recover_short {m : RecvMeta} (h : m.len < saltLen) (buf : List UInt8) :
    recover blake2b256 obf buf m = (buf, { m with len := 0, stride := 0 }) := if_pos h

theorem recover_salted {m : RecvMeta} (h : saltLen ≤ m.len) (buf : List UInt8) :
    (recover blake2b256 obf buf m).2 =
      { m with len := m.len - saltLen, stride := m.len - saltLen } := by
  rw [recover, if_neg (by omega)]

theorem recover_datagram {buf : List UInt8} {m : RecvMeta} {salt : Vector UInt8 saltLen}
    {plain : List UInt8} (hl : m.len ≤ buf.length)
    (h : buf.take m.len = obf.datagram blake2b256 salt plain) :
    (recover blake2b256 obf buf m).1.take plain.length = plain ∧
      (recover blake2b256 obf buf m).2.len = plain.length := by
  have hm : m.len = saltLen + plain.length := by
    rw [← obf.datagram_length blake2b256 salt plain, ← h, List.length_take_of_le hl]
  have hb : buf = obf.datagram blake2b256 salt plain ++ buf.drop m.len := by
    rw [← h, List.take_append_drop]
  obtain ⟨rest, hd⟩ := obf.deobfuscateInPlace_datagram blake2b256 salt plain (buf.drop m.len)
  rw [← hb, ← hm, obf.deobfuscateInPlace_eq blake2b256 (by omega) hl] at hd
  rw [recover, if_neg (by omega)]
  simp only [Except.ok.injEq, Prod.mk.injEq, Option.some.injEq] at hd ⊢
  rw [hd.1]
  exact ⟨List.take_left, hd.2⟩

theorem decodeSlot_eq {i : ℕ} {bufs : List (List UInt8)} {metas : List RecvMeta}
    {buf : List UInt8} {m : RecvMeta} (hb : bufs[i]? = some buf) (hm : metas[i]? = some m)
    (hl : m.len ≤ buf.length) :
    decodeSlot blake2b256 obf i (bufs, metas) =
      .ok (bufs.set i (recover blake2b256 obf buf m).1,
        metas.set i (recover blake2b256 obf buf m).2) := by
  obtain ⟨hi, rfl⟩ := List.getElem?_eq_some_iff.mp hb
  obtain ⟨hj, rfl⟩ := List.getElem?_eq_some_iff.mp hm
  unfold decodeSlot
  rw [index_ok hj, ok_bind, index_ok hi, ok_bind]
  by_cases hs : metas[i].len < saltLen
  · rw [obf.deobfuscateInPlace_short blake2b256 hs, recover_short blake2b256 obf hs]
    simp only [ok_bind, assign_ok hi, assign_ok hj]
    rfl
  · rw [obf.deobfuscateInPlace_eq blake2b256 (by omega) hl, recover, if_neg hs]
    simp only [ok_bind, assign_ok hi, assign_ok hj]
    rfl

/-! ### A batch -/

/-- The loop decodes the slots below `n`, each from its own contents alone, and
leaves the others as they were. -/
theorem pollRecv_eq {n : ℕ} {bufs : List (List UInt8)} {metas : List RecvMeta}
    (hb : n ≤ bufs.length) (hm : n ≤ metas.length)
    (hl : ∀ i buf m, i < n → bufs[i]? = some buf → metas[i]? = some m → m.len ≤ buf.length) :
    ∃ bufs' metas', pollRecv (ε := ε) blake2b256 obf (.ready (.ok n)) bufs metas =
        .ok (.ready (.ok n), bufs', metas') ∧
      (∀ i buf m, i < n → bufs[i]? = some buf → metas[i]? = some m →
        bufs'[i]? = some (recover blake2b256 obf buf m).1 ∧
        metas'[i]? = some (recover blake2b256 obf buf m).2) ∧
      ∀ i, n ≤ i → bufs'[i]? = bufs[i]? ∧ metas'[i]? = metas[i]? := by
  have loop := forEach_invariant (List.range n) (decodeSlot blake2b256 obf) (s := (bufs, metas))
    (fun k slots =>
      (∀ i buf m, i < k → bufs[i]? = some buf → metas[i]? = some m →
        slots.1[i]? = some (recover blake2b256 obf buf m).1 ∧
        slots.2[i]? = some (recover blake2b256 obf buf m).2) ∧
      ∀ i, k ≤ i → slots.1[i]? = bufs[i]? ∧ slots.2[i]? = metas[i]?) ?_
    ⟨fun i buf m hi => absurd hi (Nat.not_lt_zero i), fun i _ => ⟨rfl, rfl⟩⟩
  · obtain ⟨slots, he, hd, hk⟩ := loop
    rw [List.length_range] at hd hk
    refine ⟨slots.1, slots.2, ?_, hd, hk⟩
    simp only [pollRecv, he, ok_bind]
    rfl
  · rintro k i slots hi ⟨hd, hk⟩
    obtain ⟨hlt, rfl⟩ := List.getElem?_eq_some_iff.mp hi
    rw [List.length_range] at hlt
    rw [List.getElem_range]
    have hbk : bufs[k]? = some bufs[k] := List.getElem?_eq_getElem (by omega)
    have hmk : metas[k]? = some metas[k] := List.getElem?_eq_getElem (by omega)
    obtain ⟨h₁, h₂⟩ := hk k le_rfl
    refine ⟨_, decodeSlot_eq blake2b256 obf (h₁.trans hbk) (h₂.trans hmk) (hl k _ _ hlt hbk hmk),
      fun i buf m hi hb' hm' => ?_, fun i hi => ?_⟩
    · by_cases he : i = k
      · subst he
        cases hb'.symm.trans hbk
        cases hm'.symm.trans hmk
        have hb₁ := (List.getElem?_eq_some_iff.mp (h₁.trans hbk)).1
        have hm₁ := (List.getElem?_eq_some_iff.mp (h₂.trans hmk)).1
        exact ⟨List.getElem?_set_self hb₁, List.getElem?_set_self hm₁⟩
      · obtain ⟨h₃, h₄⟩ := hd i buf m (by omega) hb' hm'
        exact ⟨(List.getElem?_set_ne (Ne.symm he)).trans h₃,
          (List.getElem?_set_ne (Ne.symm he)).trans h₄⟩
    · obtain ⟨h₃, h₄⟩ := hk i (by omega)
      exact ⟨(List.getElem?_set_ne (by omega)).trans h₃,
        (List.getElem?_set_ne (by omega)).trans h₄⟩

theorem pollRecv_single {buf : List UInt8} {m : RecvMeta} (h : m.len ≤ buf.length) :
    pollRecv (ε := ε) blake2b256 obf (.ready (.ok 1)) [buf] [m] =
      .ok (.ready (.ok 1), [(recover blake2b256 obf buf m).1],
        [(recover blake2b256 obf buf m).2]) := by
  have slot : decodeSlot blake2b256 obf 0 ([buf], [m]) =
      .ok ([(recover blake2b256 obf buf m).1], [(recover blake2b256 obf buf m).2]) :=
    decodeSlot_eq blake2b256 obf rfl rfl h
  simp only [pollRecv, List.range_one, forEach_cons slot, forEach_nil]
  rfl

end ObfuscatedUdpSocket

end ConstructTransport.Datagram
