import ConstructTransport.Datagram.ObfSocket

/-! Two obfuscating sockets with one key over an unreliable network. Either end
sends; what an end receives is any batch at all, so a datagram may be lost,
arrive any number of times, in any order, or never have been sent. One datagram
fills each buffer, with whatever the buffer held before behind it. -/

namespace ConstructTransport.Datagram.Network

open Checked ObfuscatedUdpSocket

/-- What the inner socket reports: `count` filled buffers, one datagram in each. -/
structure Batch where
  bufs : List (List UInt8)
  metas : List RecvMeta
  count : ℕ
  count_le_bufs : count ≤ bufs.length
  count_le_metas : count ≤ metas.length
  single : ∀ i buf m, i < count → bufs[i]? = some buf → metas[i]? = some m →
    m.stride = m.len ∧ m.len ≤ buf.length

/-- A batch as quinn finds it after the wrapper. -/
structure Delivery (ε : Type) where
  batch : Batch
  answer : Poll (Except ε ℕ)
  bufs : List (List UInt8)
  metas : List RecvMeta

/-- The transmits of both ends, each with its wire form, and the batches handed over. -/
structure State (ε : Type) where
  sent : List (Transmit × Transmit)
  deliveries : List (Delivery ε)

inductive Action
  | send (salt : Vector UInt8 saltLen) (transmit : Transmit)
  | arrive (batch : Batch)

def Action.transmit : Action → Option Transmit
  | .send _ transmit => some transmit
  | .arrive _ => none

def Action.batch : Action → Option Batch
  | .send _ _ => none
  | .arrive batch => some batch

variable {ε : Type} (blake2b256 : Blake2b256) (obf : Salamander)

def step (a : Action) (s : State ε) : Except Panic (State ε) :=
  match a with
  | .send salt transmit => do
    let wire ← trySend blake2b256 obf salt transmit
    return { s with sent := s.sent ++ [(transmit, wire)] }
  | .arrive batch => do
    let r ← pollRecv blake2b256 obf (.ready (.ok batch.count)) batch.bufs batch.metas
    return { s with deliveries := s.deliveries ++ [⟨batch, r.1, r.2.1, r.2.2⟩] }

def run (actions : List Action) : Except Panic (State ε) :=
  forEach actions (step blake2b256 obf) ⟨[], []⟩

/-- What may become of a filled buffer, given what has been sent. -/
structure Slot (ε : Type) (sent : List (Transmit × Transmit)) (buf : List UInt8) (m : RecvMeta)
    (buf' : List UInt8) (m' : RecvMeta) : Prop where
  copy : ∀ p ∈ sent, buf.take m.len = p.2.contents →
    buf'.take m'.len = p.1.contents ∧ m'.len = p.1.contents.length
  short : m.len < saltLen → m'.len = 0 ∧ m'.stride = 0
  salted : saltLen ≤ m.len → m'.len + saltLen = m.len ∧ m'.stride = m'.len
  stride_ne_zero : 0 < m'.len → m'.stride ≠ 0
  addr : m'.addr = m.addr
  ecn : m'.ecn = m.ecn
  dstIp : m'.dstIp = m.dstIp
  /-- Alone in a batch it would have become the same. -/
  alone : pollRecv (ε := ε) blake2b256 obf (.ready (.ok 1)) [buf] [m] =
    .ok (.ready (.ok 1), [buf'], [m'])

/-- A batch handed over, given what has been sent. -/
structure Transparent (sent : List (Transmit × Transmit)) (d : Delivery ε) : Prop where
  count : d.answer = .ready (.ok d.batch.count)
  slot : ∀ i buf m, i < d.batch.count → d.batch.bufs[i]? = some buf → d.batch.metas[i]? = some m →
    ∃ buf' m', d.bufs[i]? = some buf' ∧ d.metas[i]? = some m' ∧
      Slot blake2b256 obf ε sent buf m buf' m'
  rest : ∀ i, d.batch.count ≤ i →
    d.bufs[i]? = d.batch.bufs[i]? ∧ d.metas[i]? = d.batch.metas[i]?

def Salted (sent : List (Transmit × Transmit)) : Prop :=
  ∀ p ∈ sent, ∃ salt, p.2.contents = obf.datagram blake2b256 salt p.1.contents

theorem recover_slot {sent : List (Transmit × Transmit)} (hs : Salted blake2b256 obf sent)
    {buf : List UInt8} {m : RecvMeta} (hl : m.len ≤ buf.length) :
    Slot blake2b256 obf ε sent buf m (recover blake2b256 obf buf m).1
      (recover blake2b256 obf buf m).2 := by
  have alone := pollRecv_single (ε := ε) blake2b256 obf hl
  have copy : ∀ p ∈ sent, buf.take m.len = p.2.contents →
      (recover blake2b256 obf buf m).1.take (recover blake2b256 obf buf m).2.len = p.1.contents ∧
        (recover blake2b256 obf buf m).2.len = p.1.contents.length := by
    intro p hp he
    obtain ⟨salt, hsalt⟩ := hs p hp
    obtain ⟨hc, hn⟩ := recover_datagram blake2b256 obf hl (he.trans hsalt)
    exact ⟨hn ▸ hc, hn⟩
  by_cases h : m.len < saltLen
  · rw [recover_short blake2b256 obf h] at alone copy ⊢
    exact ⟨copy, fun _ => ⟨rfl, rfl⟩, fun hge => absurd h (Nat.not_lt.mpr hge),
      fun hpos => absurd hpos (Nat.lt_irrefl 0), rfl, rfl, rfl, alone⟩
  · have hm := recover_salted blake2b256 obf (Nat.not_lt.mp h) buf
    refine ⟨copy, fun hlt => absurd hlt h, fun hge => ?_, fun hpos => ?_, ?_, ?_, ?_, alone⟩
    · rw [hm]
      exact ⟨Nat.sub_add_cancel hge, rfl⟩
    · rw [hm] at hpos ⊢
      exact hpos.ne'
    all_goals rw [hm]

theorem step_ok (a : Action) {s : State ε} (hs : Salted blake2b256 obf s.sent) :
    ∃ s', step blake2b256 obf a s = .ok s' ∧ Salted blake2b256 obf s'.sent ∧
      s'.sent.map Prod.fst = s.sent.map Prod.fst ++ a.transmit.toList ∧
      s'.deliveries.map Delivery.batch = s.deliveries.map Delivery.batch ++ a.batch.toList ∧
      ∀ d ∈ s'.deliveries, d ∈ s.deliveries ∨
        ∀ sent, Salted blake2b256 obf sent → Transparent blake2b256 obf sent d := by
  cases a with
  | send salt transmit =>
    obtain ⟨wire, hw, hc⟩ : ∃ wire, trySend blake2b256 obf salt transmit = .ok wire ∧
        wire.contents = obf.datagram blake2b256 salt transmit.contents :=
      ⟨_, trySend_eq blake2b256 obf salt transmit, rfl⟩
    refine ⟨{ s with sent := s.sent ++ [(transmit, wire)] }, ?_, ?_, ?_, ?_, fun d hd => .inl hd⟩
    · rw [step, hw, ok_bind]
      rfl
    · intro p hp
      rcases List.mem_append.mp hp with h | h
      · exact hs p h
      · rw [List.mem_singleton.mp h]
        exact ⟨salt, hc⟩
    · simp [Action.transmit]
    · simp [Action.batch]
  | arrive batch =>
    have hl : ∀ i buf m, i < batch.count → batch.bufs[i]? = some buf →
        batch.metas[i]? = some m → m.len ≤ buf.length :=
      fun i buf m hi hb hm => (batch.single i buf m hi hb hm).2
    obtain ⟨bufs, metas, hr, hd, hk⟩ := pollRecv_eq (ε := ε) blake2b256 obf batch.count_le_bufs
      batch.count_le_metas hl
    refine ⟨{ s with deliveries := s.deliveries ++
      [⟨batch, .ready (.ok batch.count), bufs, metas⟩] }, ?_, hs, ?_, ?_, ?_⟩
    · rw [step, hr, ok_bind]
      rfl
    · simp [Action.transmit]
    · simp [Action.batch]
    · intro d hd'
      rcases List.mem_append.mp hd' with h | h
      · exact .inl h
      · rw [List.mem_singleton.mp h]
        refine .inr fun sent hsent => ⟨rfl, fun i buf m hi hb hm => ?_, hk⟩
        obtain ⟨hb', hm'⟩ := hd i buf m hi hb hm
        exact ⟨_, _, hb', hm', recover_slot blake2b256 obf hsent (hl i buf m hi hb hm)⟩

/-- Whatever the network does, no call panics, every batch reaches quinn, and
every slot of it is transparent to all that was ever sent. -/
theorem obfuscation_transparent (actions : List Action) :
    ∃ s : State ε, run blake2b256 obf actions = .ok s ∧
      s.sent.map Prod.fst = actions.filterMap Action.transmit ∧
      s.deliveries.map Delivery.batch = actions.filterMap Action.batch ∧
      ∀ d ∈ s.deliveries, Transparent blake2b256 obf s.sent d := by
  have hrun := forEach_invariant actions (step blake2b256 obf) (s := (⟨[], []⟩ : State ε))
    (fun i s => Salted blake2b256 obf s.sent ∧
      s.sent.map Prod.fst = (actions.take i).filterMap Action.transmit ∧
      s.deliveries.map Delivery.batch = (actions.take i).filterMap Action.batch ∧
      ∀ d ∈ s.deliveries, ∀ sent, Salted blake2b256 obf sent → Transparent blake2b256 obf sent d)
    ?_ ⟨by simp [Salted], rfl, rfl, by simp⟩
  · obtain ⟨s, hr, hs, hsent, hbatch, ht⟩ := hrun
    rw [List.take_length] at hsent hbatch
    exact ⟨s, hr, hsent, hbatch, fun d hd => ht d hd _ hs⟩
  · rintro i a s ha ⟨hs, hsent, hbatch, ht⟩
    obtain ⟨s', hs', hw, hsent', hbatch', hd⟩ := step_ok blake2b256 obf a hs
    have htake : actions.take (i + 1) = actions.take i ++ [a] := by
      rw [List.take_add_one, ha]
      rfl
    refine ⟨s', hs', hw, ?_, ?_, fun d hd' => ?_⟩
    · rw [hsent', hsent, htake, List.filterMap_append]
      cases a <;> rfl
    · rw [hbatch', hbatch, htake, List.filterMap_append]
      cases a <;> rfl
    · rcases hd d hd' with h | h
      · exact ht d h
      · exact h

end ConstructTransport.Datagram.Network
