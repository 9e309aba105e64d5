import ConstructTransport.Datagram.Coalesced
import ConstructTransport.Datagram.Network

/-! Ends that need not share a key. Each runs on the socket that `client_socket` builds
for it, plain or obfuscating with a PSK of its own, and all of them send to and
receive from one network, which may do anything. An end understands a datagram of
another exactly if both are plain, or if both obfuscate and their keys for that
salt agree as far as the datagram reaches. One that is at least as long as a key, as all
that begin a handshake are, is understood only under the same key. -/

namespace ConstructTransport.Datagram.Keyed

open Checked ObfuscatedUdpSocket Coalesced

variable {ι ε : Type} (blake2b256 : Blake2b256)

/-- `try_send` of the socket behind `ClientSocket::endpoint_socket`. -/
def send (obf : Option Salamander) (salt : Vector UInt8 saltLen) (t : Transmit) :
    Except Panic Transmit :=
  match obf with
  | some obf => trySend blake2b256 obf salt t
  | none => return t

/-- `poll_recv` of the same socket, given what the spin-free one answers. -/
def receive (obf : Option Salamander) (inner : Poll (Except ε ℕ)) (bufs : List (List UInt8))
    (metas : List RecvMeta) :
    Except Panic (Poll (Except ε ℕ) × List (List UInt8) × List RecvMeta) :=
  match obf with
  | some obf => pollRecv blake2b256 obf inner bufs metas
  | none => return (inner, bufs, metas)

def segments (t : Transmit) : List (List UInt8) :=
  match t.segmentSize with
  | some n => cut n t.contents
  | none => [t.contents]

/-- The datagrams a socket takes a transmit for: an obfuscating one, for a single one. -/
def taken (obf : Option Salamander) (t : Transmit) : List (List UInt8) :=
  match obf with
  | some _ => [t.contents]
  | none => segments t

/-- A datagram of QUIC and its form on the wire. -/
structure Packet (ι : Type) where
  sender : ι
  salt : Vector UInt8 saltLen
  plain : List UInt8
  wire : List UInt8

/-- A batch as the end that received it hands it to quinn. -/
structure Received (ι ε : Type) where
  receiver : ι
  delivery : Network.Delivery ε

structure State (ι ε : Type) where
  sent : List (Packet ι)
  received : List (Received ι ε)

inductive Action (ι : Type)
  | send (i : ι) (salt : Vector UInt8 saltLen) (t : Transmit)
  | arrive (i : ι) (batch : Network.Batch)

def packets (obf : Option Salamander) (i : ι) (salt : Vector UInt8 saltLen) (t wire : Transmit) :
    List (Packet ι) :=
  match obf with
  | some _ => [⟨i, salt, t.contents, wire.contents⟩]
  | none => (segments wire).map fun dg => ⟨i, salt, dg, dg⟩

variable (ends : ι → Option Salamander)

def Action.datagrams : Action ι → List (ι × List UInt8)
  | .send i _ t => (taken (ends i) t).map (i, ·)
  | .arrive _ _ => []

def Action.arrival : Action ι → Option (ι × Network.Batch)
  | .send _ _ _ => none
  | .arrive i batch => some (i, batch)

def step (a : Action ι) (s : State ι ε) : Except Panic (State ι ε) :=
  match a with
  | .send i salt t => do
    let wire ← send blake2b256 (ends i) salt t
    return { s with sent := s.sent ++ packets (ends i) i salt t wire }
  | .arrive i batch => do
    let r ← receive blake2b256 (ends i) (.ready (.ok batch.count)) batch.bufs batch.metas
    return { s with received := s.received ++ [⟨i, batch, r.1, r.2.1, r.2.2⟩] }

def run (actions : List (Action ι)) : Except Panic (State ι ε) :=
  forEach actions (step blake2b256 ends) ⟨[], []⟩

/-- Whether a datagram under a salt is the same to two ends. -/
def Agree (p q : Option Salamander) (salt : Vector UInt8 saltLen) (plain : List UInt8) : Prop :=
  match p, q with
  | none, none => True
  | some p, some q => ∀ (k : ℕ) (hk : k < keyLen), k < plain.length →
      (p.key blake2b256 salt.toList).get ⟨k, hk⟩ = (q.key blake2b256 salt.toList).get ⟨k, hk⟩
  | none, some _ => plain = []
  | some _, none => False

/-- Both plain, or both with the same key for a salt. -/
def SameKey (p q : Option Salamander) (salt : Vector UInt8 saltLen) : Prop :=
  match p, q with
  | none, none => True
  | some p, some q => p.key blake2b256 salt.toList = q.key blake2b256 salt.toList
  | _, _ => False

/-- What an end makes of the packets of the others, slot by slot. -/
def Understood (sent : List (Packet ι)) (r : Received ι ε) : Prop :=
  ∀ i buf m, i < r.delivery.batch.count → r.delivery.batch.bufs[i]? = some buf →
    r.delivery.batch.metas[i]? = some m →
    ∃ buf' m', r.delivery.bufs[i]? = some buf' ∧ r.delivery.metas[i]? = some m' ∧
      ∀ p ∈ sent, buf.take m.len = p.wire →
        (buf'.take m'.len = p.plain ↔
          Agree blake2b256 (ends p.sender) (ends r.receiver) p.salt p.plain) ∧
        (keyLen ≤ p.plain.length → (buf'.take m'.len = p.plain ↔
          SameKey blake2b256 (ends p.sender) (ends r.receiver) p.salt))

/-! ### One datagram under two keys -/

def onWire (obf : Option Salamander) (salt : Vector UInt8 saltLen) (plain : List UInt8) :
    List UInt8 :=
  match obf with
  | some obf => obf.datagram blake2b256 salt plain
  | none => plain

def decoded (obf : Option Salamander) (buf : List UInt8) (m : RecvMeta) : List UInt8 × RecvMeta :=
  match obf with
  | some obf => recover blake2b256 obf buf m
  | none => (buf, m)

/-- Every packet is on the wire as its sender's socket puts it there. -/
def Wired (sent : List (Packet ι)) : Prop :=
  ∀ p ∈ sent, p.wire = onWire blake2b256 (ends p.sender) p.salt p.plain

variable {blake2b256 ends}

/-- A byte under two keys is itself exactly if they agree there. -/
theorem xorKey_xorKey_iff (p q : Vector UInt8 keyLen) (i : ℕ) (b : UInt8) :
    Salamander.xorKey q i (Salamander.xorKey p i b) = b ↔
      p.get ⟨i % keyLen, Nat.mod_lt _ (by decide)⟩ =
        q.get ⟨i % keyLen, Nat.mod_lt _ (by decide)⟩ := by
  unfold Salamander.xorKey
  refine ⟨fun h => ?_, fun h => ?_⟩
  · have hb := congrArg (b ^^^ ·) h
    simp only [UInt8.xor_self, ← UInt8.xor_assoc, UInt8.zero_xor] at hb
    exact UInt8.xor_eq_zero_iff.mp hb
  · rw [h, UInt8.xor_assoc, UInt8.xor_self, UInt8.xor_zero]

theorem mask_mask_iff (p q : Salamander) (salt xs : List UInt8) :
    q.mask blake2b256 salt (p.mask blake2b256 salt xs) = xs ↔
      ∀ (k : ℕ) (hk : k < keyLen), k < xs.length →
        (p.key blake2b256 salt).get ⟨k, hk⟩ = (q.key blake2b256 salt).get ⟨k, hk⟩ := by
  have bytes : q.mask blake2b256 salt (p.mask blake2b256 salt xs) = xs ↔
      ∀ (i : ℕ) (hi : i < xs.length),
        Salamander.xorKey (q.key blake2b256 salt) i
          (Salamander.xorKey (p.key blake2b256 salt) i xs[i]) = xs[i] := by
    rw [List.ext_getElem_iff]
    simp [Salamander.mask]
  rw [bytes]
  simp only [xorKey_xorKey_iff]
  refine ⟨fun h k hk hlt => ?_, fun h i hi => h _ _ ((Nat.mod_le _ _).trans_lt hi)⟩
  have := h k hlt
  simpa only [Nat.mod_eq_of_lt hk] using this

theorem decoded_take (p : Option Salamander) (q : Option Salamander) {salt : Vector UInt8 saltLen}
    {plain buf : List UInt8} {m : RecvMeta} (hl : m.len ≤ buf.length)
    (h : buf.take m.len = onWire blake2b256 p salt plain) :
    (decoded blake2b256 q buf m).1.take (decoded blake2b256 q buf m).2.len = plain ↔
      Agree blake2b256 p q salt plain := by
  have hlen := congrArg List.length h
  rw [List.length_take_of_le hl] at hlen
  cases q with
  | none =>
    cases p with
    | none => exact iff_of_true h trivial
    | some p =>
      -- the salt is taken for a part of the datagram
      refine iff_of_false (fun he => ?_) id
      have hd := congrArg List.length (h.symm.trans he)
      simp [onWire, saltLen] at hd
  | some q =>
    by_cases hs : m.len < saltLen
    · rw [decoded, recover_short blake2b256 q hs]
      cases p with
      | none => exact ⟨fun he => he.symm, fun he : plain = [] => he.symm⟩
      | some p =>
        rw [onWire, p.datagram_length blake2b256] at hlen
        omega
    · have hge : saltLen ≤ m.len := Nat.not_lt.mp hs
      have htake : (decoded blake2b256 q buf m).1.take (decoded blake2b256 q buf m).2.len =
          q.mask blake2b256 (buf.take saltLen) ((buf.drop saltLen).take (m.len - saltLen)) := by
        simp only [decoded, recover, if_neg hs]
        refine List.take_left' ?_
        rw [q.mask_length, List.length_take, List.length_drop]
        omega
      rw [htake]
      cases p with
      | none =>
        -- the first bytes are taken for the salt
        refine iff_of_false (fun he => ?_) fun hn : plain = [] => ?_
        · have hd := congrArg List.length he
          rw [q.mask_length, List.length_take, List.length_drop] at hd
          rw [onWire] at hlen
          unfold saltLen at hs hd
          omega
        · rw [onWire, hn, List.length_nil] at hlen
          exact absurd (hge.trans_eq hlen) (by decide)
      | some p =>
        have hsalt : buf.take saltLen = salt.toList := by
          have hfront : (buf.take m.len).take saltLen = buf.take saltLen := by
            rw [List.take_take, Nat.min_eq_left hge]
          rw [← hfront, h, onWire, Salamander.datagram]
          exact List.take_left' salt.length_toList
        have hbody : (buf.drop saltLen).take (m.len - saltLen) =
            p.mask blake2b256 salt.toList plain := by
          rw [← List.drop_take, h, onWire, Salamander.datagram]
          exact List.drop_left' salt.length_toList
        rw [hsalt, hbody]
        exact mask_mask_iff p q _ _

/-- From the length of a key on, nothing but the key itself will do. -/
theorem agree_iff_sameKey (p q : Option Salamander) (salt : Vector UInt8 saltLen)
    {plain : List UInt8} (h : keyLen ≤ plain.length) :
    Agree blake2b256 p q salt plain ↔ SameKey blake2b256 p q salt := by
  cases p with
  | none =>
    cases q with
    | none => exact Iff.rfl
    | some q =>
      refine iff_of_false (fun hn : plain = [] => ?_) id
      rw [hn] at h
      exact absurd h (by decide)
  | some p =>
    cases q with
    | none => exact Iff.rfl
    | some q =>
      refine ⟨fun ha => Vector.ext fun k hk => ha k hk (hk.trans_le h), fun he k hk _ => ?_⟩
      exact congrArg (Vector.get · ⟨k, hk⟩) he

/-! ### The network -/

variable (blake2b256 ends) in
theorem send_wired (i : ι) (salt : Vector UInt8 saltLen) (t : Transmit) :
    ∃ wire, send blake2b256 (ends i) salt t = .ok wire ∧
      (packets (ends i) i salt t wire).map (fun p => (p.sender, p.plain)) =
        (Action.send i salt t).datagrams ends ∧
      ∀ p ∈ packets (ends i) i salt t wire,
        p.sender = i ∧ p.wire = onWire blake2b256 (ends i) p.salt p.plain := by
  rw [Action.datagrams]
  unfold send packets taken
  cases ends i with
  | none =>
    refine ⟨t, rfl, List.map_map, fun p hp => ?_⟩
    obtain ⟨dg, -, rfl⟩ := List.mem_map.mp hp
    exact ⟨rfl, rfl⟩
  | some obf =>
    refine ⟨_, trySend_eq blake2b256 obf salt t, rfl, fun p hp => ?_⟩
    rw [List.mem_singleton.mp hp]
    exact ⟨rfl, rfl⟩

variable (blake2b256) in
theorem receive_decoded (obf : Option Salamander) (batch : Network.Batch) :
    ∃ bufs metas, receive (ε := ε) blake2b256 obf (.ready (.ok batch.count)) batch.bufs
        batch.metas = .ok (.ready (.ok batch.count), bufs, metas) ∧
      ∀ i buf m, i < batch.count → batch.bufs[i]? = some buf → batch.metas[i]? = some m →
        bufs[i]? = some (decoded blake2b256 obf buf m).1 ∧
          metas[i]? = some (decoded blake2b256 obf buf m).2 := by
  cases obf with
  | none => exact ⟨_, _, rfl, fun _ _ _ _ hb hm => ⟨hb, hm⟩⟩
  | some obf =>
    obtain ⟨bufs, metas, hr, hd, -⟩ := pollRecv_eq (ε := ε) blake2b256 obf batch.count_le_bufs
      batch.count_le_metas fun i buf m hi hb hm => (batch.single i buf m hi hb hm).2
    exact ⟨bufs, metas, hr, hd⟩

/-- One action: no panic, the packets stay as their senders put them on the wire,
and a new batch is understood as far as the keys allow. -/
theorem step_understood (a : Action ι) {s : State ι ε}
    (hw : Wired blake2b256 ends s.sent) :
    ∃ s', step blake2b256 ends a s = .ok s' ∧ Wired blake2b256 ends s'.sent ∧
      s'.sent.map (fun p => (p.sender, p.plain)) =
        s.sent.map (fun p => (p.sender, p.plain)) ++ a.datagrams ends ∧
      s'.received.map (fun r => (r.receiver, r.delivery.batch)) =
        s.received.map (fun r => (r.receiver, r.delivery.batch)) ++ a.arrival.toList ∧
      ∀ r ∈ s'.received, r ∈ s.received ∨
        ∀ sent, Wired blake2b256 ends sent →
          Understood blake2b256 ends sent r := by
  cases a with
  | send i salt t =>
    obtain ⟨wire, hwire, hd, hp⟩ := send_wired blake2b256 ends i salt t
    refine ⟨{ s with sent := s.sent ++ packets (ends i) i salt t wire }, ?_, fun p hm => ?_,
      ?_, (List.append_nil _).symm, fun r hr => .inl hr⟩
    · rw [step, hwire, ok_bind]
      rfl
    · rcases List.mem_append.mp hm with h | h
      · exact hw p h
      · obtain ⟨hs, he⟩ := hp p h
        rw [he, hs]
    · rw [List.map_append, hd]
  | arrive i batch =>
    obtain ⟨bufs, metas, hr, hd⟩ := receive_decoded (ε := ε) blake2b256 (ends i) batch
    refine ⟨{ s with received := s.received ++
      [⟨i, batch, .ready (.ok batch.count), bufs, metas⟩] }, ?_, hw, (List.append_nil _).symm, ?_,
      fun r hm => ?_⟩
    · rw [step, hr, ok_bind]
      rfl
    · rw [List.map_append]
      rfl
    · rcases List.mem_append.mp hm with h | h
      · exact .inl h
      · rw [List.mem_singleton.mp h]
        refine .inr fun sent hsent k buf m hk hb hm => ?_
        obtain ⟨hb', hm'⟩ := hd k buf m hk hb hm
        refine ⟨_, _, hb', hm', fun p hp he => ?_⟩
        have key := decoded_take (ends p.sender) (ends i)
          (batch.single k buf m hk hb hm).2 (he.trans (hsent p hp))
        exact ⟨key, fun hlen => key.trans (agree_iff_sameKey _ _ _ hlen)⟩

/-- Whatever the network does, no call panics, and a packet that arrives whole is
understood exactly if the two ends agree on it; one at least as long as a key, exactly if they
have the same key. -/
theorem understood_iff_agree (actions : List (Action ι)) :
    ∃ s : State ι ε, run blake2b256 ends actions = .ok s ∧
      s.sent.map (fun p => (p.sender, p.plain)) = actions.flatMap (Action.datagrams ends) ∧
      s.received.map (fun r => (r.receiver, r.delivery.batch)) =
        actions.filterMap Action.arrival ∧
      ∀ r ∈ s.received, Understood blake2b256 ends s.sent r := by
  have hrun := forEach_invariant actions (step blake2b256 ends) (s := (⟨[], []⟩ : State ι ε))
    (fun i s => Wired blake2b256 ends s.sent ∧
      s.sent.map (fun p => (p.sender, p.plain)) =
        (actions.take i).flatMap (Action.datagrams ends) ∧
      s.received.map (fun r => (r.receiver, r.delivery.batch)) =
        (actions.take i).filterMap Action.arrival ∧
      ∀ r ∈ s.received, ∀ sent, Wired blake2b256 ends sent → Understood blake2b256 ends sent r)
    ?_ ⟨by simp [Wired], rfl, rfl, by simp⟩
  · obtain ⟨s, hr, hw, hsent, hreceived, hu⟩ := hrun
    rw [List.take_length] at hsent hreceived
    exact ⟨s, hr, hsent, hreceived, fun r hm => hu r hm _ hw⟩
  · rintro i a s ha ⟨hw, hsent, hreceived, hu⟩
    obtain ⟨s', hs', hw', hsent', hreceived', hd⟩ := step_understood a hw
    have htake : actions.take (i + 1) = actions.take i ++ [a] := by
      rw [List.take_add_one, ha]
      rfl
    refine ⟨s', hs', hw', ?_, ?_, fun r hm => ?_⟩
    · rw [hsent', hsent, htake, List.flatMap_append, List.flatMap_singleton]
    · rw [hreceived', hreceived, htake, List.filterMap_append]
      cases a <;> rfl
    · rcases hd r hm with h | h
      · exact hu r h
      · exact h

end ConstructTransport.Datagram.Keyed
