import ConstructTransport.Dial.Ledger

/-! The endpoints a dial leaves behind. An endpoint is bound for each address it
tries and closed on every way out but one, so there is never more than one open,
and at the end it is the winner's or none. The addresses tried are the first of
the resolver's answer, each once and in its order. -/

namespace ConstructTransport.Dial

open Checked Datagram

variable {ε : Type}

/-! ### The candidates -/

theorem dialCandidates_concat (found : List SocketAddr) (addr : SocketAddr) :
    dialCandidates (found ++ [addr]) =
      if addr ∈ dialCandidates found then dialCandidates found
      else dialCandidates found ++ [addr] := by
  unfold dialCandidates
  rw [List.foldl_append, List.foldl_cons, List.foldl_nil]
  simp only [List.contains_iff_mem]

theorem mem_dialCandidates (found : List SocketAddr) (a : SocketAddr) :
    a ∈ dialCandidates found ↔ a ∈ found := by
  induction found using List.reverseRecOn with
  | nil => exact Iff.rfl
  | append_singleton found addr ih =>
    rw [dialCandidates_concat, List.mem_append, List.mem_singleton, ← ih]
    split
    · next hin =>
      refine ⟨.inl, ?_⟩
      rintro (ha | rfl)
      · exact ha
      · exact hin
    · rw [List.mem_append, List.mem_singleton]

/-- The candidates come in the order in which the answer first names them. -/
theorem dialCandidates_order (found : List SocketAddr) :
    (dialCandidates found).Pairwise fun a b => found.idxOf a < found.idxOf b := by
  induction found using List.reverseRecOn with
  | nil => exact List.Pairwise.nil
  | append_singleton found addr ih =>
    have hmem : ∀ a ∈ dialCandidates found, (found ++ [addr]).idxOf a = found.idxOf a :=
      fun a ha => List.idxOf_append_of_mem ((mem_dialCandidates found a).mp ha)
    have hold : (dialCandidates found).Pairwise fun a b =>
        (found ++ [addr]).idxOf a < (found ++ [addr]).idxOf b := by
      refine ih.imp_of_mem fun {a b} ha hb hlt => ?_
      rwa [hmem a ha, hmem b hb]
    rw [dialCandidates_concat]
    split
    · exact hold
    · next hnot =>
      refine List.pairwise_append.mpr ⟨hold, List.pairwise_singleton _ _, fun a ha b hb => ?_⟩
      have hnew : addr ∉ found := fun hin => hnot ((mem_dialCandidates found addr).mpr hin)
      rw [List.mem_singleton.mp hb, hmem a ha, List.idxOf_append_of_notMem hnew]
      have := List.idxOf_lt_length_of_mem ((mem_dialCandidates found a).mp ha)
      omega

/-! ### The events -/

/-- The endpoints bound and not yet closed, from those open before. -/
def replay : List SocketAddr → List DialEvent → List SocketAddr
  | ends, [] => ends
  | ends, .bound addr :: events => replay (addr :: ends) events
  | ends, .closed addr :: events => replay (ends.erase addr) events
  | ends, .awaited _ :: events => replay ends events
  | ends, .counted _ :: events => replay ends events

def openEndpoints (events : List DialEvent) : List SocketAddr := replay [] events

def boundAddrs (events : List DialEvent) : List SocketAddr :=
  events.filterMap fun
    | .bound addr => some addr
    | _ => none

def countedAddrs (events : List DialEvent) : List SocketAddr :=
  events.filterMap fun
    | .counted addr => some addr
    | _ => none

theorem replay_append (ends : List SocketAddr) (xs ys : List DialEvent) :
    replay ends (xs ++ ys) = replay (replay ends xs) ys := by
  induction xs generalizing ends with
  | nil => rfl
  | cons x xs ih => cases x <;> exact ih _

theorem replay_sublist {events : List DialEvent} (h : boundAddrs events = [])
    (ends : List SocketAddr) : (replay ends events).Sublist ends := by
  induction events generalizing ends with
  | nil => exact List.Sublist.refl ends
  | cons ev events ih =>
    cases ev with
    | awaited d => exact ih h ends
    | counted addr => exact ih h ends
    | closed addr => exact (ih h (ends.erase addr)).trans List.erase_sublist
    | bound addr => contradiction

theorem boundAddrs_take {events : List DialEvent} (h : boundAddrs events = []) (k : ℕ) :
    boundAddrs (events.take k) = [] := by
  have hsub := ((List.take_sublist k events).filterMap fun
    | DialEvent.bound addr => some addr
    | _ => none)
  exact List.sublist_nil.mp (h ▸ hsub)

/-- Never more than one endpoint is open. -/
def Single (events : List DialEvent) : Prop := ∀ k, (openEndpoints (events.take k)).length ≤ 1

theorem single_bound {events : List DialEvent} (h : boundAddrs events = []) (addr : SocketAddr) :
    Single (.bound addr :: events) := by
  intro k
  cases k with
  | zero => exact Nat.zero_le 1
  | succ k => exact (replay_sublist (boundAddrs_take h k) [addr]).length_le

theorem Single.append {xs ys : List DialEvent} (hx : Single xs) (hclosed : openEndpoints xs = [])
    (hy : Single ys) : Single (xs ++ ys) := by
  intro k
  rw [List.take_append]
  rcases Nat.le_total k xs.length with h | h
  · rw [Nat.sub_eq_zero_of_le h, List.take_zero, List.append_nil]
    exact hx k
  · have hnone : replay [] xs = [] := hclosed
    rw [List.take_of_length_le h, openEndpoints, replay_append, hnone]
    exact hy (k - xs.length)

/-! ### One attempt -/

/-- The failure an attempt at `addr` ends with, by the first step that fails. -/
inductive Attempt.Fails (a : Attempt ε) (addr : SocketAddr) : Failure ε → Prop
  | bind {e : ε} (hb : a.bind = .error e) : Fails a addr (.bindEndpoint addr e)
  | start {e : ε} (hb : a.bind = .ok ()) (hs : a.start = .error e) : Fails a addr (.startConnect e)
  | timedOut (hb : a.bind = .ok ()) (hs : a.start = .ok ()) (hq : a.quic = none) :
      Fails a addr (.handshakeTimedOut addr)
  | quic {e : ε} (hb : a.bind = .ok ()) (hs : a.start = .ok ()) (hq : a.quic = some (.error e)) :
      Fails a addr (.handshakeFailed addr e)
  | setup {e : ε} (hb : a.bind = .ok ()) (hs : a.start = .ok ()) (hq : a.quic = some (.ok ()))
      (hu : a.setup = .error e) : Fails a addr (.setup e)

theorem Attempt.Fails.not_wins {a : Attempt ε} {addr : SocketAddr} {f : Failure ε}
    (h : a.Fails addr f) : a.wins = false := by
  cases h with
  | bind hb => simp [wins, setsUp, starts, hb]
  | start hb hs => simp [wins, setsUp, starts, hb, hs]
  | timedOut hb hs hq => simp [wins, setsUp, starts, hb, hs, hq]
  | quic hb hs hq => simp [wins, setsUp, starts, hb, hs, hq]
  | setup hb hs hq hu => simp [wins, setsUp, starts, hb, hs, hq, hu]

/-- A handshake wins and leaves its endpoint open and counted, or fails and closes it. -/
theorem handshake_outcome {a : Attempt ε} (hb : a.bind = .ok ()) (recipe : SocketRecipe)
    (addr : SocketAddr) (budget pace : Duration) :
    (∃ events, handshake recipe addr budget pace a = (.ok ⟨addr, recipe⟩, events) ∧
      a.wins = true ∧ boundAddrs events = [] ∧ replay [addr] events = [addr] ∧
      countedAddrs events = [addr]) ∨
    (∃ f events, handshake recipe addr budget pace a = (.error f, events) ∧ a.Fails addr f ∧
      boundAddrs events = [] ∧ replay [addr] events = [] ∧ countedAddrs events = []) := by
  have hclose : [addr].erase addr = [] := List.erase_cons_head addr []
  unfold handshake
  cases hs : a.start with
  | error e => exact .inr ⟨_, _, rfl, .start hb hs, rfl, hclose, rfl⟩
  | ok =>
    rcases hq : a.quic with _ | _ | _
    · exact .inr ⟨_, _, rfl, .timedOut hb hs hq, rfl, hclose, rfl⟩
    · exact .inr ⟨_, _, rfl, .quic hb hs hq, rfl, hclose, rfl⟩
    · cases hu : a.setup with
      | error e => exact .inr ⟨_, _, rfl, .setup hb hs hq hu, rfl, hclose, rfl⟩
      | ok =>
        have hw : a.wins = true := by
          simp [Attempt.wins, Attempt.setsUp, Attempt.starts, hb, hs, hq, hu]
        exact .inl ⟨_, rfl, hw, rfl, rfl, rfl⟩

/-! ### The loop -/

/-- The addresses of `addrs`, tried from attempt `i` on, that a socket can be bound for. -/
def bindable (net : Network ε) : ℕ → List SocketAddr → List SocketAddr
  | _, [] => []
  | i, addr :: rest =>
    match (net.attempt i).bind with
    | .ok () => addr :: bindable net (i + 1) rest
    | .error _ => bindable net (i + 1) rest

/-- The client is that of the first attempt that wins, and its endpoint alone is
open and counted; nothing was bound behind it. -/
structure Won (obf : Option Salamander) (net : Network ε) (i : ℕ) (tried : List SocketAddr)
    (client : QuicClient) (events : List DialEvent) (j : ℕ) (addr : SocketAddr) : Prop where
  addr_eq : tried[j]? = some addr
  wins : (net.attempt (i + j)).wins = true
  first : ∀ m < j, (net.attempt (i + m)).wins = false
  client_eq : client = ⟨addr, ⟨bindAddrFor addr, obf⟩⟩
  opened : openEndpoints events = [addr]
  counted : countedAddrs events = [addr]
  bound : boundAddrs events = bindable net i (tried.take (j + 1))

/-- Every attempt failed, each for a reason of its own; nothing is open or counted. -/
structure Lost (net : Network ε) (i : ℕ) (tried : List SocketAddr) (failures : List (Failure ε))
    (events : List DialEvent) : Prop where
  count : failures.length = tried.length
  fails : ∀ j addr f, tried[j]? = some addr → failures[j]? = some f →
    (net.attempt (i + j)).Fails addr f
  opened : openEndpoints events = []
  counted : countedAddrs events = []
  bound : boundAddrs events = bindable net i tried

/-- What a dial of the addresses `tried`, at its attempt `i` and with the failures
`failed` so far, comes to. -/
structure Kept (obf : Option Salamander) (net : Network ε) (i : ℕ) (tried : List SocketAddr)
    (failed : List (Failure ε)) (r : Except (ConnectError ε) QuicClient)
    (events : List DialEvent) : Prop where
  single : Single events
  won : ∀ client, r = .ok client → ∃ j addr, Won obf net i tried client events j addr
  lost : ∀ e, r = .error e →
    ∃ failures, e = .handshakesFailed (failed ++ failures) ∧ Lost net i tried failures events

/-- A failed attempt in front of a dial: what it binds it closes before the rest. -/
theorem Kept.cons {obf : Option Salamander} {net : Network ε} {i : ℕ} {addr : SocketAddr}
    {rest : List SocketAddr} {failed : List (Failure ε)} {f : Failure ε}
    {r : Except (ConnectError ε) QuicClient} {later : List DialEvent} (events : List DialEvent)
    (hf : (net.attempt i).Fails addr f) (hs : Single events) (ho : openEndpoints events = [])
    (hc : countedAddrs events = [])
    (hb : ∀ addrs, boundAddrs events ++ bindable net (i + 1) addrs = bindable net i (addr :: addrs))
    (h : Kept obf net (i + 1) rest (failed ++ [f]) r later) :
    Kept obf net i (addr :: rest) failed r (events ++ later) := by
  have hopen : openEndpoints (events ++ later) = openEndpoints later := by
    have hnone : replay [] events = [] := ho
    rw [openEndpoints, replay_append, hnone, openEndpoints]
  have hcount : countedAddrs (events ++ later) = countedAddrs later := by
    have : countedAddrs (events ++ later) = countedAddrs events ++ countedAddrs later :=
      List.filterMap_append
    rw [this, hc, List.nil_append]
  have hbound : boundAddrs (events ++ later) = boundAddrs events ++ boundAddrs later :=
    List.filterMap_append
  refine ⟨hs.append ho h.single, fun client hr => ?_, fun e hr => ?_⟩
  · obtain ⟨j, addr', hw⟩ := h.won client hr
    refine ⟨j + 1, addr', hw.addr_eq, ?_, fun m hm => ?_, hw.client_eq, hopen.trans hw.opened,
      hcount.trans hw.counted, ?_⟩
    · rw [Nat.add_comm j 1, ← Nat.add_assoc]
      exact hw.wins
    · cases m with
      | zero => exact hf.not_wins
      | succ m =>
        rw [Nat.add_comm m 1, ← Nat.add_assoc]
        exact hw.first m (by omega)
    · rw [hbound, hw.bound, List.take_succ_cons]
      exact hb _
  · obtain ⟨failures, rfl, hl⟩ := h.lost e hr
    refine ⟨f :: failures, by simp, by simp [hl.count], fun j a g ha hg => ?_,
      hopen.trans hl.opened, hcount.trans hl.counted, ?_⟩
    · cases j with
      | zero =>
        cases ha
        cases hg
        exact hf
      | succ j =>
        rw [Nat.add_comm j 1, ← Nat.add_assoc]
        exact hl.fails j a g ha hg
    · rw [hbound, hl.bound]
      exact hb _

theorem dialLoop_kept (obf : Option Salamander) (budget : Duration) (net : Network ε) (pace : Pace)
    (tried : List SocketAddr) (i : ℕ) (failed : List (Failure ε)) :
    Kept obf net i tried failed (dialLoop obf budget net pace tried i failed).1
      (dialLoop obf budget net pace tried i failed).2 := by
  induction tried generalizing i failed with
  | nil =>
    rw [dialLoop_nil]
    refine ⟨fun k => ?_, nofun, ?_⟩
    · rw [List.take_nil]
      exact Nat.zero_le 1
    · rintro e he
      cases he
      exact ⟨[], by rw [List.append_nil], rfl, nofun, rfl, rfl, rfl⟩
  | cons addr rest ih =>
    cases hb : (net.attempt i).bind with
    | error e =>
      rw [dialLoop_unbound hb]
      refine Kept.cons [] (.bind hb) (fun k => ?_) rfl rfl (fun addrs => ?_) (ih _ _)
      · rw [List.take_nil]
        exact Nat.zero_le 1
      · rw [bindable, hb]
        rfl
    | ok =>
      have hbind : ∀ addrs, bindable net i (addr :: addrs) =
          addr :: bindable net (i + 1) addrs := by
        intro addrs
        rw [bindable, hb]
      rcases handshake_outcome hb ⟨bindAddrFor addr, obf⟩ addr budget (pace.quic i) with
        ⟨events, hr, hw, hnone, ho, hc⟩ | ⟨f, events, hr, hf, hnone, ho, hc⟩
      · rw [dialLoop_won hb hr]
        refine ⟨single_bound hnone addr, fun client he => ?_, nofun⟩
        cases he
        refine ⟨0, addr, rfl, hw, nofun, rfl, ho, hc, ?_⟩
        rw [List.take_succ_cons, List.take_zero, hbind]
        exact congrArg (addr :: ·) hnone
      · rw [dialLoop_lost hb hr, ← List.cons_append]
        refine Kept.cons _ hf (single_bound hnone addr) ho hc (fun addrs => ?_) (ih _ _)
        rw [hbind]
        exact congrArg (fun xs => addr :: (xs ++ bindable net (i + 1) addrs)) hnone

theorem connectWith_recipe {obf : Option Salamander} {net : Network ε} {pace : Pace}
    {client : QuicClient} {events : List DialEvent}
    (h : connectWith obf net pace = .ok (.ok client, events)) :
    client.recipe = ⟨bindAddrFor client.addr, obf⟩ := by
  by_cases hn : net.candidates = []
  · obtain ⟨e, events', he, -⟩ := connectWith_stops hn obf pace
    cases he.symm.trans h
  · obtain ⟨r, events', hr, hloop⟩ := connectWith_dials hn obf pace
    cases hr.symm.trans h
    have hk := dialLoop_kept obf (slice net.candidates.length) net pace
      (net.candidates.take (attempts net.candidates.length)) 0 []
    rw [← hloop] at hk
    obtain ⟨j, addr, hw⟩ := hk.won client rfl
    rw [hw.client_eq]

/-- A dial of a resolver's answer tries its first addresses, each once and in
order, has one endpoint open at a time, and leaves only the winner's. -/
theorem dial_keeps_endpoints (obf : Option Salamander) (net : Network ε) (pace : Pace)
    (found : List SocketAddr) :
    ∃ n slice r events, dialPlan (dialCandidates found).length = .ok (n, slice) ∧
      dial obf net pace (dialCandidates found) = .ok (r, events) ∧
      Kept obf net 0 ((dialCandidates found).take n) [] r events ∧
      ((dialCandidates found).Pairwise fun a b => found.idxOf a < found.idxOf b) ∧
      ∀ a, a ∈ dialCandidates found ↔ a ∈ found := by
  refine ⟨_, _, _, _, dialPlan_eq _, ?_,
    dialLoop_kept obf (slice (dialCandidates found).length) net pace _ 0 [],
    dialCandidates_order found, mem_dialCandidates found⟩
  rw [dial, dialPlan_eq, ok_bind]
  rfl

end ConstructTransport.Dial
