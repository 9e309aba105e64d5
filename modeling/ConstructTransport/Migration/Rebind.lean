import ConstructTransport.Basic.Interleaving
import ConstructTransport.Migration.Endpoint

/-! Migrating a connection to a fresh socket. A call samples the count of the
connection, binds a socket, swaps it in, reads the local address and then polls
until it has seen evidence, the connection close, or its deadline pass. Every
look at shared state is a step of its own, so other calls and the network come
between any two. -/

namespace ConstructTransport.Migration

open Datagram Dial Interleaving

/-- The errors of `rebind`, the first three by their context. -/
inductive RebindError
  /-- "bind replacement socket" -/
  | bindSocket
  /-- "rebind endpoint" -/
  | rebindEndpoint
  /-- "local addr after rebind" -/
  | localAddr
  /-- "connection died during migration" -/
  | died
  /-- "migration unconfirmed ... peer did not answer on" `addr` -/
  | unconfirmed (addr : SocketAddr)
  deriving DecidableEq, Repr

structure Wait where
  acceptedBefore : ℕ
  socket : ℕ
  localAddr : SocketAddr
  deadline : ℕ
  deriving DecidableEq, Repr

/-- What the loop looks at next. -/
inductive Check
  | closeReason
  | arrivals
  | accepted
  | deadline
  | asleep (wake : ℕ)
  deriving DecidableEq, Repr

/-- How far a call of `rebind` is. A call that returned keeps the socket it bound. -/
inductive Phase
  | sampling
  | binding (acceptedBefore : ℕ)
  | swapping (acceptedBefore socket : ℕ)
  | locating (acceptedBefore socket : ℕ)
  | arming (acceptedBefore socket : ℕ) (localAddr : SocketAddr)
  | waiting (wait : Wait) (check : Check)
  | returned (socket : Option ℕ) (verdict : Except RebindError SocketAddr)

/-- A step of a call, with the answers of the system to it. -/
inductive Act
  | sample
  | bind (port : Option UInt16)
  | swap (done : Bool)
  | locate (found : Bool)
  | arm
  | poll
  deriving DecidableEq, Repr

/-- One pass over a check of the loop. -/
def Wait.poll (w : Wait) (e : Endpoint) : Check → Option Phase
  | .closeReason =>
    if e.closed then some (.returned (some w.socket) (.error .died))
    else some (.waiting w .arrivals)
  | .arrivals =>
    if 0 < e.received w.socket then some (.waiting w .accepted) else some (.waiting w .deadline)
  | .accepted =>
    if w.acceptedBefore < e.accepted then some (.returned (some w.socket) (.ok w.localAddr))
    else some (.waiting w .deadline)
  | .deadline =>
    if w.deadline ≤ e.now then some (.returned (some w.socket) (.error (.unconfirmed w.localAddr)))
    else some (.waiting w (.asleep (e.now + migrationPollInterval)))
  | .asleep wake => if wake ≤ e.now then some (.waiting w .closeReason) else none

/-- `QuicClient::rebind`, step by step. -/
def rebind (e : Endpoint) : Phase → Act → Option (Endpoint × Phase)
  | .sampling, .sample => some (e, .binding e.accepted)
  | .binding _, .bind none => some (e, .returned none (.error .bindSocket))
  | .binding a, .bind (some port) =>
    some ({ e with sockets := e.sockets ++ [clientSocket e.recipe.bind e.recipe.obf port] },
      .swapping a e.sockets.length)
  | .swapping _ k, .swap false => some (e, .returned (some k) (.error .rebindEndpoint))
  | .swapping a k, .swap true =>
    some ({ e with current := k, previous := some e.current }, .locating a k)
  | .locating _ k, .locate false => some (e, .returned (some k) (.error .localAddr))
  | .locating a k, .locate true =>
    e.sockets[e.current]?.map fun socket => (e, .arming a k socket.addr)
  | .arming a k addr, .arm =>
    some (e, .waiting ⟨a, k, addr, e.now + migrationProofBudget⟩ .closeReason)
  | .waiting w check, .poll => (w.poll e check).map fun p => (e, p)
  | _, _ => none

/-- The client with any number of calls. -/
def client : System Endpoint Phase Event Act where
  env := Endpoint.handle
  act := rebind
  fresh := .sampling

def opened (recipe : SocketRecipe) (port : UInt16) : Config Endpoint Phase :=
  ⟨Endpoint.opened recipe port, []⟩

namespace Phase

def socket : Phase → Option ℕ
  | sampling | binding _ => none
  | swapping _ k | locating _ k | arming _ k _ => some k
  | waiting w _ => some w.socket
  | returned k _ => k

/-- The sample of a call that is under way. -/
def sample : Phase → Option ℕ
  | sampling | returned _ _ => none
  | binding a | swapping a _ | locating a _ | arming a _ _ => some a
  | waiting w _ => some w.acceptedBefore

def Swapped : Phase → Prop
  | sampling | binding _ | swapping _ _ => False
  | locating _ _ | arming _ _ _ | waiting _ _ => True
  | returned _ _ => False

end Phase

/-! ### What a step of a call can do -/

theorem Wait.poll_cases {w : Wait} {e : Endpoint} {check : Check} {p : Phase}
    (h : w.poll e check = some p) :
    (∃ check', p = .waiting w check' ∧ (check' = .accepted → 0 < e.received w.socket)) ∨
    (∃ err, p = .returned (some w.socket) (.error err)) ∨
    (check = .accepted ∧ w.acceptedBefore < e.accepted ∧
      p = .returned (some w.socket) (.ok w.localAddr)) := by
  cases check with
  | closeReason =>
    simp only [poll] at h
    split at h <;> cases h
    · exact .inr (.inl ⟨_, rfl⟩)
    · exact .inl ⟨_, rfl, nofun⟩
  | arrivals =>
    simp only [poll] at h
    split at h <;> cases h
    · next hr => exact .inl ⟨_, rfl, fun _ => hr⟩
    · exact .inl ⟨_, rfl, nofun⟩
  | accepted =>
    simp only [poll] at h
    split at h <;> cases h
    · next ha => exact .inr (.inr ⟨rfl, ha, rfl⟩)
    · exact .inl ⟨_, rfl, nofun⟩
  | deadline =>
    simp only [poll] at h
    split at h <;> cases h
    · exact .inr (.inl ⟨_, rfl⟩)
    · exact .inl ⟨_, rfl, nofun⟩
  | asleep wake =>
    simp only [poll] at h
    split at h <;> cases h
    exact .inl ⟨_, rfl, nofun⟩

/-- A step of a call samples, binds, swaps, polls, or looks and gives up. -/
theorem rebind_cases {e e' : Endpoint} {p p' : Phase} {a : Act}
    (h : rebind e p a = some (e', p')) :
    (p = .sampling ∧ e' = e ∧ p' = .binding e.accepted) ∨
    (∃ n port, p = .binding n ∧ p' = .swapping n e.sockets.length ∧
      e' = { e with sockets := e.sockets ++ [clientSocket e.recipe.bind e.recipe.obf port] }) ∨
    (∃ n k, p = .swapping n k ∧ p' = .locating n k ∧
      e' = { e with current := k, previous := some e.current }) ∨
    (∃ w check, p = .waiting w check ∧ e' = e ∧ w.poll e check = some p') ∨
    (e' = e ∧ p'.socket = p.socket ∧ p.sample ≠ none ∧
      (p'.sample = p.sample ∨ ∃ err, p' = .returned p.socket (.error err)) ∧
      (∀ n k, p' ≠ .swapping n k) ∧ ∀ w, p' ≠ .waiting w .accepted) := by
  unfold rebind at h
  split at h
  · cases h
    exact .inl ⟨rfl, rfl, rfl⟩
  · cases h
    refine .inr (.inr (.inr (.inr ⟨rfl, rfl, nofun, .inr ⟨_, rfl⟩, nofun, nofun⟩)))
  · cases h
    exact .inr (.inl ⟨_, _, rfl, rfl, rfl⟩)
  · cases h
    exact .inr (.inr (.inr (.inr ⟨rfl, rfl, nofun, .inr ⟨_, rfl⟩, nofun, nofun⟩)))
  · cases h
    exact .inr (.inr (.inl ⟨_, _, rfl, rfl, rfl⟩))
  · cases h
    exact .inr (.inr (.inr (.inr ⟨rfl, rfl, nofun, .inr ⟨_, rfl⟩, nofun, nofun⟩)))
  · obtain ⟨socket, -, he⟩ := Option.map_eq_some_iff.mp h
    cases he
    exact .inr (.inr (.inr (.inr ⟨rfl, rfl, nofun, .inl rfl, nofun, nofun⟩)))
  · cases h
    exact .inr (.inr (.inr (.inr ⟨rfl, rfl, nofun, .inl rfl, nofun, nofun⟩)))
  · obtain ⟨q, hq, he⟩ := Option.map_eq_some_iff.mp h
    cases he
    exact .inr (.inr (.inr (.inl ⟨_, _, rfl, rfl, hq⟩)))
  · contradiction

theorem rebind_counts {e e' : Endpoint} {p p' : Phase} {a : Act}
    (h : rebind e p a = some (e', p')) :
    e'.received = e.received ∧ e'.attributed = e.attributed ∧ e'.accepted = e.accepted ∧
      e.sockets.length ≤ e'.sockets.length := by
  rcases rebind_cases h with ⟨-, rfl, -⟩ | ⟨n, port, -, -, rfl⟩ | ⟨n, k, -, -, rfl⟩ |
    ⟨w, check, -, rfl, -⟩ | ⟨rfl, -⟩
  · exact ⟨rfl, rfl, rfl, le_rfl⟩
  · refine ⟨funext fun k => ?_, funext fun k => ?_, rfl, ?_⟩
    · exact countOf_append (rfl : (clientSocket e.recipe.bind e.recipe.obf port).received = 0) _ k
    · exact countOf_append (rfl : (clientSocket e.recipe.bind e.recipe.obf port).attributed = 0) _ k
    · simp
  · exact ⟨rfl, rfl, rfl, le_rfl⟩
  · exact ⟨rfl, rfl, rfl, le_rfl⟩
  · exact ⟨rfl, rfl, rfl, le_rfl⟩

theorem counts_of_sockets {e e' : Endpoint} (h : e'.sockets = e.sockets) :
    e'.received = e.received ∧ e'.attributed = e.attributed := by
  unfold Endpoint.received Endpoint.attributed
  rw [h]
  exact ⟨rfl, rfl⟩

/-! ### The sockets of the calls -/

/-- Polled sockets exist, and what waits in the inbox was attributed where it was read. -/
structure Endpoint.Sound (e : Endpoint) : Prop where
  polled_lt : ∀ k, e.Polled k → k < e.sockets.length
  attributed_pos : ∀ k ∈ e.inbox, 0 < e.attributed k

/-- The socket of a call exists and is not polled before the swap. -/
def Phase.Bound (e : Endpoint) (p : Phase) : Prop :=
  ∀ k, p.socket = some k → k < e.sockets.length ∧ ((∃ n, p = .swapping n k) → ¬e.Polled k)

/-- Two calls never share a socket. -/
def Phase.Apart (p q : Phase) : Prop := ∀ k, p.socket = some k → q.socket ≠ some k

theorem sound_handle {e e' : Endpoint} {ev : Event} (hs : e.Sound) (h : e.handle ev = some e') :
    e'.Sound ∧ (∀ k, e'.Polled k → e.Polled k) ∧ e'.sockets.length = e.sockets.length := by
  by_cases hr : ∃ k ours, ev = .read k ours
  · obtain ⟨k, ours, rfl⟩ := hr
    obtain ⟨-, hl, hc, hp, -, hi, -, ha⟩ := Endpoint.handle_read h
    have hpolled : ∀ j, e'.Polled j → e.Polled j := by
      intro j hj
      unfold Endpoint.Polled at hj ⊢
      rwa [hc, hp] at hj
    refine ⟨⟨fun j hj => hl ▸ hs.polled_lt j (hpolled j hj), fun j hj => ?_⟩, hpolled, hl⟩
    rw [ha]
    rw [hi] at hj
    cases ours with
    | false => exact Nat.add_pos_left (hs.attributed_pos j hj) _
    | true =>
      rcases List.mem_append.mp hj with hj | hj
      · exact Nat.add_pos_left (hs.attributed_pos j hj) _
      · rw [List.mem_singleton.mp hj, if_pos rfl]
        exact Nat.succ_pos _
  · obtain ⟨hk, hc, hp, hi⟩ := Endpoint.handle_frame h fun k ours he => hr ⟨k, ours, he⟩
    have hpolled : ∀ j, e'.Polled j → e.Polled j := by
      intro j hj
      unfold Endpoint.Polled at hj ⊢
      rcases hp with hp | hp <;> rw [hc, hp] at hj
      · exact hj
      · exact .inl (hj.resolve_right nofun)
    refine ⟨⟨fun j hj => hk ▸ hs.polled_lt j (hpolled j hj), fun j hj => ?_⟩, hpolled,
      congrArg _ hk⟩
    have hmem : j ∈ e.inbox := by
      rcases hi with ⟨hi, -⟩ | ⟨-, i, hi, -⟩
      · rwa [← hi]
      · rw [hi]
        exact List.mem_cons_of_mem _ hj
    have := hs.attributed_pos j hmem
    rwa [Endpoint.attributed, ← hk] at this

theorem sound_rebind {e e' : Endpoint} {p p' : Phase} {a : Act} (hs : e.Sound) (hb : p.Bound e)
    (h : rebind e p a = some (e', p')) :
    e'.Sound ∧ p'.Bound e' ∧ ∀ q : Phase, q.Bound e → p.Apart q → q.Bound e' ∧ p'.Apart q := by
  -- a step that neither binds nor swaps keeps the socket of the call
  have same : e' = e → p'.socket = p.socket → (∀ n k, p' ≠ .swapping n k) →
      e'.Sound ∧ p'.Bound e' ∧ ∀ q : Phase, q.Bound e → p.Apart q → q.Bound e' ∧ p'.Apart q := by
    rintro rfl hk hn
    refine ⟨hs, fun k h' => ⟨(hb k (hk ▸ h')).1, ?_⟩,
      fun q hq ha => ⟨hq, fun k h' => ha k (hk ▸ h')⟩⟩
    rintro ⟨n, he⟩
    exact absurd he (hn n k)
  rcases rebind_cases h with ⟨rfl, he, rfl⟩ | ⟨n, port, rfl, rfl, rfl⟩ | ⟨n, k, rfl, rfl, rfl⟩ |
    ⟨w, check, rfl, he, hw⟩ | ⟨he, hk, -, -, hn, -⟩
  · exact same he rfl fun _ _ hp => Phase.noConfusion hp
  · have hlen : (e.sockets ++ [clientSocket e.recipe.bind e.recipe.obf port]).length =
        e.sockets.length + 1 := List.length_append
    refine ⟨⟨fun k hk => ?_, fun k hk => ?_⟩, fun k hk => ?_, fun q hq _ => ⟨fun k hk => ?_, ?_⟩⟩
    · exact hlen ▸ Nat.lt_succ_of_lt (hs.polled_lt k hk)
    · have := hs.attributed_pos k hk
      have hnew : (clientSocket e.recipe.bind e.recipe.obf port).attributed = 0 := rfl
      rwa [Endpoint.attributed, ← countOf_append hnew] at this
    · cases hk
      exact ⟨hlen ▸ Nat.lt_succ_self _, fun _ hp => absurd (hs.polled_lt _ hp) (Nat.lt_irrefl _)⟩
    · exact ⟨hlen ▸ Nat.lt_succ_of_lt (hq k hk).1, (hq k hk).2⟩
    · intro k hk hk'
      cases hk
      exact Nat.lt_irrefl _ (hq _ hk').1
  · have hk := hb k rfl
    refine ⟨⟨fun j hj => ?_, hs.attributed_pos⟩, fun j hj => ?_,
      fun q hq ha => ⟨fun j hj => ?_, ha⟩⟩
    · rcases hj with rfl | hj
      · exact hk.1
      · cases hj
        exact hs.polled_lt _ (.inl rfl)
    · cases hj
      refine ⟨hk.1, ?_⟩
      rintro ⟨m, hm⟩
      contradiction
    · refine ⟨(hq j hj).1, fun hsw hp => ?_⟩
      rcases hp with rfl | hp
      · exact ha _ rfl hj
      · cases hp
        exact (hq _ hj).2 hsw (.inl rfl)
  · rcases Wait.poll_cases hw with ⟨check', rfl, -⟩ | ⟨err, rfl⟩ | ⟨-, -, rfl⟩
    · exact same he rfl fun _ _ hp => Phase.noConfusion hp
    · exact same he rfl fun _ _ hp => Phase.noConfusion hp
    · exact same he rfl fun _ _ hp => Phase.noConfusion hp
  · exact same he hk hn

abbrev ClientInv : Config Endpoint Phase → Prop :=
  System.Inv Endpoint.Sound (fun e p => p.Bound e) Phase.Apart

theorem opened_inv (recipe : SocketRecipe) (port : UInt16) :
    ClientInv (opened recipe port) := by
  refine System.inv_start ⟨?_, fun k hk => absurd hk List.not_mem_nil⟩
  rintro k (rfl | hk)
  · exact Nat.one_pos
  · contradiction

theorem step_clientInv {c c' : Config Endpoint Phase} {l : Label Event Act} (hc : ClientInv c)
    (hs : client.step c l = some c') : ClientInv c' := by
  refine client.step_inv ?_ ?_ ?_ ?_ hc hs
  · exact fun p q hpq k hq hp => hpq k hp hq
  · intro e ev e' he hev
    obtain ⟨hs, hp, hl⟩ := sound_handle he hev
    refine ⟨hs, fun q hq k hk => ?_⟩
    obtain ⟨hlt, hn⟩ := hq k hk
    exact ⟨hl ▸ hlt, fun hw hpo => hn hw (hp k hpo)⟩
  · exact fun e _ => ⟨nofun, fun q _ => nofun⟩
  · exact fun e p a e' p' he hp ha => sound_rebind he hp ha

theorem run_clientInv {recipe : SocketRecipe} {port : UInt16}
    {labels : List (Label Event Act)} {c : Config Endpoint Phase}
    (h : Runs.run client.step (opened recipe port) labels = some c) : ClientInv c :=
  Runs.run_invariant ClientInv (fun _ _ _ => step_clientInv) (opened_inv recipe port) h

end ConstructTransport.Migration
