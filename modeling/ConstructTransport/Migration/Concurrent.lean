import ConstructTransport.Migration.Rebind

/-! Calls of `rebind` that overlap. The address a call returns is that of whatever
socket is current when it looks, the evidence is of the socket it bound. The two
are one socket where no other call swaps between its swap and its look. -/

namespace ConstructTransport.Migration

open Datagram Dial Interleaving Runs

/-! ### What a step does to a socket -/

theorem handle_received_le {e e' : Endpoint} {ev : Event} (h : e.handle ev = some e') (k : ℕ) :
    e.received k ≤ e'.received k := by
  by_cases hr : ∃ j ours, ev = .read j ours
  · obtain ⟨j, ours, rfl⟩ := hr
    obtain ⟨-, -, -, -, -, -, hrec, -⟩ := Endpoint.handle_read h
    exact (Nat.le_add_right _ _).trans (hrec k).ge
  · obtain ⟨hs, -⟩ := Endpoint.handle_frame h fun j ours he => hr ⟨j, ours, he⟩
    exact (congrFun (counts_of_sockets hs).1 k).ge

theorem handle_current {e e' : Endpoint} {ev : Event} (h : e.handle ev = some e') :
    e'.current = e.current := by
  by_cases hr : ∃ j ours, ev = .read j ours
  · obtain ⟨j, ours, rfl⟩ := hr
    exact (Endpoint.handle_read h).2.2.1
  · exact (Endpoint.handle_frame h fun j ours he => hr ⟨j, ours, he⟩).2.1

theorem rebind_addrOf {e e' : Endpoint} {p p' : Phase} {a : Act} {k : ℕ} {addr : SocketAddr}
    (h : rebind e p a = some (e', p')) (hk : e.addrOf k = some addr) :
    e'.addrOf k = some addr := by
  rcases rebind_cases h with ⟨-, rfl, -⟩ | ⟨n, port, -, -, rfl⟩ | ⟨n, j, -, -, rfl⟩ |
    ⟨w, check, -, rfl, -⟩ | ⟨rfl, -⟩
  · exact hk
  · obtain ⟨socket, hs, rfl⟩ := Option.map_eq_some_iff.mp hk
    have hlt := (List.getElem?_eq_some_iff.mp hs).1
    rw [Endpoint.addrOf, List.getElem?_append_left hlt, hs]
    rfl
  · exact hk
  · exact hk
  · exact hk

theorem rebind_current {e e' : Endpoint} {p p' : Phase} {a : Act}
    (h : rebind e p a = some (e', p')) (ha : a ≠ .swap true) : e'.current = e.current := by
  unfold rebind at h
  split at h
  case h_5 => exact absurd rfl ha
  case h_7 =>
    obtain ⟨socket, -, he⟩ := Option.map_eq_some_iff.mp h
    cases he
    rfl
  case h_9 =>
    obtain ⟨q, -, he⟩ := Option.map_eq_some_iff.mp h
    cases he
    rfl
  case h_10 => contradiction
  all_goals
    cases h
    rfl

/-! ### One call among others -/

/-- The verdict of a call is about its own socket `k`. -/
structure Reported (e : Endpoint) (k : ℕ) (addr : SocketAddr) : Prop where
  addr_eq : e.addrOf k = some addr
  arrived : 0 < e.received k

/-- What call `c` may rely on: no other call swaps while it has swapped and not looked. -/
def Unswapped (c : ℕ) (s : Config Endpoint Phase) (l : Label Event Act) : Prop :=
  ∀ j, j ≠ c → l = .act j (.swap true) → ∀ n k, s.procs[c]? ≠ some (.locating n k)

def Phase.Own (e : Endpoint) : Phase → Prop
  | .locating _ k => e.current = k
  | .arming _ k addr => e.addrOf k = some addr
  | .waiting w check =>
    e.addrOf w.socket = some w.localAddr ∧ (check = .accepted → 0 < e.received w.socket)
  | .returned (some k) (.ok addr) => Reported e k addr
  | _ => True

theorem own_step {e e' : Endpoint} {p p' : Phase} {a : Act}
    (h : rebind e p a = some (e', p')) (hp : p.Own e) : p'.Own e' := by
  unfold rebind at h
  split at h
  · cases h; trivial
  · cases h; trivial
  · cases h; trivial
  · cases h; trivial
  · cases h; rfl
  · cases h; trivial
  · obtain ⟨socket, hs, he⟩ := Option.map_eq_some_iff.mp h
    cases he
    cases (show e.current = _ from hp)
    exact congrArg (Option.map Socket.addr) hs
  · cases h
    exact ⟨hp, fun hc => Check.noConfusion hc⟩
  · obtain ⟨q, hq, he⟩ := Option.map_eq_some_iff.mp h
    cases he
    obtain ⟨haddr, hrec⟩ := hp
    rcases Wait.poll_cases hq with ⟨check', rfl, hacc⟩ | ⟨err, rfl⟩ | ⟨rfl, -, rfl⟩
    · exact ⟨haddr, hacc⟩
    · trivial
    · exact ⟨haddr, hrec rfl⟩
  · contradiction

/-- Nothing takes from a call what it has looked at, unless its socket is swapped out before. -/
theorem Phase.Own.mono {e e' : Endpoint} {p : Phase} (hp : p.Own e)
    (hc : (∃ n k, p = .locating n k) → e'.current = e.current)
    (ha : ∀ k addr, e.addrOf k = some addr → e'.addrOf k = some addr)
    (hr : ∀ k, e.received k ≤ e'.received k) : p.Own e' := by
  cases p with
  | sampling => trivial
  | binding n => trivial
  | swapping n k => trivial
  | locating n k => exact (hc ⟨n, k, rfl⟩).trans hp
  | arming n k addr => exact ha _ _ hp
  | waiting w check => exact ⟨ha _ _ hp.1, fun h => (hp.2 h).trans_le (hr _)⟩
  | returned k verdict =>
    cases k with
    | none => trivial
    | some k =>
      cases verdict with
      | error err => trivial
      | ok addr => exact ⟨ha _ _ hp.addr_eq, hp.arrived.trans_le (hr _)⟩

theorem step_own {c : ℕ} {s s' : Config Endpoint Phase} {l : Label Event Act}
    (hs : client.step s l = some s') (hc : Unswapped c s l)
    (h : ∀ p, s.procs[c]? = some p → p.Own s.shared) :
    ∀ p, s'.procs[c]? = some p → p.Own s'.shared := by
  refine client.step_follow hs h ?_ trivial ?_ ?_
  · intro ev e p _ _ hp he
    exact hp.mono (fun _ => handle_current he)
      (fun k addr hk => (Endpoint.handle_addrOf he k).trans hk) (handle_received_le he)
  · exact fun a p e p' _ _ hp ha => own_step ha hp
  · intro j a p q e q' hj hl hpc hp _ ha
    refine hp.mono ?_ (fun k addr => rebind_addrOf ha) fun k => (congrFun (rebind_counts ha).1 k).ge
    rintro ⟨n, k, rfl⟩
    refine rebind_current ha fun he => ?_
    exact hc j hj (hl.trans (congrArg _ he)) n k hpc

/-- A call that returns `Ok` returns the address of the socket it installed, and a
datagram arrived there. -/
theorem overlapping_rebinds_sound {recipe : SocketRecipe} {port : UInt16}
    {labels : List (Label Event Act)} {s : Config Endpoint Phase} {c k : ℕ} {addr : SocketAddr}
    (h : run client.step (opened recipe port) labels = some s)
    (hk : s.procs[c]? = some (.returned (some k) (.ok addr)))
    (cond : Along client.step (Unswapped c) (opened recipe port) labels) :
    Reported s.shared k addr := by
  have hown : ∀ p, s.procs[c]? = some p → p.Own s.shared :=
    client.run_follow (fun _ _ _ => step_own) cond rfl h
  exact hown _ hk

/-- Two calls bind their sockets and the first swaps; what comes before it looks is given. -/
def overlapping (between : List (Label Event Act)) : List (Label Event Act) :=
  [.spawn, .spawn, .act 0 .sample, .act 1 .sample, .act 0 (.bind (some 40001)),
    .act 1 (.bind (some 40002)), .act 0 (.swap true)] ++ between ++
  [.act 0 (.locate true), .act 0 .arm, .env (.read 1 true), .env .account, .act 0 .poll,
    .act 0 .poll, .act 0 .poll]

theorem overlapping_rebinds_sound_unswapped : ∃ s,
    run client.step (opened ⟨⟨.v4 0, 0⟩, none⟩ 40000) (overlapping []) = some s ∧
      Reported s.shared 1 ⟨.v4 0, 40001⟩ := by
  obtain ⟨s, hr, hk⟩ : ∃ s,
      run client.step (opened ⟨⟨.v4 0, 0⟩, none⟩ 40000) (overlapping []) = some s ∧
      s.procs[0]? = some (.returned (some 1) (.ok ⟨.v4 0, 40001⟩)) := ⟨_, rfl, rfl⟩
  refine ⟨s, hr, overlapping_rebinds_sound hr hk (along_of_forall fun l hl s j hj he => ?_)⟩
  subst he
  simp [overlapping, hj] at hl

/-- The second call swaps before the first looks, and the peer answers on the first
call's socket: the first call returns the address of the second's. -/
theorem swapped_between : ¬∀ recipe port labels (s : Config Endpoint Phase) (c k : ℕ) addr,
    run client.step (opened recipe port) labels = some s →
    s.procs[c]? = some (.returned (some k) (.ok addr)) → Reported s.shared k addr := by
  intro h
  obtain ⟨s, hr, hk, ha⟩ : ∃ s, run client.step (opened ⟨⟨.v4 0, 0⟩, none⟩ 40000)
      (overlapping [.act 1 (.swap true)]) = some s ∧
      s.procs[0]? = some (.returned (some 1) (.ok ⟨.v4 0, 40002⟩)) ∧
      s.shared.addrOf 1 = some ⟨.v4 0, 40001⟩ := ⟨_, rfl, rfl, rfl⟩
  have := ha.symm.trans (h _ _ _ s 0 1 _ hr hk).addr_eq
  contradiction

end ConstructTransport.Migration
