import ConstructTransport.Migration.Rebind

/-! Whether the verdict of a migration is sound: a call that returns `Ok` should
have seen a datagram of its own connection arrive on the socket it swapped in.
The code takes two counters for that, and they may be moved by two datagrams,
one of a stranger on the new socket and one of the peer on the old one. Where
either of the two kinds stays away the verdict is sound. -/

namespace ConstructTransport.Migration

open Datagram Dial Interleaving Runs

theorem received_unbound (e : Endpoint) : e.received e.sockets.length = 0 := by
  unfold Endpoint.received countOf
  rw [List.getElem?_eq_none le_rfl]
  rfl

/-! ### The two conditions -/

/-- No datagram of a stranger is read from the socket of call `c`. -/
def NoStranger (c : ℕ) (s : Config Endpoint Phase) (l : Label Event Act) : Prop :=
  ∀ k p, l = .env (.read k false) → s.procs[c]? = some p → p.socket ≠ some k

/-- From the sample of call `c` on, the connection takes up datagrams read from its socket only. -/
def OwnOnly (c : ℕ) (s : Config Endpoint Phase) (l : Label Event Act) : Prop :=
  ∀ k p, l = .env .account → s.shared.inbox.head? = some k → s.procs[c]? = some p →
    p.sample ≠ none → p.socket = some k

/-- The socket of the call has received nothing but attributed datagrams. -/
def Phase.Unshared (e : Endpoint) (p : Phase) : Prop :=
  (∀ k, p.socket = some k → e.received k ≤ e.attributed k) ∧
    ∀ w, p = .waiting w .accepted → 0 < e.received w.socket

/-- What the connection has taken up since the sample came over the socket of the call. -/
def Phase.Vouched (e : Endpoint) (p : Phase) : Prop :=
  ∀ n, p.sample = some n → n < e.accepted → ∃ k, p.socket = some k ∧ 0 < e.attributed k

theorem step_unshared {c : ℕ} {s s' : Config Endpoint Phase} {l : Label Event Act}
    (hs : client.step s l = some s') (hc : NoStranger c s l)
    (h : ∀ p, s.procs[c]? = some p → p.Unshared s.shared) :
    ∀ p, s'.procs[c]? = some p → p.Unshared s'.shared := by
  refine client.step_follow hs h ?_ ⟨nofun, nofun⟩ ?_ ?_
  · rintro ev e' p rfl hp ⟨hu, hw⟩ he
    by_cases hr : ∃ k ours, ev = .read k ours
    · obtain ⟨k, ours, rfl⟩ := hr
      obtain ⟨-, -, -, -, -, -, hrec, hatt⟩ := Endpoint.handle_read he
      refine ⟨fun j hj => ?_, fun w hpw => ?_⟩
      · rw [hrec, hatt]
        by_cases hjk : j = k
        · rw [if_pos hjk, if_pos hjk]
          cases ours with
          | true => exact Nat.add_le_add_right (hu j hj) 1
          | false => exact absurd (hjk ▸ hj) (hc k p rfl hp)
        · rw [if_neg hjk, if_neg hjk]
          exact hu j hj
      · rw [hrec]
        exact Nat.add_pos_left (hw w hpw) _
    · obtain ⟨hk, -⟩ := Endpoint.handle_frame he fun k ours h' => hr ⟨k, ours, h'⟩
      obtain ⟨hrec, hatt⟩ := counts_of_sockets hk
      unfold Phase.Unshared
      rw [hrec, hatt]
      exact ⟨hu, hw⟩
  · rintro a p e' p' rfl hp ⟨hu, hw⟩ ha
    obtain ⟨hrec, hatt, -, -⟩ := rebind_counts ha
    unfold Phase.Unshared
    rw [hrec, hatt]
    rcases rebind_cases ha with ⟨rfl, -, rfl⟩ | ⟨n, port, rfl, rfl, -⟩ | ⟨n, k, rfl, rfl, -⟩ |
      ⟨w, check, rfl, -, hpoll⟩ | ⟨-, hk, -, -, -, hn⟩
    · exact ⟨nofun, nofun⟩
    · refine ⟨fun k hk => ?_, nofun⟩
      cases hk
      exact (received_unbound s.shared).trans_le (Nat.zero_le _)
    · exact ⟨hu, nofun⟩
    · rcases Wait.poll_cases hpoll with ⟨check', rfl, hacc⟩ | ⟨err, rfl⟩ | ⟨-, -, rfl⟩
      · refine ⟨hu, fun w' hw' => ?_⟩
        cases hw'
        exact hacc rfl
      · exact ⟨hu, nofun⟩
      · exact ⟨hu, nofun⟩
    · exact ⟨fun k hk' => hu k (hk ▸ hk'), fun w hw' => absurd hw' (hn w)⟩
  · rintro j a p q e' q' - - - ⟨hu, hw⟩ - ha
    obtain ⟨hrec, hatt, -, -⟩ := rebind_counts ha
    unfold Phase.Unshared
    rw [hrec, hatt]
    exact ⟨hu, hw⟩

theorem step_vouched {c : ℕ} {s s' : Config Endpoint Phase} {l : Label Event Act}
    (hs : client.step s l = some s') (hc : OwnOnly c s l) (hi : s.shared.Sound)
    (h : ∀ p, s.procs[c]? = some p → p.Vouched s.shared) :
    ∀ p, s'.procs[c]? = some p → p.Vouched s'.shared := by
  refine client.step_follow hs h ?_ nofun ?_ ?_
  · rintro ev e' p rfl hp hv he n hn hlt
    by_cases hr : ∃ k ours, ev = .read k ours
    · obtain ⟨k, ours, rfl⟩ := hr
      obtain ⟨-, -, -, -, hacc, -, -, hatt⟩ := Endpoint.handle_read he
      obtain ⟨j, hj, hpos⟩ := hv n hn (hacc ▸ hlt)
      exact ⟨j, hj, hatt j ▸ Nat.add_pos_left hpos _⟩
    · obtain ⟨hk, -, -, ⟨-, hacc⟩ | ⟨rfl, j, hin, hacc⟩⟩ :=
        Endpoint.handle_frame he fun k ours h' => hr ⟨k, ours, h'⟩
      · rw [(counts_of_sockets hk).2]
        exact hv n hn (hacc ▸ hlt)
      · have hj : j ∈ s.shared.inbox := by
          rw [hin]
          exact List.mem_cons_self
        refine ⟨j, hc j p rfl (by rw [hin]; rfl) hp (by rw [hn]; nofun), ?_⟩
        rw [(counts_of_sockets hk).2]
        exact hi.attributed_pos j hj
  · rintro a p e' p' rfl hp hv ha n hn hlt
    obtain ⟨-, hatt, hacc, -⟩ := rebind_counts ha
    rw [hatt]
    rw [hacc] at hlt
    rcases rebind_cases ha with ⟨rfl, -, rfl⟩ | ⟨m, port, rfl, rfl, -⟩ | ⟨m, k, rfl, rfl, -⟩ |
      ⟨w, check, rfl, -, hpoll⟩ | ⟨-, hk, -, hsam | ⟨err, rfl⟩, -, -⟩
    · cases hn
      exact absurd hlt (Nat.lt_irrefl _)
    · obtain ⟨k, hk, -⟩ := hv n hn hlt
      contradiction
    · exact hv n hn hlt
    · rcases Wait.poll_cases hpoll with ⟨check', rfl, -⟩ | ⟨err, rfl⟩ | ⟨-, -, rfl⟩
      · exact hv n hn hlt
      · contradiction
      · contradiction
    · rw [hk]
      exact hv n (hsam ▸ hn) hlt
    · contradiction
  · rintro j a p q e' q' - - hp hv - ha n hn hlt
    obtain ⟨-, hatt, hacc, -⟩ := rebind_counts ha
    rw [hatt]
    exact hv n hn (hacc ▸ hlt)

/-! ### The verdict -/

variable {recipe : SocketRecipe} {port : UInt16} {labels : List (Label Event Act)}

/-- The step that returns `Ok` has both counters against it. -/
theorem poll_ok {e e' : Endpoint} {p : Phase} {a : Act} {k : Option ℕ} {addr : SocketAddr}
    (h : rebind e p a = some (e', .returned k (.ok addr))) :
    ∃ w, p = .waiting w .accepted ∧ k = some w.socket ∧ w.acceptedBefore < e.accepted := by
  rcases rebind_cases h with ⟨-, -, he⟩ | ⟨n, port, -, he, -⟩ | ⟨n, k, -, he, -⟩ |
    ⟨w, check, rfl, -, hpoll⟩ | ⟨-, -, hn, hsam | ⟨err, he⟩, -, -⟩
  · contradiction
  · contradiction
  · contradiction
  · rcases Wait.poll_cases hpoll with ⟨check', he, -⟩ | ⟨err, he⟩ | ⟨rfl, hlt, he⟩
    · contradiction
    · cases he
    · cases he
      exact ⟨w, rfl, rfl, hlt⟩
  · exact absurd hsam.symm hn
  · cases he

/-- A socket that exists and is not the socket of a call under way does not become it. -/
theorem step_not_mine {c k : ℕ} {s s' : Config Endpoint Phase} {l : Label Event Act}
    (hs : client.step s l = some s') (hlt : k < s.shared.sockets.length)
    (h : ∀ p, s.procs[c]? = some p → p.socket = some k → p.sample = none) :
    k < s'.shared.sockets.length ∧
      ∀ p, s'.procs[c]? = some p → p.socket = some k → p.sample = none := by
  constructor
  · rcases client.step_cases hs with ⟨ev, e, -, he, rfl⟩ | ⟨-, rfl⟩ | ⟨i, a, p, e, q, -, -, ha, rfl⟩
    · by_cases hr : ∃ k ours, ev = .read k ours
      · obtain ⟨j, ours, rfl⟩ := hr
        obtain ⟨-, hl, -⟩ := Endpoint.handle_read he
        exact hl.symm ▸ hlt
      · obtain ⟨hk, -⟩ := Endpoint.handle_frame he fun k ours h' => hr ⟨k, ours, h'⟩
        exact hk.symm ▸ hlt
    · exact hlt
    · exact hlt.trans_le (rebind_counts ha).2.2.2
  · refine client.step_follow (T := fun _ p => p.socket = some k → p.sample = none) hs h
      (fun _ _ _ _ _ hp _ => hp) nofun ?_ (fun _ _ _ _ _ _ _ _ _ hp _ _ => hp)
    intro a p e' p' _ _ hp ha hk
    rcases rebind_cases ha with ⟨rfl, -, rfl⟩ | ⟨n, port, rfl, rfl, -⟩ | ⟨n, j, rfl, rfl, -⟩ |
      ⟨w, check, rfl, -, hpoll⟩ | ⟨-, hsock, hn, -⟩
    · contradiction
    · cases hk
      exact absurd hlt (Nat.lt_irrefl _)
    · exact absurd (hp hk) nofun
    · rcases Wait.poll_cases hpoll with ⟨check', rfl, -⟩ | ⟨err, rfl⟩ | ⟨-, -, rfl⟩
      · exact absurd (hp hk) nofun
      · rfl
      · rfl
    · exact absurd (hp (hsock ▸ hk)) hn

/-- A datagram attributed to the connection was read from the socket of call
`c`, `k`, when the call had swapped it in. -/
def Evidence (recipe : SocketRecipe) (port : UInt16) (labels : List (Label Event Act))
    (c k : ℕ) : Prop :=
  ∃ pre post t p, labels = pre ++ .env (.read k true) :: post ∧
    run client.step (opened recipe port) pre = some t ∧ t.procs[c]? = some p ∧
    p.socket = some k ∧ p.Swapped

theorem step_attributes {s s' : Config Endpoint Phase} {l : Label Event Act} {k : ℕ}
    (hs : client.step s l = some s') (hn : ¬0 < s.shared.attributed k)
    (hp : 0 < s'.shared.attributed k) : l = .env (.read k true) ∧ s.shared.Polled k := by
  rcases client.step_cases hs with ⟨ev, e, rfl, he, rfl⟩ | ⟨-, rfl⟩ | ⟨i, a, p, e, q, -, -, ha, rfl⟩
  · by_cases hr : ∃ k ours, ev = .read k ours
    · obtain ⟨j, ours, rfl⟩ := hr
      obtain ⟨hpolled, -, -, -, -, -, -, hatt⟩ := Endpoint.handle_read he
      rw [hatt] at hp
      by_cases hkj : k = j
      · subst hkj
        cases ours with
        | true => exact ⟨rfl, hpolled⟩
        | false => simp only [if_true, Bool.toNat_false, Nat.add_zero] at hp; contradiction
      · rw [if_neg hkj] at hp
        contradiction
    · obtain ⟨hk, -⟩ := Endpoint.handle_frame he fun k ours h' => hr ⟨k, ours, h'⟩
      rw [(counts_of_sockets hk).2] at hp
      contradiction
  · contradiction
  · rw [(rebind_counts ha).2.1] at hp
    contradiction

theorem evidence_of_attributed {s : Config Endpoint Phase} {c k : ℕ} {p : Phase}
    (h : run client.step (opened recipe port) labels = some s) (hp : s.procs[c]? = some p)
    (hk : p.socket = some k) (hn : p.sample ≠ none) (ha : 0 < s.shared.attributed k) :
    Evidence recipe port labels c k := by
  have h₀ : ¬0 < (opened recipe port).shared.attributed k := by
    cases k <;> exact Nat.lt_irrefl 0
  obtain ⟨pre, l, post, t, t', rfl, ht, hl, hna, hpa⟩ :=
    run_establishes (fun c => 0 < c.shared.attributed k) h₀ ha h
  obtain ⟨rfl, hpolled⟩ := step_attributes hl hna hpa
  have hinv := run_clientInv ht
  have hlt := hinv.shared.polled_lt k hpolled
  -- were the socket not the call's own by then, it would not be at the end
  obtain ⟨q, hq, hqk, hqn⟩ : ∃ q, t.procs[c]? = some q ∧ q.socket = some k ∧ q.sample ≠ none := by
    by_contra hno
    have hmine : ∀ q, t.procs[c]? = some q → q.socket = some k → q.sample = none := by
      intro q hq hqk
      by_contra hqn
      exact hno ⟨q, hq, hqk, hqn⟩
    obtain ⟨u, hu, hrest⟩ := run_append_eq_some.mp h
    cases ht.symm.trans hu
    have hend := run_invariant (fun s : Config Endpoint Phase => k < s.shared.sockets.length ∧
      ∀ p, s.procs[c]? = some p → p.socket = some k → p.sample = none)
      (fun s l s' hs hl => step_not_mine hl hs.1 hs.2) ⟨hlt, hmine⟩ hrest
    exact hn (hend.2 p hp hk)
  refine ⟨pre, post, t, q, rfl, ht, hq, hqk, ?_⟩
  have hb := (hinv.proc c q hq k hqk).2
  cases q with
  | sampling => contradiction
  | binding n => contradiction
  | swapping n j =>
    cases hqk
    exact absurd hpolled (hb ⟨n, rfl⟩)
  | locating n j => trivial
  | arming n j addr => trivial
  | waiting w check => trivial
  | returned j verdict => exact absurd rfl hqn

/-- The verdict is sound where no stranger speaks on the new socket, and where
nothing read from another socket is counted after the sample. -/
theorem rebind_verdict_sound {s s' : Config Endpoint Phase} {c k : ℕ} {addr : SocketAddr}
    (h : run client.step (opened recipe port) labels = some s)
    (hs : client.step s (.act c .poll) = some s')
    (hk : s'.procs[c]? = some (.returned (some k) (.ok addr)))
    (cond : Along client.step (NoStranger c) (opened recipe port) labels ∨
      Along client.step (OwnOnly c) (opened recipe port) labels) :
    Evidence recipe port labels c k := by
  obtain ⟨p, e, q, hp, ha, rfl⟩ : ∃ p e q, s.procs[c]? = some p ∧
      rebind s.shared p .poll = some (e, q) ∧ s' = ⟨e, s.procs.set c q⟩ := by
    rcases client.step_cases hs with ⟨_, _, hl, -⟩ | ⟨hl, -⟩ | ⟨i, a, p, e, q, hl, hp, ha, he⟩
    · contradiction
    · contradiction
    · cases hl
      exact ⟨p, e, q, hp, ha, he⟩
  rw [List.getElem?_set_self (List.getElem?_eq_some_iff.mp hp).1] at hk
  cases hk
  obtain ⟨w, rfl, he, hlt⟩ := poll_ok ha
  cases he
  refine evidence_of_attributed h hp rfl nofun ?_
  rcases cond with hc | hc
  · have hu : ∀ p, s.procs[c]? = some p → p.Unshared s.shared :=
      client.run_follow (fun _ _ _ => step_unshared) hc rfl h
    obtain ⟨hle, hpos⟩ := hu _ hp
    exact (hpos w rfl).trans_le (hle _ rfl)
  · have hv := run_invariant_along
      (fun s : Config Endpoint Phase =>
        ClientInv s ∧ ∀ p, s.procs[c]? = some p → p.Vouched s.shared)
      (fun s l s' hi hc hs => ⟨step_clientInv hi.1 hs, step_vouched hs hc hi.1.shared hi.2⟩)
      ⟨opened_inv recipe port, fun p hp => by simp [opened] at hp⟩ hc h
    obtain ⟨k, hk, hpos⟩ := hv.2 _ hp _ rfl hlt
    cases hk
    exact hpos

/-- A call swaps its socket in; then one datagram each is read from both sockets. -/
def swapAndRead (ours : Bool) : List (Label Event Act) :=
  [.spawn, .act 0 .sample, .act 0 (.bind (some 40001)), .act 0 (.swap true),
    .act 0 (.locate true), .act 0 .arm, .env (.read 1 ours), .env (.read 0 true), .env .account,
    .act 0 .poll, .act 0 .poll]

theorem swapAndRead_run (ours : Bool) : ∃ s s',
    run client.step (opened ⟨⟨.v4 0, 0⟩, none⟩ 40000) (swapAndRead ours) = some s ∧
    client.step s (.act 0 .poll) = some s' ∧
    s'.procs[0]? = some (.returned (some 1) (.ok ⟨.v4 0, 40001⟩)) := by
  cases ours <;> exact ⟨_, _, rfl, rfl, rfl⟩

theorem rebind_verdict_sound_answered :
    Evidence ⟨⟨.v4 0, 0⟩, none⟩ 40000 (swapAndRead true) 0 1 := by
  obtain ⟨s, s', h, hs, hk⟩ := swapAndRead_run true
  refine rebind_verdict_sound h hs hk (.inl (along_of_forall fun l hl t k p he => ?_))
  subst he
  simp [swapAndRead] at hl

/-- A stranger on the new socket and a late packet on the old one vouch for a dead path. -/
theorem stranger_vouches : ¬∀ recipe port labels s s' c k addr,
    run client.step (opened recipe port) labels = some s →
    client.step s (.act c .poll) = some s' →
    s'.procs[c]? = some (.returned (some k) (.ok addr)) → Evidence recipe port labels c k := by
  intro h
  obtain ⟨s, s', hr, hs, hk⟩ := swapAndRead_run false
  obtain ⟨pre, post, t, p, he, -⟩ := h _ _ _ s s' 0 1 _ hr hs hk
  have hmem : Label.env (.read 1 true) ∈ swapAndRead false := by
    rw [he]
    exact List.mem_append_right _ List.mem_cons_self
  simp [swapAndRead] at hmem

end ConstructTransport.Migration
