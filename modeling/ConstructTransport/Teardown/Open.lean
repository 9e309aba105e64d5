import ConstructTransport.Teardown.Gauge

/-! Whether the gauge counts open connections. It counts clients that nobody has
retired, and a connection may be closed without that: by its peer, by its idle
timeout, by the end of its endpoint. Where none is lost in such a way before a
retirement of its client has begun, the gauge counts what is open. -/

namespace ConstructTransport.Teardown

open Interleaving Runs

def openClients (s : State) : ℕ := s.links.countP fun l => l.closeReason.isNone

/-- No connect and no retirement is in progress. -/
def Quiescent (c : Config State Call) : Prop :=
  ∀ p ∈ c.procs, match p with
    | .connecting | .settingUp | .counting | .retiring _ _ _ => False
    | _ => True

/-- `live_connections` is the number of open connections, as far as it can count. -/
structure CountsOpen (c : Config State Call) : Prop where
  gauge : Quiescent c → liveConnections c.shared = openClients c.shared % 2 ^ 32
  exact : Quiescent c → openClients c.shared < 2 ^ 32 →
    liveConnections c.shared = openClients c.shared

def Retiring (c : Config State Call) (i : ℕ) : Prop :=
  ∃ (k : ℕ) (stage : Stage) (dropping : Bool), c.procs[k]? = some (.retiring i stage dropping)

/-- A connection is lost only while its client is being retired. -/
def LostInRetirement (c : Config State Call) (l : Label Event Act) : Prop :=
  (∀ i reason, l = .env (.lost i reason) → Retiring c i) ∧
    ∀ k reason, l ≠ .act k (.count (some reason))

/-- A client's connection is closed if it is retired, and only if it is or is about to be. -/
structure Followed (c : Config State Call) (i : ℕ) (l : Link) : Prop where
  closed : l.retired = true → l.closeReason ≠ none
  retired : l.closeReason ≠ none → l.retired = true ∨ Retiring c i

theorem retiring_set {c : Config State Call} {s : State} {k i : ℕ} {p q : Call}
    (hp : c.procs[k]? = some p) (hr : Retiring c i)
    (hn : ∀ stage dropping, p ≠ .retiring i stage dropping) : Retiring ⟨s, c.procs.set k q⟩ i := by
  obtain ⟨j, stage, dropping, hj⟩ := hr
  refine ⟨j, stage, dropping, ?_⟩
  have hkj : k ≠ j := by
    rintro rfl
    exact hn stage dropping (Option.some.inj (hp.symm.trans hj))
  exact (List.getElem?_set_ne hkj).trans hj

theorem retiring_self {c : Config State Call} {s : State} {k i : ℕ} {p : Call}
    (hp : c.procs[k]? = some p) (stage : Stage) (dropping : Bool) :
    Retiring ⟨s, c.procs.set k (.retiring i stage dropping)⟩ i :=
  ⟨k, stage, dropping, getElem?_set_of_some hp _⟩

theorem Followed.transfer {c c' : Config State Call} {i : ℕ} {l : Link} (h : Followed c i l)
    (hr : Retiring c i → Retiring c' i) : Followed c' i l :=
  ⟨h.closed, fun hc => (h.retired hc).imp_right hr⟩

/-- A statement of a retirement acts on its client's link alone, which is closed by the
time it is retired; and the retirement goes on unless it has torn the client down. -/
theorem retire_link {s s' : State} {i : ℕ} {l : Link} {dropping : Bool} {stage : Stage} {q : Call}
    (hr : l.Reached stage) (hc : l.retired = true → l.closeReason ≠ none)
    (h : retire s i l dropping stage = (s', q)) :
    ∃ f, s'.links = s.links.modify i f ∧
      ((f l).retired = true → (f l).closeReason ≠ none) ∧
      ((∃ stage', q = .retiring i stage' dropping) ∨ f l = l ∧ l.TornDown) := by
  cases stage with
  | closing =>
    cases h
    exact ⟨_, s.links_modifyLink i _, fun _ => Link.or_ne_none _, .inl ⟨_, rfl⟩⟩
  | aborting =>
    cases h
    exact ⟨_, s.links_modifyLink i _, hc, .inl ⟨_, rfl⟩⟩
  | closingEndpoint =>
    cases h
    exact ⟨_, s.links_modifyLink i _, fun _ => Link.or_ne_none _, .inl ⟨_, rfl⟩⟩
  | swapping =>
    cases h
    exact ⟨_, s.links_modifyLink i _, fun _ => hr.1, .inl ⟨_, rfl⟩⟩
  | decrementing =>
    cases h
    exact ⟨id, s.links_fetchSub.trans (List.modify_id i s.links).symm, hc, .inl ⟨_, rfl⟩⟩
  | leaving won =>
    cases h
    refine ⟨id, ?_, hc, .inr ⟨rfl, hr⟩⟩
    rw [List.modify_id]
    cases dropping with
    | true => rfl
    | false => exact s.links_modify i fun _ => rfl

theorem followed_new {c : Config State Call} {i : ℕ} :
    Followed c i ⟨none, false, false, false⟩ := ⟨nofun, fun hn => absurd rfl hn⟩

theorem handle_followed {c : Config State Call} {e : Event} {s : State}
    (hf : ∀ i l, c.shared.link i = some l → Followed c i l)
    (hc : ∀ i reason, e = .lost i reason → Retiring c i) (he : c.shared.handle e = some s) :
    ∀ i l, s.link i = some l → Followed ⟨s, c.procs⟩ i l := by
  obtain ⟨-, hlinks | ⟨i, l, reason, rfl, hl, -, hlinks⟩⟩ := handle_cases he
  · intro i l hl
    have hl' : c.shared.link i = some l := by
      rw [State.link_eq, ← hlinks, ← State.link_eq]
      exact hl
    exact (hf i l hl').transfer id
  · intro j l' hl'
    rw [State.link_eq, hlinks, List.getElem?_modify] at hl'
    obtain ⟨l₀, hl₀, rfl⟩ := Option.map_eq_some_iff.mp hl'
    have hold := hf j l₀ (c.shared.link_eq j ▸ hl₀)
    by_cases hij : i = j
    · subst hij
      rw [if_pos rfl]
      exact ⟨fun _ => Link.or_ne_none _, fun _ => .inr (hc i reason rfl)⟩
    · rw [if_neg hij]
      exact hold.transfer id

theorem retire_followed {c : Config State Call} {k i : ℕ} {l : Link} {stage : Stage}
    {dropping : Bool} {s : State} {q : Call} (hi : AllPlaced c)
    (hf : ∀ i l, c.shared.link i = some l → Followed c i l)
    (hp : c.procs[k]? = some (.retiring i stage dropping)) (hl : c.shared.link i = some l)
    (hr : retire c.shared i l dropping stage = (s, q)) :
    ∀ j l', s.link j = some l' → Followed ⟨s, c.procs.set k q⟩ j l' := by
  obtain ⟨l₁, hl₁, hreached⟩ := hi.proc k _ hp
  cases hl.symm.trans hl₁
  obtain ⟨f, hlinks, hclosed, hgoes⟩ := retire_link hreached (hf i l hl).closed hr
  intro j l' hl'
  rw [State.link_eq, hlinks, List.getElem?_modify] at hl'
  obtain ⟨l₀, hl₀, rfl⟩ := Option.map_eq_some_iff.mp hl'
  rw [← State.link_eq] at hl₀
  by_cases hij : i = j
  · subst hij
    cases hl.symm.trans hl₀
    rw [if_pos rfl]
    refine ⟨hclosed, fun _ => ?_⟩
    rcases hgoes with ⟨stage', rfl⟩ | ⟨hfix, hdown⟩
    · exact .inr (retiring_self hp stage' dropping)
    · rw [hfix]
      exact .inl hdown.retired
  · rw [if_neg hij]
    refine (hf j l₀ hl₀).transfer fun hret => retiring_set hp hret fun stage' dropping' he => ?_
    cases he
    exact hij rfl

theorem step_followed {c c' : Config State Call} {l : Label Event Act} (hi : AllPlaced c)
    (hf : ∀ i l, c.shared.link i = some l → Followed c i l) (hc : LostInRetirement c l)
    (h : process.step c l = some c') : ∀ i l, c'.shared.link i = some l → Followed c' i l := by
  rcases process.step_cases h with ⟨e, s, rfl, he, rfl⟩ | ⟨-, rfl⟩ |
    ⟨k, a, p, s, q, rfl, hp, ha, rfl⟩
  · exact handle_followed hf (fun i reason hl => hc.1 i reason (congrArg Label.env hl)) he
  · intro i l hl
    exact (hf i l hl).transfer fun ⟨k, stage, dropping, hk⟩ =>
      ⟨k, stage, dropping, getElem?_append_of_some hk _⟩
  · rcases act_cases ha with ⟨lost, rfl, rfl, rfl, -, hlinks⟩ |
      ⟨i, stage, dropping, l, rfl, hl, hr⟩ | ⟨-, hlinks, ho, -⟩
    · cases lost with
      | some reason => exact absurd rfl (hc.2 k reason)
      | none =>
        intro i l hl
        rw [State.link_eq, hlinks] at hl
        rcases getElem?_concat_cases hl with hl | ⟨-, rfl⟩
        · rw [← State.link_eq] at hl
          exact (hf i l hl).transfer fun hret => retiring_set hp hret nofun
        · exact followed_new
    · exact retire_followed hi hf hp hl hr
    · intro i l hl
      have hl' : c.shared.link i = some l := by
        rw [State.link_eq, ← hlinks, ← State.link_eq]
        exact hl
      refine (hf i l hl').transfer fun hret => retiring_set hp hret ?_
      rintro stage dropping rfl
      exact ho

/-- Where connections are lost in retirement only, the gauge counts those that are open. -/
theorem open_connections_counted {labels : List (Label Event Act)} {c : Config State Call}
    (h : run process.step ⟨State.start, []⟩ labels = some c)
    (hc : Along process.step LostInRetirement ⟨State.start, []⟩ labels) : CountsOpen c := by
  have hf := run_invariant_along
    (fun c : Config State Call => AllPlaced c ∧
      ∀ i l, c.shared.link i = some l → Followed c i l)
    (fun c l c' hi hc h => ⟨step_allPlaced hi.1 h, step_followed hi.1 hi.2 hc h⟩)
    ⟨System.inv_start trivial, fun i l hl => by simp [State.link, State.start] at hl⟩ hc h
  have counts : Quiescent c → liveConnections c.shared = openClients c.shared % 2 ^ 32 := by
    intro hq
    have hnone : ∀ i stage dropping, .retiring i stage dropping ∉ c.procs :=
      fun i stage dropping hp => hq _ hp
    have hopen : openClients c.shared = live c.shared := by
      refine List.countP_congr fun l hl => ?_
      obtain ⟨i, hi⟩ := List.mem_iff_getElem?.mp hl
      obtain ⟨hclosed, hretired⟩ := hf.2 i l ((c.shared.link_eq i).trans hi)
      cases hr : l.retired with
      | true => simp [hclosed hr]
      | false =>
        have : l.closeReason = none := by
          by_contra hn
          rcases hretired hn with ht | ht
          · exact absurd (hr.symm.trans ht) nofun
          · obtain ⟨k, stage, dropping, hk⟩ := ht
            exact hnone i stage dropping (List.mem_of_getElem? hk)
        simp [this]
    rw [liveConnections, (run_ledger h).quiet hnone, hopen]
    exact Nat.mod_mod_of_dvd _ (Nat.pow_dvd_pow 2 (by decide))
  exact ⟨counts, fun hq hlt => (counts hq).trans (Nat.mod_eq_of_lt hlt)⟩

theorem open_connections_counted_closed : ∃ c,
    run process.step ⟨State.start, []⟩ closedAndDropped = some c ∧ CountsOpen c := by
  obtain ⟨c, h⟩ : ∃ c, run process.step ⟨State.start, []⟩ closedAndDropped = some c := ⟨_, rfl⟩
  refine ⟨c, h, open_connections_counted h (along_of_forall fun l hl c => ⟨?_, ?_⟩)⟩
  · rintro i reason rfl
    simp [closedAndDropped] at hl
  · rintro k reason rfl
    simp [closedAndDropped] at hl

/-- A client connects, and its peer closes the connection: the gauge still counts it. -/
theorem peer_close_stays_counted : ¬∀ labels c,
    run process.step ⟨State.start, []⟩ labels = some c → CountsOpen c := by
  intro hall
  obtain ⟨c, h, hp, hg, ho⟩ : ∃ c, run process.step ⟨State.start, []⟩ [.spawn, .act 0 .connect,
      .act 0 .proceed, .act 0 .proceed, .act 0 (.count none), .env (.lost 0 .closedByPeer)] =
      some c ∧ c.procs = [.connected 0] ∧ liveConnections c.shared = 1 ∧
      openClients c.shared = 0 := ⟨_, rfl, rfl, rfl, rfl⟩
  have hq : Quiescent c := by
    intro p hmem
    rw [hp, List.mem_singleton] at hmem
    subst hmem
    trivial
  have := (hall _ c h).gauge hq
  rw [hg, ho] at this
  contradiction

end ConstructTransport.Teardown
