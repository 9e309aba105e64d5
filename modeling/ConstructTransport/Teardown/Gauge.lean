import ConstructTransport.Teardown.Client

/-! The gauge of live connections. It is the number of clients not yet retired and
of retirements that have won the swap and not yet subtracted, in every state, so
no client is subtracted twice and the counter never goes below zero. A client
whose retirement has come to its end is torn down, and stays so. -/

namespace ConstructTransport.Teardown

open Interleaving Runs

/-! ### Links -/

namespace State

def links (s : State) : List Link := s.clients.map Client.link

theorem link_eq (s : State) (i : ℕ) : s.link i = s.links[i]? := (List.getElem?_map ..).symm

theorem links_modify (s : State) (i : ℕ) {f : Client → Client} (h : ∀ c, (f c).link = c.link) :
    (s.modify i f).links = s.links := by
  apply List.ext_getElem?
  intro j
  simp only [links, modify, List.getElem?_map, List.getElem?_modify]
  cases s.clients[j]? with
  | none => rfl
  | some c =>
    refine congrArg some ?_
    by_cases hij : i = j
    · simp only [if_pos hij, h]
    · simp only [if_neg hij]

theorem links_fetchSub (s : State) : s.fetchSub.links = s.links := by
  simp only [links, fetchSub]

theorem links_modifyLink (s : State) (i : ℕ) (f : Link → Link) :
    (s.modifyLink i f).links = s.links.modify i f := by
  apply List.ext_getElem?
  intro j
  simp only [links, modifyLink, modify, List.getElem?_map, List.getElem?_modify]
  cases s.clients[j]? with
  | none => rfl
  | some c =>
    refine congrArg some ?_
    by_cases hij : i = j
    · simp only [if_pos hij]
    · simp only [if_neg hij]

end State

namespace Link

/-- What has been done to a link is not undone. -/
structure Le (l l' : Link) : Prop where
  closed : l.closeReason ≠ none → l'.closeReason ≠ none
  aborted : l.driverAborted = true → l'.driverAborted = true
  endpoint : l.endpointClosed = true → l'.endpointClosed = true
  retired : l.retired = true → l'.retired = true

theorem le_refl (l : Link) : l.Le l := ⟨id, id, id, id⟩

theorem or_ne_none {α : Type*} {o : Option α} (a : α) : o.or (some a) ≠ none := by
  cases o with
  | none => exact Option.some_ne_none a
  | some b => exact Option.some_ne_none b

theorem le_close (l : Link) : l.Le l.close := ⟨fun _ => or_ne_none _, id, id, id⟩

theorem le_abort (l : Link) : l.Le l.abort := ⟨id, fun _ => rfl, id, id⟩

theorem le_closeEndpoint (l : Link) : l.Le l.closeEndpoint :=
  ⟨fun _ => or_ne_none _, id, fun _ => rfl, id⟩

theorem le_swap (l : Link) : l.Le l.swap := ⟨id, id, id, fun _ => rfl⟩

theorem le_lose (reason : CloseReason) (l : Link) : l.Le (l.lose reason) :=
  ⟨fun _ => or_ne_none _, id, id, id⟩

/-- Connection and endpoint closed, driver aborted, and retired. -/
structure TornDown (l : Link) : Prop where
  closed : l.closeReason ≠ none
  aborted : l.driverAborted = true
  endpoint : l.endpointClosed = true
  retired : l.retired = true

theorem TornDown.mono {l l' : Link} (h : l.TornDown) (hl : l.Le l') : l'.TornDown :=
  ⟨hl.closed h.closed, hl.aborted h.aborted, hl.endpoint h.endpoint, hl.retired h.retired⟩

/-- What a retirement has done by the time it comes to a statement. -/
def Reached (l : Link) : Stage → Prop
  | .closing => True
  | .aborting => l.closeReason ≠ none
  | .closingEndpoint => l.closeReason ≠ none ∧ l.driverAborted = true
  | .swapping => l.closeReason ≠ none ∧ l.driverAborted = true ∧ l.endpointClosed = true
  | .decrementing | .leaving _ => l.TornDown

theorem Reached.mono {l l' : Link} {stage : Stage} (h : l.Reached stage) (hl : l.Le l') :
    l'.Reached stage := by
  cases stage with
  | closing => trivial
  | aborting => exact hl.closed h
  | closingEndpoint => exact ⟨hl.closed h.1, hl.aborted h.2⟩
  | swapping => exact ⟨hl.closed h.1, hl.aborted h.2.1, hl.endpoint h.2.2⟩
  | decrementing => exact TornDown.mono h hl
  | leaving won => exact TornDown.mono h hl

/-- To a link that is torn down, a retirement does nothing. -/
theorem TornDown.fixed {l : Link} (h : l.TornDown) :
    l.close = l ∧ l.abort = l ∧ l.closeEndpoint = l ∧ l.swap = l := by
  obtain ⟨reason, aborted, endpoint, retired⟩ := l
  obtain ⟨hc, rfl, rfl, rfl⟩ := h
  cases reason with
  | none => exact absurd rfl hc
  | some reason => exact ⟨rfl, rfl, rfl, rfl⟩

end Link

/-! ### What a step does -/

def Call.Outside : Call → Prop
  | .retiring _ _ _ | .done _ _ => False
  | _ => True

/-- A step counts a client in, is a statement of a retirement, or touches no link. -/
theorem act_cases {s s' : State} {p q : Call} {a : Act} (h : act s p a = some (s', q)) :
    (∃ lost, p = .counting ∧ a = .count lost ∧ q = .connected s.clients.length ∧
      s'.gauge = s.fetchAdd.gauge ∧ s'.links = s.links ++ [⟨lost, false, false, false⟩]) ∨
    (∃ i stage dropping l, p = .retiring i stage dropping ∧ s.link i = some l ∧
      retire s i l dropping stage = (s', q)) ∨
    (s'.gauge = s.gauge ∧ s'.links = s.links ∧ p.Outside ∧
      (q.Outside ∨ ∃ i dropping l, q = .retiring i .closing dropping ∧ s.link i = some l)) := by
  unfold act at h
  split at h
  · cases h; exact .inr (.inr ⟨rfl, rfl, trivial, .inl trivial⟩)
  · cases h; exact .inr (.inr ⟨rfl, rfl, trivial, .inl trivial⟩)
  · cases h; exact .inr (.inr ⟨rfl, rfl, trivial, .inl trivial⟩)
  · cases h; exact .inr (.inr ⟨rfl, rfl, trivial, .inl trivial⟩)
  · cases h; exact .inr (.inr ⟨rfl, rfl, trivial, .inl trivial⟩)
  · cases h
    exact .inl ⟨_, rfl, rfl, rfl, rfl, List.map_append⟩
  · next i =>
    split at h
    · contradiction
    · next c hc =>
      split at h
      · cases h
        refine .inr (.inr ⟨rfl, s.links_modify i fun _ => rfl, trivial, .inr ?_⟩)
        exact ⟨i, _, c.link, rfl, congrArg (Option.map Client.link) hc⟩
      · contradiction
  · next i =>
    split at h
    · contradiction
    · next c hc =>
      split at h
      · cases h
        refine .inr (.inr ⟨rfl, s.links_modify i fun _ => rfl, trivial, .inr ?_⟩)
        exact ⟨i, _, c.link, rfl, congrArg (Option.map Client.link) hc⟩
      · contradiction
  · next i stage dropping =>
    obtain ⟨l, hl, hr⟩ := Option.map_eq_some_iff.mp h
    exact .inr (.inl ⟨i, stage, dropping, l, rfl, hl, hr⟩)
  · contradiction

/-- An event leaves the gauge, and of the links at most loses one. -/
theorem handle_cases {s s' : State} {e : Event} (h : s.handle e = some s') :
    s'.gauge = s.gauge ∧ (s'.links = s.links ∨
      ∃ i l reason, e = .lost i reason ∧ s.link i = some l ∧ l.closeReason = none ∧
        s'.links = s.links.modify i (.lose · reason)) := by
  unfold State.handle at h
  split at h
  · next i =>
    split at h
    · contradiction
    · split at h
      · cases h
        exact ⟨rfl, .inl (s.links_modify i fun _ => rfl)⟩
      · contradiction
  · next i =>
    split at h
    · contradiction
    · split at h
      · cases h
        exact ⟨rfl, .inl (s.links_modify i fun _ => rfl)⟩
      · contradiction
  · next i reason =>
    split at h
    · contradiction
    · next l hl =>
      split at h
      · next hn =>
        cases h
        exact ⟨rfl, .inr ⟨i, l, reason, rfl, hl, hn, s.links_modifyLink i _⟩⟩
      · contradiction

/-! ### What a retirement has done -/

def Grows (s s' : State) : Prop :=
  ∀ i l, s.link i = some l → ∃ l', s'.link i = some l' ∧ l.Le l'

theorem grows_of_links {s s' : State} (h : s'.links = s.links) : Grows s s' := by
  intro i l hl
  rw [State.link_eq] at hl
  exact ⟨l, by rw [State.link_eq, h, hl], l.le_refl⟩

theorem grows_append {s s' : State} {l : Link} (h : s'.links = s.links ++ [l]) : Grows s s' := by
  intro i l hl
  rw [State.link_eq] at hl
  have hlt := (List.getElem?_eq_some_iff.mp hl).1
  exact ⟨l, by rw [State.link_eq, h, List.getElem?_append_left hlt, hl], l.le_refl⟩

theorem grows_modify {s s' : State} {i : ℕ} {f : Link → Link}
    (hf : ∀ l : Link, l.Le (f l))
    (h : s'.links = s.links.modify i f) : Grows s s' := by
  intro j l hl
  rw [State.link_eq] at hl
  rw [State.link_eq, h, List.getElem?_modify, hl]
  by_cases hij : i = j
  · exact ⟨f l, congrArg some (if_pos hij), hf l⟩
  · exact ⟨l, congrArg some (if_neg hij), l.le_refl⟩

theorem State.link_modifyLink {s : State} {i : ℕ} {l : Link} (h : s.link i = some l)
    (f : Link → Link) : (s.modifyLink i f).link i = some (f l) := by
  rw [link_eq] at h
  rw [link_eq, links_modifyLink, List.getElem?_modify_eq, h]
  rfl

/-- A retirement has done to its client what it has come past. -/
def Call.Placed (s : State) : Call → Prop
  | .retiring i stage _ => ∃ l, s.link i = some l ∧ l.Reached stage
  | .done i _ => ∃ l, s.link i = some l ∧ l.TornDown
  | _ => True

theorem Call.Placed.mono {s s' : State} {p : Call} (h : p.Placed s) (hg : Grows s s') :
    p.Placed s' := by
  cases p with
  | retiring i stage dropping =>
    obtain ⟨l, hl, hr⟩ := h
    obtain ⟨l', hl', hle⟩ := hg i l hl
    exact ⟨l', hl', hr.mono hle⟩
  | done i won =>
    obtain ⟨l, hl, ht⟩ := h
    obtain ⟨l', hl', hle⟩ := hg i l hl
    exact ⟨l', hl', ht.mono hle⟩
  | _ => trivial

theorem Call.Outside.placed {p : Call} (h : p.Outside) (s : State) : p.Placed s := by
  cases p with
  | retiring i stage dropping => contradiction
  | done i won => contradiction
  | _ => trivial

theorem retire_placed {s s' : State} {i : ℕ} {l : Link} {dropping : Bool} {stage : Stage}
    {q : Call} (hl : s.link i = some l) (hr : l.Reached stage)
    (h : retire s i l dropping stage = (s', q)) : Grows s s' ∧ q.Placed s' := by
  cases stage with
  | closing =>
    cases h
    exact ⟨grows_modify Link.le_close (s.links_modifyLink i _), _, State.link_modifyLink hl _,
      Link.or_ne_none _⟩
  | aborting =>
    cases h
    exact ⟨grows_modify Link.le_abort (s.links_modifyLink i _), _, State.link_modifyLink hl _,
      hr, rfl⟩
  | closingEndpoint =>
    cases h
    exact ⟨grows_modify Link.le_closeEndpoint (s.links_modifyLink i _), _,
      State.link_modifyLink hl _, Link.or_ne_none _, hr.2, rfl⟩
  | swapping =>
    cases h
    have hdown : l.swap.TornDown := ⟨hr.1, hr.2.1, hr.2.2, rfl⟩
    refine ⟨grows_modify Link.le_swap (s.links_modifyLink i _), _, State.link_modifyLink hl _, ?_⟩
    split
    · exact hdown
    · exact hdown
  | decrementing =>
    cases h
    have hlinks := s.links_fetchSub
    rw [State.link_eq] at hl
    exact ⟨grows_of_links hlinks, l, (State.link_eq _ i).trans (hlinks ▸ hl), hr⟩
  | leaving won =>
    cases h
    cases dropping with
    | true => exact ⟨grows_of_links rfl, l, hl, hr⟩
    | false =>
      have hlinks := s.links_modify i (f := fun c => { c with holders := c.holders - 1 })
        fun _ => rfl
      refine ⟨grows_of_links hlinks, l, ?_, hr⟩
      rw [State.link_eq] at hl
      exact (State.link_eq _ i).trans (hlinks ▸ hl)

theorem act_placed {s s' : State} {p q : Call} {a : Act} (hp : p.Placed s)
    (h : act s p a = some (s', q)) : Grows s s' ∧ q.Placed s' := by
  rcases act_cases h with ⟨lost, -, -, rfl, -, hlinks⟩ | ⟨i, stage, dropping, l, rfl, hl, hr⟩ |
    ⟨-, hlinks, -, hq | ⟨i, dropping, l, rfl, hl⟩⟩
  · exact ⟨grows_append hlinks, trivial⟩
  · obtain ⟨l', hl', hreached⟩ := hp
    cases hl.symm.trans hl'
    exact retire_placed hl hreached hr
  · exact ⟨grows_of_links hlinks, hq.placed s'⟩
  · have hg := grows_of_links hlinks
    obtain ⟨l', hl', -⟩ := hg i l hl
    exact ⟨hg, l', hl', trivial⟩

theorem handle_grows {s s' : State} {e : Event} (h : s.handle e = some s') : Grows s s' := by
  obtain ⟨-, hlinks | ⟨i, l, reason, -, -, -, hlinks⟩⟩ := handle_cases h
  · exact grows_of_links hlinks
  · exact grows_modify (Link.le_lose reason) hlinks

abbrev AllPlaced : Config State Call → Prop :=
  System.Inv (fun _ => True) (fun s p => p.Placed s) fun _ _ => True

theorem step_allPlaced {c c' : Config State Call} {l : Label Event Act} (hi : AllPlaced c)
    (h : process.step c l = some c') : AllPlaced c' := by
  refine process.step_inv (fun _ _ _ => trivial) ?_ ?_ ?_ hi h
  · exact fun s e s' _ he => ⟨trivial, fun q hq => hq.mono (handle_grows he)⟩
  · exact fun s _ => ⟨trivial, fun _ _ => trivial⟩
  · intro s p a s' p' _ hp ha
    obtain ⟨hg, hp'⟩ := act_placed hp ha
    exact ⟨trivial, hp', fun q hq _ => ⟨hq.mono hg, trivial⟩⟩

/-! ### The ledger -/

/-- The clients counted in and not retired. -/
def live (s : State) : ℕ := s.links.countP fun l => !l.retired

def State.retired (s : State) (i : ℕ) : Bool := (s.link i).any Link.retired

/-- Whether a retirement has won the swap and not yet subtracted. -/
def Call.owes : Call → Bool
  | .retiring _ .decrementing _ => true
  | _ => false

def Call.won (i : ℕ) : Call → Bool
  | .retiring j .decrementing _ | .retiring j (.leaving true) _ | .done j true => j == i
  | _ => false

theorem Call.Outside.settled {p : Call} (h : p.Outside) :
    p.owes = false ∧ ∀ i, p.won i = false := by
  cases p with
  | retiring i stage dropping => contradiction
  | done i won => contradiction
  | _ => exact ⟨rfl, fun _ => rfl⟩

theorem live_of_links {s s' : State} (h : s'.links = s.links) : live s' = live s := by
  rw [live, h, live]

theorem retired_of_links {s s' : State} (h : s'.links = s.links) (i : ℕ) :
    s'.retired i = s.retired i := by
  rw [State.retired, State.link_eq, h, ← State.link_eq, State.retired]

theorem live_modify {s s' : State} {i : ℕ} {l : Link} {f : Link → Link} (hl : s.link i = some l)
    (h : s'.links = s.links.modify i f) :
    live s' + (!l.retired).toNat = live s + (!(f l).retired).toNat := by
  rw [State.link_eq] at hl
  rw [live, h]
  exact countP_modify_add hl f _

theorem retired_modify {s s' : State} {i : ℕ} {l : Link} {f : Link → Link}
    (hl : s.link i = some l) (h : s'.links = s.links.modify i f) (j : ℕ) :
    s'.retired j = if i = j then (f l).retired else s.retired j := by
  rw [State.link_eq] at hl
  rw [State.retired, State.link_eq, h, State.retired, State.link_eq]
  by_cases hij : i = j
  · subst hij
    rw [List.getElem?_modify_eq, hl, if_pos rfl]
    rfl
  · rw [List.getElem?_modify_ne f s.links hij, if_neg hij]

/-- What a step adds to the gauge and to what is owed, it adds to the clients, and the
other way round; and it wins for a client what it retires. -/
structure Balanced (s s' : State) (p q : Call) : Prop where
  lt : s.gauge < 2 ^ 64 → s'.gauge < 2 ^ 64
  gauge : (s'.gauge + live s + p.owes.toNat) % 2 ^ 64 = (s.gauge + live s' + q.owes.toNat) % 2 ^ 64
  won : ∀ i, (q.won i).toNat + (s.retired i).toNat = (p.won i).toNat + (s'.retired i).toNat

/-- A step that changes no flag and neither wins nor subtracts. -/
theorem balanced_of_same {s s' : State} {p q : Call} (hg : s'.gauge = s.gauge)
    (hl : live s' = live s) (hr : ∀ i, s'.retired i = s.retired i) (ho : q.owes = p.owes)
    (hw : ∀ i, q.won i = p.won i) : Balanced s s' p q := by
  refine ⟨fun h => hg ▸ h, ?_, fun i => ?_⟩
  · rw [hg, hl, ho]
  · rw [hr, hw]

theorem balanced_modify {s s' : State} {p q : Call} {i : ℕ} {l : Link} {f : Link → Link}
    (hg : s'.gauge = s.gauge) (hl : s.link i = some l) (h : s'.links = s.links.modify i f)
    (hf : (f l).retired = l.retired) (ho : q.owes = p.owes) (hw : ∀ i, q.won i = p.won i) :
    Balanced s s' p q := by
  refine balanced_of_same hg ?_ (fun j => ?_) ho hw
  · have := live_modify hl h
    rw [hf] at this
    exact Nat.add_right_cancel this
  · rw [retired_modify hl h]
    split
    · next hij =>
      subst hij
      rw [hf, State.retired, hl]
      rfl
    · rfl

theorem retire_balanced {s s' : State} {i : ℕ} {l : Link} {dropping : Bool} {stage : Stage}
    {q : Call} (hl : s.link i = some l) (h : retire s i l dropping stage = (s', q)) :
    Balanced s s' (.retiring i stage dropping) q := by
  cases stage with
  | closing =>
    cases h
    exact balanced_modify rfl hl (s.links_modifyLink i _) rfl rfl fun _ => rfl
  | aborting =>
    cases h
    exact balanced_modify rfl hl (s.links_modifyLink i _) rfl rfl fun _ => rfl
  | closingEndpoint =>
    cases h
    exact balanced_modify rfl hl (s.links_modifyLink i _) rfl rfl fun _ => rfl
  | swapping =>
    cases h
    have hlinks := s.links_modifyLink i Link.swap
    cases hr : l.retired with
    | true =>
      -- lost: the flag was set
      exact balanced_modify rfl hl hlinks hr.symm rfl fun _ => rfl
    | false =>
      -- won: a client less, a debt more
      have hlive := live_modify hl hlinks
      rw [hr] at hlive
      have hlive' : live (s.modifyLink i Link.swap) + 1 = live s := hlive
      refine ⟨id, ?_, fun j => ?_⟩
      · rw [← hlive']
        exact congrArg (· % 2 ^ 64) (Nat.add_assoc s.gauge _ 1).symm
      · rw [retired_modify hl hlinks]
        by_cases hij : i = j
        · subst hij
          rw [State.retired, hl, if_pos rfl]
          simp [Call.won, hr, Link.swap]
        · rw [if_neg hij]
          simp [Call.won, hij]
  | decrementing =>
    cases h
    have hlinks := s.links_fetchSub
    refine ⟨fun hlt => ?_, ?_, fun j => ?_⟩
    · simp only [State.fetchSub]
      split <;> omega
    · rw [live_of_links hlinks]
      simp only [State.fetchSub, Call.owes, Bool.toNat_true, Bool.toNat_false]
      split <;> omega
    · rw [retired_of_links hlinks]
      rfl
  | leaving won =>
    cases h
    have hlinks : State.links (if dropping then s
        else s.modify i fun c => { c with holders := c.holders - 1 }) = s.links := by
      cases dropping with
      | true => rfl
      | false => exact s.links_modify i fun _ => rfl
    refine balanced_of_same ?_ (live_of_links hlinks) (retired_of_links hlinks) rfl fun j => ?_
    · cases dropping <;> rfl
    · cases won <;> rfl

theorem act_balanced {s s' : State} {p q : Call} {a : Act} (h : act s p a = some (s', q)) :
    Balanced s s' p q := by
  rcases act_cases h with ⟨lost, rfl, -, rfl, hg, hlinks⟩ | ⟨i, stage, dropping, l, rfl, hl, hr⟩ |
    ⟨hg, hlinks, hp, hq⟩
  · have hlive : live s' = live s + 1 := by
      rw [live, hlinks, List.countP_append]
      rfl
    refine ⟨fun hlt => ?_, ?_, fun i => ?_⟩
    · rw [hg, State.fetchAdd]
      dsimp only
      split <;> omega
    · rw [hlive, hg]
      simp only [State.fetchAdd, Call.owes, Bool.toNat_false]
      split <;> omega
    · have hret : s'.retired i = s.retired i := by
        rw [State.retired, State.link_eq, hlinks, State.retired, State.link_eq]
        rcases Nat.lt_or_ge i s.links.length with hlt | hge
        · rw [List.getElem?_append_left hlt]
        · rw [List.getElem?_append_right hge, List.getElem?_eq_none hge, List.getElem?_singleton]
          split <;> rfl
      rw [hret]
      rfl
  · exact retire_balanced hl hr
  · obtain ⟨ho, hw⟩ := hp.settled
    have hq' : q.owes = false ∧ ∀ i, q.won i = false := by
      rcases hq with hq | ⟨i, dropping, l, rfl, -⟩
      · exact hq.settled
      · exact ⟨rfl, fun _ => rfl⟩
    exact balanced_of_same hg (live_of_links hlinks) (retired_of_links hlinks)
      (hq'.1.trans ho.symm) fun i => (hq'.2 i).trans (hw i).symm

/-- The retirements that have won the swap and not yet subtracted. -/
def owed (c : Config State Call) : ℕ := c.procs.countP Call.owes

/-- The gauge is what is live and owed, and a client is retired by as many as have won it. -/
structure Ledger (c : Config State Call) : Prop where
  lt : c.shared.gauge < 2 ^ 64
  gauge : c.shared.gauge = (live c.shared + owed c) % 2 ^ 64
  won : ∀ i, c.procs.countP (Call.won i) = (c.shared.retired i).toNat

theorem step_ledger {c c' : Config State Call} {l : Label Event Act} (hi : Ledger c)
    (h : process.step c l = some c') : Ledger c' := by
  obtain ⟨hlt, hg, hw⟩ := hi
  rcases process.step_cases h with ⟨e, s, -, he, rfl⟩ | ⟨-, rfl⟩ | ⟨k, a, p, s, q, -, hp, ha, rfl⟩
  · obtain ⟨hgauge, hlinks | ⟨i, l, reason, -, hl, -, hlinks⟩⟩ := handle_cases he
    · refine ⟨hgauge ▸ hlt, ?_, fun i => ?_⟩
      · rw [hgauge, live_of_links hlinks]
        exact hg
      · rw [retired_of_links hlinks]
        exact hw i
    · obtain ⟨-, hbal, hwon⟩ :=
        balanced_modify (p := .idle) (q := .idle) hgauge hl hlinks rfl rfl fun _ => rfl
      have hlive : live s = live c.shared := by
        have := live_modify hl hlinks
        exact Nat.add_right_cancel this
      refine ⟨hgauge ▸ hlt, ?_, fun i => ?_⟩
      · rw [hgauge, hlive]
        exact hg
      · have := hwon i
        rw [hw i]
        exact Nat.add_left_cancel this
  · refine ⟨hlt, ?_, fun i => ?_⟩
    · rw [owed, List.countP_append]
      exact hg
    · rw [List.countP_append]
      exact hw i
  · obtain ⟨hlt', hbal, hwon⟩ := act_balanced ha
    refine ⟨hlt' hlt, ?_, fun i => ?_⟩
    · have howed : owed ⟨s, c.procs.set k q⟩ + p.owes.toNat = owed c + q.owes.toNat :=
        countP_set_add hp q Call.owes
      have := hlt' hlt
      dsimp only at *
      omega
    · have hcount := countP_set_add hp q (Call.won i)
      have := hwon i
      have := hw i
      dsimp only
      omega

theorem run_allPlaced {labels : List (Label Event Act)} {c : Config State Call}
    (h : run process.step ⟨State.start, []⟩ labels = some c) : AllPlaced c :=
  run_invariant AllPlaced (fun _ _ _ => step_allPlaced) (System.inv_start trivial) h

theorem run_ledger {labels : List (Label Event Act)} {c : Config State Call}
    (h : run process.step ⟨State.start, []⟩ labels = some c) : Ledger c :=
  run_invariant Ledger (fun _ _ _ => step_ledger) ⟨Nat.two_pow_pos 64, rfl, fun _ => rfl⟩ h

theorem Ledger.quiet {c : Config State Call} (hc : Ledger c)
    (hn : ∀ i stage dropping, .retiring i stage dropping ∉ c.procs) :
    c.shared.gauge = live c.shared % 2 ^ 64 := by
  have hzero : owed c = 0 := by
    refine List.countP_eq_zero.mpr fun p hp => ?_
    cases p with
    | retiring i stage dropping => exact absurd hp (hn i stage dropping)
    | _ => exact Bool.false_ne_true
  rw [hc.gauge, hzero, Nat.add_zero]

theorem retire_fixed {s s' : State} {i : ℕ} {l : Link} {dropping : Bool} {stage : Stage}
    {q : Call} (hl : s.link i = some l) (hd : l.TornDown) (hs : stage ≠ .decrementing)
    (h : retire s i l dropping stage = (s', q)) :
    s'.gauge = s.gauge ∧ s'.links = s.links ∧ q ≠ .retiring i .decrementing dropping := by
  have fixed : ∀ f : Link → Link, f l = l → (s.modifyLink i f).links = s.links := by
    intro f hf
    rw [State.link_eq] at hl
    rw [s.links_modifyLink]
    apply List.ext_getElem?
    intro j
    by_cases hij : i = j
    · subst hij
      rw [List.getElem?_modify_eq, hl]
      exact congrArg some hf
    · rw [List.getElem?_modify_ne f s.links hij]
  obtain ⟨hclose, habort, hendpoint, hswap⟩ := hd.fixed
  cases stage with
  | closing => cases h; exact ⟨rfl, fixed _ hclose, nofun⟩
  | aborting => cases h; exact ⟨rfl, fixed _ habort, nofun⟩
  | closingEndpoint => cases h; exact ⟨rfl, fixed _ hendpoint, nofun⟩
  | swapping =>
    cases h
    rw [if_pos hd.retired]
    exact ⟨rfl, fixed _ hswap, nofun⟩
  | decrementing => exact absurd rfl hs
  | leaving won =>
    cases h
    cases dropping with
    | true => exact ⟨rfl, rfl, nofun⟩
    | false => exact ⟨rfl, s.links_modify i fun _ => rfl, nofun⟩

/-- What holds of the gauge and of the clients in every state. -/
structure CountedOnce (c : Config State Call) : Prop where
  gauge : c.shared.gauge = (live c.shared + owed c) % 2 ^ 64
  exact : live c.shared + owed c < 2 ^ 64 → c.shared.gauge = live c.shared + owed c
  /-- A retirement about to subtract is among those owed, and leaves what is live. -/
  no_underflow : ∀ (k i : ℕ) dropping, c.procs[k]? = some (.retiring i .decrementing dropping) →
    0 < owed c ∧ (live c.shared + owed c < 2 ^ 64 → live c.shared < c.shared.gauge)
  /-- Of the retirements of a client at most one wins. -/
  once : ∀ i, c.procs.countP (Call.won i) ≤ 1
  quiet : (∀ i stage dropping, .retiring i stage dropping ∉ c.procs) →
    c.shared.gauge = live c.shared % 2 ^ 64
  /-- A retirement that has come to its end has torn its client down. -/
  done : ∀ (k i : ℕ) won, c.procs[k]? = some (.done i won) →
    ∃ l, c.shared.link i = some l ∧ l.TornDown
  /-- Then another one, unless it is the one that won, changes neither gauge nor links. -/
  further : ∀ (k i : ℕ) stage dropping l s q, c.procs[k]? = some (.retiring i stage dropping) →
    c.shared.link i = some l → l.TornDown → stage ≠ .decrementing →
    act c.shared (.retiring i stage dropping) .next = some (s, q) →
    s.gauge = c.shared.gauge ∧ s.links = c.shared.links ∧ q ≠ .retiring i .decrementing dropping

/-- Every client is counted in once and counted out once. -/
theorem retirement_counted_once {labels : List (Label Event Act)} {c : Config State Call}
    (h : run process.step ⟨State.start, []⟩ labels = some c) : CountedOnce c := by
  have hledger := run_ledger h
  have hplaced := run_allPlaced h
  have exact : live c.shared + owed c < 2 ^ 64 → c.shared.gauge = live c.shared + owed c :=
    fun hlt => hledger.gauge.trans (Nat.mod_eq_of_lt hlt)
  refine ⟨hledger.gauge, exact, ?_, ?_, hledger.quiet, ?_, ?_⟩
  · intro k i dropping hk
    have hpos : 0 < owed c := List.countP_pos_iff.mpr ⟨_, List.mem_of_getElem? hk, rfl⟩
    refine ⟨hpos, fun hlt => ?_⟩
    rw [exact hlt]
    exact Nat.lt_add_of_pos_right hpos
  · intro i
    rw [hledger.won]
    exact Bool.toNat_le _
  · exact fun k i won hk => hplaced.proc k _ hk
  · intro k i stage dropping l s q _ hl hd hs ha
    obtain ⟨l', hl', hr⟩ := Option.map_eq_some_iff.mp ha
    cases hl.symm.trans hl'
    exact retire_fixed hl hd hs hr

/-- A client connects; its connection is closed from two sides at once and then dropped. -/
def closedAndDropped : List (Label Event Act) :=
  [.spawn, .act 0 .connect, .act 0 .proceed, .act 0 .proceed, .act 0 (.count none),
    .env (.clone 0), .spawn, .spawn, .act 1 (.close 0), .act 2 (.close 0), .act 1 .next,
    .act 2 .next, .act 1 .next, .act 2 .next, .act 2 .next, .act 1 .next, .act 1 .next,
    .act 2 .next, .act 2 .next, .act 1 .next, .act 1 .next, .env (.release 0),
    .env (.release 0), .spawn, .act 3 (.drop 0), .act 3 .next, .act 3 .next, .act 3 .next,
    .act 3 .next, .act 3 .next]

theorem retirement_counted_once_closed : ∃ c,
    run process.step ⟨State.start, []⟩ closedAndDropped = some c ∧ c.shared.gauge = 0 ∧
      c.procs = [.connected 0, .done 0 true, .done 0 false, .done 0 false] ∧ CountedOnce c := by
  obtain ⟨c, h, hg, hp⟩ : ∃ c, run process.step ⟨State.start, []⟩ closedAndDropped = some c ∧
      c.shared.gauge = 0 ∧
      c.procs = [.connected 0, .done 0 true, .done 0 false, .done 0 false] := ⟨_, rfl, rfl, rfl⟩
  exact ⟨c, h, hg, hp, retirement_counted_once h⟩

end ConstructTransport.Teardown
