import ConstructTransport.Basic.Runs

/-! Processes that share a state and take their steps in any order, among steps
of an environment. New processes start at any time. An invariant of such a
system is given by its parts: what holds of the shared state, of each process
beside it, and of each two processes. A single process may also be followed
through a run by what its own steps do and what all other steps leave. -/

namespace ConstructTransport.Interleaving

open Runs

variable {S P E A : Type*}

/-! ### Counting -/

theorem countP_modify_add {α : Type*} {l : List α} {i : ℕ} {a : α} (h : l[i]? = some a)
    (f : α → α) (p : α → Bool) :
    (l.modify i f).countP p + (p a).toNat = l.countP p + (p (f a)).toNat := by
  have cons : ∀ (b : α) (l : List α), (b :: l).countP p = l.countP p + (p b).toNat := by
    intro b l
    rw [List.countP_cons]
    cases p b <;> rfl
  induction l generalizing i with
  | nil => simp at h
  | cons b l ih =>
    cases i with
    | zero =>
      cases h
      rw [List.modify_zero_cons, cons, cons]
      omega
    | succ i =>
      have := ih h
      rw [List.modify_succ_cons, cons, cons]
      omega

theorem countP_set_add {α : Type*} {l : List α} {i : ℕ} {a : α} (h : l[i]? = some a) (b : α)
    (p : α → Bool) : (l.set i b).countP p + (p a).toNat = l.countP p + (p b).toNat := by
  rw [List.set_eq_modify]
  exact countP_modify_add h _ p

theorem sum_map_set_lt {α : Type*} {l : List α} {i : ℕ} {a b : α} {w : α → ℕ}
    (h : l[i]? = some a) (hlt : w b < w a) : ((l.set i b).map w).sum < (l.map w).sum := by
  induction l generalizing i with
  | nil => simp at h
  | cons c l ih =>
    cases i with
    | zero =>
      cases h
      simp only [List.set_cons_zero, List.map_cons, List.sum_cons]
      omega
    | succ i =>
      have := ih h
      simp only [List.set_cons_succ, List.map_cons, List.sum_cons]
      omega

/-! ### Lists of processes -/

theorem getElem?_append_of_some {α : Type*} {l : List α} {i : ℕ} {a : α} (h : l[i]? = some a)
    (more : List α) : (l ++ more)[i]? = some a :=
  (List.getElem?_append_left (List.getElem?_eq_some_iff.mp h).1).trans h

theorem getElem?_set_of_some {α : Type*} {l : List α} {i : ℕ} {a : α} (h : l[i]? = some a)
    (b : α) : (l.set i b)[i]? = some b :=
  List.getElem?_set_self (List.getElem?_eq_some_iff.mp h).1

theorem getElem?_set_cases {α : Type*} {l : List α} {i k : ℕ} {a b : α}
    (h : (l.set k b)[i]? = some a) : i = k ∧ a = b ∨ i ≠ k ∧ l[i]? = some a := by
  by_cases hik : i = k
  · subst hik
    rw [List.getElem?_set_self (by simpa using (List.getElem?_eq_some_iff.mp h).1)] at h
    exact .inl ⟨rfl, (Option.some.inj h).symm⟩
  · rw [List.getElem?_set_ne (Ne.symm hik)] at h
    exact .inr ⟨hik, h⟩

theorem getElem?_concat_cases {α : Type*} {l : List α} {i : ℕ} {a b : α}
    (h : (l ++ [b])[i]? = some a) : l[i]? = some a ∨ i = l.length ∧ a = b := by
  rcases Nat.lt_trichotomy i l.length with hlt | rfl | hgt
  · exact .inl (by rwa [List.getElem?_append_left hlt] at h)
  · rw [List.getElem?_concat_length] at h
    exact .inr ⟨rfl, (Option.some.inj h).symm⟩
  · rw [List.getElem?_eq_none (by simp; omega)] at h
    contradiction

/-! ### Systems -/

/-- The steps of the environment and of a process, and how a process starts. -/
structure System (S P E A : Type*) where
  env : S → E → Option S
  act : S → P → A → Option (S × P)
  fresh : P

structure Config (S P : Type*) where
  shared : S
  procs : List P

inductive Label (E A : Type*)
  | env (e : E)
  | spawn
  | act (i : ℕ) (a : A)
  deriving DecidableEq, Repr

namespace System

variable (sys : System S P E A)

def step (c : Config S P) : Label E A → Option (Config S P)
  | .env e => (sys.env c.shared e).map fun s => ⟨s, c.procs⟩
  | .spawn => some ⟨c.shared, c.procs ++ [sys.fresh]⟩
  | .act i a =>
    match c.procs[i]? with
    | none => none
    | some p => (sys.act c.shared p a).map fun r => ⟨r.1, c.procs.set i r.2⟩

theorem step_cases {c c' : Config S P} {l : Label E A} (h : sys.step c l = some c') :
    (∃ e s, l = .env e ∧ sys.env c.shared e = some s ∧ c' = ⟨s, c.procs⟩) ∨
    (l = .spawn ∧ c' = ⟨c.shared, c.procs ++ [sys.fresh]⟩) ∨
    (∃ i a p s q, l = .act i a ∧ c.procs[i]? = some p ∧ sys.act c.shared p a = some (s, q) ∧
      c' = ⟨s, c.procs.set i q⟩) := by
  cases l with
  | env e =>
    obtain ⟨s, hs, rfl⟩ := Option.map_eq_some_iff.mp h
    exact .inl ⟨e, s, rfl, hs, rfl⟩
  | spawn =>
    cases h
    exact .inr (.inl ⟨rfl, rfl⟩)
  | act i a =>
    unfold step at h
    cases hp : c.procs[i]? with
    | none => simp [hp] at h
    | some p =>
      simp only [hp, Option.map_eq_some_iff] at h
      obtain ⟨⟨s, q⟩, hs, rfl⟩ := h
      exact .inr (.inr ⟨i, a, p, s, q, rfl, hp, hs, rfl⟩)

/-! ### Invariants by parts -/

/-- The shared state, each process beside it, each two processes. -/
structure Inv (G : S → Prop) (L : S → P → Prop) (R : P → P → Prop) (c : Config S P) : Prop where
  shared : G c.shared
  proc : ∀ (i : ℕ) (p : P), c.procs[i]? = some p → L c.shared p
  pair : ∀ (i j : ℕ) (p q : P), i ≠ j → c.procs[i]? = some p → c.procs[j]? = some q → R p q

theorem inv_start {G : S → Prop} {L : S → P → Prop} {R : P → P → Prop} {s : S} (h : G s) :
    Inv G L R ⟨s, []⟩ :=
  ⟨h, fun i p hp => by simp at hp, fun i j p q _ hp => by simp at hp⟩

/-- A condition on the steps of processes: on the shared state, the process and
what it does. -/
def Meets (C : S → P → A → Prop) (c : Config S P) (l : Label E A) : Prop :=
  ∀ (i : ℕ) (p : P) (a : A), l = .act i a → c.procs[i]? = some p → C c.shared p a

theorem meets_act {C : S → P → A → Prop} {c : Config S P} {k : ℕ} {p : P} {a : A}
    (hp : c.procs[k]? = some p) : Meets C c (.act k a : Label E A) ↔ C c.shared p a := by
  refine ⟨fun h => h k p a rfl hp, fun h i q b hl hq => ?_⟩
  cases hl
  cases hq.symm.trans hp
  exact h

instance decidableMeets {C : S → P → A → Prop} [∀ s p a, Decidable (C s p a)] (c : Config S P) :
    ∀ l : Label E A, Decidable (Meets C c l)
  | .env _ => .isTrue nofun
  | .spawn => .isTrue nofun
  | .act k a =>
    match h : c.procs[k]? with
    | none => .isTrue fun i p b hl hp => by cases hl; cases hp.symm.trans h
    | some p => decidable_of_iff (C c.shared p a) (meets_act h).symm

/-- An invariant by parts, where the processes meet a condition: no part is
broken by the environment, by a new process, by the step of a process or by the
step of another. -/
theorem step_inv_meeting {C : S → P → A → Prop} {G : S → Prop} {L : S → P → Prop}
    {R : P → P → Prop} (symm : ∀ p q, R p q → R q p)
    (env : ∀ s e s', G s → sys.env s e = some s' → G s' ∧ ∀ q, L s q → L s' q)
    (fresh : ∀ s, G s → L s sys.fresh ∧ ∀ q, L s q → R sys.fresh q)
    (act : ∀ s p a s' p', G s → L s p → C s p a → sys.act s p a = some (s', p') →
      G s' ∧ L s' p' ∧ ∀ q, L s q → R p q → L s' q ∧ R p' q)
    {c c' : Config S P} {l : Label E A} (hi : Inv G L R c) (hc : Meets C c l)
    (h : sys.step c l = some c') : Inv G L R c' := by
  rcases sys.step_cases h with
    ⟨e, s, rfl, he, rfl⟩ | ⟨rfl, rfl⟩ | ⟨k, a, p, s, p', rfl, hp, ha, rfl⟩
  · obtain ⟨hg, hl⟩ := env _ _ _ hi.shared he
    exact ⟨hg, fun i q hq => hl q (hi.proc i q hq), hi.pair⟩
  · obtain ⟨hl, hr⟩ := fresh _ hi.shared
    refine ⟨hi.shared, fun i q hq => ?_, fun i j q r hne hq hr' => ?_⟩
    · rcases getElem?_concat_cases hq with hq | ⟨-, rfl⟩
      · exact hi.proc i q hq
      · exact hl
    · rcases getElem?_concat_cases hq with hq | ⟨rfl, rfl⟩ <;>
        rcases getElem?_concat_cases hr' with hr' | ⟨rfl, rfl⟩
      · exact hi.pair i j q r hne hq hr'
      · exact symm _ _ (hr q (hi.proc i q hq))
      · exact hr r (hi.proc j r hr')
      · exact absurd rfl hne
  · obtain ⟨hg, hl, ho⟩ := act _ _ _ _ _ hi.shared (hi.proc k p hp) (hc k p a rfl hp) ha
    refine ⟨hg, fun i q hq => ?_, fun i j q r hne hq hr => ?_⟩
    · rcases getElem?_set_cases hq with ⟨rfl, rfl⟩ | ⟨hik, hq⟩
      · exact hl
      · exact (ho q (hi.proc i q hq) (hi.pair k i p q (Ne.symm hik) hp hq)).1
    · rcases getElem?_set_cases hq with ⟨rfl, rfl⟩ | ⟨hik, hq'⟩
      · rcases getElem?_set_cases hr with ⟨rfl, rfl⟩ | ⟨hjk, hr'⟩
        · exact absurd rfl hne
        · exact (ho r (hi.proc j r hr') (hi.pair i j p r (Ne.symm hjk) hp hr')).2
      · rcases getElem?_set_cases hr with ⟨rfl, rfl⟩ | ⟨hjk, hr'⟩
        · exact symm _ _ (ho q (hi.proc i q hq') (hi.pair j i p q (Ne.symm hik) hp hq')).2
        · exact hi.pair i j q r hne hq' hr'

theorem step_inv {G : S → Prop} {L : S → P → Prop} {R : P → P → Prop}
    (symm : ∀ p q, R p q → R q p)
    (env : ∀ s e s', G s → sys.env s e = some s' → G s' ∧ ∀ q, L s q → L s' q)
    (fresh : ∀ s, G s → L s sys.fresh ∧ ∀ q, L s q → R sys.fresh q)
    (act : ∀ s p a s' p', G s → L s p → sys.act s p a = some (s', p') →
      G s' ∧ L s' p' ∧ ∀ q, L s q → R p q → L s' q ∧ R p' q)
    {c c' : Config S P} {l : Label E A} (hi : Inv G L R c) (h : sys.step c l = some c') :
    Inv G L R c' :=
  sys.step_inv_meeting (C := fun _ _ _ => True) symm env fresh
    (fun s p a s' p' hg hl _ => act s p a s' p' hg hl) hi (fun _ _ _ _ _ => trivial) h

/-- Every number below `f` has an owner: the environment adds none, a process
keeps what it owns and owns what its step adds. -/
theorem step_owned {f : S → ℕ} {O : P → ℕ → Prop} {c c' : Config S P} {l : Label E A}
    (h : sys.step c l = some c')
    (ho : ∀ t < f c.shared, ∃ (i : ℕ) (p : P), c.procs[i]? = some p ∧ O p t)
    (env : ∀ e s, sys.env c.shared e = some s → f s ≤ f c.shared)
    (act : ∀ (k : ℕ) (p : P) (a : A) (s : S) (p' : P), c.procs[k]? = some p →
      sys.act c.shared p a = some (s, p') →
      (∀ t, O p t → O p' t) ∧ ∀ t < f s, t < f c.shared ∨ O p' t) :
    ∀ t < f c'.shared, ∃ (i : ℕ) (p : P), c'.procs[i]? = some p ∧ O p t := by
  rcases sys.step_cases h with ⟨e, s, -, he, rfl⟩ | ⟨-, rfl⟩ | ⟨k, a, p, s, p', -, hp, ha, rfl⟩
  · exact fun t ht => ho t (Nat.lt_of_lt_of_le ht (env e s he))
  · intro t ht
    obtain ⟨i, q, hq, hown⟩ := ho t ht
    exact ⟨i, q, getElem?_append_of_some hq _, hown⟩
  · obtain ⟨keeps, adds⟩ := act k p a s p' hp ha
    have hk := getElem?_set_of_some hp p'
    intro t ht
    rcases adds t ht with hold | hnew
    · obtain ⟨i, q, hq, hown⟩ := ho t hold
      by_cases hik : i = k
      · subst hik
        cases hq.symm.trans hp
        exact ⟨i, p', hk, keeps t hown⟩
      · exact ⟨i, q, (List.getElem?_set_ne (Ne.symm hik)).trans hq, hown⟩
    · exact ⟨k, p', hk, hnew⟩

/-- A property of process `i` beside the shared state, through one step. -/
theorem step_follow {T : S → P → Prop} {i : ℕ} {c c' : Config S P} {l : Label E A}
    (h : sys.step c l = some c') (ht : ∀ p, c.procs[i]? = some p → T c.shared p)
    (env : ∀ e s p, l = .env e → c.procs[i]? = some p → T c.shared p →
      sys.env c.shared e = some s → T s p)
    (fresh : T c.shared sys.fresh)
    (own : ∀ a p s p', l = .act i a → c.procs[i]? = some p → T c.shared p →
      sys.act c.shared p a = some (s, p') → T s p')
    (other : ∀ j a p q s q', j ≠ i → l = .act j a → c.procs[i]? = some p → T c.shared p →
      c.procs[j]? = some q → sys.act c.shared q a = some (s, q') → T s p) :
    ∀ p, c'.procs[i]? = some p → T c'.shared p := by
  rcases sys.step_cases h with ⟨e, s, hl, he, rfl⟩ | ⟨-, rfl⟩ | ⟨k, a, q, s, q', hl, hq, ha, rfl⟩
  · exact fun p hp => env e s p hl hp (ht p hp) he
  · intro p hp
    rcases getElem?_concat_cases hp with hp | ⟨-, rfl⟩
    · exact ht p hp
    · exact fresh
  · intro p hp
    rcases getElem?_set_cases hp with ⟨rfl, rfl⟩ | ⟨hik, hp⟩
    · exact own a q s p hl hq (ht q hq) ha
    · exact other k a p q s q' (Ne.symm hik) hl hp (ht p hp) hq ha

/-- A property of process `i` beside the shared state, through a run in which the
process starts. -/
theorem run_follow {T : S → P → Prop} {C : Config S P → Label E A → Prop} {i : ℕ}
    {c c' : Config S P} {ls : List (Label E A)}
    (step : ∀ c l c', sys.step c l = some c' → C c l → (∀ p, c.procs[i]? = some p → T c.shared p) →
      ∀ p, c'.procs[i]? = some p → T c'.shared p)
    (hc : Along sys.step C c ls) (start : c.procs = []) (h : run sys.step c ls = some c') :
    ∀ p, c'.procs[i]? = some p → T c'.shared p := by
  refine run_invariant_along (fun c => ∀ p, c.procs[i]? = some p → T c.shared p)
    (fun c l c' ht hl hs => step c l c' hs hl ht) (fun p hp => ?_) hc h
  rw [start] at hp
  cases hp

theorem step_keeps {T : P → Prop} {i : ℕ} {p : P} {c c' : Config S P} {l : Label E A}
    (h : sys.step c l = some c') (hp : c.procs[i]? = some p) (ht : T p)
    (own : ∀ a s p', sys.act c.shared p a = some (s, p') → T p') :
    ∃ p', c'.procs[i]? = some p' ∧ T p' := by
  rcases sys.step_cases h with ⟨e, s, -, -, rfl⟩ | ⟨-, rfl⟩ | ⟨k, a, q, s, q', -, hq, ha, rfl⟩
  · exact ⟨p, hp, ht⟩
  · exact ⟨p, getElem?_append_of_some hp _, ht⟩
  · by_cases hik : i = k
    · subst hik
      cases hq.symm.trans hp
      exact ⟨q', getElem?_set_of_some hp q', own a s q' ha⟩
    · exact ⟨p, (List.getElem?_set_ne (Ne.symm hik)).trans hp, ht⟩

/-! ### What the processes have left to do -/

/-- A step of a process that meets a condition. -/
def Acts (C : S → P → A → Prop) (c : Config S P) (l : Label E A) : Prop :=
  ∃ i p a, l = .act i a ∧ c.procs[i]? = some p ∧ C c.shared p a

/-- Where such steps cost a process some of what it has left, they cost some of the sum. -/
theorem step_pays {C : S → P → A → Prop} {w : P → ℕ}
    (pays : ∀ s p a s' q, C s p a → sys.act s p a = some (s', q) → w q < w p)
    {c c' : Config S P} {l : Label E A} (hc : Acts C c l) (h : sys.step c l = some c') :
    (c'.procs.map w).sum < (c.procs.map w).sum := by
  obtain ⟨i, p, a, rfl, hp, hc⟩ := hc
  simp only [step, hp, Option.map_eq_some_iff] at h
  obtain ⟨⟨s, q⟩, ha, rfl⟩ := h
  exact sum_map_set_lt hp (pays _ p a s q hc ha)

end System

end ConstructTransport.Interleaving
