import ConstructTransport.Basic.Interleaving

/-! Pools of workers that share nothing. A pool takes on workers as long as it
accepts and its workers take their steps in any order, also after it has stopped
accepting. A run of the pool is then a run of each worker on its own, and a run
of a worker on its own goes through in the pool whatever the others do. -/

namespace ConstructTransport.Pooling

open Runs Interleaving

variable {W A : Type*}

structure Pool (W : Type*) where
  accepting : Bool
  workers : List W
  deriving DecidableEq, Repr

inductive Event (A : Type*)
  | accept
  | stop
  | work (i : ℕ) (a : A)
  deriving DecidableEq, Repr

def Pool.start : Pool W := ⟨true, []⟩

variable (fresh : W) (act : W → A → Option W)

def step (p : Pool W) : Event A → Option (Pool W)
  | .accept => if p.accepting then some { p with workers := p.workers ++ [fresh] } else none
  | .stop => if p.accepting then some { p with accepting := false } else none
  | .work i a =>
    match p.workers[i]? with
    | none => none
    | some w => (act w a).map fun w' => { p with workers := p.workers.set i w' }

/-- The steps of worker `i`, in order. -/
def own (i : ℕ) (es : List (Event A)) : List A :=
  es.filterMap fun
    | .work k a => if k = i then some a else none
    | _ => none

variable {fresh act} {p p' : Pool W} {e : Event A} {es : List (Event A)} {i : ℕ} {w w' : W}

theorem own_append (i : ℕ) (es fs : List (Event A)) : own i (es ++ fs) = own i es ++ own i fs :=
  List.filterMap_append

theorem step_cases (h : step fresh act p e = some p') :
    (e = .accept ∧ p' = { p with workers := p.workers ++ [fresh] }) ∨
    (e = .stop ∧ p' = { p with accepting := false }) ∨
    (∃ i a w w', e = .work i a ∧ p.workers[i]? = some w ∧ act w a = some w' ∧
      p' = { p with workers := p.workers.set i w' }) := by
  cases e with
  | accept =>
    simp only [step, Option.ite_none_right_eq_some, Option.some.injEq] at h
    exact .inl ⟨rfl, h.2.symm⟩
  | stop =>
    simp only [step, Option.ite_none_right_eq_some, Option.some.injEq] at h
    exact .inr (.inl ⟨rfl, h.2.symm⟩)
  | work i a =>
    unfold step at h
    cases hw : p.workers[i]? with
    | none => simp [hw] at h
    | some w =>
      simp only [hw, Option.map_eq_some_iff] at h
      obtain ⟨w', ha, rfl⟩ := h
      exact .inr (.inr ⟨i, a, w, w', rfl, hw, ha, rfl⟩)

theorem step_work {a : A} (hw : p.workers[i]? = some w) (ha : act w a = some w') :
    step fresh act p (.work i a) = some { p with workers := p.workers.set i w' } := by
  simp [step, hw, ha]

/-- A worker after a step: new, or moved by its own step, or left alone. -/
theorem step_worker (h : step fresh act p e = some p') (hw : p'.workers[i]? = some w) :
    (p.workers[i]? = none ∧ own i [e] = [] ∧ w = fresh) ∨
      ∃ v, p.workers[i]? = some v ∧ run act v (own i [e]) = some w := by
  rcases step_cases h with ⟨rfl, rfl⟩ | ⟨rfl, rfl⟩ | ⟨k, a, v, v', rfl, hv, ha, rfl⟩
  · rcases getElem?_concat_cases hw with hw | ⟨rfl, rfl⟩
    · exact .inr ⟨w, hw, rfl⟩
    · exact .inl ⟨List.getElem?_eq_none le_rfl, rfl, rfl⟩
  · exact .inr ⟨w, hw, rfl⟩
  · rcases getElem?_set_cases hw with ⟨rfl, rfl⟩ | ⟨hik, hw⟩
    · refine .inr ⟨v, hv, ?_⟩
      simp [own, run, ha]
    · refine .inr ⟨w, hw, ?_⟩
      simp [own, Ne.symm hik]

theorem own_eq_nil (h : run (step fresh act) p es = some p') (hw : p'.workers[i]? = none) :
    p.workers[i]? = none ∧ own i es = [] := by
  induction es generalizing p with
  | nil => cases h; exact ⟨hw, rfl⟩
  | cons e es ih =>
    obtain ⟨q, hq, hr⟩ := run_cons_eq_some.mp h
    obtain ⟨hn, ho⟩ := ih hr
    have hcons : own i (e :: es) = own i [e] ++ own i es := own_append i [e] es
    rcases step_cases hq with ⟨rfl, rfl⟩ | ⟨rfl, rfl⟩ | ⟨k, a, v, v', rfl, hv, ha, rfl⟩
    · rw [List.getElem?_eq_none_iff, List.length_append] at hn
      exact ⟨List.getElem?_eq_none (by omega), by rw [hcons, ho]; rfl⟩
    · exact ⟨hn, by rw [hcons, ho]; rfl⟩
    · rw [List.getElem?_eq_none_iff, List.length_set] at hn
      have hne : k ≠ i := by
        rintro rfl
        exact absurd (List.getElem?_eq_some_iff.mp hv).1 (Nat.not_lt.mpr hn)
      exact ⟨List.getElem?_eq_none hn, by rw [hcons, ho]; simp [own, hne]⟩

/-- A run of the pool is, for each worker it has taken on, a run of that worker. -/
theorem run_own (h : run (step fresh act) Pool.start es = some p) (hw : p.workers[i]? = some w) :
    run act fresh (own i es) = some w := by
  induction es using List.reverseRecOn generalizing p w with
  | nil =>
    cases h
    simp [Pool.start] at hw
  | append_singleton es e ih =>
    obtain ⟨q, hq, hr⟩ := run_append_eq_some.mp h
    obtain ⟨p'', he, hp⟩ := run_cons_eq_some.mp hr
    cases hp
    rw [own_append]
    rcases step_worker he hw with ⟨hn, ho, rfl⟩ | ⟨v, hv, hw⟩
    · rw [(own_eq_nil hq hn).2, ho]
      rfl
    · exact run_append_eq_some.mpr ⟨v, ih hq hv, hw⟩

theorem run_own_of (h : run (step fresh act) p es = some p') (hw : p.workers[i]? = some w) :
    ∃ w', p'.workers[i]? = some w' ∧ run act w (own i es) = some w' := by
  induction es generalizing p w with
  | nil => cases h; exact ⟨w, hw, rfl⟩
  | cons e es ih =>
    obtain ⟨q, hq, hr⟩ := run_cons_eq_some.mp h
    obtain ⟨v, hv, ho⟩ : ∃ v, q.workers[i]? = some v ∧ run act w (own i [e]) = some v := by
      rcases step_cases hq with ⟨rfl, rfl⟩ | ⟨rfl, rfl⟩ | ⟨k, a, u, u', rfl, hu, ha, rfl⟩
      · exact ⟨w, getElem?_append_of_some hw [fresh], rfl⟩
      · exact ⟨w, hw, rfl⟩
      · by_cases hk : k = i
        · subst hk
          cases hu.symm.trans hw
          exact ⟨u', getElem?_set_of_some hu u', by simp [own, run, ha]⟩
        · exact ⟨w, (List.getElem?_set_ne hk).trans hw, by simp [own, hk]⟩
    obtain ⟨w', hw', hrest⟩ := ih hr hv
    exact ⟨w', hw', (own_append i [e] es).symm ▸ run_append_eq_some.mpr ⟨v, ho, hrest⟩⟩

/-- Workers that can do more make a pool that can. -/
theorem step_mono {act' : W → A → Option W}
    (mono : ∀ w a w', act w a = some w' → act' w a = some w')
    (h : step fresh act p e = some p') : step fresh act' p e = some p' := by
  cases e with
  | accept | stop => exact h
  | work i a =>
    unfold step at h
    cases hw : p.workers[i]? with
    | none => simp [hw] at h
    | some w =>
      simp only [hw, Option.map_eq_some_iff] at h
      obtain ⟨w', ha, rfl⟩ := h
      exact step_work hw (mono w a w' ha)

variable (fresh) in
/-- What a worker can do alone it can do in the pool, and no other is touched. -/
theorem run_alone {as : List A} (hw : p.workers[i]? = some w) (h : run act w as = some w') :
    run (step fresh act) p (as.map (.work i)) =
      some { p with workers := p.workers.set i w' } := by
  induction as generalizing p w with
  | nil =>
    cases h
    have hself : p.workers.set i w' = p.workers := by
      obtain ⟨hi, rfl⟩ := List.getElem?_eq_some_iff.mp hw
      exact List.set_getElem_self hi
    rw [hself]
    rfl
  | cons a as ih =>
    obtain ⟨v, ha, hr⟩ := run_cons_eq_some.mp h
    refine run_cons_eq_some.mpr ⟨_, step_work hw ha, ?_⟩
    rw [ih (getElem?_set_of_some hw v) hr, List.set_set]

/-! ### Systems within systems -/

/-- A run of a part is a run of the whole. -/
theorem run_lift {σ τ α β : Type*} {part : σ → α → Option σ} {whole : τ → β → Option τ}
    (f : σ → τ) (g : α → β) (lift : ∀ s a s', part s a = some s' → whole (f s) (g a) = some (f s'))
    {s s' : σ} {as : List α} (h : run part s as = some s') :
    run whole (f s) (as.map g) = some (f s') := by
  induction as generalizing s with
  | nil => cases h; rfl
  | cons a as ih =>
    obtain ⟨t, ha, hr⟩ := run_cons_eq_some.mp h
    exact run_cons_eq_some.mpr ⟨f t, lift s a t ha, ih hr⟩

theorem run_map {σ α β : Type*} (f : σ → α → Option σ) (g : β → α) (s : σ) (bs : List β) :
    run f s (bs.map g) = run (fun s b => f s (g b)) s bs := by
  induction bs generalizing s with
  | nil => rfl
  | cons b bs ih =>
    rw [List.map_cons, run, run]
    exact Option.bind_congr fun t _ => ih t

/-- A run of the whole is a run of a part, in the steps that are the part's, as long as
the part has what it needs of the whole. -/
theorem run_restrict {σ τ α β : Type*} {part : σ → α → Option σ} {whole : τ → β → Option τ}
    (f : τ → σ) (g : β → Option α) (Needs : τ → Prop)
    (restrict : ∀ t b t', Needs t → whole t b = some t' →
      Needs t' ∧ run part (f t) (g b).toList = some (f t'))
    {t t' : τ} {bs : List β} (ht : Needs t) (h : run whole t bs = some t') :
    Needs t' ∧ run part (f t) (bs.filterMap g) = some (f t') := by
  induction bs generalizing t with
  | nil => cases h; exact ⟨ht, rfl⟩
  | cons b bs ih =>
    obtain ⟨u, hb, hr⟩ := run_cons_eq_some.mp h
    obtain ⟨hu, hpart⟩ := restrict t b u ht hb
    obtain ⟨ht', hrest⟩ := ih hu hr
    have hcons : (b :: bs).filterMap g = (g b).toList ++ bs.filterMap g := by
      cases hg : g b <;> simp [hg]
    rw [hcons]
    exact ⟨ht', run_append_eq_some.mpr ⟨f u, hpart, hrest⟩⟩

end ConstructTransport.Pooling
