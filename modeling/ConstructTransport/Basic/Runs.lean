import Mathlib.Data.List.Basic
import Mathlib.Data.UInt

/-! Runs of a labelled transition system whose steps are a partial function: a
label that is not enabled has no step. Invariants are inductive, either
outright or as long as every step of the run meets a condition on the state it
starts from and its label. -/

namespace ConstructTransport.Runs

variable {σ α : Type*}

/-- Steps taken one label after the other. -/
def run (step : σ → α → Option σ) : σ → List α → Option σ
  | s, [] => some s
  | s, a :: as => (step s a).bind fun t => run step t as

/-- Every label of the run meets `C` in the state it is taken from. -/
def Along (step : σ → α → Option σ) (C : σ → α → Prop) : σ → List α → Prop
  | _, [] => True
  | s, a :: as => C s a ∧ ∀ t, step s a = some t → Along step C t as

/-- Every state of the run, its last among them, meets `Q`. -/
def Throughout (step : σ → α → Option σ) (Q : σ → Prop) : σ → List α → Prop
  | s, [] => Q s
  | s, a :: as => Q s ∧ ∀ t, step s a = some t → Throughout step Q t as

variable {step : σ → α → Option σ} {C : σ → α → Prop} {s s' : σ} {as bs : List α}

@[simp] theorem run_nil : run step s [] = some s := rfl

theorem run_cons_eq_some {a : α} :
    run step s (a :: as) = some s' ↔ ∃ t, step s a = some t ∧ run step t as = some s' := by
  rw [run, Option.bind_eq_some_iff]

theorem run_append_eq_some :
    run step s (as ++ bs) = some s' ↔ ∃ t, run step s as = some t ∧ run step t bs = some s' := by
  induction as generalizing s with
  | nil => simp
  | cons a as ih =>
    simp only [List.cons_append, run_cons_eq_some, ih]
    constructor
    · rintro ⟨t, ha, u, hu, hb⟩
      exact ⟨u, ⟨t, ha, hu⟩, hb⟩
    · rintro ⟨u, ⟨t, ha, hu⟩, hb⟩
      exact ⟨t, ha, u, hu, hb⟩

/-- A condition on the labels alone. -/
theorem along_of_forall (h : ∀ a ∈ as, ∀ s, C s a) : Along step C s as := by
  induction as generalizing s with
  | nil => trivial
  | cons a as ih =>
    exact ⟨h a List.mem_cons_self s, fun t _ => ih fun b hb => h b (List.mem_cons_of_mem a hb)⟩

theorem along_cons {a : α} {t : σ} (h : step s a = some t) :
    Along step C s (a :: as) ↔ C s a ∧ Along step C t as := by
  refine and_congr_right fun _ => ⟨fun hal => hal t h, fun hal u hu => ?_⟩
  cases h.symm.trans hu
  exact hal

instance decidableAlong [∀ s a, Decidable (C s a)] :
    ∀ (s : σ) (as : List α), Decidable (Along step C s as)
  | _, [] => .isTrue trivial
  | s, a :: as =>
    match h : step s a with
    | none => decidable_of_iff (C s a) (by simp [Along, h])
    | some t =>
      have := decidableAlong t as
      decidable_of_iff (C s a ∧ Along step C t as) (along_cons h).symm

theorem Along.and {D : σ → α → Prop} (hc : Along step C s as) (hd : Along step D s as) :
    Along step (fun s a => C s a ∧ D s a) s as := by
  induction as generalizing s with
  | nil => trivial
  | cons a as ih => exact ⟨⟨hc.1, hd.1⟩, fun t ha => ih (hc.2 t ha) (hd.2 t ha)⟩

theorem Along.imp {D : σ → α → Prop} (hd : ∀ s a, C s a → D s a) (hc : Along step C s as) :
    Along step D s as := by
  induction as generalizing s with
  | nil => trivial
  | cons a as ih => exact ⟨hd s a hc.1, fun t ha => ih (hc.2 t ha)⟩

theorem Along.left (h : Along step C s (as ++ bs)) : Along step C s as := by
  induction as generalizing s with
  | nil => trivial
  | cons a as ih => exact ⟨h.1, fun t ha => ih (h.2 t ha)⟩

/-- What every step that meets the condition keeps, a run that meets it keeps. -/
theorem run_invariant_along (Inv : σ → Prop)
    (keep : ∀ s a t, Inv s → C s a → step s a = some t → Inv t) (hs : Inv s)
    (hc : Along step C s as) (hr : run step s as = some s') : Inv s' := by
  induction as generalizing s with
  | nil => cases hr; exact hs
  | cons a as ih =>
    obtain ⟨t, ha, ht⟩ := run_cons_eq_some.mp hr
    exact ih (keep s a t hs hc.1 ha) (hc.2 t ha) ht

/-- What every step keeps, a run keeps. -/
theorem run_invariant (Inv : σ → Prop) (keep : ∀ s a t, Inv s → step s a = some t → Inv t)
    (hs : Inv s) (hr : run step s as = some s') : Inv s' := by
  induction as generalizing s with
  | nil => cases hr; exact hs
  | cons a as ih =>
    obtain ⟨t, ha, ht⟩ := run_cons_eq_some.mp hr
    exact ih (keep s a t hs ha) ht

/-- What holds at the end of a run and not at its start, some step of the run makes true. -/
theorem run_establishes (P : σ → Prop) (hs : ¬P s) (hs' : P s') (hr : run step s as = some s') :
    ∃ pre a post t t', as = pre ++ a :: post ∧ run step s pre = some t ∧
      step t a = some t' ∧ ¬P t ∧ P t' := by
  induction as generalizing s with
  | nil => cases hr; contradiction
  | cons a as ih =>
    obtain ⟨t, ha, ht⟩ := run_cons_eq_some.mp hr
    by_cases hp : P t
    · exact ⟨[], a, as, s, t, rfl, rfl, ha, hs, hp⟩
    · obtain ⟨pre, b, post, u, u', rfl, hu, hb, hn, hp'⟩ := ih hp ht
      exact ⟨a :: pre, b, post, u, u', rfl, run_cons_eq_some.mpr ⟨t, ha, hu⟩, hb, hn, hp'⟩

/-- A property that a step keeps exactly where it meets the condition holds at the
end of a run exactly where the run meets it. -/
theorem run_iff_along (Inv Q : σ → Prop) (keep : ∀ s a t, Inv s → step s a = some t → Inv t)
    (iff : ∀ s a t, Inv s → step s a = some t → (Q t ↔ Q s ∧ C s a)) (hs : Inv s)
    (hr : run step s as = some s') : Q s' ↔ Q s ∧ Along step C s as := by
  induction as generalizing s with
  | nil =>
    cases hr
    exact ⟨fun hq => ⟨hq, trivial⟩, And.left⟩
  | cons a as ih =>
    obtain ⟨t, ha, ht⟩ := run_cons_eq_some.mp hr
    rw [ih (keep s a t hs ha) ht, iff s a t hs ha]
    constructor
    · rintro ⟨⟨hq, hc⟩, hal⟩
      refine ⟨hq, hc, fun u hu => ?_⟩
      cases ha.symm.trans hu
      exact hal
    · rintro ⟨hq, hc, hal⟩
      exact ⟨⟨hq, hc⟩, hal t ha⟩

theorem Throughout.last {Q : σ → Prop} (h : Throughout step Q s as)
    (hr : run step s as = some s') : Q s' := by
  induction as generalizing s with
  | nil => cases hr; exact h
  | cons a as ih =>
    obtain ⟨t, ha, ht⟩ := run_cons_eq_some.mp hr
    exact ih (h.2 t ha) ht

/-- Where a step from a good state leads to a good state exactly if it meets the
condition, the states of a run are good exactly if the run meets it. -/
theorem throughout_iff_along (Inv Q : σ → Prop)
    (keep : ∀ s a t, Inv s → step s a = some t → Inv t)
    (iff : ∀ s a t, Inv s → Q s → step s a = some t → (Q t ↔ C s a)) (hs : Inv s) (hq : Q s)
    (hr : run step s as = some s') : Throughout step Q s as ↔ Along step C s as := by
  induction as generalizing s with
  | nil => exact ⟨fun _ => trivial, fun _ => hq⟩
  | cons a as ih =>
    obtain ⟨t, ha, ht⟩ := run_cons_eq_some.mp hr
    have next := iff s a t hs hq ha
    have hi := keep s a t hs ha
    constructor
    · rintro ⟨-, hall⟩
      have hqt : Q t := by
        cases as with
        | nil => exact hall t ha
        | cons b bs => exact (hall t ha).1
      refine ⟨next.mp hqt, fun u hu => ?_⟩
      cases ha.symm.trans hu
      exact (ih hi hqt ht).mp (hall t ha)
    · rintro ⟨hc, hal⟩
      refine ⟨hq, fun u hu => ?_⟩
      cases ha.symm.trans hu
      exact (ih hi (next.mpr hc) ht).mpr (hal t ha)

/-- A potential that pays for the counted steps: a run takes no more of them than
it had saved up and was given on the way. -/
theorem run_countP_le (Φ : σ → ℕ) (spends gains : α → Bool)
    (pays : ∀ s a t, C s a → step s a = some t →
      (if spends a then 1 else 0) + Φ t ≤ Φ s + if gains a then 1 else 0)
    (hc : Along step C s as) (hr : run step s as = some s') :
    as.countP spends + Φ s' ≤ Φ s + as.countP gains := by
  induction as generalizing s with
  | nil => cases hr; exact Nat.le_of_eq (Nat.zero_add _)
  | cons a as ih =>
    obtain ⟨t, ha, ht⟩ := run_cons_eq_some.mp hr
    have hstep := pays s a t hc.1 ha
    have hrest := ih (hc.2 t ha) ht
    rw [List.countP_cons, List.countP_cons]
    omega

/-- Where every step that meets the condition costs some of a potential, a run of such
steps is no longer than what it had. -/
theorem run_length_le (Φ : σ → ℕ) (pays : ∀ s a t, C s a → step s a = some t → Φ t < Φ s)
    (hc : Along step C s as) (hr : run step s as = some s') : as.length + Φ s' ≤ Φ s := by
  have := run_countP_le Φ (fun _ => true) (fun _ => false)
    (fun s a t ha hs => by
      show 1 + Φ t ≤ Φ s + 0
      have := pays s a t ha hs
      omega) hc hr
  simpa using this

/-- Some such run ends where no such step is left. -/
theorem exists_run_stuck (Φ : σ → ℕ) (pays : ∀ s a t, C s a → step s a = some t → Φ t < Φ s)
    (s : σ) : ∃ as s', Along step C s as ∧ run step s as = some s' ∧
      ∀ a, C s' a → step s' a = none := by
  induction hn : Φ s using Nat.strong_induction_on generalizing s with
  | _ n ih =>
    by_cases hstuck : ∀ a, C s a → step s a = none
    · exact ⟨[], s, trivial, rfl, hstuck⟩
    · obtain ⟨a, ha⟩ := not_forall.mp hstuck
      obtain ⟨hca, hs⟩ := Classical.not_imp.mp ha
      obtain ⟨t, ht⟩ := Option.ne_none_iff_exists'.mp hs
      obtain ⟨as, s', hc, hr, hend⟩ := ih (Φ t) (hn ▸ pays s a t hca ht) t rfl
      exact ⟨a :: as, s', (along_cons ht).mpr ⟨hca, hc⟩, run_cons_eq_some.mpr ⟨t, ht, hr⟩, hend⟩

/-- A counter that wraps has counted, at the end of a run, what its steps counted. -/
theorem run_counter (counter : σ → UInt64) (n : α → ℕ)
    (adds : ∀ s a t, step s a = some t → counter t = counter s + UInt64.ofNat (n a))
    (hr : run step s as = some s') : counter s' = counter s + UInt64.ofNat (as.map n).sum := by
  induction as generalizing s with
  | nil =>
    cases hr
    exact (UInt64.add_zero _).symm
  | cons a as ih =>
    obtain ⟨t, ha, ht⟩ := run_cons_eq_some.mp hr
    rw [ih ht, adds s a t ha, List.map_cons, List.sum_cons, UInt64.ofNat_add, UInt64.add_assoc]

end ConstructTransport.Runs
