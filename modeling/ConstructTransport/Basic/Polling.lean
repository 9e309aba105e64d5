import Mathlib.Data.List.Basic
import Mathlib.Data.List.Chain

/-! Loops that look at the world until a look decides, and pause between looks. A
loop that has not ended has looked and gone on each time, from the state the look
before left. The pauses between looks bound how many there are by any time. -/

namespace ConstructTransport.Polling

variable {σ ο ν : Type*} {look : σ → ο → ν ⊕ σ} {s t : σ} {os pre post : List ο} {o : ο} {v : ν}

/-- The verdict of a loop and what it did not look at any more, or the state it goes on in. -/
def loop (look : σ → ο → ν ⊕ σ) : σ → List ο → (ν × List ο) ⊕ σ
  | s, [] => .inr s
  | s, o :: os =>
    match look s o with
    | .inl v => .inl (v, os)
    | .inr t => loop look t os

theorem loop_cons_inl (h : look s o = .inl v) (os : List ο) :
    loop look s (o :: os) = .inl (v, os) := by
  rw [loop, h]

theorem loop_cons_inr (h : look s o = .inr t) (os : List ο) :
    loop look s (o :: os) = loop look t os := by
  rw [loop, h]

theorem loop_append (h : loop look s pre = .inr t) (post : List ο) :
    loop look s (pre ++ post) = loop look t post := by
  induction pre generalizing s with
  | nil =>
    cases h
    rfl
  | cons o pre ih =>
    cases ho : look s o with
    | inl v =>
      rw [loop_cons_inl ho] at h
      cases h
    | inr s' =>
      rw [loop_cons_inr ho] at h
      rw [List.cons_append, loop_cons_inr ho]
      exact ih h

/-- A loop ends at the first look that decides. -/
theorem loop_eq_inl_iff :
    loop look s os = .inl (v, post) ↔
      ∃ pre o t, os = pre ++ o :: post ∧ loop look s pre = .inr t ∧ look t o = .inl v := by
  constructor
  · intro h
    induction os generalizing s with
    | nil => cases h
    | cons o os ih =>
      cases ho : look s o with
      | inl v' =>
        rw [loop_cons_inl ho] at h
        cases h
        exact ⟨[], o, s, rfl, rfl, ho⟩
      | inr s' =>
        rw [loop_cons_inr ho] at h
        obtain ⟨pre, o', t, rfl, hpre, ht⟩ := ih h
        exact ⟨o :: pre, o', t, rfl, by rw [loop_cons_inr ho, hpre], ht⟩
  · rintro ⟨pre, o, t, rfl, hpre, ht⟩
    rw [loop_append hpre, loop_cons_inl ht]

theorem loop_append_eq_inr_iff :
    loop look s (pre ++ post) = .inr t ↔
      ∃ s', loop look s pre = .inr s' ∧ loop look s' post = .inr t := by
  constructor
  · intro h
    cases hl : loop look s pre with
    | inl r =>
      obtain ⟨a, b, s', rfl, hr, hv⟩ := loop_eq_inl_iff.mp hl
      rw [List.append_assoc, List.cons_append, loop_append hr, loop_cons_inl hv] at h
      cases h
    | inr s' => exact ⟨s', rfl, (loop_append hl post).symm.trans h⟩
  · rintro ⟨s', hpre, hpost⟩
    rw [loop_append hpre, hpost]

theorem loop_concat_eq_inr_iff :
    loop look s (pre ++ [o]) = .inr t ↔ ∃ s', loop look s pre = .inr s' ∧ look s' o = .inr t := by
  have one : ∀ s', loop look s' [o] = .inr t ↔ look s' o = .inr t := fun s' => by
    cases ho : look s' o <;> simp [loop, ho]
  simp only [loop_append_eq_inr_iff, one]

/-! ### The clock -/

section Clock

variable {clock : ο → ℕ} {pause : ℕ}

/-- From one look to the next the clock advances by the pause at least. -/
def Paced (clock : ο → ℕ) (pause : ℕ) (os : List ο) : Prop :=
  os.IsChain fun o o' => clock o + pause ≤ clock o'

instance (clock : ο → ℕ) (pause : ℕ) (os : List ο) : Decidable (Paced clock pause os) := by
  unfold Paced
  infer_instance

theorem Paced.length_le (h : Paced clock pause (pre ++ [o])) : pre.length * pause ≤ clock o := by
  induction pre using List.reverseRecOn generalizing o with
  | nil => simp
  | append_singleton pre o' ih =>
    have hlast : clock o' + pause ≤ clock o := by
      have := (List.isChain_append.mp h).2.2
      exact this o' (by simp) o rfl
    have hpre := ih (List.IsChain.left_of_append h)
    rw [List.length_append, List.length_singleton, Nat.succ_mul]
    omega

end Clock

end ConstructTransport.Polling
