import ConstructTransport.Basic.Checked

/-! Loops over buffers. A loop runs a body that may panic over a list of
indices; an invariant that every pass keeps holds at the end and rules the panics
out. The pass that moves a buffer down by `k` places, changing each element on
the way, reads only ahead of what it has written, so in place it computes what
it would compute from a copy. A loop that collects results stops at its first
error or panic. -/

namespace ConstructTransport.Checked

universe u v

variable {ι : Type v} {α σ : Type u}

def forEach (xs : List ι) (body : ι → σ → Except Panic σ) (s : σ) : Except Panic σ :=
  xs.foldlM (fun s x => body x s) s

@[simp] theorem forEach_nil (body : ι → σ → Except Panic σ) (s : σ) :
    forEach [] body s = .ok s := rfl

theorem forEach_cons {x : ι} {s s' : σ} {body : ι → σ → Except Panic σ} (h : body x s = .ok s')
    (xs : List ι) : forEach (x :: xs) body s = forEach xs body s' := by
  rw [forEach, List.foldlM_cons, h, ok_bind]
  rfl

/-- The loop rule. -/
theorem forEach_invariant (xs : List ι) (body : ι → σ → Except Panic σ) (Inv : ℕ → σ → Prop)
    (step : ∀ i x s, xs[i]? = some x → Inv i s → ∃ s', body x s = .ok s' ∧ Inv (i + 1) s') {s : σ}
    (start : Inv 0 s) : ∃ s', forEach xs body s = .ok s' ∧ Inv xs.length s' := by
  induction xs generalizing Inv s with
  | nil => exact ⟨s, rfl, start⟩
  | cons x xs ih =>
    obtain ⟨s₁, hb, h₁⟩ := step 0 x s rfl start
    obtain ⟨s₂, hf, h₂⟩ := ih (fun i => Inv (i + 1)) (fun i y t hy => step (i + 1) y t hy) h₁
    exact ⟨s₂, (forEach_cons hb xs).trans hf, h₂⟩

/-- A loop whose pass `i` writes `vs[i]` at place `k + i`. The pass may read
what no pass before it has written. -/
theorem forEach_assign (xs : List ι) (body : ι → List α → Except Panic (List α))
    (out : List α) (k : ℕ) (vs : List α) (hv : vs.length = xs.length)
    (hk : k + vs.length ≤ out.length)
    (pass : ∀ i x v cur, xs[i]? = some x → vs[i]? = some v → cur.length = out.length →
      (∀ j, k + i ≤ j → cur[j]? = out[j]?) → body x cur = assign cur (k + i) v) :
    forEach xs body out = .ok (out.take k ++ vs ++ out.drop (k + vs.length)) := by
  have hl := forEach_invariant xs body (s := out)
    (fun i cur => cur = out.take k ++ vs.take i ++ out.drop (k + i)) ?_ (by simp)
  · obtain ⟨cur, he, hc⟩ := hl
    rw [he, hc, ← hv, List.take_length]
  · rintro i x cur hx rfl
    have hi : i < vs.length := by
      rw [hv]
      exact (List.getElem?_eq_some_iff.mp hx).1
    have hlen : (out.take k ++ vs.take i).length = k + i := by
      rw [List.length_append, List.length_take_of_le (by omega), List.length_take_of_le (by omega)]
    have hd : out.drop (k + i) = out[k + i] :: out.drop (k + i + 1) :=
      List.drop_eq_getElem_cons (by omega)
    have hcur : (out.take k ++ vs.take i ++ out.drop (k + i)).length = out.length := by
      rw [List.length_append, hlen, List.length_drop]
      omega
    refine ⟨_, (pass i x vs[i] _ hx (List.getElem?_eq_getElem hi) hcur fun j hj => ?_).trans
      (assign_ok (by omega) _), ?_⟩
    · rw [List.getElem?_append_right (by omega), hlen, List.getElem?_drop]
      congr 1
      omega
    · rw [List.set_append_right _ _ (by omega), hlen, Nat.sub_self, hd, List.set_cons_zero,
        ← List.take_concat_get' vs i hi]
      simp only [List.append_assoc, List.singleton_append, Nat.add_assoc]

/-- Writing `f i x` at place `k + i` for each element `x` of `xs`. -/
theorem forEach_write {out : List α} {k : ℕ} (f : ℕ → α → α) (xs : List α)
    (h : k + xs.length ≤ out.length) :
    forEach xs.zipIdx (fun p out => assign out (k + p.2) (f p.2 p.1)) out =
      .ok (out.take k ++ xs.mapIdx f ++ out.drop (k + xs.length)) := by
  have hl := forEach_assign xs.zipIdx (fun p out => assign out (k + p.2) (f p.2 p.1)) out k
    (xs.mapIdx f) (by simp) (by simpa) fun i p v cur hp hv _ _ => ?_
  · rwa [List.length_mapIdx] at hl
  · rw [List.getElem?_zipIdx, Option.map_eq_some_iff] at hp
    obtain ⟨x, hx, rfl⟩ := hp
    rw [List.getElem?_mapIdx, hx, Option.map_some, Option.some.injEq] at hv
    rw [← hv]
    simp

/-- Moving `n` places down by `k`, changing each element on the way. -/
theorem forEach_shift {buf : List α} {k n : ℕ} (f : ℕ → α → α) (h : k + n ≤ buf.length) :
    forEach (List.range n) (fun i buf => do
      let x ← index buf (k + i)
      assign buf i (f i x)) buf =
      .ok (((buf.drop k).take n).mapIdx f ++ buf.drop n) := by
  have hn : ((buf.drop k).take n).length = n := by
    rw [List.length_take, List.length_drop]
    omega
  have hl := forEach_assign (List.range n) (fun i buf => do
      let x ← index buf (k + i)
      assign buf i (f i x)) buf 0 (((buf.drop k).take n).mapIdx f) (by simpa using hn)
    (by rw [List.length_mapIdx, hn]; omega) fun i j v cur hj hv hc ha => ?_
  · rw [hl, List.length_mapIdx, hn]
    simp
  · obtain ⟨hi, rfl⟩ := List.getElem?_eq_some_iff.mp hj
    rw [List.length_range] at hi
    rw [List.getElem_range]
    have hx : cur[k + i]? = buf[k + i]? := ha (k + i) (by omega)
    rw [List.getElem?_mapIdx, List.getElem?_take_of_lt hi, List.getElem?_drop, ← hx,
      List.getElem?_eq_getElem (by omega), Option.map_some, Option.some.injEq] at hv
    rw [index_ok (by omega), ok_bind, hv, Nat.zero_add]

/-! ### Collecting results -/

section Collect

variable {ε β : Type u} {f : ι → Except Panic (Except ε β)} {x : ι} {xs : List ι} {b : β} {e : ε}

/-- `xs.map(f).collect::<Result<Vec<_>, _>>()`: the first error is the last item asked for. -/
def collect (f : ι → Except Panic (Except ε β)) : List ι → Except Panic (Except ε (List β))
  | [] => .ok (.ok [])
  | x :: xs => do
    match ← f x with
    | .error e => return .error e
    | .ok b => return (← collect f xs).map (b :: ·)

theorem collect_cons_ok (h : f x = .ok (.ok b)) :
    collect f (x :: xs) = (collect f xs).map fun r => r.map (b :: ·) := by
  rw [collect, h, ok_bind]
  cases collect f xs <;> rfl

theorem collect_cons_error (h : f x = .ok (.error e)) : collect f (x :: xs) = .ok (.error e) := by
  rw [collect, h, ok_bind]
  rfl

theorem collect_cons_panic {p : Panic} (h : f x = .error p) : collect f (x :: xs) = .error p := by
  rw [collect, h]
  rfl

theorem collect_cons_eq_error_iff (h : f x = .ok (.ok b)) :
    collect f (x :: xs) = .ok (.error e) ↔ collect f xs = .ok (.error e) := by
  rw [collect_cons_ok h]
  rcases collect f xs with p | e' | bs
  · exact iff_of_false nofun nofun
  · exact Iff.rfl
  · exact iff_of_false nofun nofun

/-- Over the indices of a `step_by`, an error comes from the first item that is one. -/
theorem collect_range'_eq_error_iff {f : ℕ → Except Panic (Except ε β)} {start n step : ℕ} :
    collect f (List.range' start n step) = .ok (.error e) ↔
      ∃ k < n, (∀ j < k, ∃ b, f (start + step * j) = .ok (.ok b)) ∧
        f (start + step * k) = .ok (.error e) := by
  induction n generalizing start with
  | zero => simp [collect]
  | succ n ih =>
    have shift : ∀ j, start + step * (j + 1) = start + step + step * j := fun j => by
      rw [Nat.mul_succ, Nat.add_comm _ step, Nat.add_assoc]
    rw [List.range'_succ]
    constructor
    · intro h
      rcases hf : f start with p | e' | b
      · rw [collect_cons_panic hf] at h
        cases h
      · rw [collect_cons_error hf] at h
        cases h
        exact ⟨0, n.succ_pos, nofun, hf⟩
      · obtain ⟨k, hk, hall, he⟩ := ih.mp ((collect_cons_eq_error_iff hf).mp h)
        refine ⟨k + 1, Nat.succ_lt_succ hk, fun j hj => ?_, (shift k).symm ▸ he⟩
        cases j with
        | zero => exact ⟨b, hf⟩
        | succ j => exact (shift j).symm ▸ hall j (Nat.lt_of_succ_lt_succ hj)
    · rintro ⟨k, hk, hall, he⟩
      cases k with
      | zero => exact collect_cons_error he
      | succ k =>
        obtain ⟨b, hb⟩ : ∃ b, f start = .ok (.ok b) := hall 0 k.succ_pos
        refine (collect_cons_eq_error_iff hb).mpr (ih.mpr ?_)
        refine ⟨k, Nat.lt_of_succ_lt_succ hk, fun j hj => ?_, shift k ▸ he⟩
        exact shift j ▸ hall (j + 1) (Nat.succ_lt_succ hj)

/-- What is collected does not depend on what the errors say. -/
theorem collect_toOption {ε' : Type u} {f : ι → Except Panic (Except ε β)}
    {g : ι → Except Panic (Except ε' β)}
    (h : ∀ x, (f x).map Except.toOption = (g x).map Except.toOption) (xs : List ι) :
    (collect f xs).map Except.toOption = (collect g xs).map Except.toOption := by
  induction xs with
  | nil => rfl
  | cons x xs ih =>
    have hx := h x
    rcases hf : f x with p | e | b <;> rcases hg : g x with p' | e' | b' <;>
      rw [hf, hg] at hx <;> cases hx
    · rw [collect_cons_panic hf, collect_cons_panic hg]
      rfl
    · rw [collect_cons_error hf, collect_cons_error hg]
      rfl
    · rw [collect_cons_ok hf, collect_cons_ok hg]
      rcases hcf : collect f xs with p | e | bs <;> rcases hcg : collect g xs with p' | e' | bs' <;>
        rw [hcf, hcg] at ih <;> cases ih <;> rfl

end Collect

end ConstructTransport.Checked
