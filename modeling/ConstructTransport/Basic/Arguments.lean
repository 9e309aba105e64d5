import Mathlib.Data.List.Basic

/-! Command lines of flags that take the next argument with them, switches that
stand alone, and words. A scanner cuts a command line into these items and loses
nothing: rendering the items gives the command line back, and every sequence of
items is the scan of its rendering. A reader that goes through a command line item
by item stops at the first that it refuses. -/

namespace ConstructTransport.Arguments

/-- A piece of a command line. -/
inductive Item
  | flag (name operand : String)
  | switch (name : String)
  | word (w : String)
  deriving DecidableEq, Repr

structure Grammar where
  flags : List String
  switches : List String

namespace Item

def render : Item → List String
  | flag name operand => [name, operand]
  | switch name => [name]
  | word w => [w]

/-- An item the scanner can return. A name that is both is a flag. -/
def Fits (g : Grammar) : Item → Prop
  | flag name _ => name ∈ g.flags
  | switch name => name ∉ g.flags ∧ name ∈ g.switches
  | word w => w ∉ g.flags ∧ w ∉ g.switches

end Item

variable (g : Grammar)

def Grammar.single (a : String) : Item := if a ∈ g.switches then .switch a else .word a

/-- The items of a command line, and the flag at its end that lacks its operand. -/
def scan : List String → List Item × Option String
  | [] => ([], none)
  | [a] => if a ∈ g.flags then ([], some a) else ([g.single a], none)
  | a :: v :: it =>
    if a ∈ g.flags then (.flag a v :: (scan it).1, (scan it).2)
    else (g.single a :: (scan (v :: it)).1, (scan (v :: it)).2)

def render (items : List Item) : List String := items.flatMap Item.render

variable {g}

theorem scan_flag {a : String} (h : a ∈ g.flags) (v : String) (it : List String) :
    scan g (a :: v :: it) = (.flag a v :: (scan g it).1, (scan g it).2) := by
  rw [scan, if_pos h]

theorem scan_last {a : String} (h : a ∈ g.flags) : scan g [a] = ([], some a) := by
  rw [scan, if_pos h]

theorem scan_single {a : String} (h : a ∉ g.flags) (it : List String) :
    scan g (a :: it) = (g.single a :: (scan g it).1, (scan g it).2) := by
  cases it with
  | nil => simp only [scan, if_neg h]
  | cons v it => rw [scan, if_neg h]

/-- A command line by what stands at its front. -/
theorem scan_induction {P : List String → Prop} (nil : P [])
    (last : ∀ a, a ∈ g.flags → P [a])
    (flag : ∀ a v it, a ∈ g.flags → P it → P (a :: v :: it))
    (single : ∀ a it, a ∉ g.flags → P it → P (a :: it)) : ∀ args, P args
  | [] => nil
  | [a] => by
    by_cases h : a ∈ g.flags
    · exact last a h
    · exact single a [] h nil
  | a :: v :: it => by
    by_cases h : a ∈ g.flags
    · exact flag a v it h (scan_induction nil last flag single it)
    · exact single a (v :: it) h (scan_induction nil last flag single (v :: it))

/-- The scanner loses nothing and makes nothing up. -/
theorem render_scan (args : List String) :
    render (scan g args).1 ++ (scan g args).2.toList = args := by
  induction args using scan_induction (g := g) with
  | nil => rfl
  | last a h =>
    rw [scan_last h]
    rfl
  | flag a v it h ih =>
    rw [scan_flag h]
    exact congrArg (a :: v :: ·) ih
  | single a it h ih =>
    have hr : (g.single a).render = [a] := by
      unfold Grammar.single
      split_ifs <;> rfl
    rw [scan_single h, render, List.flatMap_cons, hr]
    exact congrArg (a :: ·) ih

theorem scan_fits (args : List String) : ∀ item ∈ (scan g args).1, item.Fits g := by
  induction args using scan_induction (g := g) with
  | nil => exact nofun
  | last a h =>
    rw [scan_last h]
    exact nofun
  | flag a v it h ih =>
    rw [scan_flag h]
    exact List.forall_mem_cons.mpr ⟨h, ih⟩
  | single a it h ih =>
    rw [scan_single h]
    refine List.forall_mem_cons.mpr ⟨?_, ih⟩
    unfold Grammar.single
    split_ifs with hs
    · exact ⟨h, hs⟩
    · exact ⟨h, hs⟩

/-- Items that fit are the scan of their rendering. -/
theorem scan_render {items : List Item} (h : ∀ item ∈ items, item.Fits g) :
    scan g (render items) = (items, none) := by
  induction items with
  | nil => rfl
  | cons item items ih =>
    obtain ⟨hi, hs⟩ := List.forall_mem_cons.mp h
    have hrest := ih hs
    cases item with
    | flag name operand =>
      change scan g (name :: operand :: render items) = _
      rw [scan_flag hi, hrest]
    | switch name =>
      change scan g (name :: render items) = _
      rw [scan_single hi.1, hrest, Grammar.single, if_pos hi.2]
    | word w =>
      change scan g (w :: render items) = _
      rw [scan_single hi.1, hrest, Grammar.single, if_neg hi.2]

/-! ### What the items say -/

/-- The operands of a flag, in order. -/
def operands (name : String) (items : List Item) : List String :=
  items.filterMap fun
    | .flag n v => if n = name then some v else none
    | _ => none

def words (items : List Item) : List String :=
  items.filterMap fun
    | .word w => some w
    | _ => none

theorem operands_append (name : String) (items more : List Item) :
    operands name (items ++ more) = operands name items ++ operands name more :=
  List.filterMap_append

theorem words_append (items more : List Item) : words (items ++ more) = words items ++ words more :=
  List.filterMap_append

@[simp] theorem operands_flag (name v : String) : operands name [.flag name v] = [v] := by
  simp [operands]

@[simp] theorem operands_other {name n : String} (h : n ≠ name) (v : String) :
    operands name [.flag n v] = [] := by
  simp [operands, h]

@[simp] theorem operands_switch (name n : String) : operands name [.switch n] = [] := rfl

@[simp] theorem operands_word (name w : String) : operands name [.word w] = [] := rfl

@[simp] theorem words_flag (n v : String) : words [.flag n v] = [] := rfl

@[simp] theorem words_switch (n : String) : words [.switch n] = [] := rfl

@[simp] theorem words_word (w : String) : words [.word w] = [w] := rfl

theorem mem_operands {name v : String} {items : List Item} :
    v ∈ operands name items ↔ .flag name v ∈ items := by
  unfold operands
  rw [List.mem_filterMap]
  constructor
  · rintro ⟨item, hm, he⟩
    cases item with
    | flag n w =>
      simp only [Option.ite_none_right_eq_some, Option.some.injEq] at he
      obtain ⟨rfl, rfl⟩ := he
      exact hm
    | switch | word => cases he
  · exact fun h => ⟨_, h, if_pos rfl⟩

/-! ### Readers -/

section Reader

variable {σ ε : Type*} {check : Item → Except ε Unit} {put : σ → Item → σ}

def read (check : Item → Except ε Unit) (put : σ → Item → σ) (s : σ) (item : Item) : Except ε σ :=
  (check item).map fun _ => put s item

theorem foldlM_read_cons (s : σ) (item : Item) (items : List Item) :
    (item :: items).foldlM (read check put) s =
      match check item with
      | .error e => .error e
      | .ok () => items.foldlM (read check put) (put s item) := by
  rw [List.foldlM_cons, read]
  cases check item <;> rfl

/-- All items are taken in exactly if none is refused. -/
theorem foldlM_read_eq_ok_iff {s s' : σ} {items : List Item} :
    items.foldlM (read check put) s = .ok s' ↔
      (∀ item ∈ items, check item = .ok ()) ∧ s' = items.foldl put s := by
  induction items generalizing s with
  | nil => simp [pure, Except.pure, eq_comm]
  | cons item items ih =>
    rw [foldlM_read_cons, List.forall_mem_cons, List.foldl_cons]
    cases hc : check item with
    | error e => simp
    | ok u => simpa using ih

theorem foldlM_read_eq_error_iff {s : σ} {e : ε} {items : List Item} :
    items.foldlM (read check put) s = .error e ↔
      ∃ pre item post, items = pre ++ item :: post ∧ (∀ i ∈ pre, check i = .ok ()) ∧
        check item = .error e := by
  induction items generalizing s with
  | nil => simp [pure, Except.pure]
  | cons item items ih =>
    rw [foldlM_read_cons]
    cases hc : check item with
    | error e' =>
      constructor
      · intro h
        cases h
        exact ⟨[], item, items, rfl, nofun, hc⟩
      · rintro ⟨pre, i, post, hs, hpre, hi⟩
        cases pre with
        | nil =>
          cases hs
          exact congrArg _ (Except.error.inj (hc.symm.trans hi))
        | cons p pre =>
          cases hs
          cases hc.symm.trans (hpre _ List.mem_cons_self)
    | ok u =>
      constructor
      · intro h
        obtain ⟨pre, i, post, rfl, hpre, hi⟩ := ih.mp h
        exact ⟨item :: pre, i, post, rfl, List.forall_mem_cons.mpr ⟨hc, hpre⟩, hi⟩
      · rintro ⟨pre, i, post, hs, hpre, hi⟩
        cases pre with
        | nil =>
          cases hs
          cases hc.symm.trans hi
        | cons p pre =>
          cases hs
          exact ih.mpr ⟨pre, i, post, rfl, (List.forall_mem_cons.mp hpre).2, hi⟩

end Reader

end ConstructTransport.Arguments
