import Mathlib.Data.List.Basic

/-! Self-delimiting codes and the readers that decode them from a chunked
source. A code writes a unit as bytes and takes one unit off the front of a
buffer; the two are inverse on whatever follows. The one-shot parser cuts a byte
string into units and a residue. The chunked reader accumulates chunks until a
unit is complete. Whatever the chunks, the units it returns followed by the
parse of its buffer are the parse of the bytes it was given. -/

namespace ConstructTransport.Framing

variable {α β ε : Type*}

/-- A code whose units can be recognised at the front of any continuation. -/
structure Code (α β : Type*) where
  bytes : α → List β
  take : List β → Option (α × List β)
  take_bytes : ∀ a rest, take (bytes a ++ rest) = some (a, rest)
  bytes_take : ∀ {xs a rest}, take xs = some (a, rest) → xs = bytes a ++ rest
  bytes_ne_nil : ∀ a, bytes a ≠ []

namespace Code

variable (c : Code α β)

theorem take_length {xs rest : List β} {a : α} (h : c.take xs = some (a, rest)) :
    rest.length < xs.length := by
  have hb := List.length_pos_iff.mpr (c.bytes_ne_nil a)
  rw [c.bytes_take h, List.length_append]
  omega

/-- A complete unit stays the same unit when more bytes arrive behind it. -/
theorem take_append {xs rest : List β} {a : α} (h : c.take xs = some (a, rest)) (ys : List β) :
    c.take (xs ++ ys) = some (a, rest ++ ys) := by
  rw [c.bytes_take h, List.append_assoc]
  exact c.take_bytes a (rest ++ ys)

theorem take_none_of_append {xs ys : List β} (h : c.take (xs ++ ys) = none) : c.take xs = none := by
  cases hx : c.take xs with
  | none => rfl
  | some p => rw [c.take_append hx] at h; contradiction

/-- The one-shot parser: the whole units of a byte string and what is left. -/
def parse (xs : List β) : List α × List β :=
  match h : c.take xs with
  | none => ([], xs)
  | some (a, rest) =>
    have := c.take_length h
    let tail := parse rest
    (a :: tail.1, tail.2)
termination_by xs.length

theorem parse_none {xs : List β} (h : c.take xs = none) : c.parse xs = ([], xs) := by
  rw [parse]
  split
  · rfl
  · simp_all

theorem parse_some {xs rest : List β} {a : α} (h : c.take xs = some (a, rest)) :
    c.parse xs = (a :: (c.parse rest).1, (c.parse rest).2) := by
  rw [parse]
  split
  · simp_all
  · next he =>
    rw [h] at he
    cases he
    rfl

theorem parse_bytes_append (a : α) (rest : List β) :
    c.parse (c.bytes a ++ rest) = (a :: (c.parse rest).1, (c.parse rest).2) :=
  c.parse_some (c.take_bytes a rest)

theorem parse_flatMap_append (as : List α) (rest : List β) :
    c.parse (as.flatMap c.bytes ++ rest) = (as ++ (c.parse rest).1, (c.parse rest).2) := by
  induction as with
  | nil => rfl
  | cons a as ih =>
    rw [List.flatMap_cons, List.append_assoc, parse_bytes_append, ih]
    rfl

/-- The parser consumes exactly the bytes of its units and stops for want of more. -/
theorem parse_spec (xs : List β) :
    xs = (c.parse xs).1.flatMap c.bytes ++ (c.parse xs).2 ∧ c.take (c.parse xs).2 = none := by
  fun_induction parse c xs with
  | case1 xs h => exact ⟨rfl, h⟩
  | case2 xs a rest h _ tail ih =>
    refine ⟨?_, ih.2⟩
    rw [List.flatMap_cons, List.append_assoc, ← ih.1]
    exact c.bytes_take h

/-- A cut into whole units and a residue without one is the parse. -/
theorem parse_unique {as : List α} {rest : List β} (h : c.take rest = none) :
    c.parse (as.flatMap c.bytes ++ rest) = (as, rest) := by
  rw [c.parse_flatMap_append, c.parse_none h, List.append_nil]

def Whole (xs : List β) : Prop := ∃ as : List α, xs = as.flatMap c.bytes

theorem take_nil : c.take [] = none := by
  cases h : c.take [] with
  | none => rfl
  | some p => exact absurd (c.take_length h) (by simp)

theorem whole_iff (xs : List β) : c.Whole xs ↔ (c.parse xs).2 = [] := by
  constructor
  · rintro ⟨as, rfl⟩
    have h : c.parse (as.flatMap c.bytes ++ []) = (as, []) := c.parse_unique c.take_nil
    rw [List.append_nil] at h
    rw [h]
  · intro h
    have hs := (c.parse_spec xs).1
    rw [h, List.append_nil] at hs
    exact ⟨_, hs⟩

theorem parse_append (xs ys : List β) :
    c.parse (xs ++ ys) = ((c.parse xs).1 ++ (c.parse ((c.parse xs).2 ++ ys)).1,
      (c.parse ((c.parse xs).2 ++ ys)).2) := by
  conv_lhs => rw [(c.parse_spec xs).1, List.append_assoc]
  exact c.parse_flatMap_append _ _

/-- Units are never revised: a prefix of the bytes yields a prefix of the units. -/
theorem parse_prefix {xs ys : List β} (h : xs <+: ys) : (c.parse xs).1 <+: (c.parse ys).1 := by
  obtain ⟨zs, rfl⟩ := h
  rw [c.parse_append]
  exact List.prefix_append _ _

end Code

/-! ### The chunked reader -/

/-- What one poll of a byte source yields. -/
inductive Event (β ε : Type*)
  | data (chunk : List β)
  | finished
  | failed (error : ε)
  deriving DecidableEq, Repr

/-- The bytes a sequence of polls carried. -/
def payload (evs : List (Event β ε)) : List β :=
  evs.flatMap fun
    | .data chunk => chunk
    | .finished => []
    | .failed _ => []

@[simp] theorem payload_nil : payload ([] : List (Event β ε)) = [] := rfl

@[simp] theorem payload_data (chunk : List β) (evs : List (Event β ε)) :
    payload (.data chunk :: evs) = chunk ++ payload evs := rfl

@[simp] theorem payload_finished (evs : List (Event β ε)) :
    payload (.finished :: evs) = payload evs := rfl

@[simp] theorem payload_failed (e : ε) (evs : List (Event β ε)) :
    payload (.failed e :: evs) = payload evs := rfl

@[simp] theorem payload_append (as bs : List (Event β ε)) :
    payload (as ++ bs) = payload as ++ payload bs := List.flatMap_append

@[simp] theorem payload_map_data (chunks : List (List β)) :
    payload (chunks.map .data : List (Event β ε)) = chunks.flatten := by
  induction chunks with
  | nil => rfl
  | cons chunk chunks ih => rw [List.map_cons, payload_data, ih, List.flatten_cons]

/-- The bytes of a source up to its first end or error. -/
def arriving : List (Event β ε) → List β
  | [] => []
  | .data chunk :: evs => chunk ++ arriving evs
  | .finished :: _ | .failed _ :: _ => []

/-- How one call of the reader ends; a parked call waits for the source. -/
inductive Outcome (α ε : Type*)
  | item (a : α)
  | finished
  | failed (error : ε)
  | parked
  deriving DecidableEq, Repr

def Outcome.items : Outcome α ε → List α
  | .item a => [a]
  | _ => []

namespace Code

variable (c : Code α β)

/-- One call: take a buffered unit, else poll the source and try again. -/
def next (buf : List β) (evs : List (Event β ε)) : Outcome α ε × List β × List (Event β ε) :=
  match c.take buf with
  | some (a, rest) => (.item a, rest, evs)
  | none => match evs with
    | [] => (.parked, buf, [])
    | .data chunk :: evs => next (buf ++ chunk) evs
    | .finished :: evs => (.finished, buf, evs)
    | .failed e :: evs => (.failed e, buf, evs)

theorem next_of_take {buf rest : List β} {a : α} (h : c.take buf = some (a, rest))
    (evs : List (Event β ε)) : c.next buf evs = (.item a, rest, evs) := by
  rw [next.eq_def, h]

theorem next_data {buf : List β} (h : c.take buf = none) (chunk : List β) (evs : List (Event β ε)) :
    c.next buf (.data chunk :: evs) = c.next (buf ++ chunk) evs := by
  rw [next, h]

/-- One call polls a prefix of the source; the unit it returns and the buffer it
leaves are the buffer it found and the bytes it polled; unless it returns a unit
there is none in the buffer it leaves. -/
theorem next_spec (buf : List β) (evs : List (Event β ε)) :
    ∃ used, evs = used ++ (c.next buf evs).2.2 ∧
      buf ++ payload used = (c.next buf evs).1.items.flatMap c.bytes ++ (c.next buf evs).2.1 ∧
      ((c.next buf evs).1.items = [] → c.take (c.next buf evs).2.1 = none) := by
  induction evs generalizing buf with
  | nil =>
    refine ⟨[], ?_⟩
    cases h : c.take buf with
    | none => simp [next, h, Outcome.items]
    | some p => rw [c.next_of_take h]; simp [Outcome.items, c.bytes_take h]
  | cons ev evs ih =>
    cases h : c.take buf with
    | some p => exact ⟨[], by rw [c.next_of_take h]; simp [Outcome.items, c.bytes_take h]⟩
    | none =>
      cases ev with
      | data chunk =>
        obtain ⟨used, he, hb, ht⟩ := ih (buf ++ chunk)
        rw [c.next_data h]
        exact ⟨.data chunk :: used, congrArg _ he, by simpa using hb, ht⟩
      | finished => exact ⟨[.finished], by simp [next, h, Outcome.items]⟩
      | failed e => exact ⟨[.failed e], by simp [next, h, Outcome.items]⟩

/-- A call returns the unit that arrives first, and leaves what arrives behind it. -/
theorem next_arriving {buf : List β} {evs : List (Event β ε)} {a : α}
    (h : (c.next buf evs).1 = .item a) :
    c.take (buf ++ arriving evs) =
      some (a, (c.next buf evs).2.1 ++ arriving (c.next buf evs).2.2) := by
  induction evs generalizing buf with
  | nil =>
    cases ht : c.take buf with
    | none => simp [next, ht] at h
    | some p =>
      rw [c.next_of_take ht] at h ⊢
      cases h
      exact c.take_append ht _
  | cons ev evs ih =>
    cases ht : c.take buf with
    | some p =>
      rw [c.next_of_take ht] at h ⊢
      cases h
      exact c.take_append ht _
    | none =>
      cases ev with
      | data chunk =>
        rw [c.next_data ht] at h ⊢
        rw [arriving, ← List.append_assoc]
        exact ih h
      | finished => simp [next, ht] at h
      | failed e => simp [next, ht] at h

theorem next_of_arriving {buf rest : List β} {evs : List (Event β ε)} {a : α}
    (h : c.take (buf ++ arriving evs) = some (a, rest)) : (c.next buf evs).1 = .item a := by
  cases ht : c.take buf with
  | some p =>
    have hp := c.take_append ht (arriving evs)
    cases h.symm.trans hp
    rw [c.next_of_take ht]
  | none =>
    induction evs generalizing buf with
    | nil =>
      rw [arriving, List.append_nil, ht] at h
      contradiction
    | cons ev evs ih =>
      cases ev with
      | data chunk =>
        rw [arriving, ← List.append_assoc] at h
        rw [c.next_data ht]
        cases ht' : c.take (buf ++ chunk) with
        | some p =>
          have hp := c.take_append ht' (arriving evs)
          cases h.symm.trans hp
          rw [c.next_of_take ht']
        | none => exact ih h ht'
      | finished | failed e =>
        rw [arriving, List.append_nil, ht] at h
        contradiction

def calls : ℕ → List β → List (Event β ε) → List (Outcome α ε) × List β × List (Event β ε)
  | 0, buf, evs => ([], buf, evs)
  | n + 1, buf, evs =>
    let r := c.next buf evs
    let rs := calls n r.2.1 r.2.2
    (r.1 :: rs.1, rs.2)

theorem calls_append (n m : ℕ) (buf : List β) (evs : List (Event β ε)) :
    c.calls (n + m) buf evs =
      let r := c.calls n buf evs
      let rs := c.calls m r.2.1 r.2.2
      (r.1 ++ rs.1, rs.2) := by
  induction n generalizing buf evs with
  | zero => simp [calls]
  | succ n ih => rw [Nat.succ_add]; simp [calls, ih]

/-- Conservation over a run of calls: units returned, then the buffer, are the
bytes found and polled. -/
theorem calls_conserves (n : ℕ) (buf : List β) (evs : List (Event β ε)) :
    ∃ used, evs = used ++ (c.calls n buf evs).2.2 ∧
      buf ++ payload used =
        ((c.calls n buf evs).1.flatMap Outcome.items).flatMap c.bytes ++
          (c.calls n buf evs).2.1 := by
  induction n generalizing buf evs with
  | zero => exact ⟨[], by simp [calls]⟩
  | succ n ih =>
    obtain ⟨used, he, hb, -⟩ := c.next_spec buf evs
    obtain ⟨used', he', hb'⟩ := ih (c.next buf evs).2.1 (c.next buf evs).2.2
    refine ⟨used ++ used', ?_, ?_⟩
    · rw [List.append_assoc]
      exact he.trans (congrArg _ he')
    · rw [payload_append, ← List.append_assoc, hb, List.append_assoc, hb']
      simp [calls]

/-- A run whose last call returned no unit has returned every unit it was given. -/
theorem calls_last_stuck (n : ℕ) (buf : List β) (evs : List (Event β ε)) {o : Outcome α ε}
    (hl : (c.calls n buf evs).1.getLast? = some o) (ho : o.items = []) :
    c.take (c.calls n buf evs).2.1 = none := by
  cases n with
  | zero => simp [calls] at hl
  | succ n =>
    rw [c.calls_append n 1] at hl ⊢
    simp only [calls, List.getLast?_append, List.getLast?_singleton, Option.some_or,
      Option.some.injEq] at hl ⊢
    obtain ⟨-, -, -, ht⟩ := c.next_spec (c.calls n buf evs).2.1 (c.calls n buf evs).2.2
    exact ht (hl ▸ ho)

/-- The next whole unit of the source is returned however the source is cut. -/
theorem next_item {a : α} {more buf : List β} {chunks : List (List β)}
    (h : buf ++ chunks.flatten = c.bytes a ++ more) (tail : List (Event β ε)) :
    ∃ (buf' : List β) (chunks' : List (List β)),
      c.next buf (chunks.map .data ++ tail) = (.item a, buf', chunks'.map .data ++ tail) ∧
      buf' ++ chunks'.flatten = more := by
  induction chunks generalizing buf with
  | nil =>
    simp only [List.flatten_nil, List.append_nil] at h
    refine ⟨more, [], ?_, by simp⟩
    rw [h, c.next_of_take (c.take_bytes a more)]
  | cons chunk chunks ih =>
    cases ht : c.take buf with
    | some p =>
      obtain ⟨a', rest⟩ := p
      have hu := c.take_append ht (chunk :: chunks).flatten
      rw [h, c.take_bytes] at hu
      cases hu
      exact ⟨rest, chunk :: chunks, c.next_of_take ht _, rfl⟩
    | none =>
      rw [List.map_cons, List.cons_append, c.next_data ht]
      exact ih (by simpa using h)

theorem next_finished {buf : List β} {chunks : List (List β)}
    (h : c.take (buf ++ chunks.flatten) = none) (tail : List (Event β ε)) :
    c.next buf (chunks.map .data ++ .finished :: tail) =
      (.finished, buf ++ chunks.flatten, tail) := by
  induction chunks generalizing buf with
  | nil => simp only [List.flatten_nil, List.append_nil] at h; simp [next, h]
  | cons chunk chunks ih =>
    rw [List.map_cons, List.cons_append, c.next_data (c.take_none_of_append h),
      ih (by simpa using h)]
    simp

/-- The whole units of a finished source come out one a call, then its end. -/
theorem calls_finished (as : List α) {rest buf : List β} {chunks : List (List β)}
    (h : buf ++ chunks.flatten = as.flatMap c.bytes ++ rest) (hr : c.take rest = none)
    (tail : List (Event β ε)) :
    c.calls (as.length + 1) buf (chunks.map .data ++ .finished :: tail) =
      (as.map .item ++ [.finished], rest, tail) := by
  induction as generalizing buf chunks with
  | nil =>
    simp only [List.flatMap_nil, List.nil_append] at h
    rw [List.length_nil, calls, c.next_finished (h ▸ hr) tail, h]
    rfl
  | cons a as ih =>
    rw [List.flatMap_cons, List.append_assoc] at h
    obtain ⟨buf', chunks', hn, hm⟩ := c.next_item h (.finished :: tail)
    rw [List.length_cons, calls, hn]
    simp only [ih hm, List.map_cons, List.cons_append]

/-! ### Exhausting the source -/

theorem calls_stuck {buf : List β} (h : c.take buf = none) (n : ℕ) :
    (c.calls n buf ([] : List (Event β ε))).2 = (buf, []) := by
  induction n with
  | zero => rfl
  | succ n ih => simpa [calls, next, h] using ih

theorem next_polls {buf : List β} {evs : List (Event β ε)} (h : c.take buf = none)
    (he : evs ≠ []) : (c.next buf evs).2.2.length < evs.length := by
  cases evs with
  | nil => contradiction
  | cons ev evs =>
    cases ev with
    | data chunk =>
      rw [c.next_data h]
      obtain ⟨used, hu, -⟩ := c.next_spec (buf ++ chunk) evs
      have := congrArg List.length hu
      rw [List.length_append] at this
      rw [List.length_cons]
      omega
    | finished => simp [next, h]
    | failed e => simp [next, h]

/-- Enough calls poll the whole source and leave no unit in the buffer. -/
theorem calls_exhaust (n : ℕ) (buf : List β) (evs : List (Event β ε))
    (h : buf.length + (payload evs).length + evs.length ≤ n) :
    (c.calls n buf evs).2.2 = [] ∧ c.take (c.calls n buf evs).2.1 = none := by
  induction n generalizing buf evs with
  | zero =>
    obtain rfl : evs = [] := List.eq_nil_of_length_eq_zero (by omega)
    obtain rfl : buf = [] := List.eq_nil_of_length_eq_zero (by omega)
    exact ⟨rfl, c.take_nil⟩
  | succ n ih =>
    by_cases hstuck : c.take buf = none ∧ evs = []
    · obtain ⟨ht, rfl⟩ := hstuck
      rw [c.calls_stuck ht]
      exact ⟨rfl, ht⟩
    · obtain ⟨used, he, hb, -⟩ := c.next_spec buf evs
      have hle := congrArg List.length he
      have hlb := congrArg List.length hb
      have hlp := congrArg List.length (congrArg payload he)
      rw [payload_append] at hlp
      simp only [List.length_append] at hle hlb hlp
      have hprogress : ((c.next buf evs).1.items.flatMap c.bytes).length + used.length ≠ 0 := by
        cases ht : c.take buf with
        | none =>
          have := c.next_polls ht fun hn => hstuck ⟨ht, hn⟩
          omega
        | some p =>
          obtain ⟨a, rest⟩ := p
          have := List.length_pos_iff.mpr (c.bytes_ne_nil a)
          have hitem : ((c.next buf evs).1.items.flatMap c.bytes).length = (c.bytes a).length := by
            rw [c.next_of_take ht]
            simp [Outcome.items]
          omega
      exact ih _ _ (by omega)

/-- What any number of further calls returns in the end: the units of the buffer
followed by what the source carries. -/
theorem calls_rest {n : ℕ} {buf : List β} {evs : List (Event β ε)}
    (h : buf.length + (payload evs).length + evs.length ≤ n) :
    (c.calls n buf evs).1.flatMap Outcome.items = (c.parse (buf ++ payload evs)).1 := by
  obtain ⟨used, he, hb⟩ := c.calls_conserves n buf evs
  obtain ⟨hn, ht⟩ := c.calls_exhaust n buf evs h
  rw [hn, List.append_nil] at he
  have hp : payload evs = payload used := congrArg payload he
  rw [hp, hb, c.parse_unique ht]

end Code

end ConstructTransport.Framing
