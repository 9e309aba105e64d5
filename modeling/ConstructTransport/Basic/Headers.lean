import Mathlib.Data.List.Basic

/-! Header maps: under each name a list of values in the order in which they were
added. The order of the names is not defined, so nothing is said but by name. A
map is held as its entries in some order of iteration, and two maps are the same
if each name has the same values in both. -/

namespace ConstructTransport.Headers

variable {N V : Type*} [DecidableEq N]

abbrev HeaderMap (N V : Type*) := List (N × V)

/-- The values under a name. -/
def getAll (m : HeaderMap N V) (n : N) : List V :=
  m.filterMap fun p => if p.1 = n then some p.2 else none

def append (m : HeaderMap N V) (n : N) (v : V) : HeaderMap N V := m ++ [(n, v)]

/-- The same values under every name, in the same order. -/
def Same (m m' : HeaderMap N V) : Prop := ∀ n, getAll m n = getAll m' n

theorem Same.trans {m m' m'' : HeaderMap N V} (h : Same m m') (h' : Same m' m'') : Same m m'' :=
  fun n => (h n).trans (h' n)

@[simp] theorem getAll_nil (n : N) : getAll ([] : HeaderMap N V) n = [] := rfl

theorem getAll_cons (p : N × V) (m : HeaderMap N V) (n : N) :
    getAll (p :: m) n = (if p.1 = n then [p.2] else []) ++ getAll m n := by
  by_cases h : p.1 = n <;> simp [getAll, h]

theorem getAll_append (m : HeaderMap N V) (k n : N) (v : V) :
    getAll (append m k v) n = getAll m n ++ if k = n then [v] else [] := by
  by_cases h : k = n <;> simp [getAll, append, h]

/-- Entries added one after the other to a map, but for those with certain names. -/
def copy (skip : N → Bool) (m : HeaderMap N V) (entries : HeaderMap N V) : HeaderMap N V :=
  entries.foldl (fun m p => if skip p.1 then m else append m p.1 p.2) m

/-- Copying keeps the values of a name, or all of them away. -/
theorem getAll_copy (skip : N → Bool) (m entries : HeaderMap N V) (n : N) :
    getAll (copy skip m entries) n = getAll m n ++ if skip n then [] else getAll entries n := by
  induction entries generalizing m with
  | nil => simp [copy]
  | cons p entries ih =>
    rw [copy, List.foldl_cons, ← copy, ih, getAll_cons]
    by_cases hp : p.1 = n
    · subst hp
      cases hs : skip p.1 <;> simp [getAll_append]
    · cases hs : skip p.1 <;> simp [getAll_append, hp]

/-- The `http` crate: its names, values and URIs, and what it takes for one. The
order of iteration is its own, but within a name it is that of the map. -/
structure Http where
  Name : Type
  Value : Type
  Uri : Type
  [decName : DecidableEq Name]
  /-- `HeaderName::try_from` -/
  name : String → Option Name
  /-- `HeaderValue::try_from` -/
  value : String → Option Value
  /-- `Uri::try_from` -/
  uri : String → Option Uri
  /-- `Uri::path_and_query` -/
  pathAndQuery : Uri → Option String
  /-- `HeaderName::as_str` -/
  asStr : Name → String
  asStr_injective : Function.Injective asStr
  /-- `HeaderValue::to_str` -/
  toStr : Value → Option String
  /-- `HeaderMap::iter` -/
  iter : HeaderMap Name Value → HeaderMap Name Value
  iter_same : ∀ m, Same (iter m) m
  host : Name
  connection : Name

attribute [instance] Http.decName

namespace Http

variable (http : Http)

abbrev Map := HeaderMap http.Name http.Value

def entry (p : String × String) : Option (http.Name × http.Value) := do
  return (← http.name p.1, ← http.value p.2)

/-- `Builder::header` for each pair; the first that is not taken spoils the builder. -/
def build (m : http.Map) (pairs : List (String × String)) : Option http.Map :=
  pairs.foldlM (fun m p => do
    let n ← http.name p.1
    let v ← http.value p.2
    return append m n v) m

/-- `HeaderMap::get`, as far as the value is text. -/
def getText (m : http.Map) (key : String) : Option String := do
  let n ← http.name key
  let v ← (getAll m n).head?
  http.toStr v

/-- Up to where the path of a URI begins. -/
def IsAuthority (s : String) : Prop := ∀ c ∈ s.toList, c ≠ '/' ∧ c ≠ '?' ∧ c ≠ '#'

/-- A path with or without a query; a fragment is not sent. -/
def IsPath (s : String) : Prop := s.toList.head? = some '/' ∧ '#' ∉ s.toList

instance (s : String) : Decidable (IsAuthority s) :=
  List.decidableBAll (fun c => c ≠ '/' ∧ c ≠ '?' ∧ c ≠ '#') s.toList

instance (s : String) : Decidable (IsPath s) :=
  inferInstanceAs (Decidable (s.toList.head? = some '/' ∧ '#' ∉ s.toList))

/-- What is documented of `path_and_query`: it gives the path as it was written. -/
def KeepsPath : Prop :=
  ∀ authority path u, IsAuthority authority → IsPath path →
    http.uri ("https://" ++ authority ++ path) = some u → http.pathAndQuery u = some path

/-- A map as the other end of a stream builds it, of the fields as they are sent. -/
def carry (m : http.Map) : http.Map := copy (fun _ => false) [] (http.iter m)

variable {http} {m m' : http.Map} {pairs : List (String × String)}

theorem carry_same (m : http.Map) : Same (http.carry m) m := by
  intro n
  rw [carry, getAll_copy, http.iter_same]
  simp

theorem getText_congr (h : Same m m') (key : String) :
    http.getText m key = http.getText m' key := by
  unfold getText
  cases hn : http.name key with
  | none => rfl
  | some n => simp only [bind, Option.bind, h n]

theorem build_cons (p : String × String) :
    http.build m (p :: pairs) =
      (http.entry p).bind fun e => http.build (append m e.1 e.2) pairs := by
  rw [build, List.foldlM_cons, entry]
  cases http.name p.1 <;> cases http.value p.2 <;> rfl

theorem getAll_build (h : http.build m pairs = some m') (n : http.Name) :
    getAll m' n = getAll m n ++ getAll (pairs.filterMap http.entry) n := by
  induction pairs generalizing m with
  | nil =>
    cases h
    simp
  | cons p pairs ih =>
    rw [build_cons] at h
    obtain ⟨e, he, hb⟩ := Option.bind_eq_some_iff.mp h
    rw [ih hb, getAll_append, List.filterMap_cons_some he, getAll_cons, List.append_assoc]

end Http

end ConstructTransport.Headers
