import ConstructTransport.Proxy.Upload

/-! The upstream to client half of a proxied call: what the upstream produces, the
body of `proxy_request` that forwards it, and what the client's stream is given.
The stream is finished by the code, or by being dropped when the function
returns early: a send half that was neither finished nor reset finishes itself. -/

namespace ConstructTransport.Proxy

/-- What the client's stream is given, in order. -/
inductive Down (H T : Type)
  | head (h : H)
  | data (bytes : List UInt8)
  | trailers (t : T)
  | finish
  | dropped
  deriving DecidableEq, Repr

/-- The errors of `proxy_request`, by their context. -/
inductive ProxyError
  | dialUpstream
  | upstreamHandshake
  | buildRequest
  | sendRequest
  | buildResponse
  | sendResponse
  | bodyFrame
  | sendData
  | sendTrailers
  | finish
  deriving DecidableEq, Repr

/-- The await `proxy_request` is at. A return keeps what was not forwarded of a frame. -/
inductive Main (H T : Type)
  | dialing
  | handshaking
  | building
  | requesting
  | heading (h : H)
  | responding (h : H)
  | awaiting
  | forwarding (rest : List UInt8)
  | trailing (t : T)
  | finishing
  | aborting
  | returned (lost : List UInt8) (result : Except ProxyError Unit)

variable {H T : Type}

namespace Main

def held : Main H T → List UInt8
  | forwarding rest => rest
  | returned lost _ => lost
  | _ => []

/-- The error an await fails with; the function only aborts pump A after its last await. -/
def error : Main H T → Option ProxyError
  | dialing => some .dialUpstream
  | handshaking => some .upstreamHandshake
  | building => some .buildRequest
  | requesting => some .sendRequest
  | heading _ => some .buildResponse
  | responding _ => some .sendResponse
  | awaiting => some .bodyFrame
  | forwarding _ => some .sendData
  | trailing _ => some .sendTrailers
  | finishing => some .finish
  | aborting | returned _ _ => none

/-- Before pump A is spawned. -/
def Early : Main H T → Prop
  | dialing | handshaking | building => True
  | _ => False

end Main

structure Download (H T : Type) where
  /-- The upstream's response: head, body, trailers, end. -/
  head : Option H
  produced : List UInt8
  trailers : Option T
  ending : Option Ending
  /-- What of the body no frame has carried, and whether the trailers frame was. -/
  pending : List UInt8
  trailersTaken : Bool
  main : Main H T
  down : List (Down H T)

inductive DownloadStep (H T : Type)
  | respond (h : H)
  | produce (bytes : List UInt8)
  | produceTrailers (t : T)
  | produceEnd (how : Ending)
  | frame (n : ℕ)
  | sendData (n : ℕ)
  | advance
  | fail
  deriving DecidableEq, Repr

def downBytes (down : List (Down H T)) : List UInt8 :=
  down.flatMap fun
    | .data bytes => bytes
    | _ => []

namespace Download

def start : Download H T where
  head := none
  produced := []
  trailers := none
  ending := none
  pending := []
  trailersTaken := false
  main := .dialing
  down := []

/-- The await succeeded. A frame that is not data is the trailers, else the body has ended. -/
def advance (d : Download H T) : Option (Download H T) :=
  match d.main with
  | .dialing => some { d with main := .handshaking }
  | .handshaking => some { d with main := .building }
  | .requesting => d.head.map fun h => { d with main := .heading h }
  | .heading h => some { d with main := .responding h }
  | .responding h => some { d with main := .awaiting, down := d.down ++ [.head h] }
  | .awaiting =>
    if d.pending = [] ∧ d.ending = some .clean then
      match d.trailersTaken, d.trailers with
      | false, some t => some { d with main := .trailing t, trailersTaken := true }
      | _, _ => some { d with main := .finishing }
    else none
  | .forwarding [] => some { d with main := .awaiting }
  | .trailing t => some { d with main := .awaiting, down := d.down ++ [.trailers t] }
  | .finishing => some { d with main := .aborting, down := d.down ++ [.finish] }
  | _ => none

def step (d : Download H T) : DownloadStep H T → Option (Download H T)
  | .respond h =>
    match d.main, d.head with
    | .requesting, none => some { d with head := some h }
    | _, _ => none
  | .produce bytes =>
    if d.head.isSome ∧ d.ending = none then
      some { d with produced := d.produced ++ bytes, pending := d.pending ++ bytes }
    else none
  | .produceTrailers t =>
    if d.head.isSome ∧ d.ending = none then
      some { d with trailers := some t, ending := some .clean }
    else none
  | .produceEnd how =>
    if d.head.isSome ∧ d.ending = none then some { d with ending := some how } else none
  | .frame n =>
    match d.main with
    | .awaiting =>
      if n ≤ d.pending.length ∧ d.trailersTaken = false then
        some { d with main := .forwarding (d.pending.take n), pending := d.pending.drop n }
      else none
    | _ => none
  | .sendData n =>
    match d.main with
    | .forwarding rest =>
      if n ≤ rest.length then
        some { d with main := .forwarding (rest.drop n), down := d.down ++ [.data (rest.take n)] }
      else none
    | _ => none
  | .advance => d.advance
  | .fail =>
    match d.main.error with
    | none => none
    | some e =>
      -- a body frame is an error only if the upstream failed
      if e = .bodyFrame ∧ d.ending ≠ some .failed then none
      else some { d with main := .returned d.main.held (.error e), down := d.down ++ [.dropped] }

/-- Pump A is spawned and the request handed to the HTTP/2 client. -/
def request (d : Download H T) : Download H T := { d with main := .requesting }

def finished (d : Download H T) : Download H T := { d with main := .returned [] (.ok ()) }

inductive Takes (d : Download H T) : DownloadStep H T → Download H T → Prop
  | respond (h : H) (main : d.main = .requesting) (head : d.head = none) :
    Takes d (.respond h) { d with head := some h }
  | produce (bytes : List UInt8) (ending : d.ending = none) :
    Takes d (.produce bytes)
      { d with produced := d.produced ++ bytes, pending := d.pending ++ bytes }
  | produceTrailers (t : T) (ending : d.ending = none) :
    Takes d (.produceTrailers t) { d with trailers := some t, ending := some .clean }
  | produceEnd (how : Ending) (ending : d.ending = none) :
    Takes d (.produceEnd how) { d with ending := some how }
  | frame (n : ℕ) (main : d.main = .awaiting) (le : n ≤ d.pending.length)
      (taken : d.trailersTaken = false) :
    Takes d (.frame n) { d with
      main := .forwarding (d.pending.take n)
      pending := d.pending.drop n }
  | sendData (n : ℕ) {rest : List UInt8} (main : d.main = .forwarding rest)
      (le : n ≤ rest.length) :
    Takes d (.sendData n) { d with
      main := .forwarding (rest.drop n)
      down := d.down ++ [.data (rest.take n)] }
  | advance {d' : Download H T} (next : d.advance = some d') : Takes d .advance d'
  | fail {e : ProxyError} (error : d.main.error = some e) :
    Takes d .fail { d with
      main := .returned d.main.held (.error e)
      down := d.down ++ [.dropped] }

theorem takes_of_step {d d' : Download H T} {l : DownloadStep H T} (h : d.step l = some d') :
    d.Takes l d' := by
  cases l with
  | respond g =>
    simp only [step] at h
    split at h
    · next hm hn =>
      cases h
      exact .respond g hm hn
    · contradiction
  | produce _ | produceTrailers _ | produceEnd _ =>
    simp only [step] at h
    split at h
    · next hp =>
      cases h
      constructor
      exact hp.2
    · contradiction
  | frame n =>
    simp only [step] at h
    split at h
    · next hm =>
      split at h
      · next hn =>
        cases h
        exact .frame n hm hn.1 hn.2
      · contradiction
    · contradiction
  | sendData n =>
    simp only [step] at h
    split at h
    · next rest hm =>
      split at h
      · next hn =>
        cases h
        exact .sendData n hm hn
      · contradiction
    · contradiction
  | advance => exact .advance h
  | fail =>
    simp only [step] at h
    split at h
    · contradiction
    · next e he =>
      split at h
      · contradiction
      · cases h
        exact .fail he

/-! ### What the client's stream has been given -/

@[simp] theorem downBytes_append (xs ys : List (Down H T)) :
    downBytes (xs ++ ys) = downBytes xs ++ downBytes ys := List.flatMap_append

theorem downBytes_prefix {xs ys : List (Down H T)} (h : xs <+: ys) :
    downBytes xs <+: downBytes ys := by
  obtain ⟨zs, rfl⟩ := h
  rw [downBytes_append]
  exact List.prefix_append _ _

@[simp] theorem downBytes_head (h : H) (ds : List (Down H T)) :
    downBytes (.head h :: ds) = downBytes ds := rfl

@[simp] theorem downBytes_data (chunks : List (List UInt8)) :
    downBytes (chunks.map .data : List (Down H T)) = chunks.flatten := by
  induction chunks with
  | nil => rfl
  | cons chunk chunks ih =>
    rw [List.map_cons, List.flatten_cons, ← ih]
    rfl

@[simp] theorem downBytes_trailers (ts : List T) :
    downBytes (ts.map .trailers : List (Down H T)) = [] := by
  induction ts with
  | nil => rfl
  | cons t ts ih => exact ih

/-- The head, data, trailers and end markers a stream has been given. -/
def Given (d : Download H T) (chunks : List (List UInt8)) (ts : List T)
    (ends : List (Down H T)) : Prop :=
  ∃ h, d.head = some h ∧ d.down = .head h :: (chunks.map .data ++ (ts.map .trailers ++ ends))

/-- All of a response that ended cleanly, then one end marker. -/
def Complete (d : Download H T) (e : Down H T) : Prop :=
  d.ending = some .clean ∧ ∃ chunks, chunks.flatten = d.produced ∧
    d.Given chunks d.trailers.toList [e]

/-- What the stream has been given when `proxy_request` is at an await. -/
def Shape (d : Download H T) : Main H T → Prop
  | .dialing | .handshaking | .building | .requesting => d.down = [] ∧ d.trailersTaken = false
  | .heading h | .responding h =>
    d.down = [] ∧ d.trailersTaken = false ∧ d.head = some h
  | .awaiting => ∃ chunks, d.Given chunks (if d.trailersTaken then d.trailers.toList else []) []
  | .forwarding _ => d.trailersTaken = false ∧ ∃ chunks, d.Given chunks [] []
  | .trailing t => d.trailersTaken = true ∧ d.trailers = some t ∧ ∃ chunks, d.Given chunks [] []
  | .finishing =>
    d.pending = [] ∧ d.ending = some .clean ∧ ∃ chunks, d.Given chunks d.trailers.toList []
  | .aborting => d.Complete .finish
  | .returned _ (.ok ()) => d.Complete .finish
  | .returned _ (.error .finish) => d.Complete .dropped
  | .returned _ (.error _) => True

/-- What is forwarded, held and pending makes up what was produced. -/
structure Inv (d : Download H T) : Prop where
  bytes : d.produced = downBytes d.down ++ (d.main.held ++ d.pending)
  taken : d.trailersTaken = true → d.pending = [] ∧ d.ending = some .clean
  shape : d.Shape d.main

theorem start_inv : (start : Download H T).Inv := ⟨rfl, nofun, rfl, rfl⟩

theorem Given.bytes {d : Download H T} {chunks : List (List UInt8)} {ts : List T}
    {ends : List (Down H T)} (h : d.Given chunks ts ends) :
    downBytes d.down = chunks.flatten ++ downBytes ends := by
  obtain ⟨g, -, hd⟩ := h
  rw [hd]
  simp

theorem Given.snoc {d : Download H T} {chunks : List (List UInt8)} {ts : List T}
    (h : d.Given chunks ts []) (e : Down H T) (m : Main H T) :
    ({ d with main := m, down := d.down ++ [e] } : Download H T).Given chunks ts [e] := by
  obtain ⟨g, hg, hd⟩ := h
  exact ⟨g, hg, by simp [hd]⟩

theorem Given.data {d : Download H T} {chunks : List (List UInt8)} (h : d.Given chunks [] [])
    (bytes : List UInt8) (m : Main H T) :
    ({ d with main := m, down := d.down ++ [.data bytes] } : Download H T).Given
      (chunks ++ [bytes]) [] [] := by
  obtain ⟨g, hg, hd⟩ := h
  exact ⟨g, hg, by simp [hd]⟩

theorem shape_of_upstream {d d' : Download H T} (hi : d.Inv) (hdown : d'.down = d.down)
    (htaken : d'.trailersTaken = d.trailersTaken)
    (hhead : ∀ h, d.head = some h → d'.head = some h)
    (hend : d.ending = some .clean → d'.ending = some .clean ∧ d'.trailers = d.trailers ∧
      d'.produced = d.produced ∧ d'.pending = d.pending) {m : Main H T} (hs : d.Shape m) :
    d'.Shape m := by
  have given : ∀ {chunks ts ends}, d.Given chunks ts ends → d'.Given chunks ts ends := by
    rintro chunks ts ends ⟨h, hh, hd⟩
    exact ⟨h, hhead h hh, hdown.trans hd⟩
  have complete : ∀ {e}, d.Complete e → d'.Complete e := by
    rintro e ⟨he, chunks, hc, hg⟩
    obtain ⟨he', ht, hp, -⟩ := hend he
    exact ⟨he', chunks, hc.trans hp.symm, ht ▸ given hg⟩
  cases m with
  | dialing => exact ⟨hdown.trans hs.1, htaken.trans hs.2⟩
  | handshaking => exact ⟨hdown.trans hs.1, htaken.trans hs.2⟩
  | building => exact ⟨hdown.trans hs.1, htaken.trans hs.2⟩
  | requesting => exact ⟨hdown.trans hs.1, htaken.trans hs.2⟩
  | heading h => exact ⟨hdown.trans hs.1, htaken.trans hs.2.1, hhead h hs.2.2⟩
  | responding h => exact ⟨hdown.trans hs.1, htaken.trans hs.2.1, hhead h hs.2.2⟩
  | awaiting =>
    obtain ⟨chunks, hg⟩ := hs
    refine ⟨chunks, ?_⟩
    rw [htaken]
    by_cases ht : d.trailersTaken = true
    · rw [(hend (hi.taken ht).2).2.1]
      exact given hg
    · rw [if_neg ht] at hg ⊢
      exact given hg
  | forwarding rest =>
    obtain ⟨ht, chunks, hg⟩ := hs
    exact ⟨htaken.trans ht, chunks, given hg⟩
  | trailing t =>
    obtain ⟨ht, hts, chunks, hg⟩ := hs
    exact ⟨htaken.trans ht, (hend (hi.taken ht).2).2.1.trans hts, chunks, given hg⟩
  | finishing =>
    obtain ⟨hp, he, chunks, hg⟩ := hs
    obtain ⟨he', ht, -, hp'⟩ := hend he
    exact ⟨hp'.trans hp, he', chunks, ht ▸ given hg⟩
  | aborting => exact complete hs
  | returned lost result =>
    cases result with
    | ok => exact complete hs
    | error e =>
      cases e
      case finish => exact complete hs
      all_goals trivial

theorem advance_inv {d d' : Download H T} (hi : d.Inv) (h : d.advance = some d') : d'.Inv := by
  obtain ⟨bytes, taken, shape⟩ := hi
  cases hm : d.main with
  | dialing | handshaking =>
    simp only [advance, hm] at h
    cases h
    rw [hm] at bytes shape
    exact ⟨bytes, taken, shape⟩
  | requesting =>
    simp only [advance, hm] at h
    obtain ⟨g, hg, rfl⟩ := Option.map_eq_some_iff.mp h
    rw [hm] at bytes shape
    exact ⟨bytes, taken, shape.1, shape.2, hg⟩
  | heading g =>
    simp only [advance, hm] at h
    cases h
    rw [hm] at bytes shape
    exact ⟨bytes, taken, shape⟩
  | responding g =>
    simp only [advance, hm] at h
    cases h
    rw [hm] at bytes shape
    obtain ⟨hd, ht, hg⟩ := shape
    refine ⟨by simpa [downBytes, Main.held] using bytes, taken, [], g, hg, ?_⟩
    simp [hd, ht]
  | awaiting =>
    simp only [advance, hm] at h
    rw [hm] at bytes shape
    obtain ⟨chunks, hg⟩ := shape
    split at h
    · next hp =>
      split at h
      · next t htk ht =>
        cases h
        rw [htk] at hg
        exact ⟨bytes, fun _ => hp, rfl, ht, chunks, hg⟩
      · next hno =>
        cases h
        refine ⟨bytes, taken, hp.1, hp.2, chunks, ?_⟩
        cases htk : d.trailersTaken with
        | true => rwa [htk] at hg
        | false =>
          rw [htk] at hg
          cases ht : d.trailers with
          | none => exact hg
          | some t => exact absurd ht (hno t htk)
    · contradiction
  | forwarding rest =>
    cases rest with
    | nil =>
      simp only [advance, hm] at h
      cases h
      rw [hm] at bytes shape
      obtain ⟨ht, chunks, hg⟩ := shape
      refine ⟨bytes, taken, chunks, ?_⟩
      rw [if_neg (by rw [ht]; nofun)]
      exact hg
    | cons b rest => simp [advance, hm] at h
  | trailing t =>
    simp only [advance, hm] at h
    cases h
    rw [hm] at bytes shape
    obtain ⟨ht, hts, chunks, g, hg, hd⟩ := shape
    refine ⟨by simpa [downBytes, Main.held] using bytes, taken, chunks, g, hg, ?_⟩
    simp [hd, ht, hts]
  | finishing =>
    simp only [advance, hm] at h
    cases h
    rw [hm] at bytes shape
    obtain ⟨hp, he, chunks, hg⟩ := shape
    refine ⟨by simpa [downBytes, Main.held] using bytes, taken, he, chunks, ?_, hg.snoc _ _⟩
    rw [bytes, hg.bytes, hp]
    simp [downBytes, Main.held]
  | building | aborting | returned lost result => simp [advance, hm] at h

theorem upstream_inv {d : Download H T} (hi : d.Inv) (head : Option H) (bytes : List UInt8)
    (trailers : Option T) (ending : Option Ending) (hhead : ∀ h, d.head = some h → head = some h)
    (hend : d.ending = some .clean → ending = some .clean ∧ trailers = d.trailers ∧ bytes = []) :
    ({ d with
      head := head
      produced := d.produced ++ bytes
      trailers := trailers
      ending := ending
      pending := d.pending ++ bytes } : Download H T).Inv := by
  refine ⟨?_, fun ht => ?_, ?_⟩
  · rw [hi.bytes]
    simp
  · obtain ⟨hp, he⟩ := hi.taken ht
    obtain ⟨he', -, hb⟩ := hend he
    exact ⟨by rw [hp, hb]; rfl, he'⟩
  · refine shape_of_upstream hi ?_ ?_ ?_ ?_ hi.shape
    · rfl
    · rfl
    · exact hhead
    · intro he
      obtain ⟨he', ht, rfl⟩ := hend he
      exact ⟨he', ht, List.append_nil _, List.append_nil _⟩

theorem step_inv {d d' : Download H T} {l : DownloadStep H T} (hi : d.Inv)
    (h : d.step l = some d') : d'.Inv := by
  cases takes_of_step h with
  | respond g hm hn =>
    have := upstream_inv hi (some g) [] d.trailers d.ending
      (fun g' hg => absurd (hn.symm.trans hg) nofun)
      fun he => ⟨he, rfl, rfl⟩
    simpa using this
  | produce bytes hp =>
    exact upstream_inv hi d.head bytes d.trailers d.ending (fun _ hg => hg)
      fun he => absurd (hp.symm.trans he) nofun
  | produceTrailers t hp =>
    have := upstream_inv hi d.head [] (some t) (some .clean) (fun _ hg => hg)
      fun he => absurd (hp.symm.trans he) nofun
    simpa using this
  | produceEnd how hp =>
    have := upstream_inv hi d.head [] d.trailers (some how) (fun _ hg => hg)
      fun he => absurd (hp.symm.trans he) nofun
    simpa using this
  | frame n hm hn ht =>
    obtain ⟨bytes, taken, shape⟩ := hi
    rw [hm] at bytes shape
    obtain ⟨chunks, hg⟩ := shape
    rw [if_neg (by rw [ht]; nofun)] at hg
    refine ⟨?_, fun ht' => absurd (ht.symm.trans ht') nofun, ht, chunks, hg⟩
    simpa [Main.held] using bytes
  | sendData n hm hn =>
    obtain ⟨bytes, taken, shape⟩ := hi
    rw [hm] at bytes shape
    obtain ⟨ht, chunks, hg⟩ := shape
    refine ⟨?_, taken, ht, _, hg.data _ _⟩
    rw [bytes, downBytes_append]
    simp only [downBytes, Main.held, List.flatMap_cons, List.flatMap_nil, List.append_nil,
      List.append_assoc]
    rw [← List.append_assoc (List.take n _), List.take_append_drop]
  | advance hd => exact advance_inv hi hd
  | fail he =>
    obtain ⟨bytes, taken, shape⟩ := hi
    refine ⟨by simpa [downBytes, Main.held] using bytes, taken, ?_⟩
    cases hm : d.main with
    | finishing =>
      rw [hm] at he shape bytes
      cases he
      obtain ⟨hp, hc, chunks, hg⟩ := shape
      refine ⟨hc, chunks, ?_, hg.snoc _ _⟩
      rw [bytes, hg.bytes, hp]
      simp [downBytes, Main.held]
    | aborting | returned _ _ =>
      rw [hm] at he
      contradiction
    | _ =>
      rw [hm] at he
      cases he
      trivial

theorem request_inv {d : Download H T} (hi : d.Inv) (hm : d.main = .building) : d.request.Inv := by
  obtain ⟨bytes, taken, shape⟩ := hi
  rw [hm] at bytes shape
  exact ⟨bytes, taken, shape⟩

theorem finished_inv {d : Download H T} (hi : d.Inv) (hm : d.main = .aborting) :
    d.finished.Inv := by
  obtain ⟨bytes, taken, shape⟩ := hi
  rw [hm] at bytes shape
  exact ⟨bytes, taken, shape⟩

/-- The client has been given a prefix of what the upstream produced. -/
theorem Inv.down_prefix {d : Download H T} (hi : d.Inv) : downBytes d.down <+: d.produced := by
  rw [hi.bytes]
  exact List.prefix_append _ _

theorem advance_shared {d d' : Download H T} (h : d.advance = some d') :
    d'.ending = d.ending ∧ (d'.main.Early → d.main.Early) ∧
      ∀ lost r, d'.main ≠ .returned lost r := by
  unfold advance at h
  split at h
  · next hm => cases h; exact ⟨rfl, fun _ => hm ▸ trivial, nofun⟩
  · next hm => cases h; exact ⟨rfl, fun _ => hm ▸ trivial, nofun⟩
  · obtain ⟨g, -, rfl⟩ := Option.map_eq_some_iff.mp h
    exact ⟨rfl, False.elim, nofun⟩
  · cases h; exact ⟨rfl, False.elim, nofun⟩
  · cases h; exact ⟨rfl, False.elim, nofun⟩
  · split at h
    · split at h <;> cases h <;> exact ⟨rfl, False.elim, nofun⟩
    · contradiction
  · cases h; exact ⟨rfl, False.elim, nofun⟩
  · cases h; exact ⟨rfl, False.elim, nofun⟩
  · cases h; exact ⟨rfl, False.elim, nofun⟩
  · contradiction

theorem step_shared {d d' : Download H T} {l : DownloadStep H T} (h : d.step l = some d') :
    (d.ending = some .clean → d'.ending = some .clean) ∧ (d'.main.Early → d.main.Early) ∧
      ∀ lost r, d'.main = .returned lost r →
        d.main = .returned lost r ∨ l = .fail ∧ ∃ e, r = .error e ∧ d.main.error = some e := by
  cases takes_of_step h with
  | respond => exact ⟨id, id, fun _ _ => .inl⟩
  | produce _ hp | produceTrailers _ hp | produceEnd _ hp =>
    exact ⟨fun he => absurd (hp.symm.trans he) nofun, id, fun _ _ => .inl⟩
  | frame | sendData => exact ⟨id, False.elim, nofun⟩
  | advance hd =>
    obtain ⟨he, hm, hn⟩ := advance_shared hd
    exact ⟨he.trans, hm, fun lost r hr => absurd hr (hn lost r)⟩
  | fail he =>
    refine ⟨id, False.elim, fun lost r hr => .inr ⟨rfl, _, ?_, he⟩⟩
    cases hr
    rfl

/-- The function does not come back from a return. -/
theorem step_returned {d d' : Download H T} {l : DownloadStep H T} {lost : List UInt8}
    {r : Except ProxyError Unit} (h : d.step l = some d') (hm : d.main = .returned lost r) :
    d'.main = .returned lost r := by
  cases takes_of_step h with
  | respond | produce | produceTrailers | produceEnd => exact hm
  | frame _ hf | sendData _ hf => exact absurd (hf.symm.trans hm) nofun
  | advance hd => simp [advance, hm] at hd
  | fail he =>
    rw [hm] at he
    contradiction

theorem step_fail {d d' : Download H T} (h : d.step .fail = some d') :
    ∃ lost e, (∀ lost r, d.main ≠ .returned lost r) ∧ d'.main = .returned lost (.error e) := by
  cases takes_of_step h with
  | fail he =>
    refine ⟨_, _, fun lost r hm => ?_, rfl⟩
    rw [hm] at he
    contradiction

end Download

end ConstructTransport.Proxy
