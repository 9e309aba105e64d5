import ConstructTransport.Basic.Pool
import ConstructTransport.Proxy.Settling

/-! The proxy as a server (`serve_on_endpoint` and `handle_conn`). Each connection and
each request on it is a task of its own, but all requests of a client are streams of one
QUIC connection. It may be lost at any time, also because one stream breaks the protocol,
and it is closed when `handle_conn` returns. What that does to a call still going on: it
gets and gives nothing more, it returns `Ok` only if all had been given before, and it
comes to rest. -/

namespace ConstructTransport.Proxy

open Runs Pooling

variable {H T : Type}

/-- The await has something to put on the client's stream. -/
def Main.writes : Main H T → Bool
  | responding _ | trailing _ | forwarding (_ :: _) => true
  | _ => false

/-- Steps that only an open connection lets happen: something new of the client arrives,
or something is put on its stream. What came before can still be read. -/
def Call.needsOpen (c : Call H T) : Step H T → Bool
  | .up (.clientSend _) | .up (.clientEnd .clean) | .down (.sendData _) => true
  | .down .advance => c.download.main.writes
  | _ => false

def Call.step (isOpen : Bool) (c : Call H T) (l : Step H T) : Option (Call H T) :=
  if isOpen || !c.needsOpen l then proxyRequest c l else none

/-- The task of one request. -/
inductive Task (H T : Type)
  | resolving
  | refused
  | proxying (call : Call H T)

inductive TaskStep (H T : Type)
  | resolved
  | resolveError
  | call (l : Step H T)
  deriving DecidableEq, Repr

def Task.step (isOpen : Bool) : Task H T → TaskStep H T → Option (Task H T)
  | .resolving, .resolved => some (.proxying Call.start)
  | .resolving, .resolveError => some .refused
  | .proxying c, .call l => (c.step isOpen l).map .proxying
  | _, _ => none

/-- The errors of `handle_conn`. -/
inductive ConnError
  | connect
  | setup
  | accept
  deriving DecidableEq, Repr

/-- The await `handle_conn` is at. -/
inductive Accepting
  | connecting
  | settingUp
  | accepting
  | returned (result : Except ConnError Unit)

def Accepting.error : Accepting → Option ConnError
  | connecting => some .connect
  | settingUp => some .setup
  | accepting => some .accept
  | returned _ => none

structure Connection (H T : Type) where
  handler : Accepting
  /-- Whether the QUIC connection is there, with the streams of all its requests. -/
  isOpen : Bool
  requests : Pool (Task H T)

def Connection.start : Connection H T := ⟨.connecting, true, Pool.start⟩

inductive ConnStep (H T : Type)
  | advance
  | accept
  | acceptNone
  | fail
  | lost
  | task (j : ℕ) (l : TaskStep H T)
  deriving DecidableEq, Repr

abbrev Requests (H T : Type) := Pool (Task H T)

/-- The tasks `handle_conn` has spawned. -/
def Requests.step (isOpen : Bool) :
    Requests H T → Event (TaskStep H T) → Option (Requests H T) :=
  Pooling.step .resolving (Task.step isOpen)

/-- `handle_conn` and the connection it serves. When it returns it drops the `h3` connection,
which closes it; the tasks stay. -/
def Connection.step (c : Connection H T) : ConnStep H T → Option (Connection H T)
  | .advance =>
    match c.handler with
    | .connecting => some { c with handler := .settingUp }
    | .settingUp => some { c with handler := .accepting }
    | _ => none
  | .accept =>
    match c.handler with
    | .accepting =>
      -- a request that came before the connection was lost is still in the queue
      (Requests.step c.isOpen c.requests .accept).map fun p => { c with requests := p }
    | _ => none
  | .acceptNone =>
    match c.handler with
    | .accepting =>
      (Requests.step c.isOpen c.requests .stop).map fun p => ⟨.returned (.ok ()), false, p⟩
    | _ => none
  | .fail =>
    match c.handler.error with
    | some e =>
      (Requests.step c.isOpen c.requests .stop).map fun p => ⟨.returned (.error e), false, p⟩
    | none => none
  | .lost => if c.isOpen then some { c with isOpen := false } else none
  | .task j l =>
    (Requests.step c.isOpen c.requests (.work j l)).map fun p => { c with requests := p }

abbrev Server (H T : Type) := Pool (Connection H T)

/-- The accept loop of `serve_on_endpoint` and the connections it spawned. -/
def serve : Server H T → Event (ConnStep H T) → Option (Server H T) :=
  Pooling.step Connection.start Connection.step

/-- The call of request `j` of connection `i`, once it is proxied. -/
def Server.call? (s : Server H T) (i j : ℕ) : Option (Call H T) :=
  match s.workers[i]? with
  | none => none
  | some c =>
    match c.requests.workers[j]? with
    | some (.proxying call) => some call
    | _ => none

/-! ### From the server to a call -/

/-- What a connection's step is to its tasks. -/
def ConnStep.event : ConnStep H T → Option (Event (TaskStep H T))
  | .advance | .lost => none
  | .accept => some .accept
  | .acceptNone | .fail => some .stop
  | .task j l => some (.work j l)

def TaskStep.call? : TaskStep H T → Option (Step H T)
  | .call l => some l
  | _ => none

/-- The steps of the call of request `j` of connection `i`, in order. -/
def callSteps (i j : ℕ) (es : List (Event (ConnStep H T))) : List (Step H T) :=
  (own j ((own i es).filterMap ConnStep.event)).filterMap TaskStep.call?

def callEvent (i j : ℕ) (l : Step H T) : Event (ConnStep H T) := .work i (.task j (.call l))

theorem step_of_step {b : Bool} {c c' : Call H T} {l : Step H T} (h : c.step b l = some c') :
    proxyRequest c l = some c' :=
  (Option.ite_none_right_eq_some.mp h).2

theorem step_open (c : Call H T) (l : Step H T) : c.step true l = proxyRequest c l := by
  simp [Call.step]

theorem task_step_open (b : Bool) (t : Task H T) (l : TaskStep H T) (t' : Task H T)
    (h : t.step b l = some t') : t.step true l = some t' := by
  cases t with
  | proxying c =>
    cases l with
    | call l =>
      obtain ⟨c', hc, rfl⟩ := Option.map_eq_some_iff.mp h
      exact Option.map_eq_some_iff.mpr ⟨c', (step_open c l).trans (step_of_step hc), rfl⟩
    | resolved | resolveError => exact h
  | resolving | refused => cases l <;> exact h

/-- A connection's step is one of its tasks at most. It closes the connection, or it leaves
that as it is and `handle_conn` does not return. -/
theorem Connection.step_cases {c c' : Connection H T} {l : ConnStep H T} (h : c.step l = some c') :
    run (Requests.step c.isOpen) c.requests l.event.toList = some c'.requests ∧
      (c'.isOpen = false ∨ c'.isOpen = c.isOpen ∧
        ∀ r, c'.handler = .returned r → c.handler = .returned r) := by
  have one : ∀ {p : Requests H T} {e : Event (TaskStep H T)},
      Requests.step c.isOpen c.requests e = some p →
      run (Requests.step c.isOpen) c.requests [e] = some p :=
    fun he => run_cons_eq_some.mpr ⟨_, he, rfl⟩
  cases l with
  | advance =>
    simp only [Connection.step] at h
    split at h <;> cases h <;> exact ⟨rfl, .inr ⟨rfl, fun r hr => by cases hr⟩⟩
  | accept =>
    simp only [Connection.step] at h
    split at h
    · obtain ⟨p, hp, rfl⟩ := Option.map_eq_some_iff.mp h
      exact ⟨one hp, .inr ⟨rfl, fun _ => id⟩⟩
    · contradiction
  | acceptNone | fail =>
    simp only [Connection.step] at h
    split at h
    · obtain ⟨p, hp, rfl⟩ := Option.map_eq_some_iff.mp h
      exact ⟨one hp, .inl rfl⟩
    · contradiction
  | lost =>
    obtain ⟨-, he⟩ := Option.ite_none_right_eq_some.mp h
    cases he
    exact ⟨rfl, .inl rfl⟩
  | task j l =>
    obtain ⟨p, hp, rfl⟩ := Option.map_eq_some_iff.mp h
    exact ⟨one hp, .inr ⟨rfl, fun _ => id⟩⟩

theorem step_requests_open {c c' : Connection H T} {l : ConnStep H T}
    (h : c.step l = some c') :
    run (Requests.step true) c.requests l.event.toList = some c'.requests := by
  have := run_lift id id (fun _ _ _ hp => step_mono (task_step_open c.isOpen) hp)
    (Connection.step_cases h).1
  rwa [List.map_id] at this

theorem step_requests_closed {c c' : Connection H T} {l : ConnStep H T}
    (hc : c.isOpen = false) (h : c.step l = some c') : c'.isOpen = false ∧
      run (Requests.step false) c.requests l.event.toList = some c'.requests := by
  obtain ⟨hr, hopen⟩ := Connection.step_cases h
  rw [hc] at hr
  exact ⟨hopen.elim id fun ho => ho.1.trans hc, hr⟩

theorem run_proxying {b : Bool} {c : Call H T} {ls : List (TaskStep H T)} {t : Task H T}
    (h : run (Task.step b) (.proxying c) ls = some t) :
    ∃ c', t = .proxying c' ∧ run (Call.step b) c (ls.filterMap TaskStep.call?) = some c' := by
  induction ls generalizing c with
  | nil =>
    cases h
    exact ⟨c, rfl, rfl⟩
  | cons l ls ih =>
    obtain ⟨u, hu, hr⟩ := run_cons_eq_some.mp h
    cases l with
    | resolved | resolveError => cases hu
    | call l =>
      obtain ⟨c₁, hc, rfl⟩ := Option.map_eq_some_iff.mp hu
      obtain ⟨c', ht, hrun⟩ := ih hr
      exact ⟨c', ht, run_cons_eq_some.mpr ⟨c₁, hc, hrun⟩⟩

theorem run_task {ls : List (TaskStep H T)} {c : Call H T}
    (h : run (Task.step true) .resolving ls = some (.proxying c)) :
    run proxyRequest Call.start (ls.filterMap TaskStep.call?) = some c := by
  cases ls with
  | nil => cases h
  | cons l ls =>
    obtain ⟨t, ht, hr⟩ := run_cons_eq_some.mp h
    cases l with
    | resolved =>
      cases ht
      obtain ⟨c', hc, hrun⟩ := run_proxying hr
      cases hc
      have hstep : Call.step true = proxyRequest (H := H) (T := T) := funext₂ step_open
      rwa [hstep] at hrun
    | resolveError =>
      cases ht
      cases ls with
      | nil => cases hr
      | cons l ls =>
        obtain ⟨t, ht, -⟩ := run_cons_eq_some.mp hr
        cases l <;> cases ht
    | call l => cases ht

/-! ### A call among others -/

variable {s s' : Server H T} {i j : ℕ} {conn conn' : Connection H T} {c c' : Call H T}
  {es more : List (Event (ConnStep H T))}

theorem call?_eq_some : s.call? i j = some c ↔
    ∃ conn, s.workers[i]? = some conn ∧ conn.requests.workers[j]? = some (.proxying c) := by
  unfold Server.call?
  constructor
  · intro h
    split at h
    · contradiction
    · next conn hi =>
      split at h
      · next hj =>
        cases h
        exact ⟨conn, hi, hj⟩
      · contradiction
  · rintro ⟨conn, hi, hj⟩
    simp only [hi, hj]

/-- What a call has been through is a run of its own. -/
theorem run_call (h : run serve Pool.start es = some s) (hc : s.call? i j = some c) :
    run proxyRequest Call.start (callSteps i j es) = some c := by
  obtain ⟨conn, hi, hj⟩ := call?_eq_some.mp hc
  have hreq := (run_restrict Connection.requests ConnStep.event (fun _ => True)
    (fun _ _ _ _ hl => ⟨trivial, step_requests_open hl⟩) trivial (run_own h hi)).2
  exact run_task (run_own hreq hj)

/-- On a closed connection too, and it has only the steps that are left to it. -/
theorem run_call_closed (h : run serve s more = some s') (hi : s.workers[i]? = some conn)
    (hclosed : conn.isOpen = false) (hj : conn.requests.workers[j]? = some (.proxying c)) :
    ∃ conn' c', s'.workers[i]? = some conn' ∧ conn'.isOpen = false ∧
      conn'.requests.workers[j]? = some (.proxying c') ∧
      run (Call.step false) c (callSteps i j more) = some c' := by
  obtain ⟨conn', hi', hconn⟩ := run_own_of h hi
  obtain ⟨hclosed', hreq⟩ := run_restrict Connection.requests ConnStep.event
    (fun conn => conn.isOpen = false) (fun _ _ _ => step_requests_closed) hclosed hconn
  obtain ⟨t, hj', htask⟩ := run_own_of hreq hj
  obtain ⟨c', rfl, hcall⟩ := run_proxying htask
  exact ⟨conn', c', hi', hclosed', hj', hcall⟩

/-- What a call can still do alone it can do in the server. -/
theorem run_callEvents {steps : List (Step H T)} (hi : s.workers[i]? = some conn)
    (hj : conn.requests.workers[j]? = some (.proxying c))
    (h : run (Call.step conn.isOpen) c steps = some c') :
    ∃ s', run serve s (steps.map (callEvent i j)) = some s' ∧ s'.call? i j = some c' := by
  have htask : run (Task.step conn.isOpen) (.proxying c) (steps.map TaskStep.call) =
      some (.proxying c') :=
    run_lift Task.proxying TaskStep.call (fun s a s' hs => by rw [Task.step, hs]; rfl) h
  have hpool := run_alone Task.resolving hj htask
  rw [List.map_map, run_map] at hpool
  have hconn : run Connection.step conn (steps.map fun l => .task j (.call l)) = some _ :=
    run_lift (fun p => { conn with requests := p }) _
      (fun p l p' hp => Option.map_eq_some_iff.mpr ⟨p', hp, rfl⟩) hpool
  have hserver := run_alone Connection.start hi hconn
  rw [List.map_map] at hserver
  refine ⟨_, hserver, call?_eq_some.mpr ⟨_, Interleaving.getElem?_set_of_some hi _, ?_⟩⟩
  exact Interleaving.getElem?_set_of_some hj _

/-! ### A closed connection -/

theorem step_returned (hi : ∀ r, conn.handler = .returned r → conn.isOpen = false)
    {l : ConnStep H T} (h : conn.step l = some conn') (r : Except ConnError Unit)
    (hr : conn'.handler = .returned r) : conn'.isOpen = false := by
  rcases (Connection.step_cases h).2 with hclosed | ⟨hopen, hret⟩
  · exact hclosed
  · rw [hopen]
    exact hi r (hret r hr)

def Connection.Over (c : Connection H T) : Prop :=
  c.isOpen = false ∨ ∃ r, c.handler = .returned r

theorem closed_of_over (h : run serve Pool.start es = some s) (hi : s.workers[i]? = some conn)
    (ho : conn.Over) : conn.isOpen = false := by
  have hret := run_invariant
    (fun conn : Connection H T => ∀ r, conn.handler = .returned r → conn.isOpen = false)
    (fun _ _ _ hi hl r => step_returned hi hl r) (fun r hr => by cases hr) (run_own h hi)
  rcases ho with ho | ⟨r, hr⟩
  · exact ho
  · exact hret r hr

/-- What the client can make something of, not how its stream ends. -/
def Down.carries : Down H T → Bool
  | head _ | data _ | trailers _ => true
  | finish | dropped => false

def Download.given (d : Download H T) : List (Down H T) := d.down.filter Down.carries

theorem advance_given {d d' : Download H T} (h : d.advance = some d')
    (hw : d.main.writes = false) : d'.given = d.given := by
  unfold Download.advance at h
  split at h
  · cases h; rfl
  · cases h; rfl
  · obtain ⟨g, -, rfl⟩ := Option.map_eq_some_iff.mp h
    rfl
  · cases h; rfl
  · next hm => simp [hm, Main.writes] at hw
  · split_ifs at h
    split at h <;> cases h <;> rfl
  · cases h; rfl
  · next hm => simp [hm, Main.writes] at hw
  · cases h
    simp [Download.given, Down.carries]
  · cases h

/-- A call of a closed connection: what it was and what becomes of it. -/
structure CutOff (c c' : Call H T) : Prop where
  sent : c'.upload.sent = c.upload.sent
  ended : c'.upload.ending = some .clean → c.upload.ending = some .clean
  given : c'.download.given = c.download.given

theorem step_cutOff {l : Step H T} (h : c.step false l = some c') : CutOff c c' := by
  obtain ⟨hn, h⟩ := Option.ite_none_right_eq_some.mp h
  rw [Bool.false_or, Bool.not_eq_true'] at hn
  rcases proxyRequest_cases h with ⟨k, u, rfl, hu, rfl⟩ | ⟨k, d, rfl, hd, rfl⟩ | ⟨-, -, rfl⟩ |
    ⟨-, -, rfl⟩
  · cases Upload.takes_of_step hu with
    | clientSend => cases hn
    | @clientEnd how =>
      cases how with
      | clean => cases hn
      | failed => exact ⟨rfl, nofun, rfl⟩
    | _ => exact ⟨rfl, id, rfl⟩
  · refine ⟨rfl, id, ?_⟩
    cases Download.takes_of_step hd with
    | sendData => cases hn
    | advance hd => exact advance_given hd hn
    | fail => simp [Download.given, Down.carries]
    | _ => rfl
  · exact ⟨rfl, id, rfl⟩
  · exact ⟨rfl, id, rfl⟩

theorem run_cutOff {steps : List (Step H T)} (h : run (Call.step false) c steps = some c') :
    CutOff c c' :=
  run_invariant (CutOff c)
    (fun _ _ _ hc hl =>
      have hs := step_cutOff hl
      ⟨hs.sent.trans hc.sent, fun he => hc.ended (hs.ended he), hs.given.trans hc.given⟩)
    ⟨rfl, id, rfl⟩ h

/-! ### At rest -/

/-- Steps that such a call takes by itself: its reads and its writes fail. -/
def Drains (c : Call H T) : Step H T → Prop
  | .up (.clientEnd .failed) => True
  | .down .fail => c.download.main = .awaiting ∨ c.download.main.writes = true
  | l => Works c l

theorem drains_of_works {l : Step H T} (h : Works c l) : Drains c l := by
  cases l with
  | up l =>
    cases l with
    | clientEnd how => exact h.elim
    | _ => exact h
  | down l =>
    cases l with
    | fail => exact .inl h
    | _ => exact h
  | spawn | abort => exact h

/-- What is left to do, and to notice that the client is gone. -/
def Call.toDrain (c : Call H T) : ℕ := c.left + if c.upload.ending = none then 1 else 0

theorem drains_pays (c : Call H T) (l : Step H T) (c' : Call H T) (hd : Drains c l)
    (h : c.step false l = some c') : c'.toDrain < c.toDrain := by
  have h := step_of_step h
  have less : Moves c l → c'.toDrain < c.toDrain := by
    intro hm
    have hleft := step_pays c l c' hm h
    have hend := (ending_kept h).1
    unfold Call.toDrain
    by_cases he : c.upload.ending = none
    · rw [if_pos he]
      split_ifs <;> omega
    · rw [if_neg he, if_neg (hend he)]
      omega
  cases l with
  | up l =>
    cases l with
    | clientEnd how =>
      cases how with
      | clean => exact hd.elim
      | failed =>
        obtain ⟨u, hu, rfl⟩ := Option.map_eq_some_iff.mp h
        cases Upload.takes_of_step hu with
        | clientEnd he =>
          simp [Call.toDrain, Call.left, Upload.left, he]
    | _ => exact less (Works.moves hd)
  | down l =>
    cases l with
    | fail => exact less trivial
    | _ => exact less (Works.moves hd)
  | spawn | abort => exact less (Works.moves hd)

/-- Where none is left, the call is settled: what would wait for the client fails instead. -/
theorem settled_of_drained (hi : c.Inv) (hb : Begun c) (hend : c.download.ending ≠ none)
    (hstuck : ∀ l, Drains c l → c.step false l = none) : Settled c := by
  have client : c.upload.ending ≠ none := by
    intro hn
    have := hstuck (.up (.clientEnd .failed)) trivial
    simp [Call.step, Call.needsOpen, proxyRequest, Upload.step, hn] at this
  have quiet : c.download.main.writes = false := by
    by_contra hw
    rw [Bool.not_eq_false] at hw
    have := hstuck (.down .fail) (.inr hw)
    cases hm : c.download.main with
    | responding | trailing | forwarding =>
      simp [Call.step, Call.needsOpen, proxyRequest, Download.step, hm, Main.error] at this
    | _ => simp [hm, Main.writes] at hw
  refine settled_of_stuck hi hb ⟨client, hend⟩ fun l hw => ?_
  by_cases hn : c.needsOpen l = true
  · cases l with
    | up l =>
      cases l with
      | clientSend | clientEnd => exact hw.elim
      | _ => cases hn
    | down l =>
      cases l with
      | advance => exact absurd (quiet.symm.trans hn) Bool.false_ne_true
      | sendData n =>
        -- a frame with bytes left would be written
        have hpos : 0 < n := hw
        cases hm : c.download.main with
        | forwarding rest =>
          cases rest with
          | nil => simp [proxyRequest, Download.step, hm, Nat.ne_of_gt hpos]
          | cons b rest => simp [hm, Main.writes] at quiet
        | _ => simp [proxyRequest, Download.step, hm]
      | _ => cases hn
    | spawn | abort => cases hn
  · have := hstuck l (drains_of_works hw)
    rw [Bool.not_eq_true] at hn
    rwa [Call.step, hn] at this

/-- The head, all of the body and the trailers if there are any. -/
def Download.Whole (d : Download H T) (given : List (Down H T)) : Prop :=
  ∃ (h : H) (chunks : List (List UInt8)), d.head = some h ∧ chunks.flatten = d.produced ∧
    given = .head h :: (chunks.map .data ++ d.trailers.toList.map .trailers)

theorem whole_given {steps : List (Step H T)} {lost : List UInt8}
    (h : run proxyRequest Call.start steps = some c)
    (hm : c.download.main = .returned lost (.ok ())) : c.download.Whole c.download.given := by
  have complete := (run_callInv h).download.shape
  rw [hm] at complete
  obtain ⟨-, chunks, hp, g, hg, hd⟩ := complete
  have data : (chunks.map (Down.data (H := H) (T := T))).filter Down.carries =
      chunks.map .data := by
    rw [List.filter_map]
    exact congrArg _ (List.filter_eq_self.mpr fun _ _ => rfl)
  refine ⟨g, chunks, hg, hp, ?_⟩
  rw [Download.given, hd, List.filter_cons_of_pos rfl, List.filter_append, data]
  cases c.download.trailers <;> rfl

/-- A call whose connection is over, `c` when it was seen to be and `c'` later. -/
structure Severed (s : Server H T) (i j : ℕ) (c c' : Call H T) : Prop where
  cutOff : CutOff c c'
  /-- The function returns `Ok` only where nothing was missing. -/
  whole : ∀ lost, c'.download.main = .returned lost (.ok ()) →
    c'.download.Whole c.download.given
  bounded : ∀ (steps : List (Step H T)) (d : Call H T), Along (Call.step false) Drains c' steps →
    run (Call.step false) c' steps = some d → steps.length ≤ c'.toDrain
  settles : c'.download.ending ≠ none → ∀ (steps : List (Step H T)) (d : Call H T),
    run (Call.step false) c' steps = some d →
    (∀ l, Drains d l → d.step false l = none) → Settled d
  rests : c'.download.ending ≠ none → ∃ (steps : List (Step H T)) (s' : Server H T) (d : Call H T),
    run serve s (steps.map (callEvent i j)) = some s' ∧ s'.call? i j = some d ∧ Settled d

/-- When a connection is over, whatever the server goes on to do: each call that was
being proxied on it gets and gives its client nothing more, it returns `Ok` only if it
had given all of the response, and once the upstream has ended it comes to rest. -/
theorem serve_severs (h : run serve Pool.start es = some s) (hi : s.workers[i]? = some conn)
    (ho : conn.Over) (hc : s.call? i j = some c) :
    run proxyRequest Call.start (callSteps i j es) = some c ∧
      ∀ more s', run serve s more = some s' → ∃ c', s'.call? i j = some c' ∧
        run (Call.step false) c (callSteps i j more) = some c' ∧ Severed s' i j c c' := by
  have hstart := run_call h hc
  refine ⟨hstart, fun more s' hmore => ?_⟩
  obtain ⟨conn₁, hi₁, hj⟩ := call?_eq_some.mp hc
  cases hi₁.symm.trans hi
  obtain ⟨conn', c', hi', hclosed, hj', hcall⟩ :=
    run_call_closed hmore hi (closed_of_over h hi ho) hj
  have hc' := call?_eq_some.mpr ⟨conn', hi', hj'⟩
  have hrun := run_call (run_append_eq_some.mpr ⟨s, h, hmore⟩) hc'
  have cut := run_cutOff hcall
  have settles : c'.download.ending ≠ none → ∀ (steps : List (Step H T)) (d : Call H T),
      run (Call.step false) c' steps = some d →
      (∀ l, Drains d l → d.step false l = none) → Settled d := by
    intro hend steps d hd hstuck
    have hd' := run_lift id id (fun _ _ _ hl => step_of_step hl) hd
    have hfull := run_append_eq_some.mpr ⟨c', hrun, hd'⟩
    exact settled_of_drained (run_callInv hfull) (run_begun hfull)
      (run_invariant (fun c : Call H T => c.download.ending ≠ none)
        (fun _ _ _ he hl => (ending_kept (step_of_step hl)).2 he) hend hd) hstuck
  refine ⟨c', hc', hcall, cut, fun lost hm => cut.given ▸ whole_given hrun hm,
    fun steps d hal hd => ?_, settles, fun hend => ?_⟩
  · have := run_length_le Call.toDrain drains_pays hal hd
    omega
  · obtain ⟨steps, d, -, hd, hstuck⟩ := exists_run_stuck Call.toDrain drains_pays c'
    obtain ⟨t, ht, hcd⟩ := run_callEvents hi' hj' (hclosed.symm ▸ hd)
    exact ⟨steps, t, d, ht, hcd, settles hend steps d hd hstuck⟩

/-- The connection fails while the upstream's answer is being written to its first request;
its second one was never resolved. -/
def severed : List (Event (ConnStep ℕ ℕ)) :=
  [.accept, .work 0 .advance, .work 0 .advance, .work 0 .accept, .work 0 .accept,
    .work 0 (.task 1 .resolveError), .work 0 (.task 0 .resolved)] ++
    ([.down .advance, .down .advance, .spawn, .up (.clientSend [0, 0, 0, 0, 1, 7]),
      .up (.recvData 6), .down (.respond 200), .down .advance, .down .advance, .down .advance,
      .down (.produce [0, 0, 0, 0, 1, 7]), .down (.produceEnd .clean), .down (.frame 4),
      .down (.sendData 2)].map (callEvent 0 0)) ++ [.work 0 .fail]

theorem serve_severs_severed : ∃ s c, run serve Pool.start severed = some s ∧
    s.call? 0 0 = some c ∧ c.download.produced = [0, 0, 0, 0, 1, 7] ∧
    ∃ steps s' d, run serve s steps = some s' ∧ s'.call? 0 0 = some d ∧ Settled d ∧
      d.download.given = [.head 200, .data [0, 0]] := by
  obtain ⟨s, conn, c, h, hi, ho, hc, hp, hg, hend⟩ : ∃ s conn c,
      run serve Pool.start severed = some s ∧ s.workers[0]? = some conn ∧ conn.Over ∧
      s.call? 0 0 = some c ∧ c.download.produced = [0, 0, 0, 0, 1, 7] ∧
      c.download.given = [.head 200, .data [0, 0]] ∧ c.download.ending ≠ none :=
    ⟨_, _, _, rfl, rfl, .inr ⟨_, rfl⟩, rfl, rfl, rfl, nofun⟩
  obtain ⟨-, hmore⟩ := serve_severs h hi ho hc
  obtain ⟨c', hc', -, hs⟩ := hmore [] s rfl
  cases hc'.symm.trans hc
  obtain ⟨steps, s', d, hr, hd, hsettled⟩ := hs.rests hend
  obtain ⟨d', hd', -, hs'⟩ := hmore _ s' hr
  cases hd'.symm.trans hd
  exact ⟨s, c, h, hc, hp, _, s', d, hr, hd, hsettled, hs'.cutOff.given.trans hg⟩

end ConstructTransport.Proxy
