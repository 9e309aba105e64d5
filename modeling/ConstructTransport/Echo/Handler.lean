import ConstructTransport.Basic.Interleaving
import ConstructTransport.Proxy.Download

/-! One connection of the echo server (`echo_server.rs`). Its handler takes the
requests one after the other: it answers with the response head before it reads,
sends every chunk back as it comes, and ends with trailers once the client has
half-closed. An await that fails ends the whole connection, except the last of a
request, whose result is ignored. -/

namespace ConstructTransport.Echo

open Runs Interleaving Proxy

structure Head where
  status : ℕ
  headers : List (String × String)
  deriving DecidableEq, Repr

abbrev Trailers := List (String × String)

/-- The head of every response. -/
def okHead : Head := ⟨200, [("content-type", "application/grpc+proto")]⟩

def okTrailers : Trailers := [("grpc-status", "0")]

/-- One request of the connection. -/
structure Request where
  /-- What the client sent, and what of it `recv_data` has not returned. -/
  sent : List UInt8
  unread : List UInt8
  ending : Option Ending
  down : List (Down Head Trailers)
  deriving DecidableEq, Repr

def Request.start : Request := ⟨[], [], none, []⟩

/-- The awaits of `handle_conn` whose error it returns. -/
inductive EchoError
  | connect
  | setup
  | accept
  | resolve
  | sendResponse
  | recvData
  | sendData
  | sendTrailers
  deriving DecidableEq, Repr

/-- The await `handle_conn` is at. A return keeps what was not sent of a chunk. -/
inductive Handler
  | connecting
  | settingUp
  | accepting
  | resolving
  | responding
  | receiving
  | sending (rest : List UInt8)
  | trailing
  | finishing
  | returned (lost : List UInt8) (result : Except EchoError Unit)

namespace Handler

def held : Handler → List UInt8
  | sending rest => rest
  | returned lost _ => lost
  | _ => []

def error : Handler → Option EchoError
  | connecting => some .connect
  | settingUp => some .setup
  | accepting => some .accept
  | resolving => some .resolve
  | responding => some .sendResponse
  | receiving => some .recvData
  | sending _ => some .sendData
  | trailing => some .sendTrailers
  | finishing | returned _ _ => none

def busy : Handler → Bool
  | resolving | responding | receiving | sending _ | trailing | finishing => true
  | connecting | settingUp | accepting | returned _ _ => false

end Handler

structure Conn where
  /-- In the order in which they are accepted. -/
  requests : List Request
  /-- How many are behind the handler; the one at hand is the next. -/
  served : ℕ
  handler : Handler

def Conn.start : Conn := ⟨[], 0, .connecting⟩

inductive Step
  | request
  | clientSend (i : ℕ) (bytes : List UInt8)
  | clientEnd (i : ℕ) (how : Ending)
  | advance
  | acceptNone
  | recvData (n : ℕ)
  | recvNone
  | sendData (n : ℕ)
  | fail
  deriving DecidableEq, Repr

namespace Conn

def onRequest (c : Conn) (f : Request → Request) : Conn :=
  { c with requests := c.requests.modify c.served f }

def give (c : Conn) (d : Down Head Trailers) : Conn :=
  c.onRequest fun r => { r with down := r.down ++ [d] }

def advance (c : Conn) : Option Conn :=
  match c.handler with
  | .connecting => some { c with handler := .settingUp }
  | .settingUp => some { c with handler := .accepting }
  | .accepting =>
    if c.served < c.requests.length then some { c with handler := .resolving } else none
  | .resolving => some { c with handler := .responding }
  | .responding => some { c.give (.head okHead) with handler := .receiving }
  | .sending [] => some { c with handler := .receiving }
  | .trailing => some { c.give (.trailers okTrailers) with handler := .finishing }
  | .finishing => some { c.give .finish with handler := .accepting, served := c.served + 1 }
  | _ => none

def fail (c : Conn) : Option Conn :=
  match c.handler with
  | .finishing => some { c.give .dropped with handler := .accepting, served := c.served + 1 }
  | h =>
    match h.error with
    | none => none
    | some e =>
      let c := if h.busy then c.give .dropped else c
      some { c with handler := .returned h.held (.error e) }

def step (c : Conn) : Step → Option Conn
  | .request => some { c with requests := c.requests ++ [Request.start] }
  | .clientSend i bytes =>
    match c.requests[i]? with
    | none => none
    | some r =>
      if r.ending = none then
        let r := { r with sent := r.sent ++ bytes, unread := r.unread ++ bytes }
        some { c with requests := c.requests.set i r }
      else none
  | .clientEnd i how =>
    match c.requests[i]? with
    | none => none
    | some r =>
      if r.ending = none then
        some { c with requests := c.requests.set i { r with ending := some how } }
      else none
  | .advance => c.advance
  | .acceptNone =>
    match c.handler with
    | .accepting => some { c with handler := .returned [] (.ok ()) }
    | _ => none
  | .recvData n =>
    match c.handler, c.requests[c.served]? with
    | .receiving, some r =>
      if n ≤ r.unread.length then
        some { c.onRequest fun r => { r with unread := r.unread.drop n } with
          handler := .sending (r.unread.take n) }
      else none
    | _, _ => none
  | .recvNone =>
    match c.handler, c.requests[c.served]? with
    | .receiving, some r =>
      if r.unread = [] ∧ r.ending = some .clean then some { c with handler := .trailing } else none
    | _, _ => none
  | .sendData n =>
    match c.handler with
    | .sending rest =>
      if n ≤ rest.length then
        some { c.give (.data (rest.take n)) with handler := .sending (rest.drop n) }
      else none
    | _ => none
  | .fail => c.fail

end Conn

/-! ### What a step can do -/

def Request.give (r : Request) (d : Down Head Trailers) : Request :=
  { r with down := r.down ++ [d] }

/-- What the client of an open request can do. -/
inductive Request.Grows (r : Request) : Request → Prop
  | send (bytes : List UInt8) :
    r.Grows { r with sent := r.sent ++ bytes, unread := r.unread ++ bytes }
  | close (how : Ending) : r.Grows { r with ending := some how }

/-- The handler between requests. -/
inductive Handler.Waits : Handler → Handler → Prop
  | connected : Waits .connecting .settingUp
  | setUp : Waits .settingUp .accepting
  | closed : Waits .accepting (.returned [] (.ok ()))
  | failed {h : Handler} {e : EchoError} (idle : h.busy = false) (error : h.error = some e) :
    Waits h (.returned [] (.error e))

/-- The handler with a request at hand, and that request. -/
inductive Handler.Turn (r : Request) : Handler → Handler → Request → Prop
  | resolved : Turn r .resolving .responding r
  | responded : Turn r .responding .receiving (r.give (.head okHead))
  | recvData {n : ℕ} (le : n ≤ r.unread.length) :
    Turn r .receiving (.sending (r.unread.take n)) { r with unread := r.unread.drop n }
  | recvNone (unread : r.unread = []) (ending : r.ending = some .clean) :
    Turn r .receiving .trailing r
  | sendData {n : ℕ} {rest : List UInt8} (le : n ≤ rest.length) :
    Turn r (.sending rest) (.sending (rest.drop n)) (r.give (.data (rest.take n)))
  | sent : Turn r (.sending []) .receiving r
  | trailed : Turn r .trailing .finishing (r.give (.trailers okTrailers))
  | failed {h : Handler} {e : EchoError} (busy : h.busy = true) (error : h.error = some e) :
    Turn r h (.returned h.held (.error e)) (r.give .dropped)

/-- The end of a request that was finished, or dropped when that failed. -/
inductive IsEnd : Down Head Trailers → Prop
  | finish : IsEnd .finish
  | dropped : IsEnd .dropped

/-- Who takes a step. -/
inductive Side
  | client
  | handler
  deriving DecidableEq, Repr

def Step.side : Step → Side
  | request | clientSend _ _ | clientEnd _ _ => .client
  | _ => .handler

/-- What a step can do, by what it does to the requests. -/
inductive Conn.Takes (c : Conn) : Side → Conn → Prop
  | request : c.Takes .client { c with requests := c.requests ++ [Request.start] }
  | client {i : ℕ} {r r' : Request} (at' : c.requests[i]? = some r) (ending : r.ending = none)
      (grows : r.Grows r') : c.Takes .client { c with requests := c.requests.set i r' }
  | waits {h : Handler} (waits : c.handler.Waits h) : c.Takes .handler { c with handler := h }
  | accept (handler : c.handler = .accepting) (lt : c.served < c.requests.length) :
    c.Takes .handler { c with handler := .resolving }
  | turn {r r' : Request} {h : Handler} (at' : c.requests[c.served]? = some r)
      (turn : c.handler.Turn r h r') :
    c.Takes .handler ⟨c.requests.set c.served r', c.served, h⟩
  | done {r : Request} {d : Down Head Trailers} (at' : c.requests[c.served]? = some r)
      (handler : c.handler = .finishing) (isEnd : IsEnd d) :
    c.Takes .handler ⟨c.requests.set c.served (r.give d), c.served + 1, .accepting⟩

namespace Conn

variable {c c' : Conn} {r : Request}

theorem onRequest_eq (h : c.requests[c.served]? = some r) (f : Request → Request) :
    c.onRequest f = { c with requests := c.requests.set c.served (f r) } := by
  have hm : c.requests.modify c.served f = c.requests.set c.served (f r) := by
    rw [List.modify_eq_set_getElem?, h]
    rfl
  rw [onRequest, hm]

theorem give_eq (h : c.requests[c.served]? = some r) (d : Down Head Trailers) :
    c.give d = { c with requests := c.requests.set c.served (r.give d) } := onRequest_eq h _

theorem takes_turn (h : c.requests[c.served]? = some r) {h' : Handler}
    (turn : c.handler.Turn r h' r) : c.Takes .handler { c with handler := h' } := by
  have hself : c.requests.set c.served r = c.requests := by
    obtain ⟨hi, rfl⟩ := List.getElem?_eq_some_iff.mp h
    exact List.set_getElem_self hi
  have := Takes.turn h turn
  rwa [hself] at this

theorem advance_takes (hb : c.handler.busy = true → ∃ r, c.requests[c.served]? = some r)
    (h : c.advance = some c') : c.Takes .handler c' := by
  unfold advance at h
  split at h
  case h_1 hh => cases h; exact .waits (hh ▸ .connected)
  case h_2 hh => cases h; exact .waits (hh ▸ .setUp)
  case h_3 hh =>
    obtain ⟨hlt, he⟩ := Option.ite_none_right_eq_some.mp h
    cases he
    exact .accept hh hlt
  case h_4 hh =>
    obtain ⟨r, hr⟩ := hb (hh ▸ rfl)
    cases h
    exact takes_turn hr (hh ▸ .resolved)
  case h_5 hh =>
    obtain ⟨r, hr⟩ := hb (hh ▸ rfl)
    cases h
    rw [give_eq hr]
    exact .turn hr (hh ▸ .responded)
  case h_6 hh =>
    obtain ⟨r, hr⟩ := hb (hh ▸ rfl)
    cases h
    exact takes_turn hr (hh ▸ .sent)
  case h_7 hh =>
    obtain ⟨r, hr⟩ := hb (hh ▸ rfl)
    cases h
    rw [give_eq hr]
    exact .turn hr (hh ▸ .trailed)
  case h_8 hh =>
    obtain ⟨r, hr⟩ := hb (hh ▸ rfl)
    cases h
    rw [give_eq hr]
    exact .done hr hh .finish
  case h_9 => cases h

theorem fail_takes (hb : c.handler.busy = true → ∃ r, c.requests[c.served]? = some r)
    (h : c.fail = some c') : c.Takes .handler c' := by
  unfold fail at h
  split at h
  case h_1 hh =>
    obtain ⟨r, hr⟩ := hb (hh ▸ rfl)
    cases h
    rw [give_eq hr]
    exact .done hr hh .dropped
  case h_2 hne =>
    cases he : c.handler.error with
    | none => simp [he] at h
    | some e =>
      simp only [he, Option.some.injEq] at h
      cases hbusy : c.handler.busy with
      | true =>
        obtain ⟨r, hr⟩ := hb hbusy
        rw [hbusy, if_pos rfl, give_eq hr] at h
        subst h
        exact .turn hr (.failed hbusy he)
      | false =>
        have hheld : c.handler.held = [] := by
          cases hh : c.handler <;> simp_all [Handler.busy, Handler.error, Handler.held]
        rw [hbusy, hheld] at h
        subst h
        exact .waits (.failed hbusy he)

theorem takes_of_step (hb : c.handler.busy = true → ∃ r, c.requests[c.served]? = some r)
    {l : Step} (h : c.step l = some c') : c.Takes l.side c' := by
  cases l with
  | request => cases h; exact .request
  | clientSend i bytes =>
    simp only [step] at h
    split at h
    · contradiction
    · next hr =>
      obtain ⟨he, hs⟩ := Option.ite_none_right_eq_some.mp h
      cases hs
      exact .client hr he (.send bytes)
  | clientEnd i how =>
    simp only [step] at h
    split at h
    · contradiction
    · next hr =>
      obtain ⟨he, hs⟩ := Option.ite_none_right_eq_some.mp h
      cases hs
      exact .client hr he (.close how)
  | advance => exact advance_takes hb h
  | acceptNone =>
    simp only [step] at h
    split at h
    · next hh => cases h; exact .waits (hh ▸ .closed)
    · contradiction
  | recvData n =>
    simp only [step] at h
    split at h
    · next hh hr =>
      obtain ⟨hle, hs⟩ := Option.ite_none_right_eq_some.mp h
      cases hs
      rw [onRequest_eq hr]
      exact .turn hr (hh ▸ .recvData hle)
    · contradiction
  | recvNone =>
    simp only [step] at h
    split at h
    · next hh hr =>
      obtain ⟨⟨hu, he⟩, hs⟩ := Option.ite_none_right_eq_some.mp h
      cases hs
      exact takes_turn hr (hh ▸ .recvNone hu he)
    · contradiction
  | sendData n =>
    simp only [step] at h
    split at h
    · next hh =>
      obtain ⟨r, hr⟩ := hb (hh ▸ rfl)
      obtain ⟨hle, hs⟩ := Option.ite_none_right_eq_some.mp h
      cases hs
      rw [give_eq hr]
      exact .turn hr (hh ▸ .sendData hle)
    · contradiction
  | fail => exact fail_takes hb h

end Conn

/-! ### What the requests are given -/

/-- Nothing read and nothing sent. -/
def Request.Untouched (r : Request) : Prop := r.down = [] ∧ r.unread = r.sent

/-- Half-closed by the client and read to the end. -/
def Request.Over (r : Request) : Prop := r.unread = [] ∧ r.ending = some .clean

/-- Given the head, then all that was read but what is held, then the tail. -/
def Request.Echoing (r : Request) (held : List UInt8) (tail : List (Down Head Trailers)) : Prop :=
  ∃ chunks : List (List UInt8), r.down = .head okHead :: (chunks.map .data ++ tail) ∧
    chunks.flatten ++ held ++ r.unread = r.sent

/-- Echoed to the end, with the trailers. -/
def Request.Done (r : Request) : Prop :=
  ∃ d, IsEnd d ∧ r.Echoing [] [.trailers okTrailers, d] ∧ r.Over

/-- The request at hand, by the await that failed. -/
def EchoError.Leaves (r : Request) (lost : List UInt8) : EchoError → Prop
  | connect | setup | accept => r.Untouched
  | resolve | sendResponse => r.down = [.dropped] ∧ r.unread = r.sent
  | recvData => r.Echoing [] [.dropped]
  | sendData => r.Echoing lost [.dropped]
  | sendTrailers => r.Echoing [] [.dropped] ∧ r.Over

/-- The request at hand, by the await the handler is at. -/
def Handler.Holds (r : Request) : Handler → Prop
  | connecting | settingUp | accepting | resolving | responding | returned _ (.ok _) => r.Untouched
  | receiving => r.Echoing [] []
  | sending rest => r.Echoing rest []
  | trailing => r.Echoing [] [] ∧ r.Over
  | finishing => r.Echoing [] [.trailers okTrailers] ∧ r.Over
  | returned lost (.error e) => e.Leaves r lost

namespace Request

variable {r r' : Request} {held : List UInt8} {tail : List (Down Head Trailers)}

theorem Untouched.grows (h : r.Untouched) (hg : r.Grows r') : r'.Untouched := by
  cases hg with
  | send bytes => exact ⟨h.1, congrArg (· ++ bytes) h.2⟩
  | close how => exact h

theorem Echoing.grows (h : r.Echoing held tail) (hg : r.Grows r') : r'.Echoing held tail := by
  obtain ⟨chunks, hd, hs⟩ := h
  cases hg with
  | send bytes =>
    refine ⟨chunks, hd, ?_⟩
    rw [← hs]
    simp only [List.append_assoc]
  | close how => exact ⟨chunks, hd, hs⟩

theorem Over.not_open (h : r.Over) : r.ending ≠ none := by
  rw [h.2]
  exact nofun

theorem Done.not_open (h : r.Done) : r.ending ≠ none := by
  obtain ⟨-, -, -, ho⟩ := h
  exact ho.not_open

theorem Echoing.give (h : r.Echoing held tail) (d : Down Head Trailers) :
    (r.give d).Echoing held (tail ++ [d]) := by
  obtain ⟨chunks, hd, hs⟩ := h
  refine ⟨chunks, ?_, hs⟩
  rw [Request.give, hd]
  simp

theorem Untouched.head (h : r.Untouched) : (r.give (.head okHead)).Echoing [] [] := by
  refine ⟨[], ?_, h.2⟩
  rw [Request.give, h.1]
  rfl

theorem Echoing.recvData (h : r.Echoing [] []) (n : ℕ) :
    ({ r with unread := r.unread.drop n } : Request).Echoing (r.unread.take n) [] := by
  obtain ⟨chunks, hd, hs⟩ := h
  refine ⟨chunks, hd, ?_⟩
  rw [List.append_nil] at hs
  rw [List.append_assoc, List.take_append_drop, hs]

theorem Echoing.sendData {rest : List UInt8} (h : r.Echoing rest []) (n : ℕ) :
    (r.give (.data (rest.take n))).Echoing (rest.drop n) [] := by
  obtain ⟨chunks, hd, hs⟩ := h
  refine ⟨chunks ++ [rest.take n], ?_, ?_⟩
  · rw [Request.give, hd]
    simp
  · refine Eq.trans ?_ hs
    simp [Request.give]

end Request

namespace Handler

variable {h h' : Handler} {r r' : Request}

theorem Holds.grows (hr : h.Holds r) (ho : r.ending = none) (hg : r.Grows r') : h.Holds r' := by
  rcases h with _ | _ | _ | _ | _ | _ | rest | _ | _ | ⟨lost, _ | _⟩
  case receiving | sending => exact Request.Echoing.grows hr hg
  case trailing | finishing => exact absurd ho hr.2.not_open
  case returned.error e =>
    cases e with
    | connect | setup | accept => exact Request.Untouched.grows hr hg
    | resolve | sendResponse =>
      cases hg with
      | send bytes => exact ⟨hr.1, congrArg (· ++ bytes) hr.2⟩
      | close how => exact hr
    | recvData | sendData => exact Request.Echoing.grows hr hg
    | sendTrailers => exact absurd ho hr.2.not_open
  all_goals exact Request.Untouched.grows hr hg

theorem Waits.not_busy (hw : h.Waits h') : h'.busy = false := by
  cases hw <;> rfl

theorem Waits.holds (hw : h.Waits h') (hr : h.Holds r) : h'.Holds r := by
  cases hw with
  | connected | setUp | closed => exact hr
  | failed idle error =>
    cases h with
    | connecting | settingUp | accepting => cases error; exact hr
    | finishing | returned => cases error
    | _ => cases idle

theorem Turn.leaves (ht : h.Turn r h' r') :
    r'.sent = r.sent ∧ r'.ending = r.ending ∧ r.down <+: r'.down := by
  cases ht with
  | resolved | recvData | recvNone | sent => exact ⟨rfl, rfl, List.prefix_rfl⟩
  | responded | sendData | trailed | failed => exact ⟨rfl, rfl, List.prefix_append _ _⟩

theorem Turn.holds (ht : h.Turn r h' r') (hr : h.Holds r) : h'.Holds r' := by
  cases ht with
  | resolved => exact hr
  | responded => exact Request.Untouched.head hr
  | recvData => exact Request.Echoing.recvData hr _
  | recvNone unread ending => exact ⟨hr, unread, ending⟩
  | sendData => exact Request.Echoing.sendData hr _
  | sent => exact hr
  | trailed => exact ⟨hr.1.give _, hr.2⟩
  | failed busy error =>
    cases h with
    | resolving | responding =>
      cases error
      refine ⟨?_, hr.2⟩
      rw [Request.give, hr.1]
      rfl
    | receiving | sending => cases error; exact Request.Echoing.give hr _
    | trailing => cases error; exact ⟨hr.1.give _, hr.2⟩
    | finishing => cases error
    | _ => cases busy

end Handler

/-! ### Runs -/

namespace Conn

structure Inv (c : Conn) : Prop where
  le : c.served ≤ c.requests.length
  busy : c.handler.busy = true → c.served < c.requests.length
  past : ∀ (i : ℕ) (r : Request), i < c.served → c.requests[i]? = some r → r.Done
  present : ∀ r : Request, c.requests[c.served]? = some r → c.handler.Holds r
  /-- Where there is no request at hand yet, the next one will do. -/
  next : c.served = c.requests.length → c.handler.Holds Request.start
  future : ∀ (i : ℕ) (r : Request), c.served < i → c.requests[i]? = some r → r.Untouched

variable {c c' : Conn}

theorem start_inv : Conn.start.Inv where
  le := le_rfl
  busy := nofun
  past := nofun
  present := nofun
  next _ := ⟨rfl, rfl⟩
  future := nofun

theorem Inv.set {r r' : Request} {h : Handler} (hi : c.Inv)
    (hr : c.requests[c.served]? = some r) (hh : h.Holds r') :
    (⟨c.requests.set c.served r', c.served, h⟩ : Conn).Inv := by
  have hlt : c.served < c.requests.length := (List.getElem?_eq_some_iff.mp hr).1
  refine ⟨?_, fun _ => ?_, fun i q hlt hq => ?_, fun q hq => ?_, fun he => ?_, fun i q hlt hq => ?_⟩
  · rw [List.length_set]
    exact hi.le
  · rw [List.length_set]
    exact hlt
  · rw [List.getElem?_set_ne (Nat.ne_of_gt hlt)] at hq
    exact hi.past i q hlt hq
  · rw [getElem?_set_of_some hr] at hq
    cases hq
    exact hh
  · rw [List.length_set] at he
    exact absurd he hlt.ne
  · rw [List.getElem?_set_ne (Nat.ne_of_lt hlt)] at hq
    exact hi.future i q hlt hq

theorem step_inv {l : Step} (hi : c.Inv) (h : c.step l = some c') : c'.Inv := by
  have at_hand : c.handler.busy = true → ∃ r, c.requests[c.served]? = some r :=
    fun hb => ⟨_, List.getElem?_eq_getElem (hi.busy hb)⟩
  have ht := takes_of_step at_hand h
  generalize l.side = side at ht
  cases ht with
  | request =>
    refine ⟨?_, fun hb => ?_, fun i r hlt hr => ?_, fun r hr => ?_, fun he => ?_,
      fun i r hlt hr => ?_⟩
    · rw [List.length_append]
      exact hi.le.trans (Nat.le_add_right _ _)
    · rw [List.length_append]
      exact (hi.busy hb).trans_le (Nat.le_add_right _ _)
    · rcases getElem?_concat_cases hr with hr | ⟨rfl, -⟩
      · exact hi.past i r hlt hr
      · exact absurd hi.le hlt.not_ge
    · rcases getElem?_concat_cases hr with hr | ⟨he, rfl⟩
      · exact hi.present r hr
      · exact hi.next he
    · rw [List.length_append, List.length_singleton] at he
      exact absurd hi.le (by rw [show c.served = _ from he]; omega)
    · rcases getElem?_concat_cases hr with hr | ⟨-, rfl⟩
      · exact hi.future i r hlt hr
      · exact ⟨rfl, rfl⟩
  | @client k q q' hq ho hg =>
    refine ⟨?_, fun hb => ?_, fun i r hlt hr => ?_, fun r hr => ?_, fun he => ?_,
      fun i r hlt hr => ?_⟩
    · rw [List.length_set]
      exact hi.le
    · rw [List.length_set]
      exact hi.busy hb
    · rcases getElem?_set_cases hr with ⟨rfl, rfl⟩ | ⟨-, hr⟩
      · exact absurd ho (hi.past i q hlt hq).not_open
      · exact hi.past i r hlt hr
    · rcases getElem?_set_cases hr with ⟨hk, rfl⟩ | ⟨-, hr⟩
      · exact (hi.present q (hk ▸ hq)).grows ho hg
      · exact hi.present r hr
    · rw [List.length_set] at he
      exact hi.next he
    · rcases getElem?_set_cases hr with ⟨rfl, rfl⟩ | ⟨-, hr⟩
      · exact (hi.future i q hlt hq).grows hg
      · exact hi.future i r hlt hr
  | waits hw =>
    exact ⟨hi.le, fun hb => absurd hw.not_busy (hb ▸ nofun), hi.past,
      fun r hr => hw.holds (hi.present r hr), fun he => hw.holds (hi.next he), hi.future⟩
  | accept hh hlt =>
    refine ⟨hi.le, fun _ => hlt, hi.past, fun r hr => ?_, fun he => absurd he hlt.ne, hi.future⟩
    have := hi.present r hr
    rwa [hh] at this
  | turn hr ht => exact hi.set hr (ht.holds (hi.present _ hr))
  | @done r d hr hh hd =>
    have hfin := hi.present r hr
    rw [hh] at hfin
    have hlt : c.served < c.requests.length := (List.getElem?_eq_some_iff.mp hr).1
    have hfuture : ∀ (i : ℕ) (q : Request), c.served < i →
        (c.requests.set c.served (r.give d))[i]? = some q → q.Untouched := by
      intro i q hlt hq
      rw [List.getElem?_set_ne (Nat.ne_of_lt hlt)] at hq
      exact hi.future i q hlt hq
    refine ⟨?_, nofun, fun i q hi' hq => ?_, fun q hq => hfuture _ q c.served.lt_succ_self hq,
      fun _ => ⟨rfl, rfl⟩, fun i q hi' hq => hfuture i q (Nat.lt_of_succ_lt hi') hq⟩
    · rw [List.length_set]
      exact hlt
    · rcases getElem?_set_cases hq with ⟨rfl, rfl⟩ | ⟨hne, hq⟩
      · exact ⟨d, hd, hfin.1.give d, hfin.2⟩
      · exact hi.past i q (Nat.lt_of_le_of_ne (Nat.le_of_lt_succ hi') hne) hq

/-- The handler leaves what the clients did, and only adds to what they are given. -/
theorem handler_leaves {l : Step} (hi : c.Inv) (hl : l.side = .handler) (h : c.step l = some c')
    {i : ℕ} {r : Request} (hr : c.requests[i]? = some r) : ∃ r', c'.requests[i]? = some r' ∧
      r'.sent = r.sent ∧ r'.ending = r.ending ∧ r.down <+: r'.down := by
  have ht := takes_of_step (fun hb => ⟨_, List.getElem?_eq_getElem (hi.busy hb)⟩) h
  rw [hl] at ht
  have changed : ∀ q q' : Request, c.requests[c.served]? = some q → q'.sent = q.sent →
      q'.ending = q.ending → q.down <+: q'.down → ∃ r', (c.requests.set c.served q')[i]? = some r' ∧
        r'.sent = r.sent ∧ r'.ending = r.ending ∧ r.down <+: r'.down := by
    intro q q' hq hs he hd
    by_cases hik : i = c.served
    · rw [hik] at hr
      cases hr.symm.trans hq
      exact ⟨q', by rw [hik, getElem?_set_of_some hq], hs, he, hd⟩
    · exact ⟨r, by rw [List.getElem?_set_ne (Ne.symm hik), hr], rfl, rfl, List.prefix_rfl⟩
  cases ht with
  | waits | accept => exact ⟨r, hr, rfl, rfl, List.prefix_rfl⟩
  | turn hq turn =>
    obtain ⟨hs, he, hd⟩ := turn.leaves
    exact changed _ _ hq hs he hd
  | done hq => exact changed _ _ hq rfl rfl (List.prefix_append _ _)

theorem handler_length {l : Step} (hi : c.Inv) (hl : l.side = .handler) (h : c.step l = some c') :
    c'.requests.length = c.requests.length := by
  have ht := takes_of_step (fun hb => ⟨_, List.getElem?_eq_getElem (hi.busy hb)⟩) h
  rw [hl] at ht
  cases ht with
  | waits | accept => rfl
  | turn | done => exact List.length_set

theorem run_inv {steps : List Step} (h : run Conn.step Conn.start steps = some c) : c.Inv :=
  run_invariant Inv (fun _ _ _ => step_inv) start_inv h

end Conn

end ConstructTransport.Echo
