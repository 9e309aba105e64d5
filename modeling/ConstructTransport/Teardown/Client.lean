import ConstructTransport.Basic.Interleaving
import Mathlib.Data.UInt

/-! The clients of a process and the gauge of their connections. A connect counts
its client in, once the handshake is through; a retirement, by `close` or by the
drop of the last reference, tears the client down and counts it out. Each
statement that touches shared state is a step of its own, and between any two a
connection may be lost and references taken and released. -/

namespace ConstructTransport.Teardown

open Interleaving

/-- What `close_reason` reports: the process closed the connection, or it was lost. -/
inductive CloseReason
  | locallyClosed
  | closedByPeer
  | timedOut
  | endpointFailed
  deriving DecidableEq, Repr

/-- What a retirement acts on. -/
structure Link where
  closeReason : Option CloseReason
  driverAborted : Bool
  endpointClosed : Bool
  retired : Bool
  deriving DecidableEq, Repr

namespace Link

/-- `conn.close`, which a connection that is closed ignores. -/
def close (l : Link) : Link := { l with closeReason := l.closeReason.or (some .locallyClosed) }

def abort (l : Link) : Link := { l with driverAborted := true }

/-- `close_endpoint`, which closes the endpoint's connection too. -/
def closeEndpoint (l : Link) : Link := { l.close with endpointClosed := true }

/-- `retired.swap(true)`, by what it leaves. -/
def swap (l : Link) : Link := { l with retired := true }

def lose (l : Link) (reason : CloseReason) : Link :=
  { l with closeReason := l.closeReason.or (some reason) }

end Link

/-- A `QuicClient`, the references to it, and whether its drop has begun. -/
structure Client where
  link : Link
  holders : ℕ
  dropped : Bool
  deriving DecidableEq, Repr

structure State where
  /-- `LIVE_CONNECTIONS`. -/
  gauge : ℕ
  clients : List Client
  deriving DecidableEq, Repr

namespace State

def start : State := ⟨0, []⟩

/-- `fetch_add(1)`, which wraps. -/
def fetchAdd (s : State) : State :=
  { s with gauge := if s.gauge + 1 = 2 ^ 64 then 0 else s.gauge + 1 }

/-- `fetch_sub(1)`, which wraps. -/
def fetchSub (s : State) : State :=
  { s with gauge := if s.gauge = 0 then 2 ^ 64 - 1 else s.gauge - 1 }

def modify (s : State) (i : ℕ) (f : Client → Client) : State :=
  { s with clients := s.clients.modify i f }

def modifyLink (s : State) (i : ℕ) (f : Link → Link) : State :=
  s.modify i fun c => { c with link := f c.link }

def link (s : State) (i : ℕ) : Option Link := s.clients[i]?.map Client.link

end State

def liveConnections (s : State) : ℕ := s.gauge % 2 ^ 32

/-- The statement of `retire` that is next. `won` is whether the swap found `false`. -/
inductive Stage
  | closing
  | aborting
  | closingEndpoint
  | swapping
  | decrementing
  | leaving (won : Bool)
  deriving DecidableEq, Repr

/-- A call that connects, or one that retires a client, for `close` or for `drop`. -/
inductive Call
  | idle
  | connecting
  | settingUp
  | counting
  | connected (client : ℕ)
  | failed
  | retiring (client : ℕ) (stage : Stage) (dropping : Bool)
  | done (client : ℕ) (won : Bool)
  deriving DecidableEq, Repr

/-- `retire` of a client with the link `l`, one statement. -/
def retire (s : State) (i : ℕ) (l : Link) (dropping : Bool) : Stage → State × Call
  | .closing => (s.modifyLink i .close, .retiring i .aborting dropping)
  | .aborting => (s.modifyLink i .abort, .retiring i .closingEndpoint dropping)
  | .closingEndpoint => (s.modifyLink i .closeEndpoint, .retiring i .swapping dropping)
  | .swapping =>
    (s.modifyLink i .swap,
      .retiring i (if l.retired then .leaving false else .decrementing) dropping)
  | .decrementing => (s.fetchSub, .retiring i (.leaving true) dropping)
  | .leaving won =>
    -- a caller of `close` held a reference meanwhile
    (if dropping then s else s.modify i fun c => { c with holders := c.holders - 1 },
      .done i won)

inductive Act
  | connect
  | proceed
  | fail
  /-- `handshake` counts its client; `lost` if the connection was meanwhile. -/
  | count (lost : Option CloseReason)
  | close (client : ℕ)
  | drop (client : ℕ)
  | next
  deriving DecidableEq, Repr

def act (s : State) : Call → Act → Option (State × Call)
  | .idle, .connect => some (s, .connecting)
  | .connecting, .proceed => some (s, .settingUp)
  | .settingUp, .proceed => some (s, .counting)
  | .connecting, .fail | .settingUp, .fail => some (s, .failed)
  | .counting, .count lost =>
    some ({ s.fetchAdd with clients := s.clients ++ [⟨⟨lost, false, false, false⟩, 1, false⟩] },
      .connected s.clients.length)
  | .idle, .close i =>
    match s.clients[i]? with
    | none => none
    | some c =>
      if 0 < c.holders then
        some (s.modify i fun c => { c with holders := c.holders + 1 }, .retiring i .closing false)
      else none
  | .idle, .drop i =>
    match s.clients[i]? with
    | none => none
    | some c =>
      if c.holders = 0 ∧ c.dropped = false then
        some (s.modify i fun c => { c with dropped := true }, .retiring i .closing true)
      else none
  | .retiring i stage dropping, .next =>
    (s.link i).map fun l => retire s i l dropping stage
  | _, _ => none

/-- What happens to clients while calls run. -/
inductive Event
  | clone (client : ℕ)
  | release (client : ℕ)
  | lost (client : ℕ) (reason : CloseReason)
  deriving DecidableEq, Repr

def State.handle (s : State) : Event → Option State
  | .clone i =>
    match s.clients[i]? with
    | none => none
    | some c =>
      if 0 < c.holders then some (s.modify i fun c => { c with holders := c.holders + 1 }) else none
  | .release i =>
    match s.clients[i]? with
    | none => none
    | some c =>
      if 0 < c.holders then some (s.modify i fun c => { c with holders := c.holders - 1 }) else none
  | .lost i reason =>
    match s.link i with
    | none => none
    | some l => if l.closeReason = none then some (s.modifyLink i (.lose · reason)) else none

def process : System State Call Event Act where
  env := State.handle
  act := act
  fresh := .idle

end ConstructTransport.Teardown
