import ConstructTransport.Dial.Plan

/-! Connecting: resolve the name, then dial the candidates in turn until a QUIC
handshake and the HTTP/3 setup behind it succeed. What the network does is
given beforehand; a step under a timeout is done in time or takes the whole of
its budget. Each function returns its result and the events in order, the time
spent on an await among them. -/

namespace ConstructTransport.Dial

open Checked Datagram

/-- What is observed while dialing. -/
inductive DialEvent
  | awaited (d : Duration)
  | bound (addr : SocketAddr)
  | closed (addr : SocketAddr)
  /-- The driver is spawned and the gauge of live connections raised. -/
  | counted (addr : SocketAddr)
  deriving DecidableEq, Repr

variable {ε : Type}

/-- What one attempt meets: the socket, the start of the connection, the QUIC
handshake, `none` if it is not done within the slice, and the HTTP/3 setup. -/
structure Attempt (ε : Type) where
  bind : Except ε Unit
  start : Except ε Unit
  quic : Option (Except ε Unit)
  setup : Except ε Unit
  setupTime : Duration

/-- What a whole call meets. -/
structure Network (ε : Type) where
  /-- The TLS configuration from the pinned certificate. -/
  config : Except ε Unit
  lookup : Option (Except ε (List SocketAddr))
  attempt : ℕ → Attempt ε

/-- How long the steps under a timeout take that are done in time. -/
structure Pace where
  lookup : Duration
  quic : ℕ → Duration

/-- `tokio::time::timeout`: the answer, if it comes in time, and the time it takes. -/
def timeout {α : Type} (budget pace : Duration) (answer : Option α) : Option α × Duration :=
  match answer with
  | none => (none, budget)
  | some a => (some a, min pace budget)

/-- An entry of `failures`. -/
inductive Failure (ε : Type)
  /-- "`addr`: bind client endpoint", or "bind obfuscated client endpoint" -/
  | bindEndpoint (addr : SocketAddr) (source : ε)
  /-- "start connect" -/
  | startConnect (source : ε)
  /-- "QUIC handshake timed out to `addr`" -/
  | handshakeTimedOut (addr : SocketAddr)
  /-- "QUIC handshake failed to `addr`" -/
  | handshakeFailed (addr : SocketAddr) (source : ε)
  /-- The HTTP/3 error, without a context. -/
  | setup (source : ε)
  deriving DecidableEq, Repr

/-- The errors of `connect`. -/
inductive ConnectError (ε : Type)
  | config (source : ε)
  /-- "DNS timed out for" the name -/
  | dnsTimedOut
  /-- "resolve" the name -/
  | resolve (source : ε)
  /-- "no address for" the name -/
  | noAddress
  /-- "QUIC handshake failed" with the failures, or "no address" if there are none -/
  | handshakesFailed (failures : List (Failure ε))
  deriving DecidableEq, Repr

structure QuicClient where
  addr : SocketAddr
  recipe : SocketRecipe
  deriving DecidableEq, Repr

def resolveAll (net : Network ε) (pace : Pace) :
    Except (ConnectError ε) (List SocketAddr) × List DialEvent :=
  let (answer, d) := timeout resolveTimeout pace.lookup net.lookup
  match answer with
  | none => (.error .dnsTimedOut, [.awaited d])
  | some (.error e) => (.error (.resolve e), [.awaited d])
  | some (.ok found) =>
    match dialCandidates found with
    | [] => (.error .noAddress, [.awaited d])
    | candidates => (.ok candidates, [.awaited d])

/-- `handshake` on an endpoint bound by `recipe`. -/
def handshake (recipe : SocketRecipe) (addr : SocketAddr) (budget pace : Duration) (a : Attempt ε) :
    Except (Failure ε) QuicClient × List DialEvent :=
  match a.start with
  | .error e => (.error (.startConnect e), [.closed addr])
  | .ok () =>
    let (answer, d) := timeout budget pace a.quic
    match answer with
    | none => (.error (.handshakeTimedOut addr), [.awaited d, .closed addr])
    | some (.error e) => (.error (.handshakeFailed addr e), [.awaited d, .closed addr])
    | some (.ok ()) =>
      -- the HTTP/3 setup is awaited without a timeout
      match a.setup with
      | .error e => (.error (.setup e), [.awaited d, .awaited a.setupTime, .closed addr])
      | .ok () => (.ok ⟨addr, recipe⟩, [.awaited d, .awaited a.setupTime, .counted addr])

/-- The loop of `dial`, at its attempt `i`. -/
def dialLoop (obf : Option Salamander) (budget : Duration) (net : Network ε) (pace : Pace) :
    List SocketAddr → ℕ → List (Failure ε) →
      Except (ConnectError ε) QuicClient × List DialEvent
  | [], _, failures => (.error (.handshakesFailed failures), [])
  | addr :: rest, i, failures =>
    let recipe : SocketRecipe := ⟨bindAddrFor addr, obf⟩
    match (net.attempt i).bind with
    | .error e => dialLoop obf budget net pace rest (i + 1) (failures ++ [.bindEndpoint addr e])
    | .ok () =>
      let (r, events) := handshake recipe addr budget (pace.quic i) (net.attempt i)
      match r with
      | .ok client => (.ok client, .bound addr :: events)
      | .error e =>
        let (r, later) := dialLoop obf budget net pace rest (i + 1) (failures ++ [e])
        (r, .bound addr :: (events ++ later))

def dial (obf : Option Salamander) (net : Network ε) (pace : Pace) (candidates : List SocketAddr) :
    Except Panic (Except (ConnectError ε) QuicClient × List DialEvent) := do
  let (n, budget) ← dialPlan candidates.length
  return dialLoop obf budget net pace (candidates.take n) 0 []

/-- `connect` and `connect_obfuscated`, which differ in the TLS configuration and the socket. -/
def connectWith (obf : Option Salamander) (net : Network ε) (pace : Pace) :
    Except Panic (Except (ConnectError ε) QuicClient × List DialEvent) :=
  match net.config with
  | .error e => return (.error (.config e), [])
  | .ok () =>
    match resolveAll net pace with
    | (.error e, events) => return (.error e, events)
    | (.ok candidates, events) => do
      let (r, later) ← dial obf net pace candidates
      return (r, events ++ later)

def connect (net : Network ε) (pace : Pace) :
    Except Panic (Except (ConnectError ε) QuicClient × List DialEvent) := connectWith none net pace

def connectObfuscated (psk : List UInt8) (net : Network ε) (pace : Pace) :
    Except Panic (Except (ConnectError ε) QuicClient × List DialEvent) :=
  connectWith (some ⟨psk⟩) net pace

end ConstructTransport.Dial
