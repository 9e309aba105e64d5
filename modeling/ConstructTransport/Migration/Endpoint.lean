import ConstructTransport.Dial.Plan

/-! The endpoint a connection runs on, as far as a migration sees it. The stack
polls the current socket and, for a while, the one before it. A datagram read
from either may be routed to the connection, which takes the routed ones up in
order and counts them; each socket counts all it hands over, whoever sent it. -/

namespace ConstructTransport.Migration

open Datagram Dial

/-- A socket of the client. `attributed` counts what was routed to the connection. -/
structure Socket where
  addr : SocketAddr
  obf : Option Salamander
  received : ℕ
  attributed : ℕ
  deriving DecidableEq, Repr

/-- `client_socket`. For port zero the system picks the port. -/
def clientSocket (bind : SocketAddr) (obf : Option Salamander) (port : UInt16) : Socket :=
  ⟨⟨bind.ip, if bind.port = 0 then port else bind.port⟩, obf, 0, 0⟩

/-- The count of a socket; zero for one not yet bound. -/
def countOf (f : Socket → ℕ) (sockets : List Socket) (k : ℕ) : ℕ := (sockets[k]?.map f).getD 0

theorem countOf_append {f : Socket → ℕ} {socket : Socket} (h : f socket = 0)
    (sockets : List Socket) (k : ℕ) :
    countOf f (sockets ++ [socket]) k = countOf f sockets k := by
  unfold countOf
  rcases Nat.lt_trichotomy k sockets.length with hlt | rfl | hgt
  · rw [List.getElem?_append_left hlt]
  · simp [h]
  · rw [List.getElem?_eq_none (by simp; omega), List.getElem?_eq_none (by omega)]

theorem countOf_set (f : Socket → ℕ) {sockets : List Socket} {k : ℕ} {old : Socket}
    (h : sockets[k]? = some old) (new : Socket) (j : ℕ) :
    countOf f (sockets.set k new) j = if j = k then f new else countOf f sockets j := by
  unfold countOf
  by_cases hj : j = k
  · subst hj
    rw [if_pos rfl, List.getElem?_set_self (List.getElem?_eq_some_iff.mp h).1]
    rfl
  · rw [if_neg hj, List.getElem?_set_ne (Ne.symm hj)]

theorem countOf_eq (f : Socket → ℕ) {sockets : List Socket} {k : ℕ} {socket : Socket}
    (h : sockets[k]? = some socket) : countOf f sockets k = f socket := by
  rw [countOf, h]
  rfl

structure Endpoint where
  recipe : SocketRecipe
  /-- Every socket bound so far, in order. -/
  sockets : List Socket
  current : ℕ
  /-- `prev_socket`. -/
  previous : Option ℕ
  /-- The sockets of the datagrams routed to the connection that it has not taken up. -/
  inbox : List ℕ
  /-- `udp_rx.datagrams`. -/
  accepted : ℕ
  /-- Whether `close_reason` is set. -/
  closed : Bool
  now : ℕ
  deriving DecidableEq, Repr

namespace Endpoint

def received (e : Endpoint) : ℕ → ℕ := countOf Socket.received e.sockets

def attributed (e : Endpoint) : ℕ → ℕ := countOf Socket.attributed e.sockets

def addrOf (e : Endpoint) (k : ℕ) : Option SocketAddr := e.sockets[k]?.map Socket.addr

/-- The sockets the stack polls. -/
def Polled (e : Endpoint) (k : ℕ) : Prop := k = e.current ∨ e.previous = some k

instance (e : Endpoint) (k : ℕ) : Decidable (e.Polled k) := inferInstanceAs (Decidable (_ ∨ _))

def opened (recipe : SocketRecipe) (port : UInt16) : Endpoint where
  recipe := recipe
  sockets := [clientSocket recipe.bind recipe.obf port]
  current := 0
  previous := none
  inbox := []
  accepted := 0
  closed := false
  now := 0

end Endpoint

inductive Event
  /-- A datagram is read from a socket; `ours` if it is routed to the connection. -/
  | read (socket : ℕ) (ours : Bool)
  /-- The connection takes up the next datagram routed to it. -/
  | account
  /-- The stack lets go of the previous socket. -/
  | abandon
  | close
  | tick (d : ℕ)
  deriving DecidableEq, Repr

def Endpoint.handle (e : Endpoint) : Event → Option Endpoint
  | .read k ours =>
    match e.sockets[k]? with
    | none => none
    | some socket =>
      if e.Polled k then
        some { e with
          sockets := e.sockets.set k { socket with
            received := socket.received + 1
            attributed := socket.attributed + ours.toNat }
          inbox := if ours then e.inbox ++ [k] else e.inbox }
      else none
  | .account =>
    match e.inbox with
    | [] => none
    | _ :: inbox => some { e with inbox := inbox, accepted := e.accepted + 1 }
  | .abandon => some { e with previous := none }
  | .close => some { e with closed := true }
  | .tick d => some { e with now := e.now + d }

namespace Endpoint

theorem handle_read {e e' : Endpoint} {k : ℕ} {ours : Bool}
    (h : e.handle (.read k ours) = some e') :
    e.Polled k ∧ e'.sockets.length = e.sockets.length ∧ e'.current = e.current ∧
      e'.previous = e.previous ∧ e'.accepted = e.accepted ∧
      e'.inbox = (if ours then e.inbox ++ [k] else e.inbox) ∧
      (∀ j, e'.received j = e.received j + if j = k then 1 else 0) ∧
      ∀ j, e'.attributed j = e.attributed j + if j = k then ours.toNat else 0 := by
  unfold handle at h
  cases hs : e.sockets[k]? with
  | none => simp [hs] at h
  | some socket =>
    simp only [hs] at h
    split at h
    · next hp =>
      cases h
      refine ⟨hp, List.length_set, rfl, rfl, rfl, rfl, fun j => ?_, fun j => ?_⟩
      · simp only [received, countOf_set Socket.received hs]
        split
        · next hj => rw [hj, countOf_eq _ hs]
        · rfl
      · simp only [attributed, countOf_set Socket.attributed hs]
        split
        · next hj => rw [hj, countOf_eq _ hs]
        · rfl
    · contradiction

theorem handle_frame {e e' : Endpoint} {ev : Event} (h : e.handle ev = some e')
    (hr : ∀ k ours, ev ≠ .read k ours) :
    e'.sockets = e.sockets ∧ e'.current = e.current ∧
      (e'.previous = e.previous ∨ e'.previous = none) ∧
      (e'.inbox = e.inbox ∧ e'.accepted = e.accepted ∨
        ev = .account ∧ ∃ j, e.inbox = j :: e'.inbox ∧ e'.accepted = e.accepted + 1) := by
  cases ev with
  | read k ours => exact absurd rfl (hr k ours)
  | account =>
    unfold handle at h
    cases hi : e.inbox with
    | nil => simp [hi] at h
    | cons j inbox =>
      simp only [hi] at h
      cases h
      exact ⟨rfl, rfl, .inl rfl, .inr ⟨rfl, j, rfl, rfl⟩⟩
  | abandon => cases h; exact ⟨rfl, rfl, .inr rfl, .inl ⟨rfl, rfl⟩⟩
  | close => cases h; exact ⟨rfl, rfl, .inl rfl, .inl ⟨rfl, rfl⟩⟩
  | tick d => cases h; exact ⟨rfl, rfl, .inl rfl, .inl ⟨rfl, rfl⟩⟩

/-- A socket keeps the address it was bound to. -/
theorem handle_addrOf {e e' : Endpoint} {ev : Event} (h : e.handle ev = some e') (k : ℕ) :
    e'.addrOf k = e.addrOf k := by
  by_cases hr : ∃ j ours, ev = .read j ours
  · obtain ⟨j, ours, rfl⟩ := hr
    unfold handle at h
    cases hs : e.sockets[j]? with
    | none => simp [hs] at h
    | some socket =>
      simp only [hs] at h
      split at h
      · cases h
        unfold addrOf
        by_cases hkj : k = j
        · subst hkj
          rw [List.getElem?_set_self (List.getElem?_eq_some_iff.mp hs).1, hs]
          rfl
        · rw [List.getElem?_set_ne (Ne.symm hkj)]
      · contradiction
  · obtain ⟨hs, -⟩ := handle_frame h fun j ours he => hr ⟨j, ours, he⟩
    unfold addrOf
    rw [hs]

end Endpoint

end ConstructTransport.Migration
