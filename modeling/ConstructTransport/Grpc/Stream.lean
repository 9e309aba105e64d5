import ConstructTransport.Grpc.Frame

/-! The gRPC streams of `client.rs`. A stream half is the h3 half under it and,
on the receive side, the bytes buffered between calls. What h3 will answer is a
script: the polls of `recv_data` in order, a script that has run out being a
peer that has sent no more so far. Both `recv_message` functions are one loop,
and the loop is the chunked reader of the frame code. -/

namespace ConstructTransport.Grpc

open Checked Framing

/-- An error under the `context` it was given on the way up. -/
structure ContextError (ε : Type) where
  context : String
  source : ε
  deriving DecidableEq, Repr

variable {ε : Type}

/-! ### Sending -/

/-- The bytes h3 has accepted on a send half. -/
structure H3SendHalf where
  sent : List UInt8
  deriving DecidableEq, Repr

/-- What h3 does with a buffer: take it whole, or fail with a part written. -/
inductive Accepting (ε : Type)
  | whole
  | failed (written : ℕ) (error : ε)

def H3SendHalf.sendData (h : H3SendHalf) (data : List UInt8) :
    Accepting ε → Except ε Unit × H3SendHalf
  | .whole => (.ok (), ⟨h.sent ++ data⟩)
  | .failed written e => (.error e, ⟨h.sent ++ data.take written⟩)

structure QuicSendStream where
  inner : H3SendHalf
  deriving DecidableEq, Repr

def QuicSendStream.sendMessage (s : QuicSendStream) (message : List UInt8) (h3 : Accepting ε) :
    Except (ContextError ε) Unit × QuicSendStream :=
  let (r, inner) := s.inner.sendData (encodeFrame message) h3
  (r.mapError (⟨"send_data", ·⟩), ⟨inner⟩)

/-! ### Receiving -/

/-- One answer of h3's `recv_data`. -/
abbrev RecvData (ε : Type) := Event UInt8 ε

abbrev RecvResult (ε : Type) := Except (ContextError ε) (Option (List UInt8))

structure QuicRecvStream (ε : Type) where
  inner : List (RecvData ε)
  recvBuf : List UInt8
  deriving DecidableEq, Repr

/-- Where one pass of the receive loop leads. -/
inductive Flow (ε : Type)
  | again (s : QuicRecvStream ε)
  | returned (r : RecvResult ε) (s : QuicRecvStream ε)
  | parked (s : QuicRecvStream ε)

/-- One pass of the loop in `recv_message`: return a buffered frame, else await
`recv_data`, which parks when the script has run out. -/
def recvPass (s : QuicRecvStream ε) : Except Panic (Flow ε) := do
  let (frame, recvBuf) ← takeFrame s.recvBuf
  match frame with
  | some body => return .returned (.ok (some body)) ⟨s.inner, recvBuf⟩
  | none => match s.inner with
    | [] => return .parked ⟨[], recvBuf⟩
    | .data chunk :: inner => return .again ⟨inner, recvBuf ++ chunk⟩
    | .finished :: inner => return .returned (.ok none) ⟨inner, recvBuf⟩
    | .failed e :: inner => return .returned (.error ⟨"recv_data", e⟩) ⟨inner, recvBuf⟩

/-- The pass, by what the frame code finds in the buffer and h3 answers. -/
theorem recvPass_eq (s : QuicRecvStream ε) :
    recvPass s = .ok (match frames.take s.recvBuf, s.inner with
      | some (f, rest), _ => .returned (.ok (some f.body)) ⟨s.inner, rest⟩
      | none, [] => .parked s
      | none, .data chunk :: inner => .again ⟨inner, s.recvBuf ++ chunk⟩
      | none, .finished :: inner => .returned (.ok none) ⟨inner, s.recvBuf⟩
      | none, .failed e :: inner => .returned (.error ⟨"recv_data", e⟩) ⟨inner, s.recvBuf⟩) := by
  obtain ⟨inner, buf⟩ := s
  rw [recvPass, takeFrame_eq, ok_bind]
  cases frames.take buf with
  | some p => rfl
  | none => rcases inner with _ | ⟨_ | _ | _, _⟩ <;> rfl

theorem recvPass_again {s s' : QuicRecvStream ε} (h : recvPass s = .ok (.again s')) :
    s'.inner.length < s.inner.length := by
  rw [recvPass_eq] at h
  split at h
  case h_3 hi =>
    cases h
    rw [hi]
    exact Nat.lt_succ_self _
  all_goals cases h

def recvLoop (s : QuicRecvStream ε) : Except Panic (Poll (RecvResult ε) × QuicRecvStream ε) :=
  match h : recvPass s with
  | .error p => .error p
  | .ok (.again s') =>
    have := recvPass_again h
    recvLoop s'
  | .ok (.returned r s') => .ok (.ready r, s')
  | .ok (.parked s') => .ok (.pending, s')
termination_by s.inner.length

theorem recvLoop_again {s s' : QuicRecvStream ε} (h : recvPass s = .ok (.again s')) :
    recvLoop s = recvLoop s' := by
  rw [recvLoop]
  split <;> simp_all

theorem recvLoop_returned {s s' : QuicRecvStream ε} {r : RecvResult ε}
    (h : recvPass s = .ok (.returned r s')) : recvLoop s = .ok (.ready r, s') := by
  rw [recvLoop]
  split <;> simp_all

theorem recvLoop_parked {s s' : QuicRecvStream ε} (h : recvPass s = .ok (.parked s')) :
    recvLoop s = .ok (.pending, s') := by
  rw [recvLoop]
  split <;> simp_all

def QuicRecvStream.recvMessage (s : QuicRecvStream ε) :
    Except Panic (Poll (RecvResult ε) × QuicRecvStream ε) := recvLoop s

/-! ### The unsplit stream -/

structure H3RequestStream (ε : Type) where
  send : H3SendHalf
  recv : List (RecvData ε)
  deriving DecidableEq, Repr

structure QuicStream (ε : Type) where
  inner : H3RequestStream ε
  recvBuf : List UInt8
  deriving DecidableEq, Repr

namespace QuicStream

def sendMessage (s : QuicStream ε) (message : List UInt8) (h3 : Accepting ε) :
    Except (ContextError ε) Unit × QuicStream ε :=
  let (r, send) := s.inner.send.sendData (encodeFrame message) h3
  (r.mapError (⟨"send_data", ·⟩), { s with inner.send := send })

def recvMessage (s : QuicStream ε) : Except Panic (Poll (RecvResult ε) × QuicStream ε) := do
  let (r, rx) ← recvLoop ⟨s.inner.recv, s.recvBuf⟩
  return (r, ⟨⟨s.inner.send, rx.inner⟩, rx.recvBuf⟩)

def split (s : QuicStream ε) : QuicSendStream × QuicRecvStream ε :=
  (⟨s.inner.send⟩, ⟨s.inner.recv, s.recvBuf⟩)

/-- Consecutive `send_message` calls that h3 accepts. -/
def sendMessages (s : QuicStream ε) (msgs : List (List UInt8)) : QuicStream ε :=
  msgs.foldl (fun s m => (s.sendMessage m .whole).2) s

theorem sendMessages_sent (s : QuicStream ε) (msgs : List (List UInt8)) :
    (s.sendMessages msgs).inner.send.sent = s.inner.send.sent ++ msgs.flatMap encodeFrame := by
  induction msgs generalizing s with
  | nil => simp [sendMessages]
  | cons m msgs ih =>
    rw [sendMessages, List.foldl_cons]
    refine (ih _).trans ?_
    simp [sendMessage, H3SendHalf.sendData]

end QuicStream

/-! ### Calls in a row -/

/-- `n` calls in a row of a function that may panic. -/
def callTimes {σ ρ : Type} (call : σ → Except Panic (ρ × σ)) : ℕ → σ → Except Panic (List ρ × σ)
  | 0, s => .ok ([], s)
  | n + 1, s => match call s with
    | .error p => .error p
    | .ok (r, s) => match callTimes call n s with
      | .error p => .error p
      | .ok (rs, s) => .ok (r :: rs, s)

def message? : Poll (RecvResult ε) → Option (List UInt8)
  | .ready (.ok (some m)) => some m
  | _ => none

def returnedMessages (rs : List (Poll (RecvResult ε))) : List (List UInt8) := rs.filterMap message?

/-- What a call of the chunked reader looks like to the caller of `recv_message`. -/
def polled : Outcome RawFrame ε → Poll (RecvResult ε)
  | .item f => .ready (.ok (some f.body))
  | .finished => .ready (.ok none)
  | .failed e => .ready (.error ⟨"recv_data", e⟩)
  | .parked => .pending

theorem returnedMessages_polled (os : List (Outcome RawFrame ε)) :
    returnedMessages (os.map polled) = (os.flatMap Outcome.items).map RawFrame.body := by
  induction os with
  | nil => rfl
  | cons o os ih =>
    rw [List.map_cons, List.flatMap_cons, List.map_append, ← ih]
    cases o <;> rfl

/-- The loop is the chunked reader of frames; in particular it does not panic. -/
theorem recvLoop_eq (inner : List (RecvData ε)) (buf : List UInt8) :
    recvLoop ⟨inner, buf⟩ = .ok (polled (frames.next buf inner).1,
      ⟨(frames.next buf inner).2.2, (frames.next buf inner).2.1⟩) := by
  have hp := recvPass_eq (⟨inner, buf⟩ : QuicRecvStream ε)
  induction inner generalizing buf with
  | nil =>
    cases h : frames.take buf with
    | some p => rw [recvLoop_returned (by rw [hp, h]), frames.next_of_take h]; rfl
    | none => rw [recvLoop_parked (by rw [hp, h]), Code.next, h]; rfl
  | cons ev inner ih =>
    cases h : frames.take buf with
    | some p => rw [recvLoop_returned (by rw [hp, h]), frames.next_of_take h]; rfl
    | none =>
      cases ev with
      | data chunk =>
        rw [recvLoop_again (by rw [hp, h]), frames.next_data h]
        exact ih _ (recvPass_eq _)
      | finished => rw [recvLoop_returned (by rw [hp, h]), Code.next, h]; rfl
      | failed e => rw [recvLoop_returned (by rw [hp, h]), Code.next, h]; rfl

theorem callTimes_recv (n : ℕ) (s : QuicRecvStream ε) :
    callTimes QuicRecvStream.recvMessage n s =
      .ok ((frames.calls n s.recvBuf s.inner).1.map polled,
        ⟨(frames.calls n s.recvBuf s.inner).2.2, (frames.calls n s.recvBuf s.inner).2.1⟩) := by
  induction n generalizing s with
  | zero => rfl
  | succ n ih =>
    obtain ⟨inner, buf⟩ := s
    simp only [callTimes, QuicRecvStream.recvMessage, recvLoop_eq] at ih ⊢
    simp only [ih]
    rfl

theorem callTimes_stream (n : ℕ) (s : QuicStream ε) :
    callTimes QuicStream.recvMessage n s =
      .ok ((frames.calls n s.recvBuf s.inner.recv).1.map polled,
        ⟨⟨s.inner.send, (frames.calls n s.recvBuf s.inner.recv).2.2⟩,
          (frames.calls n s.recvBuf s.inner.recv).2.1⟩) := by
  induction n generalizing s with
  | zero => rfl
  | succ n ih =>
    obtain ⟨⟨send, recv⟩, buf⟩ := s
    simp only [callTimes, QuicStream.recvMessage, recvLoop_eq, ok_bind] at ih ⊢
    simp only [pure, Except.pure, ih]
    rfl

end ConstructTransport.Grpc
