import ConstructTransport.Ffi.Receive

/-! The send side of the FFI stream. A call of `send_message` or `finish` spawns
a task that takes the send lock, gives its frame to h3, awaits the answer and
releases the lock; the caller waits for the task and may go away at any time,
which leaves the task running. The receive side is behind a lock of its own: it
is any system, and its calls run among those of the send side. -/

namespace ConstructTransport.Ffi

open Grpc Interleaving Runs

variable {ε R Q F B : Type}

/-- What a call does with the stream. -/
inductive Op
  | message (m : List UInt8)
  | finish
  deriving DecidableEq, Repr

def Op.frame : Op → List UInt8
  | message m => encodeFrame m
  | finish => []

def Op.context : Op → String
  | message _ => "send_data"
  | finish => "finish"

def Op.message? : Op → Option (List UInt8)
  | message m => some m
  | finish => none

/-- A message whose length the frame's prefix can count. -/
def Op.Fits (op : Op) : Prop := ∀ m, op.message? = some m → m.length < 2 ^ 32

abbrev SendResult (ε : Type) := Except (ContextError ε) Unit

/-- What a task that held the lock did with it. -/
structure Sent (ε : Type) where
  op : Op
  result : SendResult ε

/-- What the send calls of one stream share. -/
structure Sender (ε : Type) where
  stream : QuicSendStream
  /-- The transport has failed. -/
  broken : Bool
  /-- h3 has finished the stream. -/
  finished : Bool
  locked : Bool
  /-- How often the lock has been taken. -/
  turns : ℕ
  log : List (Sent ε)

def Sender.start : Sender ε := ⟨⟨⟨[]⟩⟩, false, false, false, 0, []⟩

/-- A spawned task, with its turn at the lock; `rest` is what h3 has not taken of
its buffer. -/
inductive SendTask (ε : Type)
  | queued
  | holding (turn : ℕ) (rest : List UInt8)
  | finished (turn : ℕ) (result : SendResult ε)

def SendTask.turn : SendTask ε → Option ℕ
  | queued => none
  | holding t _ | finished t _ => some t

def SendTask.rest : SendTask ε → List UInt8
  | holding _ rest => rest
  | _ => []

structure SendCall (ε : Type) where
  op : Op
  caller : Caller
  task : SendTask ε

inductive SendAct (ε : Type)
  | acquire
  | takes (n : ℕ)
  | answers (r : Except ε Unit)
  | deliver
  | abandon

def Sender.take (s : Sender ε) (bytes : List UInt8) : Sender ε :=
  { s with stream := ⟨⟨s.stream.inner.sent ++ bytes⟩⟩ }

/-- The task is done and drops the guard of the lock. -/
def Sender.release (s : Sender ε) (op : Op) (r : SendResult ε) : Sender ε :=
  { s with
    finished := s.finished || (decide (op = .finish) && r.toBool)
    locked := false
    log := s.log ++ [⟨op, r⟩] }

/-- A call as `on_rt` spawns it. -/
def SendCall.spawned (op : Op) : SendCall ε := ⟨op, .waiting, .queued⟩

/-- A step of a call of `send_message` or `finish`: of its task, or of its caller. -/
def sendStep (s : Sender ε) (p : SendCall ε) : SendAct ε → Option (Sender ε × SendCall ε)
  | .acquire =>
    match p.task with
    | .queued =>
      if s.locked then none
      else
        some ({ s with locked := true, turns := s.turns + 1 },
          { p with task := .holding s.turns p.op.frame })
    | _ => none
  -- a poll of h3 that stays pending
  | .takes n =>
    match p.task with
    | .holding t rest => some (s.take (rest.take n), { p with task := .holding t (rest.drop n) })
    | _ => none
  | .answers r =>
    match p.task with
    | .holding t _ =>
      let result := r.mapError (⟨p.op.context, ·⟩)
      some (s.release p.op result, { p with task := .finished t result })
    | _ => none
  | .deliver =>
    match p.caller, p.task with
    | .waiting, .finished _ _ => some (s, { p with caller := .returned })
    | _, _ => none
  -- dropping the handle detaches the task
  | .abandon =>
    match p.caller with
    | .waiting => some (s, { p with caller := .abandoned })
    | _ => none

inductive SendTakes (s : Sender ε) (p : SendCall ε) :
    SendAct ε → Sender ε → SendCall ε → Prop
  | acquire (task : p.task = .queued) (free : s.locked = false) :
    SendTakes s p .acquire { s with locked := true, turns := s.turns + 1 }
      { p with task := .holding s.turns p.op.frame }
  | takes (n t : ℕ) (rest : List UInt8) (task : p.task = .holding t rest) :
    SendTakes s p (.takes n) (s.take (rest.take n)) { p with task := .holding t (rest.drop n) }
  | answers (r : Except ε Unit) (t : ℕ) (rest : List UInt8) (task : p.task = .holding t rest) :
    SendTakes s p (.answers r) (s.release p.op (r.mapError (⟨p.op.context, ·⟩)))
      { p with task := .finished t (r.mapError (⟨p.op.context, ·⟩)) }
  | deliver (t : ℕ) (r : SendResult ε) (task : p.task = .finished t r) :
    SendTakes s p .deliver s { p with caller := .returned }
  | abandon : SendTakes s p .abandon s { p with caller := .abandoned }

theorem sendTakes_of_step {s s' : Sender ε} {p p' : SendCall ε} {a : SendAct ε}
    (h : sendStep s p a = some (s', p')) : SendTakes s p a s' p' := by
  cases a with
  | acquire =>
    simp only [sendStep] at h
    split at h
    · next ht =>
      split at h
      · contradiction
      · next hl =>
        cases h
        exact .acquire ht (Bool.eq_false_iff.mpr hl)
    · contradiction
  | takes n =>
    simp only [sendStep] at h
    split at h
    · next t rest ht =>
      cases h
      exact .takes n t rest ht
    · contradiction
  | answers r =>
    simp only [sendStep] at h
    split at h
    · next t rest ht =>
      cases h
      exact .answers r t rest ht
    · contradiction
  | deliver =>
    simp only [sendStep] at h
    split at h
    · next t r hc ht =>
      cases h
      exact .deliver t r ht
    · contradiction
  | abandon =>
    simp only [sendStep] at h
    split at h
    · cases h
      exact .abandon
    · contradiction

/-- What is asked of h3 under exclusive access: it takes bytes only while the
transport is up and the stream is not finished, `send_data` succeeds only with
its whole buffer taken, and fails only for one of these two reasons. -/
def H3Sends (s : Sender ε) (p : SendCall ε) : SendAct ε → Prop
  | .takes _ => s.broken = false ∧ s.finished = false
  | .answers (.ok _) => p.task.rest = []
  | .answers (.error _) => p.op = .finish ∨ s.broken = true ∨ s.finished = true
  | _ => True

instance (s : Sender ε) (p : SendCall ε) : ∀ a, Decidable (H3Sends s p a)
  | .takes _ => inferInstanceAs (Decidable (_ ∧ _))
  | .answers (.ok _) => inferInstanceAs (Decidable (_ = _))
  | .answers (.error _) => inferInstanceAs (Decidable (_ ∨ _))
  | .acquire | .deliver | .abandon => .isTrue trivial

/-! ### A task by itself -/

/-- What h3 has done with a buffer of which it took `n` bytes before its answer. -/
def accepting (n : ℕ) : Except ε Unit → Accepting ε
  | .ok _ => .whole
  | .error e => .failed n e

theorem run_takes {s : Sender ε} {p : SendCall ε} {t : ℕ} {rest : List UInt8}
    (hp : p.task = .holding t rest) (ns : List ℕ) :
    run (Function.uncurry sendStep) (s, p) (ns.map .takes) =
      some (s.take (rest.take ns.sum), { p with task := .holding t (rest.drop ns.sum) }) := by
  induction ns generalizing s p rest with
  | nil => simp [Sender.take, ← hp]
  | cons n ns ih =>
    have hstep : Function.uncurry sendStep (s, p) (.takes n) =
        some (s.take (rest.take n), { p with task := .holding t (rest.drop n) }) := by
      simp only [Function.uncurry_apply_pair, sendStep, hp]
    have htake : rest.take (n + ns.sum) = rest.take n ++ (rest.drop n).take ns.sum := by
      rw [List.take_add]
    rw [List.map_cons, run, hstep, Option.bind_some, ih rfl, List.sum_cons, htake]
    simp [Sender.take]

/-- However h3 cuts the frame, a task that is left to itself does what
`send_message` does. -/
theorem run_sendMessage {s : Sender ε} (hl : s.locked = false) (m : List UInt8) (ns : List ℕ)
    {r : Except ε Unit} (hr : r.toBool = true → (encodeFrame m).length ≤ ns.sum) :
    ∃ s' result, run (Function.uncurry sendStep) (s, .spawned (.message m))
        (.acquire :: (ns.map .takes ++ [.answers r])) =
          some (s', ⟨.message m, .waiting, .finished s.turns result⟩) ∧
      s.stream.sendMessage m (accepting ns.sum r) = (result, s'.stream) := by
  have hacquire : sendStep s (.spawned (.message m)) .acquire =
      some ({ s with locked := true, turns := s.turns + 1 },
        ⟨.message m, .waiting, .holding s.turns (encodeFrame m)⟩) := by
    simp only [sendStep, SendCall.spawned, hl]
    rfl
  have htakes := run_takes (s := { s with locked := true, turns := s.turns + 1 })
    (p := ⟨.message m, .waiting, .holding s.turns (encodeFrame m)⟩) rfl ns
  refine ⟨_, _, run_cons_eq_some.mpr ⟨_, hacquire, run_append_eq_some.mpr ⟨_, htakes, rfl⟩⟩, ?_⟩
  cases r with
  | error e => rfl
  | ok u =>
    rw [List.take_of_length_le (hr rfl)]
    rfl

/-! ### The stream -/

/-- `ffi::QuicStream`: the two halves, each behind its own lock. -/
structure QuicStream (R ε : Type) where
  send : Sender ε
  recv : R

/-- A call of the stream; which one is settled when it is first polled. -/
inductive StreamCall (Q ε : Type)
  | unstarted
  | send (p : SendCall ε)
  | recv (q : Q)

inductive StreamEvent (F : Type)
  | breaks
  | recv (e : F)

inductive StreamAct (B ε : Type)
  | sendMessage (m : List UInt8)
  | finish
  | startRecv
  | send (a : SendAct ε)
  | recv (a : B)

/-- All calls of one stream, whatever its receive half is. -/
def streaming (half : System R Q F B) :
    System (QuicStream R ε) (StreamCall Q ε) (StreamEvent F) (StreamAct B ε) where
  env s
    | .breaks => some { s with send := { s.send with broken := true } }
    | .recv e => (half.env s.recv e).map fun r => { s with recv := r }
  act s
    | .unstarted, .sendMessage m => some (s, .send (.spawned (.message m)))
    | .unstarted, .finish => some (s, .send (.spawned .finish))
    | .unstarted, .startRecv => some (s, .recv half.fresh)
    | .send p, .send a => (sendStep s.send p a).map fun r => ({ s with send := r.1 }, .send r.2)
    | .recv q, .recv a => (half.act s.recv q a).map fun r => ({ s with recv := r.1 }, .recv r.2)
    | _, _ => none
  fresh := .unstarted

/-- What is asked of h3, of the calls of the stream. -/
def H3Trusted (s : QuicStream R ε) : StreamCall Q ε → StreamAct B ε → Prop
  | .send p, .send a => H3Sends s.send p a
  | _, _ => True

instance (s : QuicStream R ε) : ∀ (p : StreamCall Q ε) (a : StreamAct B ε),
    Decidable (H3Trusted s p a)
  | .send p, .send a => inferInstanceAs (Decidable (H3Sends s.send p a))
  | .unstarted, _ | .recv _, _ | .send _, .sendMessage _ | .send _, .finish
  | .send _, .startRecv | .send _, .recv _ => .isTrue trivial

/-- The stream as `open_stream` returns it, with its receive half in any state. -/
def openedStream (recv : R) : Config (QuicStream R ε) (StreamCall Q ε) :=
  ⟨⟨Sender.start, recv⟩, []⟩

inductive StreamTakes (s : QuicStream R ε) :
    StreamCall Q ε → StreamAct B ε → QuicStream R ε → StreamCall Q ε → Prop
  | start (a : StreamAct B ε) (op : Op) : StreamTakes s .unstarted a s (.send (.spawned op))
  | startRecv (q : Q) : StreamTakes s .unstarted .startRecv s (.recv q)
  | send {p p' : SendCall ε} {a : SendAct ε} {send : Sender ε}
    (step : sendStep s.send p a = some (send, p')) :
    StreamTakes s (.send p) (.send a) { s with send := send } (.send p')
  | recv (q q' : Q) (a : B) (recv : R) :
    StreamTakes s (.recv q) (.recv a) { s with recv := recv } (.recv q')

theorem streamTakes_of_step {half : System R Q F B} {s s' : QuicStream R ε}
    {p p' : StreamCall Q ε} {a : StreamAct B ε} (h : (streaming half).act s p a = some (s', p')) :
    StreamTakes s p a s' p' := by
  cases p with
  | unstarted =>
    cases a with
    | sendMessage m => cases h; exact .start _ (.message m)
    | finish => cases h; exact .start _ .finish
    | startRecv => cases h; exact .startRecv _
    | send a => cases h
    | recv a => cases h
  | send p =>
    cases a with
    | send a =>
      obtain ⟨⟨send, p'⟩, hs, heq⟩ := Option.map_eq_some_iff.mp h
      cases heq
      exact .send hs
    | sendMessage m => cases h
    | finish => cases h
    | startRecv => cases h
    | recv a => cases h
  | recv q =>
    cases a with
    | recv a =>
      obtain ⟨⟨recv, q'⟩, hs, heq⟩ := Option.map_eq_some_iff.mp h
      cases heq
      exact .recv q q' a recv
    | sendMessage m => cases h
    | finish => cases h
    | startRecv => cases h
    | send a => cases h

end ConstructTransport.Ffi
