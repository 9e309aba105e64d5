import ConstructTransport.Ffi.Serial

/-! The send lock is nobody's for good. Whatever has happened to the callers and to
the transport, and however long a receive waits behind the other lock, the task that
holds the send lock can go on until it releases it, and the tasks in the queue after
it. Every call that has begun is answered, after no more steps than its frames have
bytes and its task and caller have stages. -/

namespace ConstructTransport.Ffi

open Grpc Interleaving Runs

variable {ε R Q F B : Type} {half : System R Q F B}

/-! ### What is left to do -/

def SendTask.left (op : Op) : SendTask ε → ℕ
  | queued => 2 + op.frame.length
  | holding _ rest => 1 + rest.length
  | finished _ _ => 0

def Caller.left : Caller → ℕ
  | waiting => 1
  | returned | abandoned => 0

def SendCall.left (p : SendCall ε) : ℕ := p.task.left p.op + p.caller.left

def StreamCall.left : StreamCall Q ε → ℕ
  | send p => p.left
  | unstarted | recv _ => 0

/-- Steps that bring a call nearer to its end. Its caller going away is not one. -/
def SendCall.Works (p : SendCall ε) : SendAct ε → Prop
  | .takes n => 0 < n ∧ p.task.rest ≠ []
  | .abandon => False
  | _ => True

/-- Such a step of a call, as h3 takes it. -/
def StreamCall.Works (s : QuicStream R ε) : StreamCall Q ε → StreamAct B ε → Prop
  | .send p, .send a => p.Works a ∧ H3Sends s.send p a
  | _, _ => False

def StreamCall.Took (p : StreamCall Q ε) (t : ℕ) : Prop :=
  ∃ q, p.send? = some q ∧ q.task.turn = some t

theorem StreamCall.Took.stays {s s' : QuicStream R ε} {p p' : StreamCall Q ε} {t : ℕ}
    {a : StreamAct B ε} (h : p.Took t) (ha : (streaming half).act s p a = some (s', p')) :
    p'.Took t := by
  obtain ⟨q, hq, ht⟩ := h
  cases streamTakes_of_step ha with
  | start | startRecv | recv => exact absurd hq nofun
  | send step =>
    cases hq
    refine ⟨_, rfl, ?_⟩
    cases sendTakes_of_step step with
    | acquire task =>
      rw [task] at ht
      cases ht
    | takes n u rest task | answers r u rest task =>
      rw [task] at ht
      exact ht
    | deliver | abandon => exact ht

variable {c c' : Config (QuicStream R ε) (StreamCall Q ε)}

/-- A task fails where the transport has failed, or where some task finishes the stream. -/
structure Sender.Excused (s : Sender ε) : Prop where
  failed : ∀ e ∈ s.log, e.result.toBool = false → s.broken = true ∨ ∃ e ∈ s.log, e.op = .finish
  finished : s.finished = true → ∃ e ∈ s.log, e.op = .finish

/-- Every send has its answer, and every caller that stayed has been given it. -/
structure Answered (c : Config (QuicStream R ε) (StreamCall Q ε)) : Prop where
  free : c.shared.send.locked = false
  answered : ∀ i p, callAt c i = some p → (p.Succeeded ∨ p.Failed) ∧ p.caller ≠ .waiting
  /-- Where the transport is up and nobody finishes the stream, no message is refused. -/
  accepted : c.shared.send.broken = false → (∀ i p, callAt c i = some p → p.op ≠ .finish) →
    ∀ i p, callAt c i = some p → p.Succeeded

end ConstructTransport.Ffi
