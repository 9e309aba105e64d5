import ConstructTransport.Basic.Interleaving
import ConstructTransport.Grpc.Stream

/-! The receive side of the FFI stream. A call of `recv_message` spawns a task
that takes the receive lock, runs the receive loop of the client and releases
the lock; the caller waits for the task and may go away at any time, which
leaves the task running. Results are kept in the order in which the tasks took
the lock, each marked once its caller is gone. -/

namespace ConstructTransport.Ffi

open Checked Framing Grpc Interleaving Runs

variable {ε : Type}

/-- The result of a task; `dropped` if its caller was or is gone. -/
structure Entry (ε : Type) where
  result : RecvResult ε
  dropped : Bool

namespace Entry

def message (e : Entry ε) : Option (List UInt8) := message? (.ready e.result)

def kept (e : Entry ε) : Option (List UInt8) := if e.dropped then none else e.message

def drop (e : Entry ε) : Entry ε := { e with dropped := true }

end Entry

/-- What the calls of one stream share. -/
structure Receiver (ε : Type) where
  stream : QuicRecvStream ε
  locked : Bool
  /-- How often the lock has been taken. -/
  turns : ℕ
  /-- All that h3 has had to answer so far. -/
  arrived : List (RecvData ε)
  log : List (Entry ε)

def Receiver.start : Receiver ε := ⟨⟨[], []⟩, false, 0, [], []⟩

inductive Caller
  | waiting
  | returned
  | abandoned
  deriving DecidableEq, Repr

/-- A spawned task, with its turn at the lock. -/
inductive Task
  | queued
  | holding (turn : ℕ)
  | finished (turn : ℕ)
  deriving DecidableEq, Repr

def Task.turn : Task → Option ℕ
  | queued => none
  | holding t | finished t => some t

structure RecvCall where
  caller : Caller
  task : Task
  deriving DecidableEq, Repr

inductive Act
  | acquire
  | pass
  | deliver
  | abandon
  deriving DecidableEq, Repr

/-- A step of a call of `recv_message`: of its task, or of its caller. -/
def recvMessage (s : Receiver ε) (p : RecvCall) : Act → Option (Receiver ε × RecvCall)
  | .acquire =>
    match p.task with
    | .queued =>
      if s.locked then none
      else
        some ({ s with locked := true, turns := s.turns + 1 }, { p with task := .holding s.turns })
    | _ => none
  | .pass =>
    match p.task, recvPass s.stream with
    | .holding _, .ok (.again stream) => some ({ s with stream := stream }, p)
    | .holding t, .ok (.returned r stream) =>
      some ({ s with
        stream := stream
        locked := false
        log := s.log ++ [⟨r, decide (p.caller = .abandoned)⟩] }, { p with task := .finished t })
    | _, _ => none
  | .deliver =>
    match p.caller, p.task with
    | .waiting, .finished _ => some (s, { p with caller := .returned })
    | _, _ => none
  | .abandon =>
    match p.caller, p.task with
    -- dropping the handle of a finished task drops its result
    | .waiting, .finished t =>
      some ({ s with log := s.log.modify t Entry.drop }, { p with caller := .abandoned })
    -- dropping the handle of a running task detaches it
    | .waiting, _ => some (s, { p with caller := .abandoned })
    | _, _ => none

def arrive (s : Receiver ε) (ev : RecvData ε) : Option (Receiver ε) :=
  some { s with
    stream := { s.stream with inner := s.stream.inner ++ [ev] }
    arrived := s.arrived ++ [ev] }

def receiving : System (Receiver ε) RecvCall (RecvData ε) Act where
  env := arrive
  act := recvMessage
  fresh := ⟨.waiting, .queued⟩

def opened : Config (Receiver ε) RecvCall := ⟨Receiver.start, []⟩

/-- A pass returns the first buffered frame, or an end when no frame is buffered. -/
theorem recvPass_returned {s s' : QuicRecvStream ε} {r : RecvResult ε}
    (h : recvPass s = .ok (.returned r s')) :
    (∃ f rest, frames.take s.recvBuf = some (f, rest) ∧ r = .ok (some f.body) ∧
      s' = ⟨s.inner, rest⟩) ∨
    (frames.take s.recvBuf = none ∧ message? (.ready r) = none ∧
      s'.recvBuf = s.recvBuf ∧ payload s'.inner = payload s.inner) := by
  rw [recvPass_eq] at h
  split at h
  · next f rest ht =>
    cases h
    exact .inl ⟨f, rest, ht, rfl, rfl⟩
  · cases h
  · cases h
  · next inner ht hi =>
    cases h
    exact .inr ⟨ht, rfl, rfl, by rw [hi]; rfl⟩
  · next e inner ht hi =>
    cases h
    exact .inr ⟨ht, rfl, rfl, by rw [hi]; rfl⟩

/-- A pass goes round only with an answer of h3 and no frame buffered. -/
theorem recvPass_goes_round {s s' : QuicRecvStream ε} (h : recvPass s = .ok (.again s')) :
    frames.take s.recvBuf = none ∧ ∃ chunk, s.inner = .data chunk :: s'.inner ∧
      s'.recvBuf = s.recvBuf ++ chunk := by
  rw [recvPass_eq] at h
  split at h
  · cases h
  · cases h
  · next chunk inner ht hi =>
    cases h
    exact ⟨ht, chunk, hi, rfl⟩
  · cases h
  · cases h

/-- A pass parks with the stream as it was. -/
theorem recvPass_parks {s s' : QuicRecvStream ε} (h : recvPass s = .ok (.parked s')) : s' = s := by
  rw [recvPass_eq] at h
  split at h
  case h_2 =>
    cases h
    rfl
  all_goals cases h

inductive RecvTakes (s : Receiver ε) (p : RecvCall) : Act → Receiver ε → RecvCall → Prop
  | acquire (task : p.task = .queued) (free : s.locked = false) :
    RecvTakes s p .acquire { s with locked := true, turns := s.turns + 1 }
      { p with task := .holding s.turns }
  | goesRound (t : ℕ) (stream : QuicRecvStream ε) (task : p.task = .holding t)
    (pass : recvPass s.stream = .ok (.again stream)) :
    RecvTakes s p .pass { s with stream := stream } p
  | returns (t : ℕ) (r : RecvResult ε) (stream : QuicRecvStream ε) (task : p.task = .holding t)
    (pass : recvPass s.stream = .ok (.returned r stream)) :
    RecvTakes s p .pass
      { s with
        stream := stream
        locked := false
        log := s.log ++ [⟨r, decide (p.caller = .abandoned)⟩] }
      { p with task := .finished t }
  | deliver (caller : p.caller = .waiting) :
    RecvTakes s p .deliver s { p with caller := .returned }
  | drop (t : ℕ) (task : p.task = .finished t) :
    RecvTakes s p .abandon { s with log := s.log.modify t Entry.drop }
      { p with caller := .abandoned }
  | detach (task : ∀ t, p.task ≠ .finished t) :
    RecvTakes s p .abandon s { p with caller := .abandoned }

theorem recvTakes_of_step {s s' : Receiver ε} {p p' : RecvCall} {a : Act}
    (h : recvMessage s p a = some (s', p')) : RecvTakes s p a s' p' := by
  cases a with
  | acquire =>
    simp only [recvMessage] at h
    split at h
    · next ht =>
      split at h
      · contradiction
      · next hl =>
        cases h
        exact .acquire ht (Bool.eq_false_iff.mpr hl)
    · contradiction
  | pass =>
    simp only [recvMessage] at h
    split at h
    · next t stream ht hp =>
      cases h
      exact .goesRound t stream ht hp
    · next t r stream ht hp =>
      cases h
      exact .returns t r stream ht hp
    · contradiction
  | deliver =>
    simp only [recvMessage] at h
    split at h
    · next hc ht =>
      cases h
      exact .deliver hc
    · contradiction
  | abandon =>
    simp only [recvMessage] at h
    split at h
    · next t hc ht =>
      cases h
      exact .drop t ht
    · next hn =>
      cases h
      exact .detach hn
    · contradiction

/-! ### A task by itself -/

/-- What a task that holds the lock is left with when the receive loop gives up. -/
def Receiver.left (s : Receiver ε) (p : RecvCall) (t : ℕ) (stream : QuicRecvStream ε) :
    Poll (RecvResult ε) → Receiver ε × RecvCall
  | .ready r =>
    ({ s with
      stream := stream
      locked := false
      log := s.log ++ [⟨r, decide (p.caller = .abandoned)⟩] }, { p with task := .finished t })
  | .pending => ({ s with stream := stream }, p)

/-- A task that is left to itself makes the passes of one `recv_message` and no more. -/
theorem run_passes {p : RecvCall} {t : ℕ} (hp : p.task = .holding t) (stream : QuicRecvStream ε) :
    ∀ (s : Receiver ε) (poll : Poll (RecvResult ε)) (stream' : QuicRecvStream ε),
      s.stream = stream → stream.recvMessage = .ok (poll, stream') →
      ∃ n, run (Function.uncurry recvMessage) (s, p) (List.replicate n .pass) =
          some (s.left p t stream' poll) ∧
        Function.uncurry recvMessage (s.left p t stream' poll) .pass = none := by
  induction stream using recvLoop.induct with
  | case1 stream panic hpass =>
    intro s poll stream' hs h
    rw [QuicRecvStream.recvMessage, recvLoop] at h
    split at h <;> simp_all
  | case2 stream next hpass hlt ih =>
    intro s poll stream' hs h
    rw [QuicRecvStream.recvMessage, recvLoop_again hpass] at h
    have hstep : recvMessage s p .pass = some ({ s with stream := next }, p) := by
      simp only [recvMessage, hp, hs, hpass]
    obtain ⟨n, hrun, hend⟩ := ih { s with stream := next } poll stream' rfl h
    have hleft : Receiver.left { s with stream := next } p t stream' poll =
        s.left p t stream' poll := by
      cases poll <;> rfl
    rw [hleft] at hrun hend
    exact ⟨n + 1, run_cons_eq_some.mpr ⟨_, hstep, hrun⟩, hend⟩
  | case3 stream r next hpass =>
    intro s poll stream' hs h
    rw [QuicRecvStream.recvMessage, recvLoop_returned hpass] at h
    cases h
    have hstep : recvMessage s p .pass = some (s.left p t next (.ready r)) := by
      simp only [recvMessage, hp, hs, hpass]
      rfl
    exact ⟨1, run_cons_eq_some.mpr ⟨_, hstep, rfl⟩, rfl⟩
  | case4 stream next hpass =>
    intro s poll stream' hs h
    rw [QuicRecvStream.recvMessage, recvLoop_parked hpass] at h
    cases h
    cases recvPass_parks hpass
    subst hs
    refine ⟨0, rfl, ?_⟩
    simp only [Receiver.left, Function.uncurry_apply_pair, recvMessage, hp, hpass]

/-! ### The lock and the log -/

/-- The bytes h3 has had to answer are the frames in the log, then the buffer,
then what is still to be polled. -/
structure Receiver.Conserved (s : Receiver ε) : Prop where
  bytes : ∃ fs : List RawFrame, fs.map RawFrame.body = s.log.filterMap Entry.message ∧
    payload s.arrived = fs.flatMap frames.bytes ++ (s.stream.recvBuf ++ payload s.stream.inner)
  turns : s.turns = s.log.length + s.locked.toNat

/-- The task that holds the lock is to write the next entry of the log; a
finished task wrote the entry of its turn, dropped if the caller is gone. -/
def RecvCall.Placed (s : Receiver ε) (p : RecvCall) : Prop :=
  match p.task with
  | .queued => True
  | .holding t => s.locked = true ∧ t = s.log.length
  | .finished t => ∃ e, s.log[t]? = some e ∧ (e.dropped = true ↔ p.caller = .abandoned)

def RecvCall.Apart (p q : RecvCall) : Prop := ∀ t, p.task.turn = some t → q.task.turn ≠ some t

theorem message_modify (log : List (Entry ε)) (t : ℕ) :
    (log.modify t Entry.drop).filterMap Entry.message = log.filterMap Entry.message := by
  induction log generalizing t with
  | nil => simp
  | cons e log ih =>
    cases t with
    | zero => rfl
    | succ t =>
      rw [List.modify_succ_cons, List.filterMap_cons, List.filterMap_cons, ih]

theorem conserved_pass {s : Receiver ε} {stream : QuicRecvStream ε} {r : RecvResult ε} {b : Bool}
    (hs : s.Conserved) (hl : s.locked = true) (hp : recvPass s.stream = .ok (.returned r stream)) :
    ({ s with stream := stream, locked := false, log := s.log ++ [⟨r, b⟩] } :
      Receiver ε).Conserved := by
  obtain ⟨⟨fs, hm, hb⟩, ht⟩ := hs
  refine ⟨?_, ?_⟩
  · rcases recvPass_returned hp with ⟨f, rest, hf, rfl, rfl⟩ | ⟨-, hr, hbuf, hin⟩
    · refine ⟨fs ++ [f], ?_, ?_⟩
      · rw [List.map_append, hm, List.filterMap_append]
        rfl
      · rw [hb, frames.bytes_take hf]
        simp
    · refine ⟨fs, ?_, ?_⟩
      · rw [hm, List.filterMap_append, List.filterMap_cons]
        simp [Entry.message, hr]
      · rw [hb, hbuf, hin]
  · rw [hl] at ht
    simpa using ht

/-- A call that does not hold the lock is placed by its entry alone. -/
theorem RecvCall.Placed.mono {s s' : Receiver ε} {q : RecvCall} (hq : q.Placed s)
    (hn : ∀ t, q.task ≠ .holding t) (hl : ∀ t, q.task = .finished t → s'.log[t]? = s.log[t]?) :
    q.Placed s' := by
  unfold RecvCall.Placed at hq ⊢
  cases ht : q.task with
  | queued => trivial
  | holding t => exact absurd ht (hn t)
  | finished t =>
    simp only [ht] at hq ⊢
    rw [hl t ht]
    exact hq

theorem RecvCall.Placed.of_holding {s : Receiver ε} {p : RecvCall} {t : ℕ} (hp : p.Placed s)
    (ht : p.task = .holding t) : s.locked = true ∧ t = s.log.length := by
  simpa only [RecvCall.Placed, ht] using hp

theorem RecvCall.Placed.of_finished {s : Receiver ε} {p : RecvCall} {t : ℕ} (hp : p.Placed s)
    (ht : p.task = .finished t) :
    ∃ e, s.log[t]? = some e ∧ (e.dropped = true ↔ p.caller = .abandoned) := by
  simpa only [RecvCall.Placed, ht] using hp

theorem recv_not_holding {s : Receiver ε} {p q : RecvCall} {t : ℕ} (hp : p.Placed s)
    (ht : p.task = .holding t) (hq : q.Placed s) (ha : p.Apart q) : ∀ u, q.task ≠ .holding u := by
  intro u hu
  refine ha t (by rw [ht]; rfl) ?_
  rw [hu, (hp.of_holding ht).2, (hq.of_holding hu).2]
  rfl

theorem recv_acquire_parts {s : Receiver ε} {p : RecvCall} (hs : s.Conserved)
    (hl : s.locked = false) :
    ({ s with locked := true, turns := s.turns + 1 } : Receiver ε).Conserved ∧
    ({ p with task := .holding s.turns } : RecvCall).Placed
      { s with locked := true, turns := s.turns + 1 } ∧
    ∀ q : RecvCall, q.Placed s →
      q.Placed { s with locked := true, turns := s.turns + 1 } ∧
      ({ p with task := .holding s.turns } : RecvCall).Apart q := by
  have hturns : s.turns = s.log.length := by
    rw [hs.turns, hl]
    rfl
  have idle : ∀ q : RecvCall, q.Placed s → ∀ t, q.task ≠ .holding t :=
    fun q hq t ht => absurd (hl.symm.trans (hq.of_holding ht).1) Bool.false_ne_true
  refine ⟨⟨hs.bytes, ?_⟩, ⟨rfl, hturns⟩, fun q hq => ⟨hq.mono (idle q hq) fun _ _ => rfl, ?_⟩⟩
  · rw [hturns]
    rfl
  · -- the new turn is that of no task before
    intro t ht hqt
    cases ht
    cases hc : q.task with
    | queued => simp [hc, Task.turn] at hqt
    | holding u => exact idle q hq u hc
    | finished u =>
      obtain ⟨e, he, -⟩ := hq.of_finished hc
      have hlt := (List.getElem?_eq_some_iff.mp he).1
      rw [hc] at hqt
      cases hqt
      omega

/-- A dropped result is dropped from the log, where it belongs to one call. -/
theorem drop_parts {s : Receiver ε} {p : RecvCall} {t : ℕ} (hs : s.Conserved) (hp : p.Placed s)
    (ht : p.task = .finished t) :
    ({ s with log := s.log.modify t Entry.drop } : Receiver ε).Conserved ∧
    ({ p with caller := .abandoned } : RecvCall).Placed
      { s with log := s.log.modify t Entry.drop } ∧
    ∀ q : RecvCall, q.Placed s → p.Apart q →
      q.Placed { s with log := s.log.modify t Entry.drop } := by
  obtain ⟨e, he, hd⟩ := hp.of_finished ht
  obtain ⟨⟨fs, hm, hb⟩, hturns⟩ := hs
  refine ⟨⟨⟨fs, by rw [message_modify, hm], hb⟩, by rw [List.length_modify]; exact hturns⟩, ?_,
    fun q hq ha => ?_⟩
  · simp only [RecvCall.Placed, ht]
    exact ⟨e.drop, by rw [List.getElem?_modify_eq, he]; rfl, by simp [Entry.drop]⟩
  · cases hqt : q.task with
    | queued => exact hq.mono (by rw [hqt]; nofun) (by rw [hqt]; nofun)
    | holding u =>
      simp only [RecvCall.Placed, hqt] at hq ⊢
      rwa [List.length_modify]
    | finished u =>
      refine hq.mono (by rw [hqt]; nofun) fun v hv => List.getElem?_modify_ne _ _ ?_
      rintro rfl
      exact ha t (by rw [ht]; rfl) (by rw [hv]; rfl)

theorem recvMessage_parts {s s' : Receiver ε} {p p' : RecvCall} {a : Act} (hs : s.Conserved)
    (hp : p.Placed s) (h : RecvTakes s p a s' p') :
    s'.Conserved ∧ p'.Placed s' ∧
      ∀ q : RecvCall, q.Placed s → p.Apart q → q.Placed s' ∧ p'.Apart q := by
  cases h with
  | acquire task free =>
    obtain ⟨hs', hp', hothers⟩ := recv_acquire_parts (p := p) hs free
    exact ⟨hs', hp', fun q hq _ => hothers q hq⟩
  | goesRound t stream task pass =>
    obtain ⟨-, chunk, hin, hbuf⟩ := recvPass_goes_round pass
    obtain ⟨⟨fs, hm, hb⟩, hturns⟩ := hs
    refine ⟨⟨⟨fs, hm, ?_⟩, hturns⟩, hp, fun q hq ha => ⟨hq, ha⟩⟩
    rw [hb, hbuf, hin, payload_data]
    simp
  | returns t r stream task pass =>
    obtain ⟨hl, rfl⟩ := hp.of_holding task
    refine ⟨conserved_pass hs hl pass, ⟨_, List.getElem?_concat_length, by simp⟩,
      fun q hq ha => ⟨?_, fun t htq => ha t (by rw [task]; exact htq)⟩⟩
    refine hq.mono (recv_not_holding hp task hq ha) fun u hu => ?_
    obtain ⟨e, he, -⟩ := hq.of_finished hu
    exact List.getElem?_append_left (List.getElem?_eq_some_iff.mp he).1
  | deliver caller =>
    refine ⟨hs, ?_, fun q hq ha => ⟨hq, ha⟩⟩
    unfold RecvCall.Placed at hp ⊢
    cases hpt : p.task with
    | queued => trivial
    | holding t => simpa only [hpt] using hp
    | finished t =>
      simp only [hpt] at hp ⊢
      obtain ⟨e, he, hd⟩ := hp
      exact ⟨e, he, by rw [hd, caller]; simp⟩
  | drop t task =>
    obtain ⟨hs', hp', hothers⟩ := drop_parts hs hp task
    exact ⟨hs', hp', fun q hq ha => ⟨hothers q hq ha, ha⟩⟩
  | detach task =>
    refine ⟨hs, ?_, fun q hq ha => ⟨hq, ha⟩⟩
    unfold RecvCall.Placed at hp ⊢
    cases hpt : p.task with
    | queued => trivial
    | holding t => simpa only [hpt] using hp
    | finished t => exact absurd hpt (task t)

abbrev ReceivingInv : Config (Receiver ε) RecvCall → Prop :=
  System.Inv Receiver.Conserved (fun s p => p.Placed s) RecvCall.Apart

theorem opened_inv : ReceivingInv (opened : Config (Receiver ε) RecvCall) :=
  System.inv_start ⟨⟨[], rfl, rfl⟩, rfl⟩

theorem step_receivingInv {c c' : Config (Receiver ε) RecvCall} {l : Label (RecvData ε) Act}
    (hc : ReceivingInv c) (hs : receiving.step c l = some c') : ReceivingInv c' := by
  refine receiving.step_inv ?_ ?_ ?_ ?_ hc hs
  · exact fun p q hpq t hq hp => hpq t hp hq
  · rintro s ev s' ⟨⟨fs, hm, hb⟩, ht⟩ he
    cases he
    exact ⟨⟨⟨fs, hm, by simp [hb]⟩, ht⟩, fun q hq => hq⟩
  · exact fun s _ => ⟨trivial, fun q _ => nofun⟩
  · exact fun s p a s' p' hs hp ha => recvMessage_parts hs hp (recvTakes_of_step ha)

def Covered (c : Config (Receiver ε) RecvCall) : Prop :=
  ∀ t < c.shared.log.length, ∃ (i : ℕ) (p : RecvCall),
    c.procs[i]? = some p ∧ p.task = .finished t

theorem step_covered {c c' : Config (Receiver ε) RecvCall} {l : Label (RecvData ε) Act}
    (hi : ReceivingInv c) (hc : Covered c) (hs : receiving.step c l = some c') : Covered c' := by
  refine receiving.step_owned (f := fun s => s.log.length)
    (O := fun p t => p.task = .finished t) hs hc ?_ ?_
  · intro ev s he
    cases he
    exact le_rfl
  intro k p a s p' hp ha
  cases recvTakes_of_step ha with
  | acquire task =>
    exact ⟨fun t ht => absurd (task.symm.trans ht) nofun, fun t ht => .inl ht⟩
  | goesRound => exact ⟨fun t ht => ht, fun t ht => .inl ht⟩
  | returns u r stream task =>
    refine ⟨fun t ht => absurd (task.symm.trans ht) nofun, fun t ht => ?_⟩
    have hturn := ((hi.proc k p hp).of_holding task).2
    rw [List.length_append, List.length_singleton] at ht
    rcases Nat.lt_or_ge t c.shared.log.length with hlt | hge
    · exact .inl hlt
    · exact .inr (congrArg Task.finished (by omega))
  | deliver => exact ⟨fun t ht => ht, fun t ht => .inl ht⟩
  | drop u =>
    refine ⟨fun t ht => ht, fun t ht => .inl ?_⟩
    rwa [List.length_modify] at ht
  | detach => exact ⟨fun t ht => ht, fun t ht => .inl ht⟩

end ConstructTransport.Ffi
