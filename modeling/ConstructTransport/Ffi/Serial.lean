import ConstructTransport.Ffi.Send

/-! Sends are atomic and serialised. The task that holds the lock is the only one
that gives bytes to h3, and it keeps the lock until h3 has answered, whether or
not its caller is still there. What the stream has taken is then whole frames in
the order of the lock, and after them at most the start of the one frame that
failed with the transport. -/

namespace ConstructTransport.Ffi

open Framing Grpc Interleaving Runs

variable {ε R Q F B : Type} {half : System R Q F B}

/-! ### One task at a time -/

def Sent.frame (e : Sent ε) : List UInt8 := if e.result.toBool then e.op.frame else []

/-- What follows the whole frames: the start of a frame that failed with the transport. -/
def Sender.Torn (s : Sender ε) (tail : List UInt8) : Prop :=
  tail = [] ∨ s.broken = true ∧ ∃ e ∈ s.log, e.result.toBool = false ∧ tail <+: e.op.frame

structure Sender.Whole (s : Sender ε) : Prop where
  turns : s.turns = s.log.length + s.locked.toNat
  free : s.locked = false → ∃ tail,
    s.stream.inner.sent = s.log.flatMap Sent.frame ++ tail ∧ s.Torn tail

/-- The task that holds the lock is to write the next entry of the log, and what
h3 has taken of its frame is at the end, alone. -/
structure Sender.Writing (s : Sender ε) (op : Op) (t : ℕ) (rest : List UInt8) : Prop where
  locked : s.locked = true
  turn : t = s.log.length
  bytes : ∃ tail written, op.frame = written ++ rest ∧
    s.stream.inner.sent = s.log.flatMap Sent.frame ++ tail ++ written ∧ s.Torn tail ∧
    (written = [] ∨ tail = [] ∧ s.finished = false)

structure SendCall.Placed (s : Sender ε) (p : SendCall ε) : Prop where
  writing : ∀ t rest, p.task = .holding t rest → s.Writing p.op t rest
  done : ∀ t r, p.task = .finished t r → s.log[t]? = some ⟨p.op, r⟩
  returned : p.caller = .returned → ∃ t r, p.task = .finished t r

def SendCall.Apart (p q : SendCall ε) : Prop := ∀ t, p.task.turn = some t → q.task.turn ≠ some t

theorem Sender.Torn.mono {s s' : Sender ε} {tail : List UInt8} (h : s.Torn tail)
    (hb : s.broken = true → s'.broken = true) (hl : s.log ⊆ s'.log) : s'.Torn tail := by
  rcases h with h | ⟨h, e, he, hr, ht⟩
  · exact .inl h
  · exact .inr ⟨hb h, e, hl he, hr, ht⟩

/-- A call that does not hold the lock is not moved by what others append to the log. -/
theorem SendCall.Placed.mono {s s' : Sender ε} {q : SendCall ε} (hq : q.Placed s)
    (hn : ∀ t rest, q.task ≠ .holding t rest) (hl : s.log <+: s'.log) : q.Placed s' := by
  refine ⟨fun t rest ht => absurd ht (hn t rest), fun t r ht => ?_, hq.returned⟩
  have hd := hq.done t r ht
  obtain ⟨more, hmore⟩ := hl
  rw [← hmore, List.getElem?_append_left (List.getElem?_eq_some_iff.mp hd).1, hd]

theorem not_holding {s : Sender ε} {p q : SendCall ε} {t : ℕ} {rest : List UInt8}
    (hp : p.Placed s) (ht : p.task = .holding t rest) (hq : q.Placed s) (ha : p.Apart q) :
    ∀ u rest', q.task ≠ .holding u rest' := by
  intro u rest' hu
  refine ha t (by rw [ht]; rfl) ?_
  rw [hu, (hp.writing t rest ht).turn, (hq.writing u rest' hu).turn]
  rfl

theorem acquire_parts {s : Sender ε} {p : SendCall ε} (hs : s.Whole) (hl : s.locked = false)
    (hp : p.Placed s) (hq : p.task = .queued) :
    ({ s with locked := true, turns := s.turns + 1 } : Sender ε).Whole ∧
    ({ p with task := .holding s.turns p.op.frame } : SendCall ε).Placed
      { s with locked := true, turns := s.turns + 1 } ∧
    ∀ q : SendCall ε, q.Placed s →
      q.Placed { s with locked := true, turns := s.turns + 1 } ∧
      ({ p with task := .holding s.turns p.op.frame } : SendCall ε).Apart q := by
  have hturns : s.turns = s.log.length := by
    rw [hs.turns, hl]
    rfl
  obtain ⟨tail, hb, ht⟩ := hs.free hl
  have idle : ∀ q : SendCall ε, q.Placed s → ∀ t rest, q.task ≠ .holding t rest :=
    fun q hq t rest h => absurd (hl.symm.trans (hq.writing t rest h).locked) Bool.false_ne_true
  refine ⟨⟨by rw [hturns]; rfl, nofun⟩, ⟨?_, nofun, fun hr => ?_⟩, fun q hq => ⟨?_, ?_⟩⟩
  · intro t rest h
    cases h
    exact ⟨rfl, hturns, tail, [], rfl, by rw [hb, List.append_nil], ht, .inl rfl⟩
  · obtain ⟨t, r, h⟩ := hp.returned hr
    exact absurd (hq.symm.trans h) nofun
  · exact hq.mono (idle q hq) (List.prefix_refl _)
  · -- the new turn is that of no task before
    intro t ht hqt
    cases ht
    cases hc : q.task with
    | queued => simp [hc, SendTask.turn] at hqt
    | holding u rest => exact idle q hq u rest hc
    | finished u r =>
      have hd := (List.getElem?_eq_some_iff.mp (hq.done u r hc)).1
      rw [hc] at hqt
      cases hqt
      omega

theorem takes_writing {s : Sender ε} {op : Op} {t n : ℕ} {rest : List UInt8}
    (hw : s.Writing op t rest) (hb : s.broken = false) (hf : s.finished = false) :
    (s.take (rest.take n)).Writing op t (rest.drop n) := by
  obtain ⟨hl, ht, tail, written, hframe, hsent, htorn, -⟩ := hw
  have htail : tail = [] := by
    rcases htorn with h | ⟨h, -⟩
    · exact h
    · exact absurd (hb.symm.trans h) Bool.false_ne_true
  refine ⟨hl, ht, [], written ++ rest.take n, ?_, ?_, .inl rfl, .inr ⟨rfl, hf⟩⟩
  · rw [List.append_assoc, List.take_append_drop, hframe]
  · simp only [Sender.take, hsent, htail, List.append_nil, List.append_assoc]

/-- A task that succeeds leaves its whole frame, one that fails what h3 had taken of it. -/
theorem release_whole {s : Sender ε} {op : Op} {t : ℕ} {rest : List UInt8} {r : SendResult ε}
    (hs : s.Whole) (hw : s.Writing op t rest) (hok : r.toBool = true → rest = [])
    (herr : r.toBool = false → op = .finish ∨ s.broken = true ∨ s.finished = true) :
    (s.release op r).Whole := by
  obtain ⟨hl, -, tail, written, hframe, hsent, htorn, hor⟩ := hw
  refine ⟨?_, fun _ => ?_⟩
  · simp only [Sender.release, hs.turns, hl, List.length_append, List.length_singleton]
    rfl
  have htorn' : (s.release op r).Torn tail :=
    htorn.mono id (List.subset_append_left _ _)
  simp only [Sender.release, hsent, List.flatMap_append, List.flatMap_singleton]
  cases hr : r.toBool with
  | true =>
    have hwritten : written = op.frame := by rw [hframe, hok hr, List.append_nil]
    have hlast : Sent.frame ⟨op, r⟩ = written := by rw [hwritten, Sent.frame, if_pos hr]
    rw [hlast]
    rcases hor with rfl | ⟨rfl, -⟩
    · exact ⟨tail, by simp, htorn'⟩
    · exact ⟨[], by simp, .inl rfl⟩
  | false =>
    have hlast : Sent.frame ⟨op, r⟩ = [] := by
      rw [Sent.frame, if_neg (by rw [hr]; exact Bool.false_ne_true)]
    rw [hlast]
    rcases hor with rfl | ⟨rfl, hf⟩
    · exact ⟨tail, by simp, htorn'⟩
    · refine ⟨written, by simp, ?_⟩
      rcases herr hr with rfl | hb | hfin
      · exact .inl (List.append_eq_nil_iff.mp hframe.symm).1
      · exact .inr ⟨hb, _, List.mem_append_right _ (List.mem_singleton_self _), hr, rest,
          hframe.symm⟩
      · exact absurd (hf.symm.trans hfin) Bool.false_ne_true

theorem sendStep_parts {s s' : Sender ε} {p p' : SendCall ε} {a : SendAct ε} (hs : s.Whole)
    (hp : p.Placed s) (hh : H3Sends s p a) (h : SendTakes s p a s' p') :
    s'.Whole ∧ p'.Placed s' ∧
      ∀ q : SendCall ε, q.Placed s → p.Apart q → q.Placed s' ∧ p'.Apart q := by
  cases h with
  | acquire task free =>
    obtain ⟨hwhole, hplaced, hothers⟩ := acquire_parts hs free hp task
    exact ⟨hwhole, hplaced, fun q hq _ => hothers q hq⟩
  | takes n t rest task =>
    have hw := takes_writing (n := n) (hp.writing t rest task) hh.1 hh.2
    refine ⟨⟨hs.turns, fun hl => ?_⟩, ⟨fun u rest' hu => ?_, nofun, fun hr => ?_⟩,
      fun q hq ha => ⟨?_, fun u hu => ha u (by rw [task]; exact hu)⟩⟩
    · exact absurd (hl.symm.trans hw.locked) Bool.false_ne_true
    · cases hu
      exact hw
    · obtain ⟨u, r, hu⟩ := hp.returned hr
      exact absurd (task.symm.trans hu) nofun
    · exact hq.mono (not_holding hp task hq ha) (List.prefix_refl _)
  | answers r t rest task =>
    have hw := hp.writing t rest task
    refine ⟨release_whole hs hw ?_ ?_, ⟨nofun, fun u r' hu => ?_, fun _ => ⟨t, _, rfl⟩⟩,
      fun q hq ha => ⟨?_, fun u hu => ha u (by rw [task]; exact hu)⟩⟩
    · intro hr
      cases r with
      | ok =>
        simp only [H3Sends, task] at hh
        exact hh
      | error e => exact absurd hr Bool.false_ne_true
    · intro hr
      cases r with
      | ok => exact absurd hr.symm Bool.false_ne_true
      | error e => exact hh
    · cases hu
      rw [hw.turn]
      exact List.getElem?_concat_length
    · exact hq.mono (not_holding hp task hq ha) (List.prefix_append _ _)
  | deliver t r task =>
    exact ⟨hs, ⟨hp.writing, hp.done, fun _ => ⟨t, r, task⟩⟩, fun q hq ha => ⟨hq, ha⟩⟩
  | abandon => exact ⟨hs, ⟨hp.writing, hp.done, nofun⟩, fun q hq ha => ⟨hq, ha⟩⟩

/-! ### The calls of the stream -/

def StreamCall.send? : StreamCall Q ε → Option (SendCall ε)
  | send p => some p
  | _ => none

def StreamCall.Placed (s : QuicStream R ε) (p : StreamCall Q ε) : Prop :=
  ∀ q, p.send? = some q → q.Placed s.send

def StreamCall.Apart (p q : StreamCall Q ε) : Prop :=
  ∀ p' q', p.send? = some p' → q.send? = some q' → p'.Apart q'

theorem placed_other {p : StreamCall Q ε} (hn : p.send? = none) (s : QuicStream R ε) :
    p.Placed s ∧ ∀ q, p.Apart q := by
  refine ⟨fun q hq => ?_, fun q p' q' hp' => ?_⟩
  · exact absurd (hn.symm.trans hq) nofun
  · exact absurd (hn.symm.trans hp') nofun

abbrev StreamInv : Config (QuicStream R ε) (StreamCall Q ε) → Prop :=
  System.Inv (fun s => s.send.Whole) (fun s p => p.Placed s) StreamCall.Apart

theorem openedStream_inv (recv : R) :
    StreamInv (openedStream recv : Config (QuicStream R ε) (StreamCall Q ε)) :=
  System.inv_start ⟨rfl, fun _ => ⟨[], rfl, .inl rfl⟩⟩

theorem breaks_placed {s : Sender ε} {q : SendCall ε} (hq : q.Placed s) :
    q.Placed { s with broken := true } := by
  refine ⟨fun t rest ht => ?_, hq.done, hq.returned⟩
  obtain ⟨hl, hturn, tail, written, hf, hsent, htorn, hor⟩ := hq.writing t rest ht
  exact ⟨hl, hturn, tail, written, hf, hsent, htorn.mono (fun _ => rfl) (List.Subset.refl _), hor⟩

theorem step_streamInv {c c' : Config (QuicStream R ε) (StreamCall Q ε)}
    {l : Label (StreamEvent F) (StreamAct B ε)} (hc : StreamInv c)
    (hh : System.Meets H3Trusted c l) (hs : (streaming half).step c l = some c') :
    StreamInv c' := by
  refine (streaming half).step_inv_meeting ?_ ?_ ?_ ?_ hc hh hs
  · exact fun p q h q' p' hq hp t ht hpt => h p' q' hp hq t hpt ht
  · rintro s (_ | e) s' hw he
    · cases he
      obtain ⟨hturns, hfree⟩ := hw
      refine ⟨⟨hturns, fun hl => ?_⟩, fun q hq p hp => breaks_placed (hq p hp)⟩
      obtain ⟨tail, hb, ht⟩ := hfree hl
      exact ⟨tail, hb, ht.mono (fun _ => rfl) (List.Subset.refl _)⟩
    · obtain ⟨r, -, rfl⟩ := Option.map_eq_some_iff.mp he
      exact ⟨hw, fun q hq => hq⟩
  · intro s _
    obtain ⟨hp, ha⟩ := placed_other (p := .unstarted) rfl s
    exact ⟨hp, fun q _ => ha q⟩
  · intro s p a s' p' hw hp hh ha
    cases streamTakes_of_step ha with
    | start a op =>
      refine ⟨hw, fun q hq => ?_, fun q hq _ => ⟨hq, fun q' q'' hq' _ t ht => ?_⟩⟩
      · cases hq
        exact ⟨nofun, nofun, nofun⟩
      · cases hq'
        exact absurd ht nofun
    | startRecv q =>
      obtain ⟨hp, ha⟩ := placed_other (p := .recv q) rfl s
      exact ⟨hw, hp, fun q hq _ => ⟨hq, ha q⟩⟩
    | recv q q' a recv =>
      obtain ⟨hp, ha⟩ := placed_other (p := .recv q') rfl { s with recv := recv }
      exact ⟨hw, hp, fun q hq _ => ⟨hq, ha q⟩⟩
    | send step =>
      obtain ⟨hw', hp', hothers⟩ :=
        sendStep_parts hw (hp _ rfl) hh (sendTakes_of_step step)
      refine ⟨hw', fun q hq => ?_, fun q hq ha => ⟨fun q' hq' => ?_, fun r q' hr hq' => ?_⟩⟩
      · cases hq
        exact hp'
      · exact (hothers q' (hq q' hq') (ha _ q' rfl hq')).1
      · cases hr
        exact (hothers q' (hq q' hq') (ha _ q' rfl hq')).2

def StreamCall.Had (p : StreamCall Q ε) (t : ℕ) : Prop :=
  ∃ q r, p.send? = some q ∧ q.task = .finished t r

theorem StreamCall.Had.stays {s s' : QuicStream R ε} {p p' : StreamCall Q ε} {t : ℕ}
    {a : StreamAct B ε} (h : p.Had t) (ha : (streaming half).act s p a = some (s', p')) :
    p'.Had t := by
  obtain ⟨q, r, hq, ht⟩ := h
  cases streamTakes_of_step ha with
  | start => exact absurd hq nofun
  | startRecv => exact absurd hq nofun
  | recv => exact absurd hq nofun
  | send step =>
    cases hq
    refine ⟨_, r, rfl, ?_⟩
    cases sendTakes_of_step step with
    | acquire task => exact absurd (task.symm.trans ht) nofun
    | takes n u rest task => exact absurd (task.symm.trans ht) nofun
    | answers r' u rest task => exact absurd (task.symm.trans ht) nofun
    | deliver => exact ht
    | abandon => exact ht

def Logged (c : Config (QuicStream R ε) (StreamCall Q ε)) : Prop :=
  ∀ t < c.shared.send.log.length, ∃ (i : ℕ) (p : StreamCall Q ε), c.procs[i]? = some p ∧ p.Had t

theorem step_logged {c c' : Config (QuicStream R ε) (StreamCall Q ε)}
    {l : Label (StreamEvent F) (StreamAct B ε)} (hi : StreamInv c) (hc : Logged c)
    (hs : (streaming half).step c l = some c') : Logged c' := by
  refine (streaming half).step_owned (f := fun s => s.send.log.length)
    (O := StreamCall.Had) hs hc ?_ ?_
  · rintro (_ | e) s he
    · cases he
      exact le_rfl
    · obtain ⟨r, -, rfl⟩ := Option.map_eq_some_iff.mp he
      exact le_rfl
  intro k p a s p' hp ha
  refine ⟨fun t h => h.stays ha, ?_⟩
  cases streamTakes_of_step ha with
  | start a op => exact fun t ht => .inl ht
  | startRecv q => exact fun t ht => .inl ht
  | recv q q' a recv => exact fun t ht => .inl ht
  | send step =>
    have hplaced := hi.proc k _ hp _ rfl
    intro t ht
    cases sendTakes_of_step step with
    | acquire task => exact .inl ht
    | takes n u rest task => exact .inl ht
    | deliver => exact .inl ht
    | abandon => exact .inl ht
    | answers r u rest task =>
      have hu := (hplaced.writing u rest task).turn
      simp only [Sender.release, List.length_append, List.length_singleton] at ht
      rcases Nat.lt_or_ge t c.shared.send.log.length with hlt | hge
      · exact .inl hlt
      · exact .inr ⟨_, _, rfl, congrArg (SendTask.finished · _) (by omega)⟩

/-! ### The order of the calls -/

variable {c c' : Config (QuicStream R ε) (StreamCall Q ε)}

/-- The send call under a number, once it has started. -/
def callAt (c : Config (QuicStream R ε) (StreamCall Q ε)) (i : ℕ) : Option (SendCall ε) :=
  c.procs[i]?.bind StreamCall.send?

def turnAt (c : Config (QuicStream R ε) (StreamCall Q ε)) (i : ℕ) : Option ℕ :=
  (callAt c i).bind fun p => p.task.turn

def frameAt (c : Config (QuicStream R ε) (StreamCall Q ε)) (i : ℕ) : List UInt8 :=
  (callAt c i).elim [] fun p => p.op.frame

def messageAt (c : Config (QuicStream R ε) (StreamCall Q ε)) (i : ℕ) : Option (List UInt8) :=
  (callAt c i).bind fun p => p.op.message?

/-- The task of `i` took the lock before that of `j`. -/
def Before (c : Config (QuicStream R ε) (StreamCall Q ε)) (i j : ℕ) : Prop :=
  ∃ ti tj, turnAt c i = some ti ∧ turnAt c j = some tj ∧ ti < tj

def SendCall.Succeeded (p : SendCall ε) : Prop := ∃ t, p.task = .finished t (.ok ())

def SendCall.Failed (p : SendCall ε) : Prop := ∃ t e, p.task = .finished t (.error e)

/-- The stream has taken the frames of these calls and then the tail. -/
structure Serialised (c : Config (QuicStream R ε) (StreamCall Q ε)) (calls : List ℕ)
    (tail : List UInt8) : Prop where
  bytes : c.shared.send.stream.inner.sent = calls.flatMap (frameAt c) ++ tail
  order : calls.Pairwise (Before c)
  once : calls.Nodup
  succeeded : ∀ i, i ∈ calls ↔ ∃ p, callAt c i = some p ∧ p.Succeeded
  /-- A caller has the answer of its task. -/
  returned : ∀ i p, callAt c i = some p → p.caller = .returned → p.Succeeded ∨ p.Failed
  torn : tail = [] ∨ c.shared.send.broken = true ∧
    ∃ i p, callAt c i = some p ∧ p.Failed ∧ tail <+: p.op.frame
  decoded : (∀ i p, callAt c i = some p → p.op.Fits) → ∃ more,
    messages c.shared.send.stream.inner.sent = calls.filterMap (messageAt c) ++ more ∧
    (more = [] ∨ c.shared.send.broken = true ∧
      ∃ i p m, callAt c i = some p ∧ p.Failed ∧ p.op = .message m ∧ more = [m])

theorem callAt_eq {i : ℕ} {p : StreamCall Q ε} {q : SendCall ε} (hp : c.procs[i]? = some p)
    (hq : p.send? = some q) : callAt c i = some q := by
  rw [callAt, hp, Option.bind_some, hq]

theorem exists_of_callAt {i : ℕ} {q : SendCall ε} (h : callAt c i = some q) :
    ∃ p, c.procs[i]? = some p ∧ p.send? = some q := Option.bind_eq_some_iff.mp h

theorem placed_of_callAt (hi : StreamInv c) {i : ℕ} {q : SendCall ε} (h : callAt c i = some q) :
    q.Placed c.shared.send := by
  obtain ⟨p, hp, hq⟩ := exists_of_callAt h
  exact hi.proc i p hp q hq

theorem turn_unique (hi : StreamInv c) {i j t : ℕ} (hti : turnAt c i = some t)
    (htj : turnAt c j = some t) : i = j := by
  obtain ⟨q, hq, ht⟩ := Option.bind_eq_some_iff.mp hti
  obtain ⟨q', hq', ht'⟩ := Option.bind_eq_some_iff.mp htj
  obtain ⟨p, hp, hpq⟩ := exists_of_callAt hq
  obtain ⟨p', hp', hpq'⟩ := exists_of_callAt hq'
  by_contra hij
  exact hi.pair i j p p' hij hp hp' q q' hpq hpq' t ht ht'

/-- The calls that succeeded in the first `n` turns. -/
structure Upto (c : Config (QuicStream R ε) (StreamCall Q ε)) (n : ℕ) (calls : List ℕ) : Prop where
  bytes : (c.shared.send.log.take n).flatMap Sent.frame = calls.flatMap (frameAt c)
  order : calls.Pairwise (Before c)
  mem : ∀ i, i ∈ calls ↔ ∃ p t, callAt c i = some p ∧ p.task = .finished t (.ok ()) ∧ t < n

theorem turnAt_of_finished {i t : ℕ} {p : SendCall ε} {r : SendResult ε} (hp : callAt c i = some p)
    (ht : p.task = .finished t r) : turnAt c i = some t := by
  rw [turnAt, hp, Option.bind_some, ht]
  rfl

/-- A call that finished in turn `n` is the only one, and its result is that of the turn. -/
theorem finished_unique (hi : StreamInv c) {i j n : ℕ} {p q : SendCall ε} {r r' : SendResult ε}
    (hp : callAt c i = some p) (ht : p.task = .finished n r) (hq : callAt c j = some q)
    (ht' : q.task = .finished n r') : j = i ∧ r' = r := by
  have hji : j = i := turn_unique hi (turnAt_of_finished hq ht') (turnAt_of_finished hp ht)
  subst hji
  cases hq.symm.trans hp
  cases ht'.symm.trans ht
  exact ⟨rfl, rfl⟩

theorem Upto.skip (hi : StreamInv c) {n i : ℕ} {calls : List ℕ} {q : SendCall ε}
    {e : ContextError ε} (hu : Upto c n calls) (hcall : callAt c i = some q)
    (ht : q.task = .finished n (.error e)) (hlog : c.shared.send.log[n]? = some ⟨q.op, .error e⟩) :
    Upto c (n + 1) calls := by
  refine ⟨?_, hu.order, fun j => ⟨fun hj => ?_, ?_⟩⟩
  · rw [List.take_add_one, hlog, List.flatMap_append, hu.bytes]
    exact List.append_nil _
  · obtain ⟨p, t, hj, hpt, hlt⟩ := (hu.mem j).mp hj
    exact ⟨p, t, hj, hpt, Nat.lt_succ_of_lt hlt⟩
  · rintro ⟨p, t, hj, hpt, hlt⟩
    rcases Nat.lt_succ_iff_lt_or_eq.mp hlt with h | rfl
    · exact (hu.mem j).mpr ⟨p, t, hj, hpt, h⟩
    · exact absurd (finished_unique hi hcall ht hj hpt).2 nofun

theorem Upto.push (hi : StreamInv c) {n i : ℕ} {calls : List ℕ} {q : SendCall ε}
    (hu : Upto c n calls) (hcall : callAt c i = some q) (ht : q.task = .finished n (.ok ()))
    (hlog : c.shared.send.log[n]? = some ⟨q.op, .ok ()⟩) : Upto c (n + 1) (calls ++ [i]) := by
  refine ⟨?_, ?_, fun j => ?_⟩
  · rw [List.take_add_one, hlog, List.flatMap_append, hu.bytes, List.flatMap_append,
      List.flatMap_singleton, frameAt, hcall]
    exact congrArg (_ ++ ·) (List.append_nil _)
  · refine List.pairwise_append.mpr ⟨hu.order, List.pairwise_singleton _ _, fun j hj k hk => ?_⟩
    obtain ⟨p, t, hj, hpt, hlt⟩ := (hu.mem j).mp hj
    rw [List.mem_singleton.mp hk]
    exact ⟨t, n, turnAt_of_finished hj hpt, turnAt_of_finished hcall ht, hlt⟩
  · rw [List.mem_append, List.mem_singleton]
    constructor
    · rintro (hj | rfl)
      · obtain ⟨p, t, hj, hpt, hlt⟩ := (hu.mem j).mp hj
        exact ⟨p, t, hj, hpt, Nat.lt_succ_of_lt hlt⟩
      · exact ⟨q, n, hcall, ht, Nat.lt_succ_self n⟩
    · rintro ⟨p, t, hj, hpt, hlt⟩
      rcases Nat.lt_succ_iff_lt_or_eq.mp hlt with h | rfl
      · exact .inl ((hu.mem j).mpr ⟨p, t, hj, hpt, h⟩)
      · exact .inr (finished_unique hi hcall ht hj hpt).1

theorem exists_upto (hi : StreamInv c) (hl : Logged c) (n : ℕ) (hn : n ≤ c.shared.send.log.length) :
    ∃ calls, Upto c n calls := by
  induction n with
  | zero =>
    refine ⟨[], rfl, List.Pairwise.nil, fun i => ⟨fun h => absurd h List.not_mem_nil, ?_⟩⟩
    rintro ⟨p, t, -, -, h⟩
    exact absurd h (Nat.not_lt_zero t)
  | succ n ih =>
    obtain ⟨calls, hu⟩ := ih (by omega)
    obtain ⟨i, p, hp, q, r, hq, ht⟩ := hl n hn
    have hcall := callAt_eq hp hq
    have hlog := (placed_of_callAt hi hcall).done n r ht
    cases r with
    | error e => exact ⟨calls, hu.skip hi hcall ht hlog⟩
    | ok u => exact ⟨calls ++ [i], hu.push hi hcall ht hlog⟩

/-! ### Decoding -/

theorem messages_frame_append {op : Op} (h : op.Fits) (rest : List UInt8) :
    messages (op.frame ++ rest) = op.message?.toList ++ messages rest := by
  cases op with
  | finish => rfl
  | message m =>
    rw [Op.frame, encodeFrame_eq (h m rfl), messages, frames.parse_bytes_append]
    rfl

theorem messages_frames (hfit : ∀ i p, callAt c i = some p → p.op.Fits) (calls : List ℕ)
    (rest : List UInt8) :
    messages (calls.flatMap (frameAt c) ++ rest) =
      calls.filterMap (messageAt c) ++ messages rest := by
  induction calls with
  | nil => rfl
  | cons i calls ih =>
    rw [List.flatMap_cons, List.append_assoc, List.filterMap_cons, frameAt, messageAt]
    cases hc : callAt c i with
    | none => exact ih
    | some p =>
      rw [Option.elim_some, messages_frame_append (hfit i p hc), ih, Option.bind_some]
      cases p.op.message? <;> rfl

/-- The start of a frame holds no message but the frame's own. -/
theorem messages_of_prefix {op : Op} (h : op.Fits) {tail : List UInt8} (ht : tail <+: op.frame) :
    messages tail = [] ∨ ∃ m, op = .message m ∧ messages tail = [m] := by
  have hpre := messages_prefix ht
  have hall := messages_frame_append h []
  rw [List.append_nil, messages_nil, List.append_nil] at hall
  rw [hall] at hpre
  cases op with
  | finish => exact .inl (List.prefix_nil.mp hpre)
  | message m =>
    rcases List.prefix_cons_iff.mp hpre with h | ⟨t, h, hnil⟩
    · exact .inl h
    · rw [List.prefix_nil.mp hnil] at h
      exact .inr ⟨m, rfl, h⟩

theorem serialised (hi : StreamInv c) (hl : Logged c) (hfree : c.shared.send.locked = false) :
    ∃ calls tail, Serialised c calls tail := by
  obtain ⟨calls, hu⟩ := exists_upto hi hl _ le_rfl
  obtain ⟨tail, hsent, htorn⟩ := hi.shared.free hfree
  have hbytes : c.shared.send.stream.inner.sent = calls.flatMap (frameAt c) ++ tail := by
    rw [hsent, ← hu.bytes, List.take_length]
  -- the task that failed belongs to a call
  have torn : tail = [] ∨ c.shared.send.broken = true ∧
      ∃ i p, callAt c i = some p ∧ p.Failed ∧ tail <+: p.op.frame := by
    rcases htorn with h | ⟨hb, e, he, hr, ht⟩
    · exact .inl h
    · obtain ⟨t, hlt, het⟩ := List.mem_iff_getElem.mp he
      obtain ⟨i, p, hp, q, r, hq, hqt⟩ := hl t hlt
      have hcall := callAt_eq hp hq
      have hlog := (placed_of_callAt hi hcall).done t r hqt
      rw [List.getElem?_eq_getElem hlt, het] at hlog
      cases hlog
      cases r with
      | ok => exact absurd hr.symm Bool.false_ne_true
      | error err => exact .inr ⟨hb, i, q, hcall, ⟨t, err, hqt⟩, ht⟩
  refine ⟨calls, tail, hbytes, hu.order, ?_, fun i => ?_, fun i p hp hr => ?_, torn, fun hfit => ?_⟩
  · refine hu.order.imp ?_
    rintro i j ⟨ti, tj, hti, htj, hlt⟩ rfl
    cases hti.symm.trans htj
    exact absurd hlt (Nat.lt_irrefl _)
  · rw [hu.mem]
    constructor
    · rintro ⟨p, t, hp, ht, -⟩
      exact ⟨p, hp, t, ht⟩
    · rintro ⟨p, hp, t, ht⟩
      have hlog := (placed_of_callAt hi hp).done t _ ht
      exact ⟨p, t, hp, ht, (List.getElem?_eq_some_iff.mp hlog).1⟩
  · obtain ⟨t, r, ht⟩ := (placed_of_callAt hi hp).returned hr
    cases r with
    | ok u => exact .inl ⟨t, ht⟩
    | error e => exact .inr ⟨t, e, ht⟩
  · refine ⟨messages tail, by rw [hbytes, messages_frames hfit], ?_⟩
    rcases torn with rfl | ⟨hb, i, p, hp, hf, hpre⟩
    · exact .inl messages_nil
    · rcases messages_of_prefix (hfit i p hp) hpre with h | ⟨m, hm, h⟩
      · exact .inl h
      · exact .inr ⟨hb, i, p, m, hp, hf, hm, h⟩

/-! ### Real time -/

theorem step_turns {l : Label (StreamEvent F) (StreamAct B ε)}
    (hs : (streaming half).step c l = some c') : c.shared.send.turns ≤ c'.shared.send.turns := by
  rcases (streaming half).step_cases hs with ⟨_ | e, s, -, he, rfl⟩ | ⟨-, rfl⟩ |
    ⟨k, a, p, s, p', -, -, ha, rfl⟩
  · cases he
    exact le_rfl
  · obtain ⟨r, -, rfl⟩ := Option.map_eq_some_iff.mp he
    exact le_rfl
  · exact le_rfl
  · cases streamTakes_of_step ha with
    | start => exact le_rfl
    | startRecv => exact le_rfl
    | recv => exact le_rfl
    | send step =>
      cases sendTakes_of_step step with
      | acquire => exact Nat.le_succ _
      | takes => exact le_rfl
      | answers => exact le_rfl
      | deliver => exact le_rfl
      | abandon => exact le_rfl

/-- The lock has been taken `n` times, and call `j` has no turn below. -/
def Later (n j : ℕ) (c : Config (QuicStream R ε) (StreamCall Q ε)) : Prop :=
  n ≤ c.shared.send.turns ∧
    ∀ p, c.procs[j]? = some p → ∀ q t, p.send? = some q → q.task.turn = some t → n ≤ t

theorem step_later {n j : ℕ} {l : Label (StreamEvent F) (StreamAct B ε)} (hc : Later n j c)
    (hs : (streaming half).step c l = some c') : Later n j c' := by
  obtain ⟨hn, hj⟩ := hc
  refine ⟨hn.trans (step_turns hs), ?_⟩
  refine (streaming half).step_follow
    (T := fun _ p => ∀ q t, p.send? = some q → q.task.turn = some t → n ≤ t) hs hj
    (fun _ _ _ _ _ hp _ => hp) (fun q t hq _ => absurd hq nofun) ?_
    (fun _ _ _ _ _ _ _ _ _ hp _ _ => hp)
  intro a p s p' _ _ hp ha q t hq ht
  cases streamTakes_of_step ha with
  | start a op =>
    cases hq
    exact absurd ht nofun
  | startRecv => exact absurd hq nofun
  | recv => exact absurd hq nofun
  | send step =>
    cases hq
    cases sendTakes_of_step step with
    | acquire =>
      cases ht
      exact hn
    | takes m u rest task => exact hp _ t rfl (by rw [task]; exact ht)
    | answers r u rest task => exact hp _ t rfl (by rw [task]; exact ht)
    | deliver => exact hp _ t rfl ht
    | abandon => exact hp _ t rfl ht

theorem turnAt_of_had {i t : ℕ} {p : StreamCall Q ε} (hp : c.procs[i]? = some p)
    (h : p.Had t) : turnAt c i = some t := by
  obtain ⟨q, r, hq, ht⟩ := h
  exact turnAt_of_finished (callAt_eq hp hq) ht

/-- A call that has returned took the lock before every call not yet started. -/
theorem returned_before {labels : List (Label (StreamEvent F) (StreamAct B ε))} {i j : ℕ}
    {p : SendCall ε} (hi : StreamInv c) (hr : run (streaming half).step c labels = some c')
    (hp : callAt c i = some p) (hret : p.caller = .returned) (hj : callAt c j = none)
    (hturn : turnAt c' j ≠ none) : Before c' i j := by
  have hplaced := placed_of_callAt hi hp
  obtain ⟨t, r, ht⟩ := hplaced.returned hret
  obtain ⟨hlt, -⟩ := List.getElem?_eq_some_iff.mp (hplaced.done t r ht)
  obtain ⟨p', hp', hq⟩ := exists_of_callAt hp
  obtain ⟨pi, hpi, hhad⟩ : ∃ pi, c'.procs[i]? = some pi ∧ pi.Had t := by
    refine run_invariant (fun c : Config (QuicStream R ε) (StreamCall Q ε) =>
      ∃ pi, c.procs[i]? = some pi ∧ pi.Had t) ?_ ⟨p', hp', p, r, hq, ht⟩ hr
    rintro c l c' ⟨pi, hpi, h⟩ hs
    exact (streaming half).step_keeps hs hpi h fun a s p' ha => h.stays ha
  have hlater : Later c.shared.send.turns j c' := by
    refine run_invariant (Later c.shared.send.turns j) (fun c l c' => step_later)
      ⟨le_rfl, fun p hp q t hq => ?_⟩ hr
    exact absurd (hj.symm.trans (callAt_eq hp hq)) nofun
  obtain ⟨tj, htj⟩ := Option.ne_none_iff_exists'.mp hturn
  obtain ⟨q, hcall, hqt⟩ := Option.bind_eq_some_iff.mp htj
  obtain ⟨pj, hpj, hqj⟩ := exists_of_callAt hcall
  have hle := hlater.2 pj hpj q tj hqj hqt
  have hturns := hi.shared.turns
  exact ⟨t, tj, turnAt_of_had hpi hhad, htj, by omega⟩

/-! ### All runs -/

theorem run_logged {labels : List (Label (StreamEvent F) (StreamAct B ε))} {recv : R}
    (hh : Along (streaming half).step (System.Meets H3Trusted) (openedStream recv) labels)
    (hr : run (streaming half).step (openedStream recv) labels = some c) :
    StreamInv c ∧ Logged c := by
  refine run_invariant_along (fun c => StreamInv c ∧ Logged c) ?_
    ⟨openedStream_inv recv, fun t ht => absurd ht (Nat.not_lt_zero t)⟩ hh hr
  exact fun c l c' hc hm hs => ⟨step_streamInv hc.1 hm hs, step_logged hc.1 hc.2 hs⟩

/-- In every run, whenever the send lock is free, the stream has taken whole
frames, of the calls that succeeded, once each, in the order of the lock; and a
call that returned before another started comes before it. -/
theorem sends_serialised {pre post : List (Label (StreamEvent F) (StreamAct B ε))} {recv : R}
    {c₁ c : Config (QuicStream R ε) (StreamCall Q ε)}
    (hh : Along (streaming half).step (System.Meets H3Trusted) (openedStream recv) (pre ++ post))
    (h₁ : run (streaming half).step (openedStream recv) pre = some c₁)
    (h₂ : run (streaming half).step c₁ post = some c) :
    (c.shared.send.locked = false → ∃ calls tail, Serialised c calls tail) ∧
    ∀ i j p, callAt c₁ i = some p → p.caller = .returned → callAt c₁ j = none →
      turnAt c j ≠ none → Before c i j := by
  obtain ⟨hi, hl⟩ := run_logged hh (run_append_eq_some.mpr ⟨c₁, h₁, h₂⟩)
  refine ⟨serialised hi hl, fun i j p hp hret hj hturn => ?_⟩
  exact returned_before (run_logged hh.left h₁).1 h₂ hp hret hj hturn

/-- A receive holds its lock and has nothing to receive, and a first message is sent. -/
def firstSent : List (Label (StreamEvent (RecvData Unit)) (StreamAct Act Unit)) :=
  [.spawn, .act 0 .startRecv, .act 0 (.recv .acquire), .spawn, .act 1 (.sendMessage [7]),
    .act 1 (.send .acquire), .act 1 (.send (.takes 6)), .act 1 (.send (.answers (.ok ()))),
    .act 1 (.send .deliver)]

/-- A second one goes out in part, its caller goes away, and the transport fails. -/
def secondTorn : List (Label (StreamEvent (RecvData Unit)) (StreamAct Act Unit)) :=
  [.spawn, .act 2 (.sendMessage [8]), .act 2 (.send .acquire), .act 2 (.send (.takes 2)),
    .act 2 (.send .abandon), .env .breaks, .act 2 (.send (.answers (.error ())))]

theorem firstSent_trusted : Along (streaming receiving).step (System.Meets H3Trusted)
    (openedStream Receiver.start) (firstSent ++ secondTorn) := by decide

theorem firstSent_torn : ∃ c₁ c : Config (QuicStream (Receiver Unit) Unit)
      (StreamCall RecvCall Unit),
    run (streaming receiving).step (openedStream Receiver.start) firstSent = some c₁ ∧
    run (streaming receiving).step c₁ secondTorn = some c ∧
    c.shared.send.locked = false ∧ c.shared.send.stream.inner.sent = [0, 0, 0, 0, 1, 7, 0, 0] := by
  have hrun : (run (streaming receiving).step
      (openedStream Receiver.start : Config (QuicStream (Receiver Unit) Unit) _)
      (firstSent ++ secondTorn)).map (fun c => (c.shared.send.locked, c.shared.send.stream)) =
      some (false, ⟨⟨[0, 0, 0, 0, 1, 7, 0, 0]⟩⟩) := by decide
  obtain ⟨c, hc, hsend⟩ := Option.map_eq_some_iff.mp hrun
  obtain ⟨c₁, h₁, h₂⟩ := run_append_eq_some.mp hc
  obtain ⟨hl, hs⟩ := Prod.mk.inj hsend
  exact ⟨c₁, c, h₁, h₂, hl, by rw [hs]⟩

theorem sends_serialised_torn : ∃ c₁ c : Config (QuicStream (Receiver Unit) Unit)
      (StreamCall RecvCall Unit),
    c.shared.send.stream.inner.sent = [0, 0, 0, 0, 1, 7, 0, 0] ∧
    (∃ calls tail, Serialised c calls tail) ∧
    ∀ i j p, callAt c₁ i = some p → p.caller = .returned → callAt c₁ j = none →
      turnAt c j ≠ none → Before c i j := by
  obtain ⟨c₁, c, h₁, h₂, hfree, hsent⟩ := firstSent_torn
  obtain ⟨hwhole, horder⟩ := sends_serialised firstSent_trusted h₁ h₂
  exact ⟨c₁, c, hsent, hwhole hfree, horder⟩

end ConstructTransport.Ffi
