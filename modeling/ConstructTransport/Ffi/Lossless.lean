import ConstructTransport.Ffi.Receive

/-! Whether a message can be lost between the stream and its callers. The task of
a call whose caller is gone keeps the receive lock and keeps reading, and what
it takes out of the stream is nobody's. A run loses nothing exactly where no
such task takes a frame and no caller goes away after its task has taken one. -/

namespace ConstructTransport.Ffi

open Checked Framing Grpc Interleaving Runs

variable {ε : Type}

/-! ### Further calls -/

/-- Any large enough number of further calls returns the messages `ms`. -/
def Further (s : QuicRecvStream ε) (ms : List (List UInt8)) : Prop :=
  ∃ m, ∀ n, m ≤ n → ∃ rs s', callTimes QuicRecvStream.recvMessage n s = .ok (rs, s') ∧
    returnedMessages rs = ms

theorem further_messages (s : QuicRecvStream ε) :
    Further s (messages (s.recvBuf ++ payload s.inner)) := by
  refine ⟨s.recvBuf.length + (payload s.inner).length + s.inner.length, fun n hn => ?_⟩
  refine ⟨_, _, callTimes_recv n s, ?_⟩
  rw [returnedMessages_polled, frames.calls_rest hn]
  rfl

theorem Further.unique {s : QuicRecvStream ε} {ms ms' : List (List UInt8)} (h : Further s ms)
    (h' : Further s ms') : ms = ms' := by
  obtain ⟨m, hm⟩ := h
  obtain ⟨m', hm'⟩ := h'
  obtain ⟨rs, t, hr, rfl⟩ := hm (max m m') (Nat.le_max_left m m')
  obtain ⟨rs', t', hr', rfl⟩ := hm' (max m m') (Nat.le_max_right m m')
  rw [hr] at hr'
  cases hr'
  rfl

/-! ### Losing nothing -/

/-- The messages of the log that have a caller, in the order of the lock, and
what further calls return are the messages of the stream; each belongs to one
call, whose caller waits for it or has it. -/
structure Lossless (c : Config (Receiver ε) RecvCall) : Prop where
  complete : ∃ ms, Further c.shared.stream ms ∧
    c.shared.log.filterMap Entry.kept ++ ms = messages (payload c.shared.arrived)
  owned : ∀ (t : ℕ) (e : Entry ε), c.shared.log[t]? = some e → e.message ≠ none →
    ∃ (i : ℕ) (p : RecvCall), c.procs[i]? = some p ∧ p.task = .finished t ∧ p.caller ≠ .abandoned ∧
      ∀ (j : ℕ) (q : RecvCall), c.procs[j]? = some q → q.task = .finished t → j = i

def Kept (log : List (Entry ε)) : Prop := ∀ e ∈ log, e.dropped = true → e.message = none

theorem kept_length_le (log : List (Entry ε)) :
    (log.filterMap Entry.kept).length ≤ (log.filterMap Entry.message).length := by
  induction log with
  | nil => exact le_rfl
  | cons e log ih =>
    rw [List.filterMap_cons, List.filterMap_cons, Entry.kept]
    cases e.dropped <;> cases e.message <;> simp <;> omega

/-- The messages that have a caller are all messages only where none has lost its caller. -/
theorem kept_iff (log : List (Entry ε)) :
    log.filterMap Entry.kept = log.filterMap Entry.message ↔ Kept log := by
  induction log with
  | nil => simp [Kept]
  | cons e log ih =>
    have hle := kept_length_le log
    unfold Kept at ih ⊢
    rw [List.forall_mem_cons, ← ih, List.filterMap_cons, List.filterMap_cons, Entry.kept]
    cases hd : e.dropped <;> cases hm : e.message <;> simp
    intro he
    rw [he, List.length_cons] at hle
    omega

theorem lossless_iff_kept {c : Config (Receiver ε) RecvCall} (hi : ReceivingInv c)
    (hc : Covered c) : Lossless c ↔ Kept c.shared.log := by
  obtain ⟨fs, hm, hb⟩ := hi.shared.bytes
  have hall : messages (payload c.shared.arrived) = c.shared.log.filterMap Entry.message ++
      messages (c.shared.stream.recvBuf ++ payload c.shared.stream.inner) := by
    rw [messages, hb, frames.parse_flatMap_append, List.map_append, hm]
    rfl
  constructor
  · rintro ⟨⟨ms, hf, he⟩, -⟩
    rw [hf.unique (further_messages _), hall] at he
    exact (kept_iff _).mp (List.append_cancel_right he)
  · intro hk
    refine ⟨⟨_, further_messages _, by rw [hall, (kept_iff _).mpr hk]⟩, fun t e he hne => ?_⟩
    obtain ⟨i, p, hp, ht⟩ := hc t (List.getElem?_eq_some_iff.mp he).1
    obtain ⟨e', he', hd⟩ := (hi.proc i p hp).of_finished ht
    cases he.symm.trans he'
    refine ⟨i, p, hp, ht, fun ha => hne (hk e (List.mem_of_getElem? he) (hd.mpr ha)), ?_⟩
    intro j q hq htq
    by_contra hij
    exact hi.pair i j p q (Ne.symm hij) hp hq t (by rw [ht]; rfl) (by rw [htq]; rfl)

/-! ### The condition -/

/-- A task whose caller is gone does not go on while a whole frame is buffered,
and no caller goes away after its task has taken a message. -/
def Attended (c : Config (Receiver ε) RecvCall) (l : Label (RecvData ε) Act) : Prop :=
  ∀ (i : ℕ) (p : RecvCall), c.procs[i]? = some p →
    (l = .act i .pass → p.caller = .abandoned → frames.take c.shared.stream.recvBuf = none) ∧
    (l = .act i .abandon → ∀ t e, p.task = .finished t → c.shared.log[t]? = some e →
      e.message = none)

theorem attended_act {c : Config (Receiver ε) RecvCall} {k : ℕ} {p : RecvCall} {a : Act}
    (hp : c.procs[k]? = some p) : Attended c (.act k a) ↔
      (a = .pass → p.caller = .abandoned → frames.take c.shared.stream.recvBuf = none) ∧
      (a = .abandon →
        ∀ t e, p.task = .finished t → c.shared.log[t]? = some e → e.message = none) := by
  constructor
  · intro h
    exact ⟨fun ha => (h k p hp).1 (by rw [ha]), fun ha => (h k p hp).2 (by rw [ha])⟩
  · rintro ⟨h₁, h₂⟩ i q hq
    constructor
    · intro hl
      cases hl
      cases hq.symm.trans hp
      exact h₁ rfl
    · intro hl
      cases hl
      cases hq.symm.trans hp
      exact h₂ rfl

theorem kept_append (log : List (Entry ε)) (e : Entry ε) :
    Kept (log ++ [e]) ↔ Kept log ∧ (e.dropped = true → e.message = none) := by
  unfold Kept
  rw [List.forall_mem_append, List.forall_mem_singleton]

theorem kept_modify (log : List (Entry ε)) (t : ℕ) :
    Kept (log.modify t Entry.drop) ↔ Kept log ∧ ∀ e, log[t]? = some e → e.message = none := by
  unfold Kept
  induction log generalizing t with
  | nil => simp
  | cons e log ih =>
    cases t with
    | zero =>
      rw [List.modify_zero_cons, List.forall_mem_cons, List.forall_mem_cons]
      constructor
      · rintro ⟨he, hl⟩
        have hn : e.message = none := he rfl
        refine ⟨⟨fun _ => hn, hl⟩, fun e' he' => ?_⟩
        cases he'
        exact hn
      · rintro ⟨⟨-, hl⟩, he⟩
        exact ⟨fun _ => he e rfl, hl⟩
    | succ t =>
      rw [List.modify_succ_cons, List.forall_mem_cons, List.forall_mem_cons, ih, and_assoc]
      rfl

theorem step_kept {c c' : Config (Receiver ε) RecvCall} {l : Label (RecvData ε) Act}
    (hs : receiving.step c l = some c') :
    Kept c'.shared.log ↔ Kept c.shared.log ∧ Attended c l := by
  rcases receiving.step_cases hs with ⟨ev, s, rfl, he, rfl⟩ | ⟨rfl, rfl⟩ |
    ⟨k, a, p, s, p', rfl, hp, ha, rfl⟩
  · cases he
    exact (and_iff_left fun i p _ => ⟨nofun, nofun⟩).symm
  · exact (and_iff_left fun i p _ => ⟨nofun, nofun⟩).symm
  rw [attended_act hp]
  cases recvTakes_of_step ha with
  | acquire => exact (and_iff_left ⟨nofun, nofun⟩).symm
  | goesRound t stream task pass =>
    exact (and_iff_left ⟨fun _ _ => (recvPass_goes_round pass).1, nofun⟩).symm
  | returns t r stream task pass =>
    rw [kept_append, decide_eq_true_iff]
    refine and_congr_right fun _ => ⟨fun h => ⟨fun _ hc => ?_, nofun⟩, fun h hc => ?_⟩
    · rcases recvPass_returned pass with ⟨f, rest, -, rfl, -⟩ | ⟨hnone, -⟩
      · exact absurd (h hc) nofun
      · exact hnone
    · rcases recvPass_returned pass with ⟨f, rest, hf, -⟩ | ⟨-, hr, -⟩
      · exact absurd (hf.symm.trans (h.1 rfl hc)) nofun
      · exact hr
  | deliver => exact (and_iff_left ⟨nofun, nofun⟩).symm
  | drop t task =>
    rw [kept_modify]
    refine and_congr_right fun _ => ⟨fun h => ⟨nofun, fun _ u e hu he => h e ?_⟩, fun h e => ?_⟩
    · cases task.symm.trans hu
      exact he
    · exact h.2 rfl t e task
  | detach task => exact (and_iff_left ⟨nofun, fun _ u e hu => absurd hu (task u)⟩).symm

/-- A run loses no message exactly where every message it takes is attended to. -/
theorem recv_message_lossless_iff {labels : List (Label (RecvData ε) Act)}
    {c : Config (Receiver ε) RecvCall} (h : run receiving.step opened labels = some c) :
    Lossless c ↔ Along receiving.step Attended opened labels := by
  have hinv := run_invariant (fun c : Config (Receiver ε) RecvCall => ReceivingInv c ∧ Covered c)
    (fun c l c' hc hs => ⟨step_receivingInv hc.1 hs, step_covered hc.1 hc.2 hs⟩)
    ⟨opened_inv, by intro t ht; exact absurd ht (Nat.not_lt_zero t)⟩ h
  rw [lossless_iff_kept hinv.1 hinv.2, run_iff_along ReceivingInv (fun c => Kept c.shared.log)
    (fun c l c' => step_receivingInv) (fun c l c' _ => step_kept) opened_inv h]
  exact and_iff_right fun e he => absurd he List.not_mem_nil

/-- A call takes the lock and its caller goes away; then a message arrives and is taken. -/
def timedOut : List (Label (RecvData Unit) Act) :=
  [.spawn, .act 0 .acquire, .act 0 .abandon, .env (.data [0, 0, 0, 0, 1, 7]), .act 0 .pass,
    .act 0 .pass]

theorem timedOut_run : ∃ c, run receiving.step opened timedOut = some c ∧
    c.shared.log = [⟨.ok (some [7]), true⟩] ∧ c.procs = [⟨.abandoned, .finished 0⟩] :=
  ⟨_, rfl, rfl, rfl⟩

theorem recv_message_lossless_iff_timedOut : ∃ c, run receiving.step opened timedOut = some c ∧
    (Lossless c ↔ Along receiving.step Attended opened timedOut) := by
  obtain ⟨c, h, -⟩ := timedOut_run
  exact ⟨c, h, recv_message_lossless_iff h⟩

/-- The message that arrives after its caller has timed out is lost. -/
theorem abandoned_call_consumes : ¬∀ (labels : List (Label (RecvData Unit) Act)) c,
    run receiving.step opened labels = some c → Lossless c := by
  intro h
  obtain ⟨c, hc, hlog, hprocs⟩ := timedOut_run
  obtain ⟨i, p, hp, -, hn, -⟩ := (h timedOut c hc).owned 0 ⟨.ok (some [7]), true⟩
    (by rw [hlog]; rfl) (Option.some_ne_none [7])
  rw [hprocs] at hp
  exact hn (by rw [List.mem_singleton.mp (List.mem_of_getElem? hp)])

end ConstructTransport.Ffi
