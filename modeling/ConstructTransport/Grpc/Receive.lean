import ConstructTransport.Grpc.Stream

/-! What a receiver of messages can rely on. Whatever bytes a peer sends and
however they are cut, the messages returned are those of the one-shot parser,
each returned as soon as it is buffered, and no byte is lost. The end of the
stream is reported in the same words whether or not a message was cut short. -/

namespace ConstructTransport.Grpc

open Checked Framing

variable {ε : Type}

/-- The account of a run of calls from an empty buffer: `used` are the answers
of h3 it consumed, `rs` its results and `buf` the buffer it left. -/
structure Parsed (used : List (RecvData ε)) (rs : List (Poll (RecvResult ε))) (buf : List UInt8) :
    Prop where
  parser : returnedMessages rs ++ messages buf = messages (payload used)
  drained : ∀ r, rs.getLast? = some r → message? r = none →
    returnedMessages rs = messages (payload used)
  conserved : ∃ fs : List RawFrame, fs.map RawFrame.body = returnedMessages rs ∧
    fs.flatMap (fun f => f.header ++ f.body) ++ buf = payload used

theorem message?_polled {o : Outcome RawFrame ε} (h : message? (polled o) = none) :
    o.items = [] := by
  cases o <;> first | rfl | cases h

theorem calls_parsed (n : ℕ) (script : List (RecvData ε)) :
    ∃ used, script = used ++ (frames.calls n [] script).2.2 ∧
      Parsed used ((frames.calls n [] script).1.map polled) (frames.calls n [] script).2.1 := by
  obtain ⟨used, he, hb⟩ := frames.calls_conserves n [] script
  rw [List.nil_append] at hb
  have hm : messages (payload used) =
      returnedMessages ((frames.calls n [] script).1.map polled) ++
        messages (frames.calls n [] script).2.1 := by
    rw [messages, hb, frames.parse_flatMap_append, List.map_append, returnedMessages_polled,
      messages]
  refine ⟨used, he, hm.symm, ?_, _, (returnedMessages_polled _).symm, hb.symm⟩
  intro r hr hn
  rw [List.getLast?_map] at hr
  obtain ⟨o, ho, rfl⟩ := Option.map_eq_some_iff.mp hr
  have ht := frames.calls_last_stuck n [] script ho (message?_polled hn)
  rw [hm, messages, frames.parse_none ht, List.map_nil, List.append_nil]

/-- A frame that is whole in the buffer is returned without a poll of h3. -/
theorem recvLoop_buffered (f : RawFrame) (rest : List UInt8) (inner : List (RecvData ε)) :
    recvLoop ⟨inner, f.bytes ++ rest⟩ = .ok (.ready (.ok (some f.body)), ⟨inner, rest⟩) := by
  have ht : frames.take (f.bytes ++ rest) = some (f, rest) := RawFrame.take_bytes f rest
  rw [recvLoop_eq, frames.next_of_take ht]
  rfl

/-! ### Round trip -/

theorem flatMap_encodeFrame {msgs : List (List UInt8)} (small : ∀ m ∈ msgs, m.length < 2 ^ 32) :
    ∃ fs : List RawFrame, fs.map RawFrame.body = msgs ∧
      msgs.flatMap encodeFrame = fs.flatMap frames.bytes := by
  induction msgs with
  | nil => exact ⟨[], rfl, rfl⟩
  | cons m msgs ih =>
    obtain ⟨fs, hm, hb⟩ := ih fun x hx => small x (List.mem_cons_of_mem _ hx)
    have hs := small m List.mem_cons_self
    refine ⟨⟨0, m, hs⟩ :: fs, congrArg (m :: ·) hm, ?_⟩
    rw [List.flatMap_cons, List.flatMap_cons, hb, encodeFrame_eq hs]

/-- Messages sent in a row arrive in a row, whatever the transport's chunks. -/
theorem messages_round_trip (msgs : List (List UInt8)) (small : ∀ m ∈ msgs, m.length < 2 ^ 32)
    (chunks : List (List UInt8)) (cut : chunks.flatten = msgs.flatMap encodeFrame)
    (later : List (RecvData ε)) (send : H3SendHalf) :
    (∀ s : QuicStream ε, (s.sendMessages msgs).inner.send.sent =
      s.inner.send.sent ++ msgs.flatMap encodeFrame) ∧
    callTimes QuicStream.recvMessage (msgs.length + 1)
        ⟨⟨send, chunks.map .data ++ .finished :: later⟩, []⟩ =
      .ok (msgs.map (fun m => .ready (.ok (some m))) ++ [.ready (.ok none)], ⟨⟨send, later⟩, []⟩) ∧
    callTimes QuicRecvStream.recvMessage (msgs.length + 1)
        ⟨chunks.map .data ++ .finished :: later, []⟩ =
      .ok (msgs.map (fun m => .ready (.ok (some m))) ++ [.ready (.ok none)], ⟨later, []⟩) := by
  obtain ⟨fs, hm, hb⟩ := flatMap_encodeFrame small
  have hc : [] ++ chunks.flatten = fs.flatMap frames.bytes ++ [] := by
    rw [List.nil_append, List.append_nil, cut, hb]
  have hl : msgs.length = fs.length := by rw [← hm, List.length_map]
  have hr := frames.calls_finished fs hc frames.take_nil later
  have hp : (fs.map .item ++ [.finished] : List (Outcome RawFrame ε)).map polled =
      msgs.map (fun m => .ready (.ok (some m))) ++ [.ready (.ok none)] := by
    rw [← hm, List.map_append, List.map_map, List.map_map]
    rfl
  refine ⟨fun s => s.sendMessages_sent msgs, ?_, ?_⟩
  · rw [callTimes_stream, hl]
    simp only [hr, hp]
  · rw [callTimes_recv, hl]
    simp only [hr, hp]

theorem messages_round_trip_cut_in_header :
    callTimes QuicStream.recvMessage 3
        (⟨⟨⟨[]⟩, [.data [0, 0], .data [], .data [0, 0, 1, 7, 0, 0, 0, 0, 0], .finished]⟩, []⟩ :
          QuicStream Unit) =
      .ok ([.ready (.ok (some [7])), .ready (.ok (some [])), .ready (.ok none)],
        ⟨⟨⟨[]⟩, []⟩, []⟩) :=
  (messages_round_trip [[7], []] (by decide)
    [[0, 0], [], [0, 0, 1, 7, 0, 0, 0, 0, 0]] (by decide) []
    ⟨[]⟩).2.1

/-! ### Any peer -/

/-- Both streams parse any script of answers, for any number of calls: they do
not panic, they return what the one-shot parser of the bytes received returns,
they return a buffered message without polling, and they conserve every byte. -/
theorem recv_message_parses (script : List (RecvData ε)) (n : ℕ) (send : H3SendHalf) :
    (∃ used later rs buf, script = used ++ later ∧
      callTimes QuicStream.recvMessage n ⟨⟨send, script⟩, []⟩ = .ok (rs, ⟨⟨send, later⟩, buf⟩) ∧
      callTimes QuicRecvStream.recvMessage n ⟨script, []⟩ = .ok (rs, ⟨later, buf⟩) ∧
      Parsed used rs buf) ∧
    ∀ (f : RawFrame) (rest : List UInt8) (inner : List (RecvData ε)),
      QuicStream.recvMessage ⟨⟨send, inner⟩, f.bytes ++ rest⟩ =
        .ok (.ready (.ok (some f.body)), ⟨⟨send, inner⟩, rest⟩) ∧
      QuicRecvStream.recvMessage ⟨inner, f.bytes ++ rest⟩ =
        .ok (.ready (.ok (some f.body)), ⟨inner, rest⟩) := by
  constructor
  · obtain ⟨used, he, hp⟩ := calls_parsed n script
    exact ⟨used, _, _, _, he, callTimes_stream n _, callTimes_recv n _, hp⟩
  · intro f rest inner
    refine ⟨?_, recvLoop_buffered f rest inner⟩
    rw [QuicStream.recvMessage, recvLoop_buffered, ok_bind]
    rfl

/-! ### The end of the stream -/

/-- What the call that meets the end of the stream owes its caller: an end only
on a frame boundary, and an error off one. -/
def TruncationReported (received : List UInt8) (r : Poll (RecvResult ε)) : Prop :=
  (r = .ready (.ok none) → frames.Whole received) ∧
    (¬ frames.Whole received → ∃ e, r = .ready (.error e))

theorem calls_finished (chunks : List (List UInt8)) (later : List (RecvData ε)) :
    frames.calls ((messages chunks.flatten).length + 1) []
        (chunks.map .data ++ .finished :: later) =
      ((frames.parse chunks.flatten).1.map .item ++ [.finished], residue chunks.flatten,
        later) := by
  obtain ⟨hs, ht⟩ := frames.parse_spec chunks.flatten
  rw [messages, List.length_map]
  exact frames.calls_finished _ hs ht later

/-- The call that meets the end reports a truncation exactly when there is none
to report. -/
theorem end_reported_iff (chunks : List (List UInt8)) (later : List (RecvData ε))
    (send : H3SendHalf) :
    ∃ rs r,
      callTimes QuicStream.recvMessage ((messages chunks.flatten).length + 1)
          ⟨⟨send, chunks.map .data ++ .finished :: later⟩, []⟩ =
        .ok (rs ++ [r], ⟨⟨send, later⟩, residue chunks.flatten⟩) ∧
      callTimes QuicRecvStream.recvMessage ((messages chunks.flatten).length + 1)
          ⟨chunks.map .data ++ .finished :: later, []⟩ =
        .ok (rs ++ [r], ⟨later, residue chunks.flatten⟩) ∧
      returnedMessages rs = messages chunks.flatten ∧
      (TruncationReported chunks.flatten r ↔ residue chunks.flatten = []) := by
  have hf := calls_finished chunks later
  refine ⟨((frames.parse chunks.flatten).1.map .item).map polled, .ready (.ok none), ?_, ?_, ?_, ?_⟩
  · rw [callTimes_stream]
    simp only [hf, List.map_append]
    rfl
  · rw [callTimes_recv]
    simp only [hf, List.map_append]
    rfl
  · rw [returnedMessages_polled, messages]
    simp [List.flatMap_map, Outcome.items]
  · rw [residue, ← frames.whole_iff]
    exact ⟨fun h => h.1 rfl, fun h => ⟨fun _ => h, fun hn => absurd h hn⟩⟩

/-- A stream that ends two bytes into a three-byte message ends cleanly. -/
theorem truncated_end_is_clean :
    callTimes QuicStream.recvMessage 1
        (⟨⟨⟨[]⟩, [.data [0, 0, 0, 0, 3, 65, 66], .finished]⟩, []⟩ : QuicStream Unit) =
      .ok ([.ready (.ok none)], ⟨⟨⟨[]⟩, []⟩, [0, 0, 0, 0, 3, 65, 66]⟩) ∧
    callTimes QuicRecvStream.recvMessage 1
        (⟨[.data [0, 0, 0, 0, 3, 65, 66], .finished], []⟩ : QuicRecvStream Unit) =
      .ok ([.ready (.ok none)], ⟨[], [0, 0, 0, 0, 3, 65, 66]⟩) ∧
    ¬ TruncationReported (ε := Unit) [0, 0, 0, 0, 3, 65, 66] (.ready (.ok none)) := by
  refine ⟨by rw [callTimes_stream]; rfl, by rw [callTimes_recv]; rfl, fun h => ?_⟩
  have ht : frames.take [0, 0, 0, 0, 3, 65, 66] = none := by rfl
  have hw := (frames.whole_iff _).mp (h.1 rfl)
  rw [frames.parse_none ht] at hw
  contradiction

end ConstructTransport.Grpc
