import ConstructTransport.Grpc.Receive

/-! What a receiver makes of a stream that carries a sender's messages. As long as
the bytes that arrive are the first of those sent, the messages returned are the
first of those sent; once they are all of them, so are the messages. -/

namespace ConstructTransport.Grpc

open Checked Framing

variable {ε : Type} {msgs : List (List UInt8)}

theorem messages_encoded (small : ∀ m ∈ msgs, m.length < 2 ^ 32) :
    messages (msgs.flatMap encodeFrame) = msgs := by
  obtain ⟨fs, hm, hb⟩ := flatMap_encodeFrame small
  have hp := frames.parse_flatMap_append fs []
  rw [List.append_nil, frames.parse_none frames.take_nil] at hp
  rw [messages, hb, hp, List.append_nil, hm]

/-- Calls never return more than is in the bytes that arrive. -/
theorem recv_within {script : List (RecvData ε)} {xs : List UInt8} (h : payload script <+: xs)
    (n : ℕ) : ∃ rs half, callTimes QuicRecvStream.recvMessage n ⟨script, []⟩ = .ok (rs, half) ∧
      returnedMessages rs <+: messages xs := by
  obtain ⟨used, hu, hp⟩ := calls_parsed n script
  refine ⟨_, _, callTimes_recv n _, ?_⟩
  have hused : payload used <+: payload script := by
    rw [hu, payload_append]
    exact List.prefix_append _ _
  exact (List.prefix_append _ _).trans (hp.parser ▸ messages_prefix (hused.trans h))

/-- Calls return all of the messages whose frames arrive, and then the end. -/
theorem recv_all (small : ∀ m ∈ msgs, m.length < 2 ^ 32) {chunks : List (List UInt8)}
    (h : chunks.flatten = msgs.flatMap encodeFrame) (later : List (RecvData ε)) :
    callTimes QuicRecvStream.recvMessage (msgs.length + 1)
        ⟨chunks.map .data ++ .finished :: later, []⟩ =
      .ok (msgs.map (fun m => .ready (.ok (some m))) ++ [.ready (.ok none)], ⟨later, []⟩) := by
  obtain ⟨fs, hm, hb⟩ := flatMap_encodeFrame small
  have hc : [] ++ chunks.flatten = fs.flatMap frames.bytes ++ [] := by
    rw [List.nil_append, List.append_nil, h, hb]
  have hl : msgs.length = fs.length := by rw [← hm, List.length_map]
  have hp : (fs.map .item ++ [.finished] : List (Outcome RawFrame ε)).map polled =
      msgs.map (fun m => .ready (.ok (some m))) ++ [.ready (.ok none)] := by
    rw [← hm, List.map_append, List.map_map, List.map_map]
    rfl
  rw [callTimes_recv, hl]
  simp only [frames.calls_finished fs hc frames.take_nil later, hp]

end ConstructTransport.Grpc
