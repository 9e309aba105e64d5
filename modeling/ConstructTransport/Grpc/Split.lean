import ConstructTransport.Grpc.Stream

/-! Splitting a stream. The source writes the receive loop out twice, once over the
unsplit stream and once over its receive half, and `split` hands the bytes
buffered so far from one to the other. The two loops go through the same passes,
so a receiver cannot tell when, or whether, its stream was split. -/

namespace ConstructTransport.Grpc

open Checked Framing

variable {ε : Type}

/-! ### The unsplit loop -/

namespace QuicStream

/-- Where one pass of the unsplit loop leads. -/
inductive Flow (ε : Type)
  | again (s : QuicStream ε)
  | returned (r : RecvResult ε) (s : QuicStream ε)
  | parked (s : QuicStream ε)

/-- One pass of the loop in `QuicStream::recv_message`. -/
def recvPass (s : QuicStream ε) : Except Panic (QuicStream.Flow ε) := do
  let (frame, recvBuf) ← takeFrame s.recvBuf
  match frame with
  | some body => return .returned (.ok (some body)) { s with recvBuf := recvBuf }
  | none => match s.inner.recv with
    | [] => return .parked { s with recvBuf := recvBuf }
    | .data chunk :: recv => return .again ⟨{ s.inner with recv := recv }, recvBuf ++ chunk⟩
    | .finished :: recv => return .returned (.ok none) ⟨{ s.inner with recv := recv }, recvBuf⟩
    | .failed e :: recv =>
      return .returned (.error ⟨"recv_data", e⟩) ⟨{ s.inner with recv := recv }, recvBuf⟩

/-- The pass, by what the frame code finds in the buffer and h3 answers. -/
theorem recvPass_eq (s : QuicStream ε) :
    s.recvPass = .ok (match frames.take s.recvBuf, s.inner.recv with
      | some (f, rest), _ => .returned (.ok (some f.body)) ⟨s.inner, rest⟩
      | none, [] => .parked s
      | none, .data chunk :: recv => .again ⟨⟨s.inner.send, recv⟩, s.recvBuf ++ chunk⟩
      | none, .finished :: recv => .returned (.ok none) ⟨⟨s.inner.send, recv⟩, s.recvBuf⟩
      | none, .failed e :: recv =>
        .returned (.error ⟨"recv_data", e⟩) ⟨⟨s.inner.send, recv⟩, s.recvBuf⟩) := by
  obtain ⟨⟨send, recv⟩, buf⟩ := s
  rw [recvPass, takeFrame_eq, ok_bind]
  cases frames.take buf with
  | some p => rfl
  | none => rcases recv with _ | ⟨_ | _ | _, _⟩ <;> rfl

namespace Flow

/-- The same place in the loop of the receive half. -/
def split : QuicStream.Flow ε → Grpc.Flow ε
  | again s => .again s.split.2
  | returned r s => .returned r s.split.2
  | parked s => .parked s.split.2

def stream : QuicStream.Flow ε → QuicStream ε
  | again s | returned _ s | parked s => s

end Flow

/-- The two loops agree in every pass, and this one leaves the send half alone. -/
theorem recvPass_split (s : QuicStream ε) :
    ∃ flow, s.recvPass = .ok flow ∧ Grpc.recvPass s.split.2 = .ok flow.split ∧
      flow.stream.inner.send = s.inner.send := by
  refine ⟨_, s.recvPass_eq, ?_⟩
  rw [Grpc.recvPass_eq]
  obtain ⟨⟨send, recv⟩, buf⟩ := s
  cases ht : frames.take buf with
  | some p => simp [split, ht, Flow.split, Flow.stream]
  | none => rcases recv with _ | ⟨_ | _ | _, _⟩ <;> simp [split, ht, Flow.split, Flow.stream]

theorem recvPass_again {s s' : QuicStream ε} (h : s.recvPass = .ok (.again s')) :
    s'.inner.recv.length < s.inner.recv.length := by
  obtain ⟨flow, hp, hs, -⟩ := s.recvPass_split
  cases h.symm.trans hp
  exact Grpc.recvPass_again hs

def recvLoop (s : QuicStream ε) : Except Panic (Poll (RecvResult ε) × QuicStream ε) :=
  match h : s.recvPass with
  | .error p => .error p
  | .ok (.again s') =>
    have := recvPass_again h
    recvLoop s'
  | .ok (.returned r s') => .ok (.ready r, s')
  | .ok (.parked s') => .ok (.pending, s')
termination_by s.inner.recv.length

theorem recvLoop_again {s s' : QuicStream ε} (h : s.recvPass = .ok (.again s')) :
    s.recvLoop = s'.recvLoop := by
  rw [recvLoop]
  split <;> simp_all

theorem recvLoop_returned {s s' : QuicStream ε} {r : RecvResult ε}
    (h : s.recvPass = .ok (.returned r s')) : s.recvLoop = .ok (.ready r, s') := by
  rw [recvLoop]
  split <;> simp_all

theorem recvLoop_parked {s s' : QuicStream ε} (h : s.recvPass = .ok (.parked s')) :
    s.recvLoop = .ok (.pending, s') := by
  rw [recvLoop]
  split <;> simp_all

/-- A call of the unsplit stream and one of its receive half go through the same passes. -/
theorem recvLoop_split (s : QuicStream ε) :
    ∃ r s', s.recvLoop = .ok (r, s') ∧ s.split.2.recvMessage = .ok (r, s'.split.2) ∧
      s'.inner.send = s.inner.send := by
  induction s using recvLoop.induct with
  | case1 s p hp =>
    obtain ⟨flow, hflow, -⟩ := s.recvPass_split
    exact absurd (hp.symm.trans hflow) nofun
  | case2 s s' hp hlt ih =>
    obtain ⟨flow, hflow, hsplit, hsend⟩ := s.recvPass_split
    cases hp.symm.trans hflow
    obtain ⟨r, s'', hr, hr', hs⟩ := ih
    exact ⟨r, s'', (recvLoop_again hp).trans hr, (Grpc.recvLoop_again hsplit).trans hr',
      hs.trans hsend⟩
  | case3 s r s' hp =>
    obtain ⟨flow, hflow, hsplit, hsend⟩ := s.recvPass_split
    cases hp.symm.trans hflow
    exact ⟨.ready r, s', recvLoop_returned hp, Grpc.recvLoop_returned hsplit, hsend⟩
  | case4 s s' hp =>
    obtain ⟨flow, hflow, hsplit, hsend⟩ := s.recvPass_split
    cases hp.symm.trans hflow
    exact ⟨.pending, s', recvLoop_parked hp, Grpc.recvLoop_parked hsplit, hsend⟩

/-- `QuicStream::recv_message` is this loop. -/
theorem recvMessage_eq (s : QuicStream ε) : s.recvMessage = s.recvLoop := by
  obtain ⟨r, s', hr, hr', hs⟩ := s.recvLoop_split
  have hloop : Grpc.recvLoop ⟨s.inner.recv, s.recvBuf⟩ = .ok (r, s'.split.2) := hr'
  rw [recvMessage, hloop, hr, ok_bind, ← hs]
  rfl

end QuicStream

/-! ### The split -/

theorem callTimes_add {σ ρ : Type} {call : σ → Except Panic (ρ × σ)} {n m : ℕ} {s t u : σ}
    {rs rs' : List ρ} (h : callTimes call n s = .ok (rs, t))
    (h' : callTimes call m t = .ok (rs', u)) :
    callTimes call (n + m) s = .ok (rs ++ rs', u) := by
  induction n generalizing s rs with
  | zero =>
    cases h
    rwa [Nat.zero_add]
  | succ n ih =>
    rw [Nat.succ_add]
    simp only [callTimes] at h ⊢
    split at h
    · cases h
    · next r s₁ hc =>
      split at h
      · cases h
      · next rs₁ s₂ hn =>
        cases h
        rw [ih hn]
        rfl

/-- Any number of calls of the unsplit stream, and as many of its receive half. -/
theorem callTimes_split (s : QuicStream ε) (n : ℕ) :
    ∃ rs s', callTimes QuicStream.recvLoop n s = .ok (rs, s') ∧
      callTimes QuicRecvStream.recvMessage n s.split.2 = .ok (rs, s'.split.2) ∧
      s'.inner.send = s.inner.send := by
  induction n generalizing s with
  | zero => exact ⟨[], s, rfl, rfl, rfl⟩
  | succ n ih =>
    obtain ⟨r, t, ht, ht', hsend⟩ := s.recvLoop_split
    obtain ⟨rs, s', hs, hs', hsend'⟩ := ih t
    refine ⟨r :: rs, s', ?_, ?_, hsend'.trans hsend⟩
    · rw [callTimes, ht]
      simp only [hs]
    · rw [callTimes, ht']
      simp only [hs']

/-- Whenever a stream is split, whatever is buffered then: the calls before the
split and those of the receive half after it return what the unsplit stream
returns, and leave what it leaves. -/
theorem split_invisible (s : QuicStream ε) (before after : ℕ) :
    ∃ rs mid rs' half whole,
      callTimes QuicStream.recvLoop before s = .ok (rs, mid) ∧
      callTimes QuicRecvStream.recvMessage after mid.split.2 = .ok (rs', half) ∧
      callTimes QuicStream.recvLoop (before + after) s = .ok (rs ++ rs', whole) ∧
      whole.split = (mid.split.1, half) := by
  obtain ⟨rs, mid, hmid, -, -⟩ := callTimes_split s before
  obtain ⟨rs', whole, hwhole, hhalf, hsend⟩ := callTimes_split mid after
  refine ⟨rs, mid, rs', whole.split.2, whole, hmid, hhalf, callTimes_add hmid hwhole, ?_⟩
  rw [QuicStream.split, QuicStream.split, hsend]

end ConstructTransport.Grpc
