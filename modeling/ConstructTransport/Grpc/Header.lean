import ConstructTransport.Grpc.Split

/-! What the header of a frame says, and who listens. The encoder writes flag zero
and the low 32 bits of the length. The decoder drops the flag and believes the
length. So a frame that says it is compressed is delivered like any other, and
a message too long for its prefix goes out under a length that is not its own. -/

namespace ConstructTransport.Grpc

open Checked Framing

variable {ε : Type}

/-! ### The flag -/

/-- A whole frame in front of the bytes has flag zero. -/
def Unflagged (bytes : List UInt8) : Prop :=
  ∀ flag b₀ b₁ b₂ b₃ rest, bytes = flag :: b₀ :: b₁ :: b₂ :: b₃ :: rest →
    (u32FromBeBytes b₀ b₁ b₂ b₃).toNat ≤ rest.length → flag = 0

theorem unflagged_iff {bytes : List UInt8} :
    Unflagged bytes ↔ ∀ f rest, frames.take bytes = some (f, rest) → f.flag = 0 := by
  constructor
  · intro h f rest ht
    rcases bytes with _ | ⟨flag, _ | ⟨b₀, _ | ⟨b₁, _ | ⟨b₂, _ | ⟨b₃, tail⟩⟩⟩⟩⟩
    case cons.cons.cons.cons.cons =>
      have ht' : RawFrame.take (flag :: b₀ :: b₁ :: b₂ :: b₃ :: tail) = some (f, rest) := ht
      rw [RawFrame.take_cons] at ht'
      split_ifs at ht' with hle
      cases ht'
      exact h flag b₀ b₁ b₂ b₃ tail rfl hle
    all_goals contradiction
  · rintro h flag b₀ b₁ b₂ b₃ rest rfl hle
    exact h _ _ ((RawFrame.take_cons flag b₀ b₁ b₂ b₃ rest).trans (if_pos hle))

/-- A frame is what the encoder writes for its body exactly if its flag is zero. -/
theorem bytes_eq_encodeFrame_iff {f : RawFrame} {rest : List UInt8} :
    frames.bytes f ++ rest = encodeFrame f.body ++ rest ↔ f.flag = 0 := by
  rw [encodeFrame_eq f.small, List.append_cancel_right_eq]
  constructor
  · intro h
    exact (List.cons.inj h).1
  · intro h
    rw [← h]

theorem takeFrame_some {buf body rest : List UInt8} :
    takeFrame buf = .ok (some body, rest) ↔
      ∃ f, frames.take buf = some (f, rest) ∧ f.body = body := by
  rw [takeFrame_eq]
  cases frames.take buf with
  | none => simp
  | some p => simp [Prod.ext_iff, and_comm]

/-- What comes off the front of the bytes is in the encoder's form exactly if it is unflagged. -/
theorem canonical_iff {bytes : List UInt8} :
    (∀ f rest, frames.take bytes = some (f, rest) → bytes = encodeFrame f.body ++ rest) ↔
      Unflagged bytes := by
  rw [unflagged_iff]
  refine forall₃_congr fun f rest ht => ?_
  rw [frames.bytes_take ht]
  exact bytes_eq_encodeFrame_iff

theorem recvLoop_message {s : QuicRecvStream ε} {m rest : List UInt8} :
    (∃ s', recvLoop s = .ok (.ready (.ok (some m)), s') ∧
      s'.recvBuf ++ arriving s'.inner = rest) ↔
      ∃ f, frames.take (s.recvBuf ++ arriving s.inner) = some (f, rest) ∧ f.body = m := by
  rw [recvLoop_eq]
  constructor
  · rintro ⟨s', h, rfl⟩
    cases hn : (frames.next s.recvBuf s.inner).1 with
    | item f =>
      rw [hn] at h
      cases h
      exact ⟨f, frames.next_arriving hn, rfl⟩
    | finished | failed e | parked =>
      rw [hn] at h
      cases h
  · rintro ⟨f, ht, rfl⟩
    have hn := frames.next_of_arriving ht
    have ha := frames.next_arriving hn
    rw [ht] at ha
    cases ha
    exact ⟨_, by rw [hn]; rfl, rfl⟩

theorem recvLoop_canonical_iff (s : QuicRecvStream ε) :
    (∀ m s', recvLoop s = .ok (.ready (.ok (some m)), s') →
      s.recvBuf ++ arriving s.inner = encodeFrame m ++ (s'.recvBuf ++ arriving s'.inner)) ↔
        Unflagged (s.recvBuf ++ arriving s.inner) := by
  rw [← canonical_iff]
  constructor
  · intro h f rest ht
    obtain ⟨s', hs', rfl⟩ := recvLoop_message.mpr ⟨f, ht, rfl⟩
    exact h f.body s' hs'
  · intro h m s' hs'
    obtain ⟨f, ht, rfl⟩ := recvLoop_message.mp ⟨s', hs', rfl⟩
    exact h f _ ht

/-- The decoder, and both streams, take off what the encoder writes exactly where no
whole frame in front is flagged. -/
theorem canonical_iff_unflagged :
    (∀ buf : List UInt8, (∀ body rest, takeFrame buf = .ok (some body, rest) →
      buf = encodeFrame body ++ rest) ↔ Unflagged buf) ∧
    (∀ s : QuicStream ε, (∀ m s', s.recvMessage = .ok (.ready (.ok (some m)), s') →
      s.recvBuf ++ arriving s.inner.recv =
        encodeFrame m ++ (s'.recvBuf ++ arriving s'.inner.recv)) ↔
          Unflagged (s.recvBuf ++ arriving s.inner.recv)) ∧
    ∀ s : QuicRecvStream ε, (∀ m s', s.recvMessage = .ok (.ready (.ok (some m)), s') →
      s.recvBuf ++ arriving s.inner = encodeFrame m ++ (s'.recvBuf ++ arriving s'.inner)) ↔
        Unflagged (s.recvBuf ++ arriving s.inner) := by
  refine ⟨fun buf => ?_, fun s => ?_, recvLoop_canonical_iff⟩
  · rw [← canonical_iff]
    constructor
    · exact fun h f rest ht => h f.body rest (takeFrame_some.mpr ⟨f, ht, rfl⟩)
    · intro h body rest hb
      obtain ⟨f, ht, rfl⟩ := takeFrame_some.mp hb
      exact h f rest ht
  · -- the unsplit stream returns what its receive half would
    obtain ⟨r, t, ht, hhalf, -⟩ := s.recvLoop_split
    refine Iff.trans ?_ (recvLoop_canonical_iff s.split.2)
    have hloop : recvLoop s.split.2 = .ok (r, t.split.2) := hhalf
    rw [s.recvMessage_eq, ht, hloop]
    constructor
    · intro h m s' hs'
      cases hs'
      exact h m t rfl
    · intro h m s' hs'
      cases hs'
      exact h m t.split.2 rfl

/-- A frame that says it is compressed is delivered as it is. -/
theorem flagged_is_delivered :
    (¬∀ buf body rest : List UInt8, takeFrame buf = .ok (some body, rest) →
      buf = encodeFrame body ++ rest) ∧
    ¬∀ (s s' : QuicStream Unit) (m : List UInt8),
      s.recvMessage = .ok (.ready (.ok (some m)), s') →
      s.recvBuf ++ arriving s.inner.recv =
        encodeFrame m ++ (s'.recvBuf ++ arriving s'.inner.recv) := by
  have hne : ([1, 0, 0, 0, 1, 7] : List UInt8) ≠ encodeFrame [7] ++ [] := by decide
  refine ⟨fun h => hne (h _ _ _ (by decide)), fun h => hne ?_⟩
  refine h ⟨⟨⟨[]⟩, [.data [1, 0, 0, 0, 1, 7]]⟩, []⟩ ⟨⟨⟨[]⟩, []⟩, []⟩ [7] ?_
  rw [QuicStream.recvMessage, recvLoop_eq]
  rfl

/-! ### The length -/

def lowLength (m : List UInt8) : ℕ := m.length % 2 ^ 32

theorem lowLength_lt (m : List UInt8) : lowLength m < 2 ^ 32 := Nat.mod_lt _ (by decide)

theorem length_take_lowLength (m : List UInt8) : (m.take (lowLength m)).length = lowLength m :=
  List.length_take_of_le (Nat.mod_le _ _)

/-- The encoder writes the frame of the bytes that its length counts, and all the
others behind it. -/
theorem encodeFrame_split (m : List UInt8) :
    ∃ f : RawFrame, f.body = m.take (lowLength m) ∧
      encodeFrame m = frames.bytes f ++ m.drop (lowLength m) := by
  have hlen := length_take_lowLength m
  refine ⟨⟨0, m.take (lowLength m), hlen.trans_lt (lowLength_lt m)⟩, rfl, ?_⟩
  have hcast : UInt32.ofNat m.length = UInt32.ofNat (m.take (lowLength m)).length := by
    apply UInt32.toNat_inj.mp
    rw [hlen, UInt32.toNat_ofNat', UInt32.toNat_ofNat', lowLength, Nat.mod_mod]
  calc encodeFrame m
      = (0 :: putU32 (UInt32.ofNat (m.take (lowLength m)).length)) ++
          (m.take (lowLength m) ++ m.drop (lowLength m)) := by
        rw [List.take_append_drop, ← hcast]
        rfl
    _ = _ := (List.append_assoc _ _ _).symm

/-- A receiver takes as much for the message as the header says. -/
theorem takeFrame_encodeFrame (m rest : List UInt8) :
    takeFrame (encodeFrame m ++ rest) =
      .ok (some (m.take (lowLength m)), m.drop (lowLength m) ++ rest) := by
  obtain ⟨f, hf, he⟩ := encodeFrame_split m
  have ht : frames.take (encodeFrame m ++ rest) = some (f, m.drop (lowLength m) ++ rest) := by
    rw [he, List.append_assoc]
    exact frames.take_bytes f _
  rw [takeFrame_eq, ht, ← hf]

/-- The frame of a message reads back, whatever follows it. -/
def Decodes (m rest : List UInt8) : Prop := takeFrame (encodeFrame m ++ rest) = .ok (some m, rest)

theorem decodes_iff {m rest : List UInt8} : Decodes m rest ↔ m.length < 2 ^ 32 := by
  rw [Decodes, takeFrame_encodeFrame]
  constructor
  · intro h
    have hm : m.take (lowLength m) = m := by
      simpa only [Option.some.injEq] using congrArg Prod.fst (Except.ok.inj h)
    rw [← hm, length_take_lowLength]
    exact lowLength_lt m
  · intro h
    have hl : lowLength m = m.length := Nat.mod_eq_of_lt h
    rw [hl, List.take_length, List.drop_length]
    rfl

/-- A call that fails and leaves the stream as it was. -/
def Refused {σ : Type} (s : σ) (call : Except (ContextError ε) Unit × σ) : Prop :=
  (∃ e, call.1 = .error e) ∧ call.2 = s

def Accepting.Untouched (h3 : Accepting ε) : Prop := ∃ e, h3 = .failed 0 e

theorem sent_unchanged_iff (sent m : List UInt8) (written : ℕ) :
    sent ++ (encodeFrame m).take written = sent ↔ written = 0 := by
  rw [List.append_right_eq_self, List.take_eq_nil_iff]
  exact or_iff_left (List.cons_ne_nil _ _)

/-- The code refuses no message by itself. -/
theorem refused_iff (s : QuicStream ε) (t : QuicSendStream) (m : List UInt8) (h3 : Accepting ε) :
    (Refused s (s.sendMessage m h3) ↔ h3.Untouched) ∧
      (Refused t (t.sendMessage m h3) ↔ h3.Untouched) := by
  cases h3 with
  | whole =>
    have hn : ¬(Accepting.whole : Accepting ε).Untouched := nofun
    refine ⟨iff_of_false ?_ hn, iff_of_false ?_ hn⟩
    · rintro ⟨⟨e, he⟩, -⟩
      cases he
    · rintro ⟨⟨e, he⟩, -⟩
      cases he
  | failed written e =>
    have hu : (Accepting.failed written e).Untouched ↔ written = 0 := by
      simp [Accepting.Untouched]
    rw [hu]
    constructor
    · rw [← sent_unchanged_iff s.inner.send.sent m]
      refine ⟨fun h => congrArg (·.inner.send.sent) h.2, fun h => ⟨⟨_, rfl⟩, ?_⟩⟩
      simp only [QuicStream.sendMessage, H3SendHalf.sendData, h]
    · rw [← sent_unchanged_iff t.inner.sent m]
      refine ⟨fun h => congrArg (·.inner.sent) h.2, fun h => ⟨⟨_, rfl⟩, ?_⟩⟩
      simp only [QuicSendStream.sendMessage, H3SendHalf.sendData, h]

/-- A message is refused or reads back exactly if its length fits the header, or h3
does not take any of it. -/
theorem length_honest_iff (m rest : List UInt8) (h3 : Accepting ε) :
    (∀ s : QuicStream ε, Refused s (s.sendMessage m h3) ∨ Decodes m rest ↔
      m.length < 2 ^ 32 ∨ h3.Untouched) ∧
    ∀ t : QuicSendStream, Refused t (t.sendMessage m h3) ∨ Decodes m rest ↔
      m.length < 2 ^ 32 ∨ h3.Untouched := by
  refine ⟨fun s => ?_, fun t => ?_⟩
  · rw [(refused_iff s ⟨⟨[]⟩⟩ m h3).1, decodes_iff, or_comm]
  · rw [(refused_iff ⟨⟨⟨[]⟩, []⟩, []⟩ t m h3).2, decodes_iff, or_comm]

/-- A message of 4 GiB goes out as an empty one, and its bytes as what follows. -/
theorem huge_message_desynchronises :
    ¬∀ (m rest : List UInt8) (s : QuicStream Unit),
      Refused s (s.sendMessage m .whole) ∨ Decodes m rest := by
  intro h
  have hlen : (List.replicate (2 ^ 32) (7 : UInt8)).length = 2 ^ 32 := List.length_replicate
  rcases h (List.replicate (2 ^ 32) 7) [] ⟨⟨⟨[]⟩, []⟩, []⟩ with hr | hd
  · obtain ⟨e, he⟩ := (refused_iff _ ⟨⟨[]⟩⟩ _ _).1.mp hr
    cases he
  · rw [decodes_iff, hlen] at hd
    exact absurd hd (Nat.lt_irrefl _)

end ConstructTransport.Grpc
