import ConstructTransport.Ffi.Send

/-! Both halves of one FFI stream at work, on a transport that delivers nothing
behind the end of a stream. Whatever the send calls do, the receive half hands out
the first messages of what has arrived, and once it has told a caller of the end it
has handed out all of them. -/

namespace ConstructTransport.Ffi

open Framing Grpc Interleaving Runs

variable {ε : Type}

/-- Whether the end of the stream is among the answers of h3. -/
def ended (events : List (RecvData ε)) : Bool :=
  events.any fun
    | .finished => true
    | _ => false

/-- The receive half, on a transport where no data follows the end. -/
def inOrder : System (Receiver ε) RecvCall (RecvData ε) Act where
  env s
    | .data chunk => if ended s.arrived then none else arrive s (.data chunk)
    | ev => arrive s ev
  act := recvMessage
  fresh := ⟨.waiting, .queued⟩

theorem inOrder_env {s s' : Receiver ε} {ev : RecvData ε} (h : inOrder.env s ev = some s') :
    arrive s ev = some s' ∧ (ended s.arrived = true → payload [ev] = []) := by
  cases ev with
  | data chunk =>
    simp only [inOrder] at h
    split_ifs at h with he
    exact ⟨h, fun he' => absurd he' he⟩
  | finished | failed => exact ⟨h, fun _ => rfl⟩

theorem ended_append (xs ys : List (RecvData ε)) : ended (xs ++ ys) = (ended xs || ended ys) :=
  List.any_append

def Told (log : List (Entry ε)) : Prop := ∃ e ∈ log, e.result = .ok none

/-- Nothing that has arrived is still to be returned. -/
structure Drained (stream : QuicRecvStream ε) : Prop where
  buffer : frames.take stream.recvBuf = none
  unread : payload stream.inner = []

structure Receiver.Tidy (s : Receiver ε) : Prop where
  unread : ∃ used, s.arrived = used ++ s.stream.inner
  last : ∀ pre post, s.arrived = pre ++ .finished :: post → payload post = []
  told : Told s.log → ended s.arrived = true ∧ Drained s.stream

/-- What the log of the calls hands out is the first of what has arrived. -/
theorem Receiver.Conserved.returned {s : Receiver ε} (h : s.Conserved) :
    messages (payload s.arrived) = s.log.filterMap Entry.message ++
      messages (s.stream.recvBuf ++ payload s.stream.inner) := by
  obtain ⟨fs, hm, hb⟩ := h.bytes
  rw [messages, hb, frames.parse_flatMap_append, List.map_append, hm]
  rfl

theorem Drained.messages {stream : QuicRecvStream ε} (h : Drained stream) :
    messages (stream.recvBuf ++ payload stream.inner) = [] := by
  rw [h.unread, List.append_nil, Grpc.messages, frames.parse_none h.buffer]
  rfl

/-- A call that is told of the end has read everything before it. -/
theorem recvPass_end {s s' : QuicRecvStream ε} (h : recvPass s = .ok (.returned (.ok none) s')) :
    frames.take s.recvBuf = none ∧ s.inner = .finished :: s'.inner ∧ s'.recvBuf = s.recvBuf := by
  rw [recvPass_eq] at h
  split at h
  · cases h
  · cases h
  · cases h
  · next inner ht hi =>
    cases h
    exact ⟨ht, hi, rfl⟩
  · cases h

theorem arrive_tidy {s s' : Receiver ε} {ev : RecvData ε} (hs : s.Tidy)
    (h : arrive s ev = some s') (hlast : ended s.arrived = true → payload [ev] = []) :
    s'.Tidy := by
  obtain ⟨⟨used, hu⟩, last, told⟩ := hs
  cases h
  refine ⟨⟨used, by simp [hu]⟩, fun pre post hp => ?_, fun ht => ?_⟩
  · rcases List.eq_nil_or_concat post with rfl | ⟨post, ev', rfl⟩
    · rfl
    rw [List.concat_eq_append] at hp ⊢
    have hsplit : s.arrived ++ [ev] = (pre ++ .finished :: post) ++ [ev'] := by
      rw [List.append_assoc, List.cons_append]
      exact hp
    obtain ⟨harr, hev⟩ := List.append_inj' hsplit rfl
    cases hev
    have hend : ended s.arrived = true := by
      rw [harr, ended_append]
      simp [ended]
    rw [payload_append, last pre post harr, hlast hend]
    rfl
  · obtain ⟨hend, hbuf, hun⟩ := told ht
    refine ⟨by simp [ended_append, hend], hbuf, ?_⟩
    change payload (s.stream.inner ++ [ev]) = []
    rw [payload_append, hun, hlast hend]
    rfl

theorem recvMessage_tidy {s s' : Receiver ε} {p p' : RecvCall} {a : Act} (hs : s.Tidy)
    (h : RecvTakes s p a s' p') : s'.Tidy := by
  obtain ⟨⟨used, hu⟩, last, told⟩ := hs
  cases h with
  | acquire | deliver | detach => exact ⟨⟨used, hu⟩, last, told⟩
  | goesRound t stream task pass =>
    obtain ⟨hnone, chunk, hin, hbuf⟩ := recvPass_goes_round pass
    refine ⟨⟨used ++ [.data chunk], by simp [hu, hin]⟩, last, fun ht => ?_⟩
    obtain ⟨hend, -, hun⟩ := told ht
    rw [hin, payload_data, List.append_eq_nil_iff] at hun
    refine ⟨hend, ?_, hun.2⟩
    rw [hbuf, hun.1, List.append_nil]
    exact hnone
  | returns t r stream task pass =>
    have hinner : ∃ used, s.arrived = used ++ stream.inner := by
      rw [recvPass_eq] at pass
      split at pass
      all_goals cases pass
      · exact ⟨used, hu⟩
      all_goals
        rename_i hi
        exact ⟨used ++ [_], by rw [hu, hi, List.append_cons]⟩
    refine ⟨hinner, last, fun ⟨e, he, hr⟩ => ?_⟩
    rcases List.mem_append.mp he with he | he
    · -- a call was told before: nothing is left that this one could be given
      obtain ⟨hend, hbuf, hun⟩ := told ⟨e, he, hr⟩
      rcases recvPass_returned pass with ⟨f, rest, hf, -⟩ | ⟨-, -, hbuf', hun'⟩
      · cases hbuf.symm.trans hf
      · exact ⟨hend, by rw [hbuf']; exact hbuf, hun'.trans hun⟩
    · rw [List.mem_singleton] at he
      subst he
      dsimp only at hr
      subst hr
      obtain ⟨hnone, hin, hbuf⟩ := recvPass_end pass
      refine ⟨?_, by rw [hbuf]; exact hnone, last used stream.inner (by rw [hu, hin])⟩
      change ended s.arrived = true
      rw [hu, hin, ended_append]
      simp [ended]
  | drop t task =>
    refine ⟨⟨used, hu⟩, last, fun ⟨e, he, hr⟩ => told ?_⟩
    obtain ⟨i, hi, he⟩ := List.mem_iff_getElem.mp he
    rw [List.getElem_modify] at he
    split_ifs at he
    · exact ⟨_, List.getElem_mem _, by rw [← hr, ← he]; rfl⟩
    · exact ⟨_, List.getElem_mem _, by rw [← hr, ← he]⟩

/-! ### The receive calls of the stream -/

def StreamCall.recv? : StreamCall RecvCall ε → Option RecvCall
  | recv q => some q
  | _ => none

def StreamCall.RecvPlaced (s : QuicStream (Receiver ε) ε) (p : StreamCall RecvCall ε) : Prop :=
  ∀ q, p.recv? = some q → q.Placed s.recv

def StreamCall.RecvApart (p q : StreamCall RecvCall ε) : Prop :=
  ∀ p' q', p.recv? = some p' → q.recv? = some q' → p'.Apart q'

abbrev DuplexInv : Config (QuicStream (Receiver ε) ε) (StreamCall RecvCall ε) → Prop :=
  System.Inv (fun s => s.recv.Conserved ∧ s.recv.Tidy) (fun s p => p.RecvPlaced s)
    StreamCall.RecvApart

theorem openedStream_duplexInv :
    DuplexInv (openedStream Receiver.start : Config (QuicStream (Receiver ε) ε) _) := by
  refine System.inv_start ⟨⟨⟨[], rfl, rfl⟩, rfl⟩, ⟨[], rfl⟩, fun pre post h => ?_, ?_⟩
  · cases pre <;> cases h
  · rintro ⟨e, he, -⟩
    cases he

theorem recvPlaced_other {p : StreamCall RecvCall ε} (hn : p.recv? = none)
    (s : QuicStream (Receiver ε) ε) : p.RecvPlaced s ∧ ∀ q, p.RecvApart q :=
  ⟨fun _ hq => absurd (hn.symm.trans hq) nofun, fun _ _ _ hp => absurd (hn.symm.trans hp) nofun⟩

theorem step_duplexInv {c c' : Config (QuicStream (Receiver ε) ε) (StreamCall RecvCall ε)}
    {l : Label (StreamEvent (RecvData ε)) (StreamAct Act ε)} (hc : DuplexInv c)
    (hs : (streaming inOrder).step c l = some c') : DuplexInv c' := by
  refine (streaming inOrder).step_inv ?_ ?_ ?_ ?_ hc hs
  · exact fun p q h q' p' hq hp t ht hpt => h p' q' hp hq t hpt ht
  · rintro s (_ | ev) s' ⟨hcons, htidy⟩ he
    · cases he
      exact ⟨⟨hcons, htidy⟩, fun q hq => hq⟩
    · obtain ⟨r, hr, rfl⟩ := Option.map_eq_some_iff.mp he
      obtain ⟨ha, hlast⟩ := inOrder_env hr
      have htidy' := arrive_tidy htidy ha hlast
      cases ha
      obtain ⟨⟨fs, hm, hb⟩, ht⟩ := hcons
      exact ⟨⟨⟨⟨fs, hm, by simp [hb]⟩, ht⟩, htidy'⟩, fun q hq => hq⟩
  · intro s _
    obtain ⟨hp, ha⟩ := recvPlaced_other (p := .unstarted) rfl s
    exact ⟨hp, fun q _ => ha q⟩
  · intro s p a s' p' hg hp ha
    -- a step that is not of a receive call leaves the receive half as it is
    have other : ∀ (s' : QuicStream (Receiver ε) ε) (p' : StreamCall RecvCall ε),
        s'.recv = s.recv → p'.recv? = none →
        (s'.recv.Conserved ∧ s'.recv.Tidy) ∧ p'.RecvPlaced s' ∧
          ∀ q : StreamCall RecvCall ε, q.RecvPlaced s → p.RecvApart q →
            q.RecvPlaced s' ∧ p'.RecvApart q := by
      intro s' p' hr hn
      obtain ⟨hp', ha'⟩ := recvPlaced_other hn s'
      refine ⟨hr ▸ hg, hp', fun q hq _ => ⟨fun r hqr => ?_, ha' q⟩⟩
      rw [hr]
      exact hq r hqr
    cases p with
    | unstarted =>
      cases a with
      | sendMessage m => cases ha; exact other _ _ rfl rfl
      | finish => cases ha; exact other _ _ rfl rfl
      | startRecv =>
        cases ha
        refine ⟨hg, fun q hq => ?_, fun q hq _ => ⟨hq, fun q' q'' hq' _ t ht => ?_⟩⟩
        · cases hq
          trivial
        · cases hq'
          cases ht
      | send a => cases ha
      | recv a => cases ha
    | send p =>
      cases a with
      | send a =>
        obtain ⟨⟨send, p'⟩, -, heq⟩ := Option.map_eq_some_iff.mp ha
        cases heq
        exact other _ _ rfl rfl
      | sendMessage m => cases ha
      | finish => cases ha
      | startRecv => cases ha
      | recv a => cases ha
    | recv q =>
      cases a with
      | recv a =>
        obtain ⟨⟨recv, q'⟩, hq, heq⟩ := Option.map_eq_some_iff.mp ha
        cases heq
        have step := recvTakes_of_step hq
        obtain ⟨hcons, hplaced, hothers⟩ := recvMessage_parts hg.1 (hp q rfl) step
        refine ⟨⟨hcons, recvMessage_tidy hg.2 step⟩, fun r hr => ?_, fun r hr hap => ?_⟩
        · cases hr
          exact hplaced
        · refine ⟨fun r' hr' => (hothers r' (hr r' hr') (hap q r' rfl hr')).1, fun r' r'' hr' => ?_⟩
          cases hr'
          exact fun hr'' => (hothers r'' (hr r'' hr'') (hap q r'' rfl hr'')).2
      | sendMessage m => cases ha
      | finish => cases ha
      | startRecv => cases ha
      | send a => cases ha

theorem act_arrived {s s' : QuicStream (Receiver ε) ε} {p p' : StreamCall RecvCall ε}
    {a : StreamAct Act ε} (h : (streaming inOrder).act s p a = some (s', p')) :
    s'.recv.arrived = s.recv.arrived := by
  cases p with
  | unstarted => cases a <;> cases h <;> rfl
  | send p =>
    cases a with
    | send a =>
      obtain ⟨r, -, heq⟩ := Option.map_eq_some_iff.mp h
      cases heq
      rfl
    | _ => cases h
  | recv q =>
    cases a with
    | recv a =>
      obtain ⟨⟨recv, q'⟩, hq, heq⟩ := Option.map_eq_some_iff.mp h
      cases heq
      cases recvTakes_of_step hq <;> rfl
    | _ => cases h

/-! ### What the calls hand out -/

section Returned

variable {c : Config (QuicStream (Receiver ε) ε) (StreamCall RecvCall ε)}

/-- The messages the receive calls have taken, in the order of their lock. -/
def returned (c : Config (QuicStream (Receiver ε) ε) (StreamCall RecvCall ε)) :
    List (List UInt8) :=
  c.shared.recv.log.filterMap Entry.message

theorem returned_prefix (h : DuplexInv c) :
    returned c <+: messages (payload c.shared.recv.arrived) := by
  rw [h.shared.1.returned]
  exact List.prefix_append _ _

/-- Once nothing is left, or a call is told of the end, it is all of them. -/
theorem returned_all (h : DuplexInv c)
    (hd : Drained c.shared.recv.stream ∨ Told c.shared.recv.log) :
    returned c = messages (payload c.shared.recv.arrived) := by
  have hdrained : Drained c.shared.recv.stream := hd.elim id fun ht => (h.shared.2.told ht).2
  rw [h.shared.1.returned, hdrained.messages, List.append_nil]
  rfl

end Returned

end ConstructTransport.Ffi
