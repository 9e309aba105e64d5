import ConstructTransport.Ffi.Duplex
import ConstructTransport.Ffi.Serial
import ConstructTransport.Proxy.Request

/-! A call from end to end: the send and receive calls that run on the caller's
stream, the two directions of the connection, the proxy and its upstream, in any
order of their steps. The connection carries in each direction what it was given,
in order, and the end of a direction behind all of its bytes. The upstream decodes
the messages of the send calls in the order of their lock, and the receive calls
hand out, in the order of theirs, the messages the upstream produced. -/

namespace ConstructTransport.Path

open Framing Runs Interleaving Grpc Ffi Proxy

variable {H T ε : Type}

/-- The caller's stream with the calls on it, and the proxy's side with its upstream. -/
structure Call (H T ε : Type) where
  client : Config (Ffi.QuicStream (Receiver ε) ε) (StreamCall RecvCall ε)
  proxy : Proxy.Call H T

def Call.start : Call H T ε := ⟨openedStream Receiver.start, Proxy.Call.start⟩

inductive Step (H T ε : Type)
  | client (l : Label (StreamEvent (RecvData ε)) (StreamAct Act ε))
  | proxy (l : Proxy.Step H T)
  | carryUp (n : ℕ)
  | carryUpEnd
  | carryDown (n : ℕ)
  | carryDownEnd

/-- The steps the client takes without the connection, which may also fail. -/
def ofClient : Label (StreamEvent (RecvData ε)) (StreamAct Act ε) → Bool
  | .env (.recv (.data _)) | .env (.recv .finished) => false
  | _ => true

/-- The steps of the proxy and its upstream, and the failure of the client's stream. -/
def ofProxy : Proxy.Step H T → Bool
  | .up (.clientSend _) | .up (.clientEnd .clean) => false
  | _ => true

/-- Whether the proxy has finished its stream, or dropped it. -/
def closed : Main H T → Bool
  | .aborting | .returned _ _ => true
  | _ => false

namespace Call

variable (s : Call H T ε)

/-- What the client's stream has taken from the send calls. -/
def accepted : List UInt8 := s.client.shared.send.stream.inner.sent

/-- What has arrived for the receive calls. -/
def arrived : List UInt8 := payload s.client.shared.recv.arrived

/-- What the proxy has given to its stream. -/
def given : List UInt8 := downBytes s.proxy.download.down

def atClient (l : Label (StreamEvent (RecvData ε)) (StreamAct Act ε)) : Option (Call H T ε) :=
  ((streaming inOrder).step s.client l).map fun c => { s with client := c }

def atProxy (l : Proxy.Step H T) : Option (Call H T ε) :=
  (proxyRequest s.proxy l).map fun c => { s with proxy := c }

def step : Step H T ε → Option (Call H T ε)
  | .client l => if ofClient l then s.atClient l else none
  | .proxy l => if ofProxy l then s.atProxy l else none
  | .carryUp n =>
    let sent := s.proxy.upload.sent.length
    if sent + n ≤ s.accepted.length then
      s.atProxy (.up (.clientSend ((s.accepted.drop sent).take n)))
    else none
  | .carryUpEnd =>
    if s.client.shared.send.finished ∧ s.proxy.upload.sent.length = s.accepted.length then
      s.atProxy (.up (.clientEnd .clean))
    else none
  | .carryDown n =>
    if s.arrived.length + n ≤ s.given.length then
      s.atClient (.env (.recv (.data ((s.given.drop s.arrived.length).take n))))
    else none
  | .carryDownEnd =>
    if closed s.proxy.download.main ∧ s.arrived.length = s.given.length then
      s.atClient (.env (.recv .finished))
    else none

end Call

/-- What is asked of h3, of the client's calls. -/
def Trusts (s : Call H T ε) (l : Step H T ε) : Prop :=
  ∀ k, l = .client k → System.Meets H3Trusted s.client k

/-! ### What a step leaves of each side -/

/-- The client's side of the connection grows, and no more once it is finished. -/
structure ClientGrows (c c' : Config (Ffi.QuicStream (Receiver ε) ε) (StreamCall RecvCall ε)) :
    Prop where
  sent : c.shared.send.stream.inner.sent <+: c'.shared.send.stream.inner.sent
  finished : c.shared.send.finished = true → c'.shared.send.finished = true ∧
    c'.shared.send.stream.inner.sent = c.shared.send.stream.inner.sent
  arrived : payload c'.shared.recv.arrived = payload c.shared.recv.arrived
  ended : ended c'.shared.recv.arrived = ended c.shared.recv.arrived

theorem sendStep_grows {s s' : Sender ε} {p p' : SendCall ε} {a : SendAct ε} (hh : H3Sends s p a)
    (h : sendStep s p a = some (s', p')) :
    s.stream.inner.sent <+: s'.stream.inner.sent ∧
      (s.finished = true → s'.finished = true ∧ s'.stream.inner.sent = s.stream.inner.sent) := by
  cases sendTakes_of_step h with
  | acquire | deliver | abandon => exact ⟨List.prefix_rfl, fun hf => ⟨hf, rfl⟩⟩
  | takes n t rest task =>
    exact ⟨List.prefix_append _ _, fun hf => absurd (hh.2.symm.trans hf) Bool.false_ne_true⟩
  | answers r t rest task =>
    refine ⟨List.prefix_rfl, fun hf => ⟨?_, rfl⟩⟩
    simp [Sender.release, hf]

theorem client_grows {c c' : Config (Ffi.QuicStream (Receiver ε) ε) (StreamCall RecvCall ε)}
    {l : Label (StreamEvent (RecvData ε)) (StreamAct Act ε)} (hl : ofClient l = true)
    (hh : System.Meets H3Trusted c l) (h : (streaming inOrder).step c l = some c') :
    ClientGrows c c' := by
  rcases (streaming inOrder).step_cases h with
    ⟨ev, s, rfl, he, rfl⟩ | ⟨rfl, rfl⟩ | ⟨k, a, p, s, p', rfl, hp, ha, rfl⟩
  · rcases ev with _ | ev
    · cases he
      exact ⟨List.prefix_rfl, fun hf => ⟨hf, rfl⟩, rfl, rfl⟩
    · cases ev with
      | data | finished => cases hl
      | failed e =>
        cases he
        refine ⟨List.prefix_rfl, fun hf => ⟨hf, rfl⟩, ?_, ?_⟩
        · simp
        · simp [ended]
  · exact ⟨List.prefix_rfl, fun hf => ⟨hf, rfl⟩, rfl, rfl⟩
  · have hmeets := (System.meets_act hp).mp hh
    have harr := act_arrived ha
    cases streamTakes_of_step ha with
    | start | startRecv | recv =>
      exact ⟨List.prefix_rfl, fun hf => ⟨hf, rfl⟩, congrArg payload harr, congrArg ended harr⟩
    | send step =>
      obtain ⟨hsent, hfin⟩ := sendStep_grows hmeets step
      exact ⟨hsent, hfin, rfl, rfl⟩

/-- The proxy's side of the connection grows, and no more once it is closed. -/
structure ProxyGrows (s s' : Proxy.Call H T) : Prop where
  sent : s'.upload.sent = s.upload.sent
  ending : s'.upload.ending = some .clean → s.upload.ending = some .clean
  given : s.download.down <+: s'.download.down
  closed : closed s.download.main = true → closed s'.download.main = true ∧
    s'.download.down = s.download.down

theorem upload_grows {u u' : Upload} {l : UploadStep} (hl : ofProxy (.up l : Proxy.Step H T) = true)
    (h : u.step l = some u') :
    u'.sent = u.sent ∧ (u'.ending = some .clean → u.ending = some .clean) := by
  cases Upload.takes_of_step h with
  | clientSend => cases hl
  | @clientEnd how _ =>
    cases how with
    | clean => cases hl
    | failed => exact ⟨rfl, nofun⟩
  | recvData | recvNone | recvError | bodySend | bodySendError | cancelled | bodyFrame | bodyEnd
  | bodyDrop | upstreamRead | upstreamReadEnd => exact ⟨rfl, id⟩

theorem advance_down {d d' : Download H T} (h : d.advance = some d') : d.down <+: d'.down := by
  unfold Download.advance at h
  split at h
  · cases h; exact List.prefix_rfl
  · cases h; exact List.prefix_rfl
  · obtain ⟨g, -, rfl⟩ := Option.map_eq_some_iff.mp h
    exact List.prefix_rfl
  · cases h; exact List.prefix_rfl
  · cases h; exact List.prefix_append _ _
  · split_ifs at h
    split at h <;> cases h <;> exact List.prefix_rfl
  · cases h; exact List.prefix_rfl
  · cases h; exact List.prefix_append _ _
  · cases h; exact List.prefix_append _ _
  · cases h

theorem download_grows {d d' : Download H T} {l : DownloadStep H T} (h : d.step l = some d') :
    d.down <+: d'.down ∧
      (closed d.main = true → closed d'.main = true ∧ d'.down = d.down) := by
  cases Download.takes_of_step h with
  | respond | produce | produceTrailers | produceEnd =>
    exact ⟨List.prefix_rfl, fun hc => ⟨hc, rfl⟩⟩
  | frame n hm =>
    exact ⟨List.prefix_rfl, fun hc => by simp [hm, closed] at hc⟩
  | sendData n hm =>
    exact ⟨List.prefix_append _ _, fun hc => by simp [hm, closed] at hc⟩
  | fail he =>
    refine ⟨List.prefix_append _ _, fun hc => ?_⟩
    cases hm : d.main <;> simp [hm, closed, Main.error] at hc he
  | advance hd =>
    have hopen : closed d.main = false := by
      cases hm : d.main <;> first | rfl | simp [Download.advance, hm] at hd
    exact ⟨advance_down hd, fun hc => absurd (hopen.symm.trans hc) Bool.false_ne_true⟩

theorem proxy_grows {s s' : Proxy.Call H T} {l : Proxy.Step H T} (hl : ofProxy l = true)
    (h : proxyRequest s l = some s') : ProxyGrows s s' := by
  rcases proxyRequest_cases h with ⟨k, u, rfl, hu, rfl⟩ | ⟨k, d, -, hd, rfl⟩ | ⟨-, hm, rfl⟩ |
    ⟨-, hm, rfl⟩
  · obtain ⟨hsent, hend⟩ := upload_grows hl hu
    exact ⟨hsent, hend, List.prefix_rfl, fun hc => ⟨hc, rfl⟩⟩
  · obtain ⟨hgiven, hclosed⟩ := download_grows hd
    exact ⟨rfl, id, hgiven, hclosed⟩
  · refine ⟨rfl, id, List.prefix_rfl, fun hc => ?_⟩
    rw [hm] at hc
    cases hc
  · exact ⟨rfl, id, List.prefix_rfl, fun _ => ⟨rfl, rfl⟩⟩

/-! ### The invariant -/

structure Inv (s : Call H T ε) : Prop where
  sends : StreamInv s.client
  logged : Logged s.client
  duplex : DuplexInv s.client
  proxy : s.proxy.Inv
  up : s.proxy.upload.sent <+: s.accepted
  upEnd : s.proxy.upload.ending = some .clean →
    s.client.shared.send.finished = true ∧ s.proxy.upload.sent = s.accepted
  down : s.arrived <+: s.given
  downEnd : ended s.client.shared.recv.arrived = true →
    closed s.proxy.download.main = true ∧ s.arrived = s.given

theorem start_inv : Inv (Call.start : Call H T ε) where
  sends := openedStream_inv _
  logged := fun t ht => absurd ht (Nat.not_lt_zero t)
  duplex := openedStream_duplexInv
  proxy := run_callInv (rfl : run proxyRequest Proxy.Call.start [] = some Proxy.Call.start)
  up := List.nil_prefix
  upEnd := nofun
  down := List.nil_prefix
  downEnd := nofun

theorem carried_prefix {xs ys : List UInt8} (h : xs <+: ys) (n : ℕ) :
    xs ++ (ys.drop xs.length).take n <+: ys := by
  obtain ⟨zs, rfl⟩ := h
  rw [List.drop_left]
  exact (List.prefix_append_right_inj xs).mpr (List.take_prefix n zs)

section Step

variable {s s' : Call H T ε}

theorem atClient_calls {l : Label (StreamEvent (RecvData ε)) (StreamAct Act ε)} (hi : Inv s)
    (hm : System.Meets H3Trusted s.client l) (h : s.atClient l = some s') :
    (streaming inOrder).step s.client l = some s'.client ∧ s'.proxy = s.proxy ∧
      StreamInv s'.client ∧ Logged s'.client ∧ DuplexInv s'.client := by
  obtain ⟨c, hc, rfl⟩ := Option.map_eq_some_iff.mp h
  exact ⟨hc, rfl, step_streamInv hi.sends hm hc, step_logged hi.sends hi.logged hc,
    step_duplexInv hi.duplex hc⟩

theorem atProxy_call {l : Proxy.Step H T} (hi : Inv s) (h : s.atProxy l = some s') :
    proxyRequest s.proxy l = some s'.proxy ∧ s'.client = s.client ∧ s'.proxy.Inv := by
  obtain ⟨c, hc, rfl⟩ := Option.map_eq_some_iff.mp h
  exact ⟨hc, rfl, step_callInv hi.proxy hc⟩

theorem carryUp_inv {n : ℕ} (hi : Inv s) (h : s.step (.carryUp n) = some s') : Inv s' := by
  simp only [Call.step] at h
  split_ifs at h with hn
  obtain ⟨hc, hclient, hproxy⟩ := atProxy_call hi h
  obtain ⟨u, hu, hs'⟩ := Option.map_eq_some_iff.mp hc
  obtain ⟨client, proxy⟩ := s'
  subst hclient
  subst hs'
  cases Upload.takes_of_step hu with
  | clientSend hnone =>
    refine ⟨hi.sends, hi.logged, hi.duplex, hproxy, carried_prefix hi.up n, fun he => ?_, hi.down,
      hi.downEnd⟩
    cases hnone.symm.trans he

theorem carryUpEnd_inv (hi : Inv s) (h : s.step .carryUpEnd = some s') : Inv s' := by
  simp only [Call.step] at h
  split_ifs at h with hn
  obtain ⟨hc, hclient, hproxy⟩ := atProxy_call hi h
  obtain ⟨u, hu, hs'⟩ := Option.map_eq_some_iff.mp hc
  obtain ⟨client, proxy⟩ := s'
  subst hclient
  subst hs'
  cases Upload.takes_of_step hu with
  | clientEnd hnone =>
    exact ⟨hi.sends, hi.logged, hi.duplex, hproxy, hi.up,
      fun _ => ⟨hn.1, hi.up.eq_of_length hn.2⟩, hi.down, hi.downEnd⟩

theorem deliver_parts {ev : RecvData ε} (hi : Inv s)
    (h : s.atClient (.env (.recv ev)) = some s') :
    s'.proxy = s.proxy ∧ StreamInv s'.client ∧ Logged s'.client ∧ DuplexInv s'.client ∧
      s'.client.shared.send = s.client.shared.send ∧
      s'.client.shared.recv.arrived = s.client.shared.recv.arrived ++ [ev] ∧
      (ended s.client.shared.recv.arrived = true → payload [ev] = []) := by
  obtain ⟨hc, hproxy, hsends, hlogged, hduplex⟩ :=
    atClient_calls hi (fun _ _ _ hl => by cases hl) h
  refine ⟨hproxy, hsends, hlogged, hduplex, ?_⟩
  obtain ⟨shared, he, hc⟩ := Option.map_eq_some_iff.mp hc
  obtain ⟨r, hr, hs⟩ := Option.map_eq_some_iff.mp he
  obtain ⟨ha, hlast⟩ := inOrder_env hr
  cases ha
  rw [← hc, ← hs]
  exact ⟨rfl, rfl, hlast⟩

theorem carryDown_inv {n : ℕ} (hi : Inv s) (h : s.step (.carryDown n) = some s') : Inv s' := by
  simp only [Call.step] at h
  split_ifs at h with hn
  obtain ⟨hproxy, hsends, hlogged, hduplex, hsend, harr, hlast⟩ := deliver_parts hi h
  have harrived : s'.arrived = s.arrived ++ (s.given.drop s.arrived.length).take n := by
    change payload _ = _
    rw [harr, payload_append]
    simp [Call.arrived]
  have hgiven : s'.given = s.given := by
    rw [Call.given, hproxy]
    rfl
  have haccepted : s'.accepted = s.accepted := by
    rw [Call.accepted, hsend]
    rfl
  refine ⟨hsends, hlogged, hduplex, hproxy ▸ hi.proxy, ?_, ?_, ?_, fun he => ?_⟩
  · rw [haccepted, hproxy]
    exact hi.up
  · rw [haccepted, hproxy, hsend]
    exact hi.upEnd
  · rw [harrived, hgiven]
    exact carried_prefix hi.down n
  · -- behind the end nothing is left to carry
    rw [harr, ended_append, Bool.or_eq_true] at he
    have hend : ended s.client.shared.recv.arrived = true := he.elim id nofun
    obtain ⟨hcl, hall⟩ := hi.downEnd hend
    have hnone := hlast hend
    rw [hproxy, hgiven, harrived, ← hall]
    exact ⟨hcl, by simp⟩

theorem carryDownEnd_inv (hi : Inv s) (h : s.step .carryDownEnd = some s') : Inv s' := by
  simp only [Call.step] at h
  split_ifs at h with hn
  obtain ⟨hproxy, hsends, hlogged, hduplex, hsend, harr, -⟩ := deliver_parts hi h
  have harrived : s'.arrived = s.arrived := by
    change payload _ = _
    rw [harr, payload_append]
    exact List.append_nil _
  have hgiven : s'.given = s.given := by
    rw [Call.given, hproxy]
    rfl
  have haccepted : s'.accepted = s.accepted := by
    rw [Call.accepted, hsend]
    rfl
  refine ⟨hsends, hlogged, hduplex, hproxy ▸ hi.proxy, ?_, ?_, ?_, fun _ => ?_⟩
  · rw [haccepted, hproxy]
    exact hi.up
  · rw [haccepted, hproxy, hsend]
    exact hi.upEnd
  · rw [harrived, hgiven]
    exact hi.down
  · rw [harrived, hgiven, hproxy]
    exact ⟨hn.1, hi.down.eq_of_length hn.2⟩

theorem step_inv {l : Step H T ε} (hi : Inv s) (hh : Trusts s l) (h : s.step l = some s') :
    Inv s' := by
  cases l with
  | client l =>
    simp only [Call.step] at h
    split_ifs at h with hl
    obtain ⟨hc, hproxy, hsends, hlogged, hduplex⟩ := atClient_calls hi (hh l rfl) h
    have grows := client_grows hl (hh l rfl) hc
    obtain ⟨client, proxy⟩ := s'
    subst hproxy
    refine ⟨hsends, hlogged, hduplex, hi.proxy, hi.up.trans grows.sent, fun he => ?_, ?_, ?_⟩
    · obtain ⟨hfin, hall⟩ := hi.upEnd he
      obtain ⟨hfin', hsame⟩ := grows.finished hfin
      exact ⟨hfin', hall.trans hsame.symm⟩
    · change payload _ <+: _
      rw [grows.arrived]
      exact hi.down
    · intro he
      obtain ⟨hcl, hall⟩ := hi.downEnd (grows.ended ▸ he)
      exact ⟨hcl, grows.arrived.trans hall⟩
  | proxy l =>
    simp only [Call.step] at h
    split_ifs at h with hl
    obtain ⟨hc, hclient, hproxy⟩ := atProxy_call hi h
    have grows := proxy_grows hl hc
    obtain ⟨client, proxy⟩ := s'
    subst hclient
    refine ⟨hi.sends, hi.logged, hi.duplex, hproxy, ?_, fun he => ?_,
      hi.down.trans (Download.downBytes_prefix grows.given), fun he => ?_⟩
    · exact grows.sent.symm ▸ hi.up
    · obtain ⟨hfin, hall⟩ := hi.upEnd (grows.ending he)
      exact ⟨hfin, grows.sent.trans hall⟩
    · obtain ⟨hcl, hall⟩ := hi.downEnd he
      obtain ⟨hcl', hsame⟩ := grows.closed hcl
      exact ⟨hcl', hall.trans (congrArg downBytes hsame).symm⟩
  | carryUp n => exact carryUp_inv hi h
  | carryUpEnd => exact carryUpEnd_inv hi h
  | carryDown n => exact carryDown_inv hi h
  | carryDownEnd => exact carryDownEnd_inv hi h

end Step

theorem run_inv {steps : List (Step H T ε)} {s : Call H T ε}
    (hh : Along Call.step Trusts Call.start steps)
    (h : run Call.step Call.start steps = some s) : Inv s :=
  run_invariant_along Inv (fun _ _ _ hi ht hs => step_inv hi ht hs) start_inv hh h

/-! ### What arrives -/

/-- What each end of the call has of the other. -/
structure Delivered (s : Call H T ε) : Prop where
  /-- The upstream has the first messages of the send calls that succeeded, in the order of
  their lock, at most with one more whose call failed with the transport; once it has read a
  clean end, it has all of them. -/
  up : s.client.shared.send.locked = false → ∃ calls tail more, Serialised s.client calls tail ∧
    (more = [] ∨ s.client.shared.send.broken = true ∧ ∃ i p m, callAt s.client i = some p ∧
      p.Failed ∧ p.op = .message m ∧ more = [m]) ∧
    messages s.proxy.upload.received <+: calls.filterMap (messageAt s.client) ++ more ∧
    ∀ lost, s.proxy.upload.pump = .ended .halfClosed lost → s.proxy.upload.readToEnd = true →
      messages s.proxy.upload.received = calls.filterMap (messageAt s.client) ++ more
  down : returned s.client <+: messages s.proxy.download.produced
  /-- A call that is told of the end has left nothing of what the proxy sent. -/
  told : Told s.client.shared.recv.log → returned s.client = messages s.given
  all : Told s.client.shared.recv.log → ∀ lost,
    s.proxy.download.main = .returned lost (.ok ()) →
      returned s.client = messages s.proxy.download.produced

/-- In every run of a call, in whatever order its calls, their tasks, the connection,
the proxy and the upstream take their steps, the messages at each end are those of the
other. -/
theorem call_delivers {steps : List (Step H T ε)} {s : Call H T ε}
    (hh : Along Call.step Trusts Call.start steps)
    (h : run Call.step Call.start steps = some s)
    (hfit : ∀ i p, callAt s.client i = some p → p.op.Fits) : Delivered s := by
  have hi := run_inv hh h
  have hgiven : messages s.given <+: messages s.proxy.download.produced :=
    messages_prefix hi.proxy.download.down_prefix
  have htold : Told s.client.shared.recv.log → returned s.client = messages s.given := by
    intro ht
    rw [returned_all hi.duplex (.inr ht)]
    exact congrArg messages (hi.downEnd (hi.duplex.shared.2.told ht).1).2
  refine ⟨fun hfree => ?_, ?_, htold, fun ht lost hm => ?_⟩
  · obtain ⟨calls, tail, hser⟩ := serialised hi.sends hi.logged hfree
    obtain ⟨more, hmore, hfailed⟩ := hser.decoded hfit
    refine ⟨calls, tail, more, hser, hfailed, ?_, fun lost hp hr => ?_⟩
    · rw [← hmore]
      exact messages_prefix (hi.proxy.upload.received_prefix.trans hi.up)
    · have hclean := (hi.proxy.upload.halfClosed lost hp).2.2
      rw [hi.proxy.upload.received_all hp hr, (hi.upEnd hclean).2, ← hmore]
      rfl
  · have hparsed := messages_prefix hi.down
    have hreturned := returned_prefix hi.duplex
    exact hreturned.trans (hparsed.trans hgiven)
  · have hcomplete : s.proxy.download.Complete .finish := by
      have := hi.proxy.download.shape
      rwa [hm] at this
    obtain ⟨-, chunks, hc, hg⟩ := hcomplete
    rw [htold ht, Call.given, hg.bytes, hc]
    simp [downBytes]

instance (s : Call H T ε) : ∀ l : Step H T ε, Decidable (Trusts s l)
  | .client k => decidable_of_iff (System.Meets H3Trusted s.client k)
      ⟨fun h _ hk => by cases hk; exact h, fun h => h k rfl⟩
  | .proxy _ | .carryUp _ | .carryUpEnd | .carryDown _ | .carryDownEnd => .isTrue nofun

def asking : List (Step ℕ ℕ Unit) :=
  [.client .spawn, .client (.act 0 .startRecv), .client (.act 0 (.recv .acquire)),
    .client .spawn, .client (.act 1 (.sendMessage [7])), .client (.act 1 (.send .acquire)),
    .client (.act 1 (.send (.takes 6))), .carryUp 2, .client (.act 1 (.send (.answers (.ok ())))),
    .client .spawn, .client (.act 2 .finish), .client (.act 2 (.send .acquire)),
    .client (.act 2 (.send (.answers (.ok ())))), .carryUp 4, .carryUpEnd]

/-- The upstream reads the message to its end and answers. -/
def answering : List (Proxy.Step ℕ ℕ) :=
  [.down .advance, .down .advance, .spawn, .up (.recvData 6), .up .bodySend, .up .recvNone,
    .up .bodyFrame, .up .bodyEnd, .up (.upstreamRead 6), .up .upstreamReadEnd,
    .down (.respond 200), .down .advance, .down .advance, .down .advance,
    .down (.produce [0, 0, 0, 0, 1, 8]), .down (.produceTrailers 0), .down (.frame 6),
    .down (.sendData 6), .down .advance]

def hearing : List (Step ℕ ℕ Unit) :=
  [.carryDown 3, .client (.act 0 (.recv .pass)), .carryDown 3, .client (.act 0 (.recv .pass)),
    .client (.act 0 (.recv .pass)), .client .spawn, .client (.act 3 .startRecv),
    .client (.act 3 (.recv .acquire))]

def closing : List (Proxy.Step ℕ ℕ) :=
  [.down .advance, .down .advance, .down .advance, .down .advance, .abort]

/-- A message each way, both ends, and a call that waits for each. -/
def exchanged : List (Step ℕ ℕ Unit) :=
  asking ++ answering.map .proxy ++ hearing ++ closing.map .proxy ++
    [.carryDownEnd, .client (.act 3 (.recv .pass))]

theorem exchanged_trusted : Along Call.step Trusts Call.start exchanged := by decide

theorem exchanged_ends : ∃ s, run Call.step Call.start exchanged = some s ∧
    s.client.procs.map (fun p => p.send?.map SendCall.op) =
      [none, some (.message [7]), some .finish, none] ∧
    s.client.shared.send.locked = false ∧ s.proxy.upload.readToEnd = true ∧
    s.proxy.download.main = .returned [] (.ok ()) ∧ Told s.client.shared.recv.log :=
  ⟨_, rfl, rfl, rfl, rfl, rfl, ⟨.ok none, false⟩, .tail _ (.head _), rfl⟩

theorem call_delivers_exchanged : ∃ s, run Call.step Call.start exchanged = some s ∧
    s.client.shared.send.locked = false ∧ s.proxy.upload.readToEnd = true ∧
    s.proxy.download.main = .returned [] (.ok ()) ∧ Told s.client.shared.recv.log ∧
    Delivered s := by
  obtain ⟨s, h, hops, hfree, hread, hm, ht⟩ := exchanged_ends
  refine ⟨s, h, hfree, hread, hm, ht, call_delivers exchanged_trusted h fun i p hp m hop => ?_⟩
  obtain ⟨q, hq, hpq⟩ := exists_of_callAt hp
  have hget : (s.client.procs.map fun p => p.send?.map SendCall.op)[i]? = some (some p.op) := by
    rw [List.getElem?_map, hq, Option.map_some, hpq]
    rfl
  rw [hops] at hget
  have hmem := List.mem_of_getElem? hget
  simp only [List.mem_cons, List.not_mem_nil, or_false, reduceCtorEq, false_or,
    Option.some.injEq] at hmem
  rcases hmem with hmem | hmem <;> rw [hmem] at hop <;> cases hop
  decide

end ConstructTransport.Path
