import ConstructTransport.Path.Call
import ConstructTransport.Proxy.Endings
import ConstructTransport.Proxy.Head

/-! The smoke test (`bin/smoke.rs`) of a deployed gateway. It makes one call with an
empty message and judges the response by its gRPC status, that of the trailers
before that of the head. Played through the proxy in any order of the steps, a
verdict is the one the upstream's own response deserves, with one exception: where
`proxy_request` returned early, the stream it dropped looks finished, and the
verdict is that of the head alone. -/

namespace ConstructTransport.Bin.Smoke

open Runs Headers Grpc Proxy
open ConstructTransport.Path (ofProxy closed ProxyGrows proxy_grows)

variable (http : Http)

/-- The errors of the smoke test behind the handshake, by their await. -/
inductive SmokeError
  | sendRequest
  | sendData
  | finish
  /-- `recv_response` failed, or "recv_response timed out" -/
  | recvResponse
  | recvData
  | recvTrailers
  deriving DecidableEq, Repr

/-- The gRPC status and message, as far as they have been found. -/
structure Report where
  status : Option String
  message : Option String
  deriving DecidableEq, Repr

inductive Verdict
  /-- "PASS", with the status and message it prints -/
  | pass (code : String) (message : Option String)
  /-- "no grpc-status returned — request did not reach a gRPC service" -/
  | noStatus
  deriving DecidableEq, Repr

def Report.of (m : http.Map) : Report :=
  ⟨http.getText m "grpc-status", http.getText m "grpc-message"⟩

def Report.update (r found : Report) : Report :=
  ⟨found.status.or r.status, found.message.or r.message⟩

def Report.verdict : Report → Verdict
  | ⟨some code, message⟩ => .pass code message
  | ⟨none, _⟩ => .noStatus

/-- The verdict on a response. -/
def judge (head : ResponseHead http) (trailers : Option http.Map) : Verdict :=
  match trailers with
  | some t => ((Report.of http head.headers).update (.of http t)).verdict
  | none => (Report.of http head.headers).verdict

inductive Phase
  | requesting
  | sending
  | finishing
  | awaitingHead
  | draining (found : Report)
  | trailing (found : Report)
  | judged (v : Verdict)
  | failed (e : SmokeError)
  deriving DecidableEq, Repr

/-- The smoke test, the call that the proxy makes of it, and how much of the body
`recv_data` has returned. -/
structure Session where
  call : Call (ResponseHead http) http.Map
  phase : Phase
  taken : ℕ

def Session.start : Session http := ⟨Call.start, .requesting, 0⟩

inductive Label
  | proxy (l : Proxy.Step (ResponseHead http) http.Map)
  | sendRequest
  | sendData
  | finish
  | recvResponse
  | recvData (n : ℕ)
  | recvNone
  | recvTrailers
  | fail

/-- The error an await fails with. -/
def Phase.error : Phase → Option SmokeError
  | requesting => some .sendRequest
  | sending => some .sendData
  | finishing => some .finish
  | awaitingHead => some .recvResponse
  | draining _ => some .recvData
  | trailing _ => some .recvTrailers
  | judged _ | failed _ => none

def Phase.requested : Phase → Bool
  | requesting | failed .sendRequest => false
  | _ => true

/-- An end of the stream, also where the proxy dropped it. -/
def closes {H T : Type} : Down H T → Bool
  | .finish | .dropped => true
  | _ => false

namespace Session

variable {http}

def down (s : Session http) : List (Down (ResponseHead http) http.Map) := s.call.download.down

def client (s : Session http) (l : UploadStep) (phase : Phase) : Option (Session http) :=
  (proxyRequest s.call (.up l)).map fun call => { s with call := call, phase := phase }

def step (s : Session http) : Label http → Option (Session http)
  | .proxy l =>
    if s.phase.requested ∧ ofProxy l then
      (proxyRequest s.call l).map fun call => { s with call := call }
    else none
  | .sendRequest =>
    match s.phase with
    | .requesting => some { s with phase := .sending }
    | _ => none
  | .sendData =>
    match s.phase with
    | .sending => s.client (.clientSend (encodeFrame [])) .finishing
    | _ => none
  | .finish =>
    match s.phase with
    | .finishing => s.client (.clientEnd .clean) .awaitingHead
    | _ => none
  | .recvResponse =>
    match s.phase, s.down.head? with
    | .awaitingHead, some (.head h) =>
      some { s with phase := .draining (.of http (http.carry (downstreamResponse http h).headers)) }
    | _, _ => none
  | .recvData n =>
    match s.phase with
    | .draining _ =>
      if s.taken + n ≤ (downBytes s.down).length then some { s with taken := s.taken + n } else none
    | _ => none
  | .recvNone =>
    match s.phase with
    | .draining found =>
      if s.taken = (downBytes s.down).length ∧
          ((givenTrailers s.down).isSome ∨ s.down.any closes) then
        some { s with phase := .trailing found }
      else none
    | _ => none
  | .recvTrailers =>
    match s.phase with
    | .trailing found =>
      match givenTrailers s.down with
      | some t => some { s with phase := .judged (found.update (.of http (http.carry t))).verdict }
      | none => if s.down.any closes then some { s with phase := .judged found.verdict } else none
    | _ => none
  | .fail => s.phase.error.map fun e => { s with phase := .failed e }

end Session

/-! ### What the stream was given is the upstream's -/

section Download

variable {H T : Type} {d d' : Download H T} {l : DownloadStep H T}

/-- Also where `proxy_request` has returned early. -/
structure Owed (d : Download H T) : Prop where
  head : ∀ h, .head h ∈ d.down → d.head = some h
  trailers : ∀ t, .trailers t ∈ d.down → d.trailers = some t ∧ d.ending = some .clean

theorem Owed.snoc (ho : Owed d) {e : Down H T} (hh : ∀ h, e = .head h → d.head = some h)
    (ht : ∀ t, e = .trailers t → d.trailers = some t ∧ d.ending = some .clean) (m : Main H T) :
    Owed { d with main := m, down := d.down ++ [e] } := by
  refine ⟨fun h hm => ?_, fun t hm => ?_⟩
  · rcases List.mem_append.mp hm with hm | hm
    · exact ho.head h hm
    · exact hh h (List.mem_singleton.mp hm).symm
  · rcases List.mem_append.mp hm with hm | hm
    · exact ho.trailers t hm
    · exact ht t (List.mem_singleton.mp hm).symm

theorem advance_owed (hi : d.Inv) (ho : Owed d) (h : d.advance = some d') : Owed d' := by
  obtain ⟨-, taken, shape⟩ := hi
  unfold Download.advance at h
  split at h
  · cases h; exact ⟨ho.head, ho.trailers⟩
  · cases h; exact ⟨ho.head, ho.trailers⟩
  · obtain ⟨g, -, rfl⟩ := Option.map_eq_some_iff.mp h
    exact ⟨ho.head, ho.trailers⟩
  · cases h; exact ⟨ho.head, ho.trailers⟩
  · next g hm =>
    cases h
    rw [hm] at shape
    exact ho.snoc (e := .head g) (fun h he => by cases he; exact shape.2.2) nofun _
  · split_ifs at h
    split at h <;> cases h <;> exact ⟨ho.head, ho.trailers⟩
  · cases h; exact ⟨ho.head, ho.trailers⟩
  · next t hm =>
    cases h
    rw [hm] at shape
    refine ho.snoc (e := .trailers t) nofun (fun t he => ?_) _
    cases he
    exact ⟨shape.2.1, (taken shape.1).2⟩
  · cases h; exact ho.snoc (e := .finish) nofun nofun _
  · cases h

theorem step_owed (hi : d.Inv) (ho : Owed d) (h : d.step l = some d') : Owed d' := by
  cases Download.takes_of_step h with
  | respond g hm hn => exact ⟨fun h hd => absurd (hn.symm.trans (ho.head h hd)) nofun, ho.trailers⟩
  | produce | frame => exact ⟨ho.head, ho.trailers⟩
  | produceTrailers _ hp | produceEnd _ hp =>
    exact ⟨ho.head, fun t hd => absurd (hp.symm.trans (ho.trailers t hd).2) nofun⟩
  | sendData => exact ho.snoc (e := .data _) nofun nofun _
  | fail => exact ho.snoc (e := .dropped) nofun nofun _
  | advance hd => exact advance_owed hi ho hd

theorem closed_of_closes (hi : d.Inv) (h : d.down.any closes = true) : closed d.main = true := by
  have hfin : d.Finished := by
    obtain ⟨e, he, hc⟩ := List.any_eq_true.mp h
    cases e with
    | finish => exact .inl he
    | dropped => exact .inr he
    | head | data | trailers => cases hc
  have shape := hi.shape
  cases hm : d.main with
  | aborting | returned => rfl
  | dialing | handshaking | building | requesting | heading | responding =>
    rw [hm] at shape
    exact absurd hfin (Download.not_finished_of_nil shape.1)
  | awaiting =>
    rw [hm] at shape
    obtain ⟨chunks, hg⟩ := shape
    exact absurd hfin hg.not_finished
  | forwarding =>
    rw [hm] at shape
    obtain ⟨-, chunks, hg⟩ := shape
    exact absurd hfin hg.not_finished
  | trailing | finishing =>
    rw [hm] at shape
    obtain ⟨-, -, chunks, hg⟩ := shape
    exact absurd hfin hg.not_finished

end Download

/-! ### The invariant -/

variable {http} {s s' : Session http} {call call' : Call (ResponseHead http) http.Map}

def Answered (call : Call (ResponseHead http) http.Map) (h : ResponseHead http) : Prop :=
  call.download.down.head? = some (.head h)

/-- A verdict on the trailers that the stream was given before its end. -/
def Judged (call : Call (ResponseHead http) http.Map) (v : Verdict) : Prop :=
  ∃ h, Answered call h ∧ v = judge http h (givenTrailers call.download.down) ∧
    ((givenTrailers call.download.down).isSome ∨ call.download.down.any closes = true)

/-- What of the request has gone to the proxy, and what has been found in its response. -/
def Meets (call : Call (ResponseHead http) http.Map) : Phase → Prop
  | .requesting | .sending => call.upload.sent = []
  | .finishing | .awaitingHead => call.upload.sent = encodeFrame []
  | .draining found | .trailing found =>
    call.upload.sent = encodeFrame [] ∧ ∃ h, Answered call h ∧ found = .of http h.headers
  | .judged v => call.upload.sent = encodeFrame [] ∧ Judged call v
  | .failed _ => call.upload.sent <+: encodeFrame []

theorem Meets.sent_prefix {p : Phase} (hm : Meets call p) :
    call.upload.sent <+: encodeFrame [] := by
  cases p with
  | requesting | sending =>
    rw [show call.upload.sent = [] from hm]
    exact List.nil_prefix
  | finishing | awaitingHead =>
    rw [show call.upload.sent = encodeFrame [] from hm]
  | draining | trailing | judged => rw [hm.1]
  | failed => exact hm

structure Inv (s : Session http) : Prop where
  call : s.call.Inv
  owed : Owed s.call.download
  phase : Meets s.call s.phase

theorem of_congr {m m' : http.Map} (h : Same m m') : Report.of http m = Report.of http m' := by
  rw [Report.of, Report.of, http.getText_congr h, http.getText_congr h]

theorem of_received (h : ResponseHead http) :
    Report.of http (http.carry (downstreamResponse http h).headers) = .of http h.headers :=
  of_congr ((http.carry_same _).trans (downstreamResponse_same h).2)

theorem call_owed {l : Proxy.Step (ResponseHead http) http.Map} (hi : call.Inv)
    (ho : Owed call.download) (h : proxyRequest call l = some call') : Owed call'.download := by
  rcases proxyRequest_cases h with ⟨k, u, -, -, rfl⟩ | ⟨k, d, -, hd, rfl⟩ | ⟨-, -, rfl⟩ |
    ⟨-, -, rfl⟩
  · exact ho
  · exact step_owed hi.download ho hd
  · exact ⟨ho.head, ho.trailers⟩
  · exact ⟨ho.head, ho.trailers⟩

theorem Answered.grows {h : ResponseHead http} (ha : Answered call h)
    (hd : call.download.down <+: call'.download.down) : Answered call' h := by
  obtain ⟨more, hm⟩ := hd
  unfold Answered at ha ⊢
  rw [← hm, List.head?_append, ha]
  rfl

/-- A verdict stands, whatever the proxy does after it. -/
theorem Judged.grows {v : Verdict} (hi : call.Inv) (hj : Judged call v)
    (grows : ProxyGrows call call') : Judged call' v := by
  obtain ⟨h, ha, hv, hend⟩ := hj
  cases ht : givenTrailers call.download.down with
  | some t =>
    obtain ⟨more, hm⟩ := grows.given
    have ht' : givenTrailers call'.download.down = some t := by
      rw [← hm, givenTrailers_append, ht]
      rfl
    refine ⟨h, ha.grows grows.given, ?_, .inl ?_⟩
    · rw [hv, ht, ht']
    · rw [ht']
      rfl
  | none =>
    rw [ht] at hend
    have hclosed := closed_of_closes hi.download (hend.resolve_left nofun)
    have hd := (grows.closed hclosed).2
    exact ⟨h, ha.grows grows.given, hd ▸ hv, .inr (hd ▸ hend.resolve_left nofun)⟩

theorem meets_proxy {p : Phase} (hi : call.Inv) (hm : Meets call p)
    (grows : ProxyGrows call call') : Meets call' p := by
  cases p with
  | requesting | sending | finishing | awaitingHead => exact grows.sent.trans hm
  | draining | trailing =>
    obtain ⟨hs, h, ha, hf⟩ := hm
    exact ⟨grows.sent.trans hs, h, ha.grows grows.given, hf⟩
  | judged => exact ⟨grows.sent.trans hm.1, hm.2.grows hi grows⟩
  | failed =>
    rw [Meets, grows.sent]
    exact hm

theorem client_inv {l : UploadStep} {p : Phase} (hi : Inv s) (h : s.client l p = some s')
    (hm : ∀ u, s.call.upload.step l = some u → Meets { s.call with upload := u } p) : Inv s' := by
  obtain ⟨c, hc, rfl⟩ := Option.map_eq_some_iff.mp h
  have hcall := step_callInv hi.call hc
  obtain ⟨u, hu, rfl⟩ := Option.map_eq_some_iff.mp hc
  exact ⟨hcall, hi.owed, hm u hu⟩

theorem local_inv (hi : Inv s) {p : Phase} {n : ℕ} (hm : Meets s.call p) :
    Inv { s with phase := p, taken := n } := ⟨hi.call, hi.owed, hm⟩

theorem step_inv {l : Label http} (hi : Inv s) (h : s.step l = some s') : Inv s' := by
  have hm := hi.phase
  cases l with
  | proxy l =>
    simp only [Session.step] at h
    split_ifs at h with hl
    obtain ⟨c, hc, rfl⟩ := Option.map_eq_some_iff.mp h
    exact ⟨step_callInv hi.call hc, call_owed hi.call hi.owed hc,
      meets_proxy hi.call hm (proxy_grows hl.2 hc)⟩
  | sendRequest =>
    simp only [Session.step] at h
    split at h
    · next hp =>
      cases h
      rw [hp] at hm
      exact local_inv hi hm
    · contradiction
  | sendData =>
    simp only [Session.step] at h
    split at h
    · next hp =>
      rw [hp] at hm
      refine client_inv hi h fun u hu => ?_
      cases Upload.takes_of_step hu with
      | clientSend => exact congrArg (· ++ encodeFrame []) hm
    · contradiction
  | finish =>
    simp only [Session.step] at h
    split at h
    · next hp =>
      rw [hp] at hm
      refine client_inv hi h fun u hu => ?_
      cases Upload.takes_of_step hu with
      | clientEnd => exact hm
    · contradiction
  | recvResponse =>
    simp only [Session.step] at h
    split at h
    · next hp hh =>
      cases h
      rw [hp] at hm
      exact local_inv hi ⟨hm, _, hh, of_received _⟩
    · contradiction
  | recvData n =>
    simp only [Session.step] at h
    split at h
    · next hp =>
      split_ifs at h
      cases h
      exact local_inv hi hm
    · contradiction
  | recvNone =>
    simp only [Session.step] at h
    split at h
    · next hp =>
      split_ifs at h
      cases h
      rw [hp] at hm
      exact local_inv hi hm
    · contradiction
  | recvTrailers =>
    simp only [Session.step] at h
    split at h
    · next hp =>
      rw [hp] at hm
      obtain ⟨hs, head, ha, rfl⟩ := hm
      split at h
      · next t ht =>
        cases h
        rw [of_congr (http.carry_same t)]
        refine local_inv hi ⟨hs, head, ha, ?_, .inl (Option.isSome_of_eq_some ht)⟩
        change _ = judge http head (givenTrailers s.down)
        rw [ht]
        rfl
      · next ht =>
        split_ifs at h with hc
        cases h
        refine local_inv hi ⟨hs, head, ha, ?_, .inr hc⟩
        change _ = judge http head (givenTrailers s.down)
        rw [ht]
        rfl
    · contradiction
  | fail =>
    obtain ⟨e, he, rfl⟩ := Option.map_eq_some_iff.mp h
    refine local_inv hi ?_
    exact hm.sent_prefix

theorem start_inv : Inv (Session.start http) :=
  ⟨run_callInv (rfl : run proxyRequest Call.start [] = some Call.start), ⟨nofun, nofun⟩, rfl⟩

/-! ### The verdict -/

/-- What the outcome of the smoke test says about the gateway and its upstream. -/
structure Sound (s : Session http) : Prop where
  /-- The upstream is given the empty message at most. -/
  request : s.call.upload.received <+: encodeFrame []
  /-- The verdict on the upstream's response, or, where the proxy gave up on it before its
  trailers, on its head. -/
  verdict : ∀ v, s.phase = .judged v → ∃ h, s.call.download.head = some h ∧
    (v = judge http h s.call.download.trailers ∨
      v = judge http h none ∧ ∃ lost e, s.call.download.main = .returned lost (.error e) ∧
        e ≠ .finish)
  /-- A status that is reported is one the upstream gave. -/
  pass : ∀ code message, s.phase = .judged (.pass code message) →
    (∃ h, s.call.download.head = some h ∧ http.getText h.headers "grpc-status" = some code) ∨
      ∃ t, s.call.download.trailers = some t ∧ http.getText t "grpc-status" = some code

theorem Judged.exact {v : Verdict} (hi : call.Inv) (ho : Owed call.download) (hj : Judged call v) :
    ∃ h, call.download.head = some h ∧ (v = judge http h call.download.trailers ∨
      v = judge http h none ∧ ∃ lost e, call.download.main = .returned lost (.error e) ∧
        e ≠ .finish) := by
  obtain ⟨h, ha, hv, hend⟩ := hj
  refine ⟨h, ho.head h (List.mem_of_mem_head? ha), ?_⟩
  cases ht : givenTrailers call.download.down with
  | some t =>
    obtain ⟨d, hd, hdt⟩ := List.exists_of_findSome?_eq_some ht
    have hmem : .trailers t ∈ call.download.down := by
      cases d <;> cases hdt
      exact hd
    rw [(ho.trailers t hmem).1, hv, ht]
    exact .inl rfl
  | none =>
    rw [ht] at hv hend
    have shape := hi.download.shape
    have complete : ∀ {e}, call.download.Complete e → (∀ t, e ≠ .trailers t) →
        v = judge http h call.download.trailers := fun hc he => by
      rw [← givenTrailers_of_complete hc he, ht, hv]
    have hclosed := closed_of_closes hi.download (hend.resolve_left nofun)
    cases hm : call.download.main with
    | aborting =>
      rw [hm] at shape
      exact .inl (complete shape nofun)
    | returned lost result =>
      rw [hm] at shape
      cases result with
      | ok => exact .inl (complete shape nofun)
      | error e =>
        by_cases he : e = .finish
        · subst he
          exact .inl (complete shape nofun)
        · exact .inr ⟨hv, lost, e, rfl, he⟩
    | _ =>
      rw [hm] at hclosed
      cases hclosed

theorem Report.verdict_pass {r : Report} {code : String} {message : Option String}
    (h : r.verdict = .pass code message) : r.status = some code := by
  obtain ⟨_ | status, found⟩ := r
  · cases h
  · cases h
    rfl

theorem status_of_pass {h : ResponseHead http} {trailers : Option http.Map} {code : String}
    {message : Option String} (hj : .pass code message = judge http h trailers) :
    http.getText h.headers "grpc-status" = some code ∨
      ∃ t, trailers = some t ∧ http.getText t "grpc-status" = some code := by
  cases trailers with
  | none => exact .inl (Report.verdict_pass hj.symm)
  | some t =>
    have hupdated : ((Report.of http h.headers).update (.of http t)).status = some code :=
      Report.verdict_pass hj.symm
    rcases Option.or_eq_some_iff.mp hupdated with hs | ⟨-, hs⟩
    · exact .inr ⟨t, rfl, hs⟩
    · exact .inl hs

/-- In every run of the smoke test through the proxy. -/
theorem smoke_sound {ls : List (Label http)}
    (h : run Session.step (Session.start http) ls = some s) : Sound s := by
  have hi := run_invariant Inv (fun _ _ _ hi hs => step_inv hi hs) start_inv h
  have judged : ∀ v, s.phase = .judged v → Judged s.call v := fun v hp => by
    have hm := hi.phase
    rw [hp] at hm
    exact hm.2
  refine ⟨?_, fun v hp => (judged v hp).exact hi.call hi.owed, fun code message hp => ?_⟩
  · exact hi.call.upload.received_prefix.trans hi.phase.sent_prefix
  · obtain ⟨g, hg, hv | ⟨hv, -⟩⟩ := (judged _ hp).exact hi.call hi.owed
    · rcases status_of_pass hv with hs | ht
      · exact .inl ⟨g, hg, hs⟩
      · exact .inr ht
    · rcases status_of_pass hv with hs | ⟨t, ht, -⟩
      · exact .inl ⟨g, hg, hs⟩
      · cases ht

/-- The upstream has the request and answers with a head. -/
def answered : List (Label plain) :=
  [.sendRequest, .proxy (.down .advance), .proxy (.down .advance), .proxy .spawn, .sendData,
    .finish, .proxy (.up (.recvData 5)), .proxy (.up .bodySend), .proxy (.up .recvNone),
    .proxy (.up .bodyFrame), .proxy (.up (.upstreamRead 5)), .proxy (.up .bodyEnd),
    .proxy (.down (.respond ⟨200, [("content-type", "application/grpc")]⟩)),
    .proxy (.down .advance), .proxy (.down .advance), .proxy (.down .advance), .recvResponse]

def refused : List (Label plain) :=
  answered ++ [.proxy (.down (.produceTrailers [("grpc-status", "16")])), .proxy (.down .advance),
    .proxy (.down .advance), .recvNone, .recvTrailers]

theorem smoke_sound_refused : ∃ s, run Session.step (Session.start plain) refused = some s ∧
    s.phase = .judged (.pass "16" none) ∧ s.call.upload.received = encodeFrame [] ∧ Sound s := by
  obtain ⟨s, h, hp, hr⟩ : ∃ s, run Session.step (Session.start plain) refused = some s ∧
      s.phase = .judged (.pass "16" none) ∧ s.call.upload.received = encodeFrame [] :=
    ⟨_, rfl, rfl, rfl⟩
  exact ⟨s, h, hp, hr, smoke_sound h⟩

/-- A service that breaks off behind its head is taken for none. -/
example : ∃ s, run Session.step (Session.start plain) (answered ++
    [.proxy (.down (.produceEnd .failed)), .proxy (.down .fail), .recvNone, .recvTrailers]) =
      some s ∧ s.phase = .judged .noStatus ∧ s.call.upload.received = encodeFrame [] :=
  ⟨_, rfl, rfl, rfl⟩

end ConstructTransport.Bin.Smoke
