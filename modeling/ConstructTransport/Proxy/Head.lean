import ConstructTransport.Grpc.Metadata
import ConstructTransport.Proxy.Request

/-! The heads of a proxied call: the request that `proxy_request` builds for the
upstream, and the response and trailers on their way back. Taken together with
the client's side, the caller's path and metadata reach the upstream, the metadata
name by name but for the two hop-by-hop names, and the upstream's trailers reach the
caller as far as they are text. -/

namespace ConstructTransport.Proxy

open Runs Headers Grpc

variable (http : Http)

structure ResponseHead where
  status : ℕ
  headers : http.Map

/-- The headers a request does not keep. -/
def hopByHop (n : http.Name) : Bool := n = http.host || n = http.connection

/-- The request for the upstream; none is the error "build upstream request". -/
def upstreamRequest (upstream : String) (req : RequestHead http) : Option (RequestHead http) := do
  let path := (http.pathAndQuery req.uri).getD "/"
  let uri ← http.uri ("http://" ++ upstream ++ path)
  return ⟨req.method, uri, copy (hopByHop http) [] (http.iter req.headers)⟩

/-- The response for the client. -/
def downstreamResponse (resp : ResponseHead http) : ResponseHead http :=
  ⟨resp.status, copy (fun _ => false) [] (http.iter resp.headers)⟩

/-- The trailers a stream was given. -/
def givenTrailers {H T : Type} (down : List (Down H T)) : Option T :=
  down.findSome? fun
    | .trailers t => some t
    | _ => none

variable {http}

/-- What HTTP carries of trailers from one end to the other. -/
def Carried : Option http.Map → Option http.Map → Prop
  | none, none => True
  | some t, some t' => Same t t'
  | _, _ => False

/-! ### To the upstream -/

theorem getAll_upstreamRequest {upstream : String} {req up : RequestHead http}
    (h : upstreamRequest http upstream req = some up) (n : http.Name) :
    getAll up.headers n =
      if n = http.host ∨ n = http.connection then [] else getAll req.headers n := by
  obtain ⟨uri, -, h⟩ := Option.bind_eq_some_iff.mp h
  cases h
  rw [getAll_copy, getAll_nil, List.nil_append, http.iter_same]
  simp [hopByHop]

/-- What `open_stream` takes of the caller arrives at the upstream: the path, and under each
name but those two, the values the call was given, in order. Of the request HTTP/3
carries the method, the path with its query, and the headers. -/
theorem call_reaches_upstream {authority path upstream : String} {metadata : List GrpcHeader}
    {sent received up : RequestHead http} (huri : http.KeepsPath)
    (ha : Http.IsAuthority authority) (hp : Http.IsPath path)
    (hsent : Ffi.openStream http authority path metadata = some sent)
    (hmethod : received.method = sent.method)
    (hpath : http.pathAndQuery received.uri = http.pathAndQuery sent.uri)
    (hheaders : Same received.headers sent.headers)
    (hup : upstreamRequest http upstream received = some up) :
    up.method = "POST" ∧ http.uri ("http://" ++ upstream ++ path) = some up.uri ∧
    ∀ n, getAll up.headers n = if n = http.host ∨ n = http.connection then []
      else getAll (requestEntries http metadata) n := by
  obtain ⟨hm, hu, hs⟩ := openStream_spec hsent
  have hreq : http.pathAndQuery received.uri = some path :=
    hpath.trans (huri authority path sent.uri ha hp hu)
  refine ⟨?_, ?_, fun n => ?_⟩
  · obtain ⟨uri, -, h⟩ := Option.bind_eq_some_iff.mp hup
    cases h
    exact hmethod.trans hm
  · obtain ⟨uri, hu, h⟩ := Option.bind_eq_some_iff.mp hup
    cases h
    rwa [hreq] at hu
  · rw [getAll_upstreamRequest hup, hheaders n, hs n]

/-- Names in lower case, and values without control characters. -/
def plain : Http where
  Name := String
  Value := String
  Uri := String
  name s := if s ≠ "" ∧ s.toList.all fun c => c.isAlphanum || c = '-' then
    some (.ofList (s.toList.map Char.toLower)) else none
  value s := if s.toList.all fun c => 32 ≤ c.toNat && c.toNat ≠ 127 then some s else none
  uri s := if s = "" then none else some s
  pathAndQuery u := some (.ofList (((u.toList.dropWhile (· ≠ '/')).drop 2).dropWhile (· ≠ '/')))
  asStr := id
  asStr_injective := Function.injective_id
  toStr v := if v.toList.all fun c => 32 ≤ c.toNat && c.toNat < 127 then some v else none
  iter := id
  iter_same _ _ := rfl
  host := "host"
  connection := "connection"

theorem plain_keepsPath : plain.KeepsPath := by
  intro authority path u ha hp hu
  have he : u = "https://" ++ authority ++ path := by
    change (if "https://" ++ authority ++ path = "" then none else some _) = some u at hu
    split_ifs at hu
    exact (Option.some.inj hu).symm
  have hslash : ∀ c ∈ authority.toList, decide (c ≠ '/') = true := fun c hc =>
    decide_eq_true (ha c hc).1
  have hrest : path.toList.dropWhile (fun c => decide (c ≠ '/')) = path.toList := by
    cases hl : path.toList with
    | nil => rfl
    | cons c rest =>
      have hc := hp.1
      rw [hl] at hc
      cases hc
      rfl
  have hdrop : ((u.toList.dropWhile fun c => decide (c ≠ '/')).drop 2) =
      authority.toList ++ path.toList := by
    rw [he, String.toList_append, String.toList_append]
    rfl
  change some (String.ofList (((u.toList.dropWhile _).drop 2).dropWhile _)) = some path
  rw [hdrop, List.dropWhile_append_of_pos hslash, hrest, String.ofList_toList]

theorem call_reaches_upstream_plain : ∃ sent up : RequestHead plain,
    Ffi.openStream plain "gw" "/p.S/M" [⟨"Authorization", "a"⟩] = some sent ∧
    upstreamRequest plain "envoy:8080" sent = some up ∧ up.method = "POST" ∧
    up.uri = "http://envoy:8080/p.S/M" ∧ getAll up.headers "authorization" = ["a"] := by
  obtain ⟨sent, up, hsent, hup⟩ : ∃ sent up : RequestHead plain,
      Ffi.openStream plain "gw" "/p.S/M" [⟨"Authorization", "a"⟩] = some sent ∧
      upstreamRequest plain "envoy:8080" sent = some up := ⟨_, _, rfl, rfl⟩
  obtain ⟨hm, hu, h⟩ := call_reaches_upstream plain_keepsPath (by decide) (by decide) hsent rfl rfl
    (fun _ => rfl) hup
  exact ⟨sent, up, hsent, hup, hm, Option.some.inj hu.symm, h "authorization"⟩

/-! ### Back to the caller -/

theorem givenTrailers_append {H T : Type} (xs ys : List (Down H T)) :
    givenTrailers (xs ++ ys) = (givenTrailers xs).or (givenTrailers ys) := List.findSome?_append

theorem givenTrailers_data {H T : Type} (chunks : List (List UInt8)) :
    givenTrailers (chunks.map .data : List (Down H T)) = none := by
  rw [givenTrailers, List.findSome?_eq_none_iff]
  simp

theorem givenTrailers_of_complete {H T : Type} {d : Download H T} {e : Down H T}
    (h : d.Complete e) (he : ∀ t, e ≠ .trailers t) : givenTrailers d.down = d.trailers := by
  obtain ⟨-, chunks, -, g, -, hd⟩ := h
  have hend : givenTrailers [e] = none := by
    cases e with
    | trailers t => exact absurd rfl (he t)
    | _ => rfl
  rw [hd, ← List.singleton_append, givenTrailers_append, givenTrailers_append,
    givenTrailers_append, givenTrailers_data, hend]
  cases d.trailers <;> rfl

/-- Of a call that `proxy_request` saw to its end, the caller gets the upstream's
trailers: under each name the values that are text, in order. -/
theorem trailers_reach_caller {steps : List (Step (ResponseHead http) http.Map)}
    {s : Call (ResponseHead http) http.Map} (h : run proxyRequest Call.start steps = some s)
    {lost : List UInt8} (hm : s.download.main = .returned lost (.ok ()))
    {received : Option http.Map} (hc : Carried received (givenTrailers s.download.down)) :
    ∀ n, ((Ffi.recvTrailers http received).filter (·.key = http.asStr n)).map GrpcHeader.value =
      (s.download.trailers.elim [] (getAll · n)).filterMap http.toStr := by
  intro n
  have hcomplete : s.download.Complete .finish := by
    have := (run_callInv h).download.shape
    rwa [hm] at this
  rw [givenTrailers_of_complete hcomplete nofun] at hc
  cases ht : s.download.trailers with
  | none =>
    rw [ht] at hc
    cases received with
    | none => rfl
    | some r => exact hc.elim
  | some t =>
    rw [ht] at hc
    cases received with
    | none => exact hc.elim
    | some r => rw [recvTrailers_spec, hc n, Option.elim_some]

/-- A response of trailers alone, one of them not text. -/
def refusal : List (Step (ResponseHead plain) plain.Map) :=
  [.down .advance, .down .advance, .spawn, .down (.respond ⟨200, []⟩), .down .advance,
    .down .advance, .down .advance,
    .down (.produceTrailers [("grpc-status", "16"), ("grpc-message", "déjà"),
      ("grpc-message", "no")]),
    .down .advance, .down .advance, .down .advance, .down .advance, .abort]

theorem trailers_reach_caller_refusal : ∃ s, run proxyRequest Call.start refusal = some s ∧
    ((Ffi.recvTrailers plain (givenTrailers s.download.down)).filter
      (·.key = "grpc-message")).map GrpcHeader.value = ["no"] := by
  obtain ⟨s, h, hm, hg, ht⟩ : ∃ s, run proxyRequest Call.start refusal = some s ∧
      s.download.main = .returned [] (.ok ()) ∧
      Carried (givenTrailers s.download.down) (givenTrailers s.download.down) ∧
      (s.download.trailers.elim [] (getAll · "grpc-message")).filterMap plain.toStr = ["no"] :=
    ⟨_, rfl, rfl, fun _ => rfl, rfl⟩
  exact ⟨s, h, (trailers_reach_caller h hm hg "grpc-message").trans ht⟩

/-- The response reaches the client with its status and all of its headers. -/
theorem downstreamResponse_same (resp : ResponseHead http) :
    (downstreamResponse http resp).status = resp.status ∧
      Same (downstreamResponse http resp).headers resp.headers :=
  ⟨rfl, http.carry_same _⟩

end ConstructTransport.Proxy
