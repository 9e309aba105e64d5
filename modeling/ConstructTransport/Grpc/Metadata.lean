import ConstructTransport.Basic.Headers

/-! The heads of a call: the request that `open_stream` builds from a path and the
caller's metadata, and the trailers as `recv_trailers` returns them, in `client.rs`
and behind the shapes of the FFI. A pair that is not a header fails the call
before anything is sent; a trailer that is not text is left out without a word. -/

namespace ConstructTransport.Grpc

open Headers

variable (http : Http)

structure RequestHead where
  method : String
  uri : http.Uri
  headers : http.Map

/-- The headers every call begins with. -/
def callHeaders : List (String × String) :=
  [("content-type", "application/grpc+proto"), ("te", "trailers")]

/-- The request of `QuicClient::open_stream`; none is the error "build request". -/
def openStream (authority path : String) (metadata : List (String × String)) :
    Option (RequestHead http) := do
  let uri ← http.uri ("https://" ++ authority ++ path)
  let headers ← http.build [] callHeaders
  let headers ← http.build headers metadata
  return ⟨"POST", uri, headers⟩

/-- What `recv_trailers` makes of what h3 returned. Both copies of the function have this body. -/
def recvTrailers (trailers : Option http.Map) : List (String × String) :=
  match trailers with
  | none => []
  | some headers => (http.iter headers).filterMap fun p => (http.toStr p.2).map (http.asStr p.1, ·)

structure GrpcHeader where
  key : String
  value : String
  deriving DecidableEq, Repr

/-- `ffi::QuicChannel::open_stream`, as far as the request. -/
def Ffi.openStream (authority path : String) (metadata : List GrpcHeader) :
    Option (RequestHead http) :=
  Grpc.openStream http authority path (metadata.map fun m => (m.key, m.value))

/-- `ffi::QuicStream::recv_trailers`, of what h3 returned. -/
def Ffi.recvTrailers (trailers : Option http.Map) : List GrpcHeader :=
  (Grpc.recvTrailers http trailers).map fun p => ⟨p.1, p.2⟩

variable {http} {authority path : String} {metadata : List GrpcHeader}

def requestEntries (http : Http) (metadata : List GrpcHeader) : http.Map :=
  (callHeaders ++ metadata.map fun m => (m.key, m.value)).filterMap http.entry

/-- The request has the headers of every call, then the caller's, name by name. -/
theorem openStream_spec {head : RequestHead http}
    (h : Ffi.openStream http authority path metadata = some head) :
    head.method = "POST" ∧ http.uri ("https://" ++ authority ++ path) = some head.uri ∧
      Same head.headers (requestEntries http metadata) := by
  unfold Ffi.openStream openStream at h
  obtain ⟨uri, hu, h⟩ := Option.bind_eq_some_iff.mp h
  obtain ⟨headers, hc, h⟩ := Option.bind_eq_some_iff.mp h
  obtain ⟨all, hm, h⟩ := Option.bind_eq_some_iff.mp h
  cases h
  refine ⟨rfl, hu, fun n => ?_⟩
  rw [Http.getAll_build hm, Http.getAll_build hc, getAll_nil, List.nil_append, requestEntries,
    List.filterMap_append]
  simp [getAll]

/-- Under each name the caller finds the trailers that are text, in order. -/
theorem recvTrailers_spec (headers : http.Map) (n : http.Name) :
    ((Ffi.recvTrailers http (some headers)).filter (·.key = http.asStr n)).map GrpcHeader.value =
      (getAll headers n).filterMap http.toStr := by
  rw [← http.iter_same headers n, Ffi.recvTrailers, recvTrailers]
  generalize http.iter headers = entries
  induction entries with
  | nil => rfl
  | cons p entries ih =>
    rw [getAll_cons, List.filterMap_append, ← ih]
    by_cases hp : p.1 = n
    · subst hp
      cases ht : http.toStr p.2 <;> simp [ht]
    · have hne : ¬http.asStr p.1 = http.asStr n := fun he => hp (http.asStr_injective he)
      cases ht : http.toStr p.2 <;> simp [ht, hp, hne]

end ConstructTransport.Grpc
