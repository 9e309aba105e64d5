import ConstructTransport.Basic.Pool
import ConstructTransport.Echo.Handler
import ConstructTransport.Grpc.Delivery

/-! What the clients of the echo server can rely on, over any number of
connections. On every request the head comes before anything is read, the bytes
sent back are the first of those received, and trailers mean that all were. A
connection serves its requests one at a time and in order. What a gRPC client
reads back is what it sent. -/

namespace ConstructTransport.Echo

open Runs Pooling Proxy Grpc Checked Framing

/-! ### One request -/

/-- How far a request has come. -/
inductive Request.Status (r : Request) : Prop
  | untouched (untouched : r.Untouched)
  | refused (down : r.down = [.dropped]) (unread : r.unread = r.sent)
  | begun {held : List UInt8} {tail : List (Down Head Trailers)} (echoing : r.Echoing held tail)
      (tail : tail = [] ∨ tail = [.dropped])
  | done {ends : List (Down Head Trailers)} (all : r.Over)
      (echoing : r.Echoing [] (.trailers okTrailers :: ends))
      (ends : ends = [] ∨ ∃ d, IsEnd d ∧ ends = [d])

theorem Request.Done.status {r : Request} (h : r.Done) : r.Status := by
  obtain ⟨d, hd, he, ho⟩ := h
  exact .done ho he (.inr ⟨d, hd, rfl⟩)

theorem Handler.Holds.status {h : Handler} {r : Request} (hr : h.Holds r) : r.Status := by
  rcases h with _ | _ | _ | _ | _ | _ | rest | _ | _ | ⟨lost, _ | _⟩
  case receiving | sending => exact .begun hr (.inl rfl)
  case trailing => exact .begun hr.1 (.inl rfl)
  case finishing => exact .done hr.2 hr.1 (.inl rfl)
  case returned.error e =>
    cases e with
    | connect | setup | accept => exact .untouched hr
    | resolve | sendResponse => exact .refused hr.1 hr.2
    | recvData | sendData => exact .begun hr (.inr rfl)
    | sendTrailers => exact .begun hr.1 (.inr rfl)
  all_goals exact .untouched hr

theorem Conn.Inv.status {c : Conn} (hi : c.Inv) {i : ℕ} {r : Request}
    (hr : c.requests[i]? = some r) : r.Status := by
  rcases Nat.lt_trichotomy i c.served with hlt | rfl | hgt
  · exact (hi.past i r hlt hr).status
  · exact (hi.present r hr).status
  · exact .untouched (hi.future i r hgt hr)

/-- What a request is given, against what its client sent. -/
structure Faithful (r : Request) : Prop where
  /-- Sent back, in the handler's hands, or unread: no byte is lost, made up or moved. -/
  conserved : ∃ held, downBytes r.down ++ held ++ r.unread = r.sent
  /-- Without a head nothing is sent, and nothing has been read. -/
  head_first : r.down ≠ [] → r.down ≠ [.dropped] → r.down.head? = some (.head okHead)
  reads_after_head : r.unread ≠ r.sent → r.down.head? = some (.head okHead)
  trailers_last : ∀ t, .trailers t ∈ r.down → t = okTrailers ∧ r.ending = some .clean ∧
    r.unread = [] ∧ downBytes r.down = r.sent
  finish_last : .finish ∈ r.down → .trailers okTrailers ∈ r.down

theorem Request.Echoing.bytes {r : Request} {held : List UInt8} {tail : List (Down Head Trailers)}
    (h : r.Echoing held tail) (ht : downBytes tail = []) :
    downBytes r.down ++ held ++ r.unread = r.sent := by
  obtain ⟨chunks, hd, hs⟩ := h
  rw [hd, Download.downBytes_head, Download.downBytes_append, Download.downBytes_data, ht,
    List.append_nil, hs]

theorem Request.Echoing.head {r : Request} {held : List UInt8} {tail : List (Down Head Trailers)}
    (h : r.Echoing held tail) : r.down.head? = some (.head okHead) := by
  obtain ⟨chunks, hd, -⟩ := h
  rw [hd]
  rfl

theorem Request.Echoing.mem_tail {r : Request} {held : List UInt8}
    {tail : List (Down Head Trailers)} (h : r.Echoing held tail) {d : Down Head Trailers}
    (hd : d ∈ r.down) (hh : ∀ g, d ≠ .head g) (hb : ∀ bytes, d ≠ .data bytes) : d ∈ tail := by
  obtain ⟨chunks, he, -⟩ := h
  rw [he, List.mem_cons, List.mem_append, List.mem_map] at hd
  rcases hd with rfl | ⟨bytes, -, rfl⟩ | hd
  · exact absurd rfl (hh _)
  · exact absurd rfl (hb _)
  · exact hd

theorem Request.Status.faithful {r : Request} (h : r.Status) : Faithful r := by
  cases h with
  | untouched h =>
    obtain ⟨hd, hu⟩ := h
    refine ⟨⟨[], by rw [hd, hu]; rfl⟩, fun hne => absurd hd hne, fun hne => absurd hu hne, ?_, ?_⟩
    · rw [hd]
      exact nofun
    · rw [hd]
      exact nofun
  | refused hd hu =>
    refine ⟨⟨[], by rw [hd, hu]; rfl⟩, fun _ hne => absurd hd hne, fun hne => absurd hu hne, ?_, ?_⟩
    · rw [hd]
      simp
    · rw [hd]
      simp
  | begun he ht =>
    refine ⟨⟨_, he.bytes ?_⟩, fun _ _ => he.head, fun _ => he.head, fun t hm => ?_, fun hm => ?_⟩
    · rcases ht with rfl | rfl <;> rfl
    · have := he.mem_tail hm nofun nofun
      rcases ht with rfl | rfl <;> simp at this
    · have := he.mem_tail hm nofun nofun
      rcases ht with rfl | rfl <;> simp at this
  | @done ends ho he hends =>
    have hb : downBytes (.trailers okTrailers :: ends : List (Down Head Trailers)) = [] := by
      rcases hends with rfl | ⟨d, hd, rfl⟩
      · rfl
      · cases hd <;> rfl
    have hall := he.bytes hb
    rw [ho.1, List.append_nil, List.append_nil] at hall
    refine ⟨⟨[], by rw [ho.1, List.append_nil, List.append_nil, hall]⟩, fun _ _ => he.head,
      fun _ => he.head, fun t hm => ⟨?_, ho.2, ho.1, hall⟩, fun _ => ?_⟩
    · have := he.mem_tail hm nofun nofun
      rcases hends with rfl | ⟨d, hd, rfl⟩
      · simpa using this
      · cases hd <;> simpa using this
    · obtain ⟨chunks, hd, -⟩ := he
      rw [hd]
      simp

/-! ### The server -/

abbrev Server := Pool Conn

/-- The accept loop of `spawn_echo_on_endpoint` and the connections it spawned. -/
def serve : Server → Event Step → Option Server := Pooling.step Conn.start Conn.step

variable {es : List (Event Step)} {s : Server} {k : ℕ} {c : Conn}

theorem serve_inv (h : run serve Pool.start es = some s) (hc : s.workers[k]? = some c) : c.Inv :=
  Conn.run_inv (run_own h hc)

/-- Every request of every connection, in every run of the server. -/
theorem echo_faithful (h : run serve Pool.start es = some s) (hc : s.workers[k]? = some c)
    {i : ℕ} {r : Request} (hr : c.requests[i]? = some r) : Faithful r :=
  ((serve_inv h hc).status hr).faithful

def echoed : List (Event Step) :=
  [.accept, .work 0 .advance, .work 0 .advance, .work 0 .request,
    .work 0 (.clientSend 0 [0, 0, 0, 0, 1, 7]), .work 0 .advance, .work 0 .advance,
    .work 0 .advance, .work 0 (.recvData 4), .work 0 (.sendData 4), .work 0 .advance,
    .work 0 (.recvData 2), .work 0 (.clientEnd 0 .clean), .work 0 (.sendData 2), .work 0 .advance,
    .work 0 .recvNone, .work 0 .advance, .work 0 .advance]

theorem echoed_runs : ∃ s c r, run serve Pool.start echoed = some s ∧ s.workers[0]? = some c ∧
    c.requests[0]? = some r ∧ r.sent = [0, 0, 0, 0, 1, 7] ∧ r.ending = some .clean :=
  ⟨_, _, _, rfl, rfl, rfl, rfl, rfl⟩

theorem echo_faithful_echoed : ∃ s c r, run serve Pool.start echoed = some s ∧
    s.workers[0]? = some c ∧ c.requests[0]? = some r ∧ r.sent = [0, 0, 0, 0, 1, 7] ∧
    Faithful r := by
  obtain ⟨s, c, r, h, hc, hr, hs, -⟩ := echoed_runs
  exact ⟨s, c, r, h, hc, hr, hs, echo_faithful h hc hr⟩

/-! ### One request at a time -/

/-- What request `i` was given, nothing if there is none yet. -/
def Conn.downOf (c : Conn) (i : ℕ) : List (Down Head Trailers) :=
  (c.requests[i]?.getD Request.start).down

theorem Handler.Waits.not_returned {h h' : Handler} (hw : h.Waits h') {lost : List UInt8}
    {result : Except EchoError Unit} : h ≠ .returned lost result := by
  rintro rfl
  cases hw
  contradiction

theorem Handler.Turn.not_returned {h h' : Handler} {r r' : Request} (ht : h.Turn r h' r')
    {lost : List UInt8} {result : Except EchoError Unit} : h ≠ .returned lost result := by
  rintro rfl
  cases ht
  contradiction

/-- A handler that has returned gives no request anything more. -/
theorem Conn.step_returned {c' : Conn} {l : Step} {lost : List UInt8}
    {result : Except EchoError Unit} (hh : c.handler = .returned lost result)
    (h : c.step l = some c') : c'.handler = .returned lost result ∧ c'.downOf = c.downOf := by
  have ht := Conn.takes_of_step (by rw [hh]; exact nofun) h
  generalize l.side = side at ht
  cases ht with
  | request =>
    refine ⟨hh, funext fun i => ?_⟩
    unfold downOf
    rcases Nat.lt_trichotomy i c.requests.length with hlt | rfl | hgt
    · rw [List.getElem?_append_left hlt]
    · rw [List.getElem?_concat_length, List.getElem?_eq_none le_rfl]
      rfl
    · rw [List.getElem?_eq_none (by simp; omega), List.getElem?_eq_none hgt.le]
  | @client k r r' hr ho hg =>
    refine ⟨hh, funext fun i => ?_⟩
    unfold downOf
    by_cases hik : i = k
    · rw [hik, Interleaving.getElem?_set_of_some hr, hr]
      cases hg <;> rfl
    · rw [List.getElem?_set_ne (Ne.symm hik)]
  | waits hw => exact absurd hh hw.not_returned
  | accept ha => rw [hh] at ha; cases ha
  | turn hr ht => exact absurd hh ht.not_returned
  | done hr hf => rw [hh] at hf; cases hf

/-- How a connection goes about its requests, from some state on. -/
structure Sequential (c : Conn) : Prop where
  /-- A request is touched only when all before it have been echoed to their end. -/
  in_turn : ∀ (i j : ℕ) (r q : Request), i < j → c.requests[i]? = some r →
    c.requests[j]? = some q → ¬q.Untouched → r.Done
  /-- No two requests are both begun and not done. -/
  one_open : ∀ (i j : ℕ) (r q : Request), c.requests[i]? = some r → c.requests[j]? = some q →
    ¬r.Untouched → ¬r.Done → ¬q.Untouched → ¬q.Done → i = j
  /-- Once the handler has returned, whatever the clients do, no request is given more. -/
  final : ∀ (lost : List UInt8) (result : Except EchoError Unit),
    c.handler = .returned lost result → ∀ (more : List Step) (c' : Conn),
      run Conn.step c more = some c' → c'.downOf = c.downOf

theorem Conn.Inv.in_turn (hi : c.Inv) {i j : ℕ} {r q : Request} (hij : i < j)
    (hr : c.requests[i]? = some r) (hq : c.requests[j]? = some q) (ht : ¬q.Untouched) :
    r.Done := by
  refine hi.past i r (Nat.lt_of_not_le fun hle => ?_) hr
  exact ht (hi.future j q (hle.trans_lt hij) hq)

/-- In every run of the server, every connection serves its requests in order. -/
theorem echo_sequential (h : run serve Pool.start es = some s) (hc : s.workers[k]? = some c) :
    Sequential c := by
  have hi := serve_inv h hc
  refine ⟨fun i j r q => hi.in_turn, fun i j r q hr hq hr' hrd hq' hqd => ?_,
    fun lost result hh more c' hm => ?_⟩
  · rcases Nat.lt_trichotomy i j with hlt | heq | hgt
    · exact absurd (hi.in_turn hlt hr hq hq') hrd
    · exact heq
    · exact absurd (hi.in_turn hgt hq hr hr') hqd
  · exact (run_invariant (fun d : Conn => d.handler = .returned lost result ∧ d.downOf = c.downOf)
      (fun d l d' hd hs => ⟨(Conn.step_returned hd.1 hs).1,
        (Conn.step_returned hd.1 hs).2.trans hd.2⟩) ⟨hh, rfl⟩ hm).2

theorem echo_sequential_echoed : ∃ s c, run serve Pool.start echoed = some s ∧
    s.workers[0]? = some c ∧ Sequential c := by
  obtain ⟨s, c, r, h, hc, -⟩ := echoed_runs
  exact ⟨s, c, h, hc, echo_sequential h hc⟩

/-! ### What a gRPC client reads back -/

/-- Whatever arrives of what a request was given, the messages returned are the
first of those its client sent; once the trailers were sent and all has arrived,
they are all of them. -/
theorem echo_round_trip {ε : Type} (h : run serve Pool.start es = some s)
    (hc : s.workers[k]? = some c) {i : ℕ} {r : Request} (hr : c.requests[i]? = some r)
    {msgs : List (List UInt8)} (small : ∀ m ∈ msgs, m.length < 2 ^ 32)
    (hs : r.sent <+: msgs.flatMap encodeFrame) :
    (∀ (script : List (RecvData ε)) (n : ℕ), payload script <+: downBytes r.down →
      ∃ rs half, callTimes QuicRecvStream.recvMessage n ⟨script, []⟩ = .ok (rs, half) ∧
        returnedMessages rs <+: msgs) ∧
    (∀ t, .trailers t ∈ r.down → r.sent = msgs.flatMap encodeFrame →
      ∀ (chunks : List (List UInt8)) (later : List (RecvData ε)),
        chunks.flatten = downBytes r.down →
        callTimes QuicRecvStream.recvMessage (msgs.length + 1)
            ⟨chunks.map .data ++ .finished :: later, []⟩ =
          .ok (msgs.map (fun m => .ready (.ok (some m))) ++ [.ready (.ok none)], ⟨later, []⟩)) := by
  have hf := ((serve_inv h hc).status hr).faithful
  refine ⟨fun script n hp => ?_, fun t ht hall chunks later hchunks => ?_⟩
  · obtain ⟨held, hcons⟩ := hf.conserved
    have hsent : downBytes r.down <+: r.sent := by
      rw [← hcons, List.append_assoc]
      exact List.prefix_append _ _
    obtain ⟨rs, half, hrs, hpre⟩ := recv_within (hp.trans (hsent.trans hs)) n
    rw [messages_encoded small] at hpre
    exact ⟨rs, half, hrs, hpre⟩
  · obtain ⟨-, -, -, hd⟩ := hf.trailers_last t ht
    exact recv_all small (hchunks.trans (hd.trans hall)) later

theorem echo_round_trip_echoed : ∃ s c r, run serve Pool.start echoed = some s ∧
    s.workers[0]? = some c ∧ c.requests[0]? = some r ∧
    callTimes QuicRecvStream.recvMessage 2
        (⟨[.data [0, 0, 0], .data [0, 1, 7], .finished], []⟩ : QuicRecvStream Unit) =
      .ok ([.ready (.ok (some [7])), .ready (.ok none)], ⟨[], []⟩) := by
  obtain ⟨s, c, r, h, hc, hr, hs, ht, hd⟩ : ∃ s c r, run serve Pool.start echoed = some s ∧
      s.workers[0]? = some c ∧ c.requests[0]? = some r ∧ r.sent = [0, 0, 0, 0, 1, 7] ∧
      .trailers okTrailers ∈ r.down ∧ downBytes r.down = [0, 0, 0, 0, 1, 7] :=
    ⟨_, _, _, rfl, rfl, rfl, rfl, by decide, rfl⟩
  have small : ∀ m ∈ ([[7]] : List (List UInt8)), m.length < 2 ^ 32 := by decide
  exact ⟨s, c, r, h, hc, hr, (echo_round_trip h hc hr small (hs ▸ List.prefix_rfl)).2
    okTrailers ht hs [[0, 0, 0], [0, 1, 7]] [] hd.symm⟩

end ConstructTransport.Echo
