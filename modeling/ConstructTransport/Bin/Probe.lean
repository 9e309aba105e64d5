import ConstructTransport.Basic.Text
import ConstructTransport.Echo.Faithful

/-! The probe (`bin/probe.rs`) against the echo server. Each round sends one
message and waits for a frame that carries the same bytes. Played against the
server in any order of their steps, the probe finds no fault with an echo: only
an await that fails ends it, or the server's handler. -/

namespace ConstructTransport.Bin.Probe

open Checked Runs Proxy Grpc Framing Echo

/-- The errors of the probe behind the handshake, by their round. -/
inductive ProbeError
  | sendRequest
  | recvResponse
  /-- "unexpected status" -/
  | badStatus (status : ℕ)
  | sendData (i : ℕ)
  /-- `recv_data` failed, or "recv_data timed out" -/
  | recvData (i : ℕ)
  /-- "server closed before echo `i`" -/
  | closedBefore (i : ℕ)
  /-- "echo mismatch on frame `i`" -/
  | mismatch (i : ℕ)
  | finish
  deriving DecidableEq, Repr

/-- The await the probe is at, by its round. -/
inductive Phase
  | requesting
  | awaitingHead
  | sending (i : ℕ)
  | receiving (i : ℕ)
  | finishing
  | passed
  | failed (e : ProbeError)
  deriving DecidableEq, Repr

def payloads : List (List UInt8) :=
  (List.range 3).map fun i => Text.asBytes ("probe-" ++ toString i)

/-- The probe, the connection that serves it, and how much of what its stream was
given `recv_data` has returned. -/
structure Session where
  conn : Conn
  phase : Phase
  buf : List UInt8
  taken : ℕ

def Session.start : Session := ⟨Conn.start, .requesting, [], 0⟩

inductive Label
  | server (l : Step)
  | sendRequest
  | recvResponse
  | sendData
  | takeFrame
  | recvData (n : ℕ)
  | recvNone
  | finish
  | fail
  deriving DecidableEq, Repr

def Phase.error : Phase → Option ProbeError
  | requesting => some .sendRequest
  | awaitingHead => some .recvResponse
  | sending i => some (.sendData i)
  | receiving i => some (.recvData i)
  | finishing => some .finish
  | passed | failed _ => none

/-- A stream that `recv_data` finds at its end. -/
def Ended (down : List (Down Head Trailers)) : Prop :=
  .finish ∈ down ∨ .dropped ∈ down ∨ .trailers okTrailers ∈ down

instance (down : List (Down Head Trailers)) : Decidable (Ended down) :=
  inferInstanceAs (Decidable (_ ∨ _))

namespace Session

variable (ps : List (List UInt8))

/-- The head of the `for` loop. -/
def round (i : ℕ) : Phase := if i < ps.length then .sending i else .finishing

def down (s : Session) : List (Down Head Trailers) := s.conn.downOf 0

def client (s : Session) (l : Step) (phase : Phase) : Option Session :=
  (s.conn.step l).map fun conn => { s with conn := conn, phase := phase }

def takeFrame (s : Session) (i : ℕ) : Option Session :=
  match Grpc.takeFrame s.buf, ps[i]? with
  | .ok (some echoed, buf), some payload =>
    some { s with
      buf := buf
      phase := if echoed = payload then round ps (i + 1) else .failed (.mismatch i) }
  | _, _ => none

/-- Whether the loop awaits `recv_data`. -/
def awaits (s : Session) : Bool :=
  match Grpc.takeFrame s.buf with
  | .ok (none, _) => true
  | _ => false

def step (s : Session) : Label → Option Session
  | .server l =>
    if l.side = .handler then (s.conn.step l).map fun conn => { s with conn := conn } else none
  | .sendRequest =>
    match s.phase with
    | .requesting => s.client .request .awaitingHead
    | _ => none
  | .recvResponse =>
    match s.phase, s.down.head? with
    | .awaitingHead, some (.head h) =>
      some { s with phase := if h.status = 200 then round ps 0 else .failed (.badStatus h.status) }
    | _, _ => none
  | .sendData =>
    match s.phase with
    | .sending i =>
      match ps[i]? with
      | some payload => s.client (.clientSend 0 (encodeFrame payload)) (.receiving i)
      | none => none
    | _ => none
  | .takeFrame =>
    match s.phase with
    | .receiving i => s.takeFrame ps i
    | _ => none
  | .recvData n =>
    match s.phase with
    | .receiving _ =>
      if s.awaits ∧ s.taken + n ≤ (downBytes s.down).length then
        some { s with
          buf := s.buf ++ ((downBytes s.down).drop s.taken).take n
          taken := s.taken + n }
      else none
    | _ => none
  | .recvNone =>
    match s.phase with
    | .receiving i =>
      if s.awaits ∧ s.taken = (downBytes s.down).length ∧ Ended s.down then
        some { s with phase := .failed (.closedBefore i) }
      else none
    | _ => none
  | .finish =>
    match s.phase with
    | .finishing => s.client (.clientEnd 0 .clean) .passed
    | _ => none
  | .fail =>
    match s.phase with
    | .receiving i => if s.awaits then some { s with phase := .failed (.recvData i) } else none
    | phase => phase.error.map fun e => { s with phase := .failed e }

end Session

/-! ### The invariant -/

/-- The probe's stream when it has sent `sent` messages and compared `done`. -/
def Session.Echoed (ps : List (List UInt8)) (s : Session) (sent done : ℕ) : Prop :=
  ∃ r, s.conn.requests = [r] ∧ r.sent = (ps.take sent).flatMap encodeFrame ∧ r.ending = none ∧
    s.taken ≤ (downBytes r.down).length ∧
    (ps.take done).flatMap encodeFrame ++ s.buf = (downBytes r.down).take s.taken

/-- The errors that the server and its echoes can cause. -/
def ProbeError.Excused (c : Conn) : ProbeError → Prop
  | badStatus _ | mismatch _ => False
  | closedBefore _ => ∃ lost e, c.handler = .returned lost (.error e)
  | _ => True

def AllEchoed (ps : List (List UInt8)) (c : Conn) : Prop :=
  ∃ r, c.requests = [r] ∧ r.sent = ps.flatMap encodeFrame ∧
    downBytes r.down = ps.flatMap encodeFrame

def Session.Meets (ps : List (List UInt8)) (s : Session) : Phase → Prop
  | .requesting => s.conn.requests = [] ∧ s.buf = [] ∧ s.taken = 0
  | .awaitingHead => s.Echoed ps 0 0
  | .sending i => i < ps.length ∧ s.Echoed ps i i
  | .receiving i => i < ps.length ∧ s.Echoed ps (i + 1) i
  | .finishing => s.Echoed ps ps.length ps.length
  | .passed => AllEchoed ps s.conn
  | .failed e => e.Excused s.conn

structure Session.Inv (ps : List (List UInt8)) (s : Session) : Prop where
  conn : s.conn.Inv
  phase : s.Meets ps s.phase

/-! ### What the server does to the probe's stream -/

variable {ps : List (List UInt8)} {c c' : Conn} {r : Request} {s s' : Session} {i : ℕ}

theorem getElem?_single (h : c.requests = [r]) : c.requests[0]? = some r := by
  rw [h]
  rfl

theorem down_single (h : s.conn.requests = [r]) : s.down = r.down := by
  rw [Session.down, Conn.downOf, h]
  rfl

theorem downBytes_le_sent (hi : c.Inv) (hr : c.requests = [r]) : downBytes r.down <+: r.sent := by
  obtain ⟨held, hs⟩ := (hi.status (getElem?_single hr)).faithful.conserved
  rw [← hs, List.append_assoc]
  exact List.prefix_append _ _

theorem handler_single (hi : c.Inv) {l : Step} (hl : l.side = .handler) (h : c.step l = some c')
    (hr : c.requests = [r]) : ∃ r', c'.requests = [r'] ∧ r'.sent = r.sent ∧ r'.ending = r.ending ∧
      r.down <+: r'.down := by
  obtain ⟨r', hr', hs, he, hd⟩ := Conn.handler_leaves hi hl h (getElem?_single hr)
  have hlen := Conn.handler_length hi hl h
  rw [hr, List.length_singleton] at hlen
  obtain ⟨q, hq⟩ := List.length_eq_one_iff.mp hlen
  rw [hq] at hr'
  cases hr'
  exact ⟨_, hq, hs, he, hd⟩

/-- A stream that its client has not closed ends only with the handler. -/
theorem dropped_returned (hi : c.Inv) (hr : c.requests = [r]) (ho : r.ending = none)
    (hd : .dropped ∈ r.down) : ∃ lost e, c.handler = .returned lost (.error e) := by
  have hr₀ := getElem?_single hr
  have hserved : c.served = 0 := by
    by_contra hne
    exact (hi.past 0 r (Nat.pos_of_ne_zero hne) hr₀).not_open ho
  have hh := hi.present r (by rw [hserved, hr₀])
  have untouched : ¬r.Untouched := fun hu => by
    rw [hu.1] at hd
    cases hd
  have echoing : ∀ held, ¬r.Echoing held [] := fun held he => by
    cases he.mem_tail hd nofun nofun
  rcases hcase : c.handler with _ | _ | _ | _ | _ | _ | rest | _ | _ | ⟨lost, e | _⟩ <;>
    rw [hcase] at hh
  case receiving | sending => exact absurd hh (echoing _)
  case trailing | finishing => exact absurd ho hh.2.not_open
  case returned.error => exact ⟨lost, e, rfl⟩
  all_goals exact absurd hh untouched

theorem Echoed.server {sent done : ℕ} (hi : s.conn.Inv) {l : Step} (hl : l.side = .handler)
    (h : s.conn.step l = some c') (he : s.Echoed ps sent done) :
    ({ s with conn := c' } : Session).Echoed ps sent done := by
  obtain ⟨r, hr, hs, ho, hle, hb⟩ := he
  obtain ⟨r', hr', hs', ho', hd⟩ := handler_single hi hl h hr
  have hp := Download.downBytes_prefix hd
  refine ⟨r', hr', hs'.trans hs, ho'.trans ho, hle.trans hp.length_le, ?_⟩
  rw [hb]
  obtain ⟨zs, hz⟩ := hp
  rw [← hz, List.take_append_of_le_length hle]

theorem meets_server (hi : s.conn.Inv) {l : Step} (hl : l.side = .handler)
    (h : s.conn.step l = some c') {p : Phase} (hm : s.Meets ps p) :
    ({ s with conn := c' } : Session).Meets ps p := by
  cases p with
  | requesting =>
    refine ⟨List.length_eq_zero_iff.mp ?_, hm.2⟩
    rw [Conn.handler_length hi hl h, hm.1, List.length_nil]
  | awaitingHead | finishing => exact Echoed.server hi hl h hm
  | sending | receiving => exact ⟨hm.1, Echoed.server hi hl h hm.2⟩
  | passed =>
    obtain ⟨r, hr, hs, hb⟩ := hm
    obtain ⟨r', hr', hs', -, hd⟩ := handler_single hi hl h hr
    refine ⟨r', hr', hs'.trans hs, ?_⟩
    have hle := downBytes_le_sent (Conn.step_inv hi h) hr'
    rw [hs', hs] at hle
    exact hle.eq_of_length_le (hb ▸ (Download.downBytes_prefix hd).length_le)
  | failed e =>
    cases e with
    | closedBefore =>
      obtain ⟨lost, e, hh⟩ := hm
      exact ⟨lost, e, (Conn.step_returned hh h).1⟩
    | _ => exact hm

/-! ### What the probe does -/

theorem take_within {buf rest : List UInt8} {f : RawFrame} {p : List UInt8}
    (hp : p.length < 2 ^ 32) (hb : buf <+: encodeFrame p) (h : frames.take buf = some (f, rest)) :
    f.body = p ∧ rest = [] ∧ buf = encodeFrame p := by
  obtain ⟨ys, hy⟩ := hb
  have hbytes : encodeFrame p = frames.bytes ⟨0, p, hp⟩ ++ [] := by
    rw [List.append_nil]
    exact encodeFrame_eq hp
  have ht := frames.take_append h ys
  rw [hy, hbytes, frames.take_bytes, Option.some.injEq, Prod.mk.injEq] at ht
  obtain ⟨hf, hr⟩ := ht
  obtain ⟨hr, hys⟩ := List.append_eq_nil_iff.mp hr.symm
  refine ⟨(congrArg RawFrame.body hf).symm, hr, ?_⟩
  rw [← hy, hys, List.append_nil]

theorem flatMap_take_succ {p : List UInt8} (hp : ps[i]? = some p) :
    (ps.take (i + 1)).flatMap encodeFrame = (ps.take i).flatMap encodeFrame ++ encodeFrame p := by
  obtain ⟨hi, rfl⟩ := List.getElem?_eq_some_iff.mp hp
  rw [List.take_succ_eq_append_getElem hi, List.flatMap_append, List.flatMap_singleton]

theorem meets_round (hi : i ≤ ps.length) (he : s.Echoed ps i i) :
    s.Meets ps (Session.round ps i) := by
  unfold Session.round
  split_ifs with hlt
  · exact ⟨hlt, he⟩
  · cases Nat.le_antisymm hi (Nat.not_lt.mp hlt)
    exact he

theorem Echoed.buf_prefix {p : List UInt8} (hi : s.conn.Inv) (he : s.Echoed ps (i + 1) i)
    (hp : ps[i]? = some p) : s.buf <+: encodeFrame p := by
  obtain ⟨r, hr, hs, -, -, hb⟩ := he
  have hall : (ps.take i).flatMap encodeFrame ++ s.buf <+: r.sent :=
    (hb ▸ List.take_prefix _ _).trans (downBytes_le_sent hi hr)
  rw [hs, flatMap_take_succ hp] at hall
  exact (List.prefix_append_right_inj _).mp hall

/-- The frame that comes back is the message of the round. -/
theorem takeFrame_meets (small : ∀ p ∈ ps, p.length < 2 ^ 32) (hi : s.conn.Inv)
    (hm : s.Meets ps (.receiving i)) (h : s.takeFrame ps i = some s') :
    s'.conn = s.conn ∧ s'.Meets ps s'.phase := by
  obtain ⟨hlt, he⟩ := hm
  have hp := List.getElem?_eq_getElem hlt
  unfold Session.takeFrame at h
  rw [hp, takeFrame_eq] at h
  cases ht : frames.take s.buf with
  | none => simp [ht] at h
  | some fr =>
    obtain ⟨f, rest⟩ := fr
    simp only [ht, Option.some.injEq] at h
    obtain ⟨hf, hr, hbuf⟩ :=
      take_within (small _ (List.getElem_mem hlt)) (Echoed.buf_prefix hi he hp) ht
    subst h
    rw [if_pos hf, hr]
    refine ⟨rfl, meets_round hlt ?_⟩
    obtain ⟨r, hr, hs, ho, hle, hb⟩ := he
    refine ⟨r, hr, hs, ho, hle, ?_⟩
    rw [flatMap_take_succ hp, List.append_nil, ← hbuf]
    exact hb

theorem step_inv (small : ∀ p ∈ ps, p.length < 2 ^ 32) {l : Label} (hi : s.Inv ps)
    (h : s.step ps l = some s') : s'.Inv ps := by
  obtain ⟨hc, hm⟩ := hi
  cases l with
  | server l =>
    obtain ⟨hl, h⟩ := Option.ite_none_right_eq_some.mp h
    obtain ⟨c, hstep, rfl⟩ := Option.map_eq_some_iff.mp h
    exact ⟨Conn.step_inv hc hstep, meets_server hc hl hstep hm⟩
  | sendRequest =>
    simp only [Session.step] at h
    split at h
    · next hp =>
      obtain ⟨c, hstep, rfl⟩ := Option.map_eq_some_iff.mp h
      rw [hp] at hm
      obtain ⟨hr, hb, ht⟩ := hm
      refine ⟨Conn.step_inv hc hstep, Request.start, ?_, rfl, rfl, ?_, ?_⟩
      · cases hstep
        exact congrArg (· ++ [Request.start]) hr
      · rw [ht]
        exact Nat.zero_le _
      · rw [ht, hb]
        rfl
    · contradiction
  | recvResponse =>
    simp only [Session.step] at h
    split at h
    · next hp hh =>
      rw [hp] at hm
      obtain ⟨r, hr, he⟩ := hm
      cases h
      refine ⟨hc, ?_⟩
      rw [down_single hr] at hh
      have hf := (hc.status (getElem?_single hr)).faithful
      have hok := hf.head_first (fun hn => by rw [hn] at hh; cases hh)
        (fun hn => by rw [hn] at hh; cases hh)
      cases hh.symm.trans hok
      exact meets_round (Nat.zero_le _) ⟨r, hr, he⟩
    · contradiction
  | sendData =>
    simp only [Session.step] at h
    split at h
    · next i hp =>
      split at h
      · next p hpi =>
        obtain ⟨c, hstep, rfl⟩ := Option.map_eq_some_iff.mp h
        rw [hp] at hm
        obtain ⟨hlt, r, hr, hs, ho, hle, hb⟩ := hm
        refine ⟨Conn.step_inv hc hstep, hlt,
          { r with sent := r.sent ++ encodeFrame p, unread := r.unread ++ encodeFrame p },
          ?_, ?_, ho, hle, hb⟩
        · simp [Conn.step, hr, ho] at hstep
          rw [← hstep, ho]
        · rw [flatMap_take_succ hpi, ← hs]
      · contradiction
    · contradiction
  | takeFrame =>
    simp only [Session.step] at h
    split at h
    · next i hp =>
      rw [hp] at hm
      obtain ⟨hconn, hm'⟩ := takeFrame_meets small hc hm h
      exact ⟨hconn ▸ hc, hm'⟩
    · contradiction
  | recvData n =>
    simp only [Session.step] at h
    split at h
    · next i hp =>
      obtain ⟨⟨-, hle⟩, h⟩ := Option.ite_none_right_eq_some.mp h
      cases h
      rw [hp] at hm
      obtain ⟨hlt, r, hr, hs, ho, -, hb⟩ := hm
      rw [down_single hr] at hle
      refine ⟨hc, ?_⟩
      rw [hp]
      refine ⟨hlt, r, hr, hs, ho, hle, ?_⟩
      rw [down_single hr, ← List.append_assoc, hb, List.take_add]
    · contradiction
  | recvNone =>
    simp only [Session.step] at h
    split at h
    · next i hp =>
      obtain ⟨⟨-, -, hend⟩, h⟩ := Option.ite_none_right_eq_some.mp h
      cases h
      rw [hp] at hm
      obtain ⟨-, r, hr, -, ho, -⟩ := hm
      rw [down_single hr] at hend
      have hf := (hc.status (getElem?_single hr)).faithful
      have untrailed : .trailers okTrailers ∉ r.down := fun ht => by
        rw [(hf.trailers_last _ ht).2.1] at ho
        cases ho
      refine ⟨hc, ?_⟩
      rcases hend with hfin | hdrop | htr
      · exact absurd (hf.finish_last hfin) untrailed
      · exact dropped_returned hc hr ho hdrop
      · exact absurd htr untrailed
    · contradiction
  | finish =>
    simp only [Session.step] at h
    split at h
    · next hp =>
      obtain ⟨c, hstep, rfl⟩ := Option.map_eq_some_iff.mp h
      rw [hp] at hm
      obtain ⟨r, hr, hs, ho, hle, hb⟩ := hm
      rw [List.take_length] at hs hb
      refine ⟨Conn.step_inv hc hstep, { r with ending := some .clean }, ?_, hs, ?_⟩
      · simp [Conn.step, hr, ho] at hstep
        rw [← hstep]
      · have hle := downBytes_le_sent hc hr
        rw [hs] at hle
        refine hle.eq_of_length_le ?_
        have hlen := congrArg List.length hb
        rw [List.length_append, List.length_take] at hlen
        show (ps.flatMap encodeFrame).length ≤ (downBytes r.down).length
        omega
    · contradiction
  | fail =>
    simp only [Session.step] at h
    split at h
    · obtain ⟨-, h⟩ := Option.ite_none_right_eq_some.mp h
      cases h
      exact ⟨hc, trivial⟩
    · obtain ⟨e, he, rfl⟩ := Option.map_eq_some_iff.mp h
      refine ⟨hc, ?_⟩
      cases hp : s.phase <;> rw [hp] at he <;> cases he <;> exact trivial

theorem start_inv : Session.start.Inv ps := ⟨Conn.start_inv, rfl, rfl, rfl⟩

/-- What the outcome of the probe says about the server. -/
structure Sound (s : Session) : Prop where
  no_mismatch : ∀ i, s.phase ≠ .failed (.mismatch i)
  no_bad_status : ∀ status, s.phase ≠ .failed (.badStatus status)
  /-- The server closes early only where an await of its handler failed. -/
  closed : ∀ i, s.phase = .failed (.closedBefore i) →
    ∃ lost e, s.conn.handler = .returned lost (.error e)
  passed : s.phase = .passed → AllEchoed payloads s.conn

theorem payloads_small : ∀ p ∈ payloads, p.length < 2 ^ 32 := by decide

/-- In every run of the probe against the echo server. -/
theorem probe_sound {ls : List Label} (h : run (Session.step payloads) Session.start ls = some s) :
    Sound s := by
  obtain ⟨-, hm⟩ := run_invariant (Session.Inv payloads)
    (fun _ _ _ hi hs => step_inv payloads_small hi hs) start_inv h
  refine ⟨fun i hp => ?_, fun status hp => ?_, fun i hp => ?_, fun hp => ?_⟩
  all_goals
    rw [hp] at hm
    exact hm

def echoRound : List Label :=
  [.sendData, .server (.recvData 5), .server (.sendData 5), .recvData 3, .server .advance,
    .server (.recvData 7), .server (.sendData 7), .server .advance, .recvData 9, .takeFrame]

def passing : List Label :=
  [.server .advance, .server .advance, .sendRequest, .server .advance, .server .advance,
    .server .advance, .recvResponse] ++ (echoRound ++ echoRound ++ echoRound) ++ [.finish]

theorem probe_sound_passing : ∃ s, run (Session.step payloads) Session.start passing = some s ∧
    s.phase = .passed ∧ Sound s := by
  obtain ⟨s, h, hp⟩ : ∃ s, run (Session.step payloads) Session.start passing = some s ∧
      s.phase = .passed := ⟨_, rfl, rfl⟩
  exact ⟨s, h, hp, probe_sound h⟩

end ConstructTransport.Bin.Probe
