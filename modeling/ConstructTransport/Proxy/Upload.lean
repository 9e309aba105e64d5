import Mathlib.Data.List.Basic

/-! The client to upstream half of a proxied call: the client's stream, pump A,
the body channel of 64 slots, the HTTP/2 client that takes the body from the
channel, and the upstream that reads it. Each hands bytes on in order and any of
them may fail. What has been lost on the way is kept beside what has not, so that
at every moment the parts make up what the client sent. -/

namespace ConstructTransport.Proxy

/-- How a party ends its stream. -/
inductive Ending
  | clean
  | failed
  deriving DecidableEq, Repr

/-- Why pump A left its loop. -/
inductive PumpEnd
  | upstreamGone
  | halfClosed
  | failed
  | aborted
  deriving DecidableEq, Repr

/-- Pump A: at `recv_data`, at `body_tx.send`, or ended with what it held. -/
inductive Pump
  | unspawned
  | receiving
  | sending (chunk : List UInt8)
  | ended (why : PumpEnd) (lost : List UInt8)
  deriving DecidableEq, Repr

def Pump.held : Pump → List UInt8
  | unspawned | receiving => []
  | sending chunk => chunk
  | ended _ lost => lost

/-- The request body in the hands of the HTTP/2 client: read on, read to its end
and so finished with END_STREAM, or dropped with what was queued. -/
inductive Body
  | streaming
  | finished
  | dropped (lost : List UInt8)
  deriving DecidableEq, Repr

def Body.lost : Body → List UInt8
  | streaming | finished => []
  | dropped lost => lost

/-- `mpsc::channel(64)`. -/
def bodySlots : ℕ := 64

structure Upload where
  /-- What the client sent, and what of it `recv_data` has not returned. -/
  sent : List UInt8
  unread : List UInt8
  ending : Option Ending
  pump : Pump
  abortRequested : Bool
  queue : List (List UInt8)
  body : Body
  /-- Taken from the channel and not yet read by the upstream. -/
  inFlight : List UInt8
  received : List UInt8
  /-- Whether the upstream has read END_STREAM. -/
  readToEnd : Bool
  deriving DecidableEq, Repr

def Upload.start : Upload where
  sent := []
  unread := []
  ending := none
  pump := .unspawned
  abortRequested := false
  queue := []
  body := .streaming
  inFlight := []
  received := []
  readToEnd := false

inductive UploadStep
  | clientSend (bytes : List UInt8)
  | clientEnd (how : Ending)
  | recvData (n : ℕ)
  | recvNone
  | recvError
  | bodySend
  | bodySendError
  | cancelled
  | bodyFrame
  | bodyEnd
  | bodyDrop
  | upstreamRead (n : ℕ)
  | upstreamReadEnd
  deriving DecidableEq, Repr

namespace Upload

def step (u : Upload) : UploadStep → Option Upload
  | .clientSend bytes =>
    if u.ending = none then some { u with sent := u.sent ++ bytes, unread := u.unread ++ bytes }
    else none
  | .clientEnd how => if u.ending = none then some { u with ending := some how } else none
  | .recvData n =>
    if u.pump = .receiving ∧ n ≤ u.unread.length then
      some { u with pump := .sending (u.unread.take n), unread := u.unread.drop n }
    else none
  | .recvNone =>
    if u.pump = .receiving ∧ u.unread = [] ∧ u.ending = some .clean then
      some { u with pump := .ended .halfClosed [] }
    else none
  | .recvError =>
    if u.pump = .receiving ∧ u.ending = some .failed then
      -- the arm only logs before it breaks
      some { u with pump := .ended .failed [] }
    else none
  | .bodySend =>
    match u.pump with
    | .sending chunk =>
      if u.body = .streaming ∧ u.queue.length < bodySlots then
        some { u with pump := .receiving, queue := u.queue ++ [chunk] }
      else none
    | _ => none
  | .bodySendError =>
    match u.pump, u.body with
    | .sending chunk, .dropped _ => some { u with pump := .ended .upstreamGone chunk }
    | _, _ => none
  | .cancelled =>
    match u.pump with
    | .unspawned | .ended _ _ => none
    | pump => if u.abortRequested then some { u with pump := .ended .aborted pump.held } else none
  | .bodyFrame =>
    match u.body, u.queue with
    | .streaming, chunk :: queue => some { u with queue := queue, inFlight := u.inFlight ++ chunk }
    | _, _ => none
  | .bodyEnd =>
    match u.body, u.queue, u.pump with
    -- the sender is gone and the channel is drained
    | .streaming, [], .ended _ _ => some { u with body := .finished }
    | _, _, _ => none
  | .bodyDrop =>
    if u.body = .streaming then some { u with body := .dropped u.queue.flatten, queue := [] }
    else none
  | .upstreamRead n =>
    if n ≤ u.inFlight.length then
      some { u with received := u.received ++ u.inFlight.take n, inFlight := u.inFlight.drop n }
    else none
  | .upstreamReadEnd =>
    if u.body = .finished ∧ u.inFlight = [] then some { u with readToEnd := true } else none

inductive Takes (u : Upload) : UploadStep → Upload → Prop
  | clientSend {bytes : List UInt8} (ending : u.ending = none) :
    Takes u (.clientSend bytes) { u with sent := u.sent ++ bytes, unread := u.unread ++ bytes }
  | clientEnd {how : Ending} (ending : u.ending = none) :
    Takes u (.clientEnd how) { u with ending := some how }
  | recvData {n : ℕ} (pump : u.pump = .receiving) (le : n ≤ u.unread.length) :
    Takes u (.recvData n) { u with pump := .sending (u.unread.take n), unread := u.unread.drop n }
  | recvNone (pump : u.pump = .receiving) (unread : u.unread = [])
      (ending : u.ending = some .clean) :
    Takes u .recvNone { u with pump := .ended .halfClosed [] }
  | recvError (pump : u.pump = .receiving) (ending : u.ending = some .failed) :
    Takes u .recvError { u with pump := .ended .failed [] }
  | bodySend {chunk : List UInt8} (pump : u.pump = .sending chunk) (body : u.body = .streaming)
      (slot : u.queue.length < bodySlots) :
    Takes u .bodySend { u with pump := .receiving, queue := u.queue ++ [chunk] }
  | bodySendError {chunk lost : List UInt8} (pump : u.pump = .sending chunk)
      (body : u.body = .dropped lost) :
    Takes u .bodySendError { u with pump := .ended .upstreamGone chunk }
  | cancelled (spawned : u.pump ≠ .unspawned) (running : ∀ why lost, u.pump ≠ .ended why lost)
      (abort : u.abortRequested = true) :
    Takes u .cancelled { u with pump := .ended .aborted u.pump.held }
  | bodyFrame {chunk : List UInt8} {queue : List (List UInt8)} (body : u.body = .streaming)
      (front : u.queue = chunk :: queue) :
    Takes u .bodyFrame { u with queue := queue, inFlight := u.inFlight ++ chunk }
  | bodyEnd {why : PumpEnd} {lost : List UInt8} (body : u.body = .streaming)
      (drained : u.queue = []) (pump : u.pump = .ended why lost) :
    Takes u .bodyEnd { u with body := .finished }
  | bodyDrop (body : u.body = .streaming) :
    Takes u .bodyDrop { u with body := .dropped u.queue.flatten, queue := [] }
  | upstreamRead {n : ℕ} (le : n ≤ u.inFlight.length) :
    Takes u (.upstreamRead n)
      { u with received := u.received ++ u.inFlight.take n, inFlight := u.inFlight.drop n }
  | upstreamReadEnd (body : u.body = .finished) (read : u.inFlight = []) :
    Takes u .upstreamReadEnd { u with readToEnd := true }

theorem takes_of_step {u u' : Upload} {l : UploadStep} (h : u.step l = some u') :
    u.Takes l u' := by
  cases l with
  | clientSend _ | clientEnd _ | recvData _ | recvNone | recvError | bodyDrop | upstreamRead _
  | upstreamReadEnd =>
    simp only [step] at h
    split at h
    · next hg =>
      cases h
      constructor
      all_goals simp [hg]
    · contradiction
  | bodySend =>
    simp only [step] at h
    split at h
    · next chunk hp =>
      split at h
      · next hb =>
        cases h
        exact .bodySend hp hb.1 hb.2
      · contradiction
    · contradiction
  | bodySendError =>
    simp only [step] at h
    split at h
    · next chunk lost hp hb =>
      cases h
      exact .bodySendError hp hb
    · contradiction
  | cancelled =>
    simp only [step] at h
    split at h
    · contradiction
    · contradiction
    · next hn he =>
      split at h
      · next ha =>
        cases h
        exact .cancelled hn he ha
      · contradiction
  | bodyFrame =>
    simp only [step] at h
    split at h
    · next hb hq =>
      cases h
      exact .bodyFrame hb hq
    · contradiction
  | bodyEnd =>
    simp only [step] at h
    split at h
    · next hb hq hp =>
      cases h
      exact .bodyEnd hb hq hp
    · contradiction

/-- `tokio::spawn` of pump A. -/
def spawn (u : Upload) : Upload := { u with pump := .receiving }

def abort (u : Upload) : Upload := { u with abortRequested := true }

/-- The parts make up what the client sent; an end is what its reason says. -/
structure Inv (u : Upload) : Prop where
  bytes : u.sent =
    u.received ++ (u.inFlight ++ (u.body.lost ++ (u.queue.flatten ++ (u.pump.held ++ u.unread))))
  slots : u.queue.length ≤ bodySlots
  drained : u.body ≠ .streaming → u.queue = []
  halfClosed : ∀ lost, u.pump = .ended .halfClosed lost →
    lost = [] ∧ u.unread = [] ∧ u.ending = some .clean
  aborted : ∀ lost, u.pump = .ended .aborted lost → u.abortRequested = true
  gone : ∀ lost, u.pump = .ended .upstreamGone lost → ∃ r, u.body = .dropped r
  finished : u.body = .finished → ∃ why lost, u.pump = .ended why lost
  readToEnd : u.readToEnd = true → u.body = .finished ∧ u.inFlight = []

theorem start_inv : start.Inv := by
  constructor <;> simp [start, Pump.held, Body.lost]

theorem step_inv {u u' : Upload} {l : UploadStep} (hi : u.Inv) (h : u.step l = some u') :
    u'.Inv := by
  obtain ⟨bytes, slots, drained, halfClosed, aborted, gone, finished, readToEnd⟩ := hi
  cases takes_of_step h with
  | clientSend he =>
    refine ⟨?_, slots, drained, fun lost hp => ?_, aborted, gone, finished, readToEnd⟩
    · simp [bytes]
    · rw [he] at halfClosed
      exact absurd (halfClosed lost hp).2.2 nofun
  | clientEnd he =>
    refine ⟨bytes, slots, drained, fun lost hp => ?_, aborted, gone, finished, readToEnd⟩
    rw [he] at halfClosed
    exact absurd (halfClosed lost hp).2.2 nofun
  | recvData hp hn =>
    rw [hp] at finished bytes
    refine ⟨?_, slots, drained, nofun, nofun, nofun, fun hf => ?_, readToEnd⟩
    · simpa [Pump.held] using bytes
    · obtain ⟨why, lost, he⟩ := finished hf
      contradiction
  | recvNone hp hu he =>
    rw [hp] at bytes
    refine ⟨bytes, slots, drained, fun lost hl => ?_, nofun, nofun, fun _ => ⟨_, _, rfl⟩,
      readToEnd⟩
    cases hl
    exact ⟨rfl, hu, he⟩
  | recvError hp he =>
    rw [hp] at bytes
    exact ⟨bytes, slots, drained, nofun, nofun, nofun, fun _ => ⟨_, _, rfl⟩, readToEnd⟩
  | bodySend hp hb hq =>
    rw [hp] at bytes
    refine ⟨?_, ?_, fun hn => absurd hb hn, nofun, nofun, nofun, fun hf => ?_, readToEnd⟩
    · simpa [Pump.held] using bytes
    · rw [List.length_append]
      exact hq
    · exact absurd (hb.symm.trans hf) nofun
  | bodySendError hp hb =>
    rw [hp] at bytes
    exact ⟨bytes, slots, drained, nofun, nofun, fun _ _ => ⟨_, hb⟩, fun _ => ⟨_, _, rfl⟩,
      readToEnd⟩
  | cancelled hn he ha =>
    exact ⟨bytes, slots, drained, nofun, fun _ _ => ha, nofun, fun _ => ⟨_, _, rfl⟩, readToEnd⟩
  | bodyFrame hb hq =>
    rw [hq] at bytes slots
    refine ⟨?_, Nat.le_of_succ_le slots, fun hn => absurd hb hn, halfClosed, aborted, gone,
      finished, fun hr => ?_⟩
    · simpa [hb, Body.lost] using bytes
    · exact absurd (hb.symm.trans (readToEnd hr).1) nofun
  | bodyEnd hb hq hp =>
    rw [hb] at bytes gone readToEnd
    refine ⟨bytes, slots, fun _ => hq, halfClosed, aborted, fun lost' he => ?_,
      fun _ => ⟨_, _, hp⟩, fun hr => absurd (readToEnd hr).1 nofun⟩
    obtain ⟨r, hr⟩ := gone lost' he
    contradiction
  | bodyDrop hb =>
    rw [hb] at bytes readToEnd
    exact ⟨by simpa [Body.lost] using bytes, Nat.zero_le _, fun _ => rfl, halfClosed, aborted,
      fun _ _ => ⟨_, rfl⟩, nofun, fun hr => absurd (readToEnd hr).1 nofun⟩
  | upstreamRead hn =>
    refine ⟨?_, slots, drained, halfClosed, aborted, gone, finished, fun hr => ?_⟩
    · rw [bytes, List.append_assoc u.received, ← List.append_assoc (u.inFlight.take _),
        List.take_append_drop]
    · obtain ⟨hf, he⟩ := readToEnd hr
      exact ⟨hf, by simp [he]⟩
  | upstreamReadEnd hf he =>
    exact ⟨bytes, slots, drained, halfClosed, aborted, gone, finished, fun _ => ⟨hf, he⟩⟩

theorem spawn_inv {u : Upload} (hi : u.Inv) (hp : u.pump = .unspawned) : u.spawn.Inv := by
  obtain ⟨bytes, slots, drained, -, -, -, finished, readToEnd⟩ := hi
  rw [hp] at bytes finished
  refine ⟨bytes, slots, drained, nofun, nofun, nofun, fun hf => ?_, readToEnd⟩
  obtain ⟨why, lost, he⟩ := finished hf
  contradiction

theorem abort_inv {u : Upload} (hi : u.Inv) : u.abort.Inv :=
  ⟨hi.bytes, hi.slots, hi.drained, hi.halfClosed, fun _ _ => rfl, hi.gone, hi.finished,
    hi.readToEnd⟩

/-- The upstream has read a prefix of what the client sent. -/
theorem Inv.received_prefix {u : Upload} (hi : u.Inv) : u.received <+: u.sent := by
  rw [hi.bytes]
  exact List.prefix_append _ _

/-- After a clean half-close, read to its end, the upstream has all of it. -/
theorem Inv.received_all {u : Upload} (hi : u.Inv) {lost : List UInt8}
    (hp : u.pump = .ended .halfClosed lost) (hr : u.readToEnd = true) : u.received = u.sent := by
  obtain ⟨hl, hu, -⟩ := hi.halfClosed lost hp
  obtain ⟨hf, he⟩ := hi.readToEnd hr
  have hq : u.queue = [] := hi.drained (by rw [hf]; nofun)
  rw [hi.bytes, he, hq, hf, hp, hl, hu]
  simp [Body.lost, Pump.held]

theorem step_shared {u u' : Upload} {l : UploadStep} (h : u.step l = some u') :
    u'.abortRequested = u.abortRequested ∧ (u.pump = .unspawned → u'.pump = .unspawned) ∧
      ∀ lost, u'.pump = .ended .failed lost → u.pump = .ended .failed lost ∨ l = .recvError := by
  cases takes_of_step h with
  | clientSend | clientEnd | bodyFrame | bodyEnd | bodyDrop | upstreamRead | upstreamReadEnd =>
    exact ⟨rfl, id, fun _ => .inl⟩
  | recvData hp | recvNone hp | bodySend hp | bodySendError hp =>
    exact ⟨rfl, fun hu => absurd (hp.symm.trans hu) nofun, nofun⟩
  | recvError hp => exact ⟨rfl, fun hu => absurd (hp.symm.trans hu) nofun, fun _ _ => .inr rfl⟩
  | cancelled hn => exact ⟨rfl, fun hu => absurd hu hn, nofun⟩

theorem step_ended {u u' : Upload} {l : UploadStep} {why : PumpEnd} {lost : List UInt8}
    (h : u.step l = some u') (he : u.pump = .ended why lost) : u'.pump = .ended why lost := by
  cases takes_of_step h with
  | clientSend | clientEnd | bodyFrame | bodyEnd | bodyDrop | upstreamRead | upstreamReadEnd =>
    exact he
  | recvData hp | recvNone hp | recvError hp | bodySend hp | bodySendError hp =>
    exact absurd (hp.symm.trans he) nofun
  | cancelled hn hl => exact absurd he (hl why lost)

end Upload

end ConstructTransport.Proxy
