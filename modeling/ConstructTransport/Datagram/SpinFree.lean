import ConstructTransport.Basic.Runs
import ConstructTransport.Datagram.ObfSocket

/-! The receive loop of the socket that does not spin. What the kernel answers and
when readiness is reported is given step by step. An attempt that would block
takes the readiness it came with, so the attempts of a call are paid for by the
reports; any other answer ends the call, and an error ends the endpoint. -/

namespace ConstructTransport.Datagram.SpinFree

open Checked Runs

/-- `io::ErrorKind`. The kinds that the code does not name are numbered. -/
inductive ErrorKind
  | wouldBlock
  | connectionReset
  | other
  | rest (n : ℕ)
  deriving DecidableEq, Repr

/-- `io::Error`, by its kind alone or around another error. -/
inductive IoError
  | simple (kind : ErrorKind)
  | custom (kind : ErrorKind) (source : IoError)
  deriving DecidableEq, Repr

def IoError.kind : IoError → ErrorKind
  | simple kind | custom kind _ => kind

def IoError.other (source : IoError) : IoError := .custom .other source

inductive RecvDisposition
  | deliver (n : ℕ)
  | park
  | failEndpoint
  deriving DecidableEq, Repr

def RecvDisposition.of : Except IoError ℕ → RecvDisposition
  | .ok n => .deliver n
  | .error e => if e.kind = .wouldBlock then .park else .failEndpoint

def endpointReceiveError (error : IoError) : IoError :=
  if error.kind = .connectionReset then .other error else error

/-- Where a call of `poll_recv` is: at `poll_recv_ready`, at `try_io`, or done. -/
inductive Phase
  | checking
  | attempting
  | returned (answer : Poll (Except IoError ℕ))
  | panicked
  deriving Repr

/-- A socket with a call of `poll_recv`. -/
structure Socket where
  /-- The readiness that tokio keeps. -/
  ready : Bool
  received : UInt64
  /-- `RECV_ERRORS`. -/
  recvErrors : UInt64
  phase : Phase

/-- What happens in a call, with the answers of tokio and of the kernel. -/
inductive Step
  /-- The reactor reports readiness. -/
  | readiness
  | pollRecvReady (failed : Option IoError)
  | recv (result : Except IoError ℕ)

namespace Socket

def polled (ready : Bool) (received recvErrors : UInt64) : Socket :=
  ⟨ready, received, recvErrors, .checking⟩

/-- What `try_io` does to the readiness. -/
def tryIo (s : Socket) (result : Except IoError ℕ) : Socket :=
  match result with
  | .ok _ => s
  | .error e => if e.kind = .wouldBlock then { s with ready := false } else s

/-- The loop's reaction to an attempt. -/
def react (s : Socket) (result : Except IoError ℕ) : Socket :=
  let s := s.tryIo result
  match RecvDisposition.of result with
  | .deliver n =>
    { s with received := s.received + UInt64.ofNat n, phase := .returned (.ready (.ok n)) }
  | .park => { s with phase := .checking }
  | .failEndpoint =>
    let s := { s with recvErrors := s.recvErrors + 1 }
    match result with
    | .error e => { s with phase := .returned (.ready (.error (endpointReceiveError e))) }
    -- `expect_err`
    | .ok _ => { s with phase := .panicked }

/-- `SpinFreeUdpSocket::poll_recv`, step by step. -/
def pollRecv (s : Socket) : Step → Option Socket
  | .readiness => some { s with ready := true }
  | .pollRecvReady failed =>
    match s.phase, s.ready, failed with
    | .checking, false, none => some { s with phase := .returned .pending }
    | .checking, true, none => some { s with phase := .attempting }
    | .checking, true, some e => some { s with phase := .returned (.ready (.error e)) }
    | _, _, _ => none
  | .recv result =>
    -- the closure runs only while readiness is set
    match s.phase, s.ready with
    | .attempting, true => some (s.react result)
    | _, _ => none

theorem react_wouldBlock (s : Socket) {e : IoError} (h : e.kind = .wouldBlock) :
    s.react (.error e) = { s with ready := false, phase := .checking } := by
  simp [react, tryIo, RecvDisposition.of, h]

theorem react_error (s : Socket) {e : IoError} (h : e.kind ≠ .wouldBlock) :
    s.react (.error e) = { s with
      recvErrors := s.recvErrors + 1
      phase := .returned (.ready (.error (endpointReceiveError e))) } := by
  simp [react, tryIo, RecvDisposition.of, h]

theorem pollRecv_cases {s s' : Socket} {l : Step} (h : s.pollRecv l = some s') :
    (l = .readiness ∧ s' = { s with ready := true }) ∨
    (l = .pollRecvReady none ∧ s.phase = .checking ∧ s.ready = false ∧
      s' = { s with phase := .returned .pending }) ∨
    (l = .pollRecvReady none ∧ s.phase = .checking ∧ s.ready = true ∧
      s' = { s with phase := .attempting }) ∨
    (∃ e, l = .pollRecvReady (some e) ∧ s.phase = .checking ∧ s.ready = true ∧
      s' = { s with phase := .returned (.ready (.error e)) }) ∨
    (∃ result, l = .recv result ∧ s.phase = .attempting ∧ s.ready = true ∧
      s' = s.react result) := by
  cases l with
  | readiness =>
    cases h
    exact .inl ⟨rfl, rfl⟩
  | pollRecvReady failed =>
    simp only [pollRecv] at h
    split at h
    · next hp hr =>
      cases h
      exact .inr (.inl ⟨rfl, hp, hr, rfl⟩)
    · next hp hr =>
      cases h
      exact .inr (.inr (.inl ⟨rfl, hp, hr, rfl⟩))
    · next e hp hr =>
      cases h
      exact .inr (.inr (.inr (.inl ⟨e, rfl, hp, hr, rfl⟩)))
    · contradiction
  | recv result =>
    simp only [pollRecv] at h
    split at h
    · next hp hr =>
      cases h
      exact .inr (.inr (.inr (.inr ⟨result, rfl, hp, hr, rfl⟩)))
    · contradiction

def Done (s : Socket) : Prop := s.phase ≠ .checking ∧ s.phase ≠ .attempting

theorem step_done {s s' : Socket} {l : Step} (hd : s.Done) (h : s.pollRecv l = some s') :
    l = .readiness ∧ s' = { s with ready := true } := by
  rcases pollRecv_cases h with h | ⟨-, hp, -⟩ | ⟨-, hp, -⟩ | ⟨e, -, hp, -⟩ | ⟨r, -, hp, -⟩
  · exact h
  · exact absurd hp hd.1
  · exact absurd hp hd.1
  · exact absurd hp hd.1
  · exact absurd hp hd.2

end Socket

/-! ### One call -/

def Step.isRecv : Step → Bool
  | .recv _ => true
  | _ => false

def Step.isReadiness : Step → Bool
  | .readiness => true
  | _ => false

def attempts (steps : List Step) : ℕ := steps.countP Step.isRecv

/-- The reports of readiness behind its first attempt. -/
def reportsAfterFirst (steps : List Step) : ℕ :=
  (steps.dropWhile fun l => !l.isRecv).countP Step.isReadiness

variable {start s s' : Socket} {steps : List Step}

/-- A readiness that is set pays for one attempt of a call under way. -/
def credit (s : Socket) : ℕ :=
  match s.phase, s.ready with
  | .checking, true | .attempting, true => 1
  | _, _ => 0

theorem credit_le_one (s : Socket) : credit s ≤ 1 := by
  unfold credit
  split
  · exact le_rfl
  · exact le_rfl
  · exact Nat.zero_le 1

theorem credit_react (s : Socket) (result : Except IoError ℕ) : credit (s.react result) = 0 := by
  cases result with
  | ok n => rfl
  | error e =>
    by_cases h : e.kind = .wouldBlock
    · rw [s.react_wouldBlock h]
      rfl
    · rw [s.react_error h]
      rfl

theorem step_pays {l : Step} (h : s.pollRecv l = some s') :
    (if l.isRecv then 1 else 0) + credit s' ≤ credit s + if l.isReadiness then 1 else 0 := by
  rcases Socket.pollRecv_cases h with ⟨rfl, rfl⟩ | ⟨rfl, -, -, rfl⟩ | ⟨rfl, hp, hr, rfl⟩ |
    ⟨e, rfl, -, -, rfl⟩ | ⟨result, rfl, hp, hr, rfl⟩
  · exact (Nat.zero_add _).trans_le ((credit_le_one _).trans (Nat.le_add_left _ _))
  · exact Nat.zero_le _
  · simp [credit, hp, hr, Step.isRecv]
  · exact Nat.zero_le _
  · rw [credit_react]
    simp [credit, hp, hr, Step.isRecv]

theorem attempts_le_credit (h : run Socket.pollRecv s steps = some s') :
    attempts steps ≤ credit s + steps.countP Step.isReadiness :=
  (Nat.le_add_right _ _).trans (run_countP_le credit Step.isRecv Step.isReadiness
    (fun _ _ _ (_ : True) => step_pays) (along_of_forall fun _ _ _ => trivial) h)

/-- Once a call is done, nothing but reports happens to it. -/
theorem run_done (hd : s.Done) (h : run Socket.pollRecv s steps = some s') :
    attempts steps = 0 ∧ s'.phase = s.phase ∧ s'.received = s.received ∧
      s'.recvErrors = s.recvErrors := by
  induction steps generalizing s with
  | nil =>
    cases h
    exact ⟨rfl, rfl, rfl, rfl⟩
  | cons l steps ih =>
    obtain ⟨t, ht, hr⟩ := run_cons_eq_some.mp h
    obtain ⟨rfl, rfl⟩ := Socket.step_done hd ht
    have hd' : Socket.Done { s with ready := true } := hd
    obtain ⟨ha, hp, hrec, herr⟩ := ih hd' hr
    exact ⟨(List.countP_cons_of_neg Bool.false_ne_true).trans ha, hp, hrec, herr⟩

/-- A call that has not delivered and not failed has changed no counter. -/
def Unchanged (start s : Socket) : Prop :=
  s.received = start.received ∧ s.recvErrors = start.recvErrors

theorem run_unchanged (h : run Socket.pollRecv start steps = some s) (hn : ¬s.Done) :
    Unchanged start s := by
  have hinv := run_invariant (fun s : Socket => ¬s.Done → Unchanged start s) ?_
    (fun _ => ⟨rfl, rfl⟩) h
  · exact hinv hn
  · intro s l s' hs hl hn
    rcases Socket.pollRecv_cases hl with ⟨-, rfl⟩ | ⟨-, -, -, rfl⟩ | ⟨-, hp, -, rfl⟩ |
      ⟨e, -, -, -, rfl⟩ | ⟨result, -, hp, -, rfl⟩
    · exact hs hn
    · exact absurd ⟨nofun, nofun⟩ hn
    · exact hs fun hd => hd.1 hp
    · exact absurd ⟨nofun, nofun⟩ hn
    · cases result with
      | ok n => exact absurd ⟨nofun, nofun⟩ hn
      | error e =>
        by_cases h : e.kind = .wouldBlock
        · rw [s.react_wouldBlock h]
          exact hs fun hd => hd.2 hp
        · rw [s.react_error h] at hn
          exact absurd ⟨nofun, nofun⟩ hn

/-- An attempt is made while readiness is set, so it is made whatever the kernel answers. -/
theorem recv_of_attempting (hs : start.phase = .checking)
    (h : run Socket.pollRecv start steps = some s) (hp : s.phase = .attempting)
    (result : Except IoError ℕ) : s.pollRecv (.recv result) = some (s.react result) := by
  have hready := run_invariant (fun s : Socket => s.phase = .attempting → s.ready = true) ?_
    (fun hp => by cases hs.symm.trans hp) h hp
  · simp only [Socket.pollRecv, hp, hready]
  · intro s l s' hi hl hp
    rcases Socket.pollRecv_cases hl with ⟨-, rfl⟩ | ⟨-, -, -, rfl⟩ | ⟨-, -, hr, rfl⟩ |
      ⟨e, -, -, -, rfl⟩ | ⟨result, -, -, -, rfl⟩
    · rfl
    · cases hp
    · exact hr
    · cases hp
    · cases result with
      | ok n => cases hp
      | error e =>
        by_cases hw : e.kind = .wouldBlock
        · rw [s.react_wouldBlock hw] at hp
          cases hp
        · rw [s.react_error hw] at hp
          cases hp

theorem pollRecvReady_of_checking (hp : s.phase = .checking) :
    ∃ u, s.pollRecv (.pollRecvReady none) = some u := by
  cases hr : s.ready <;> simp [Socket.pollRecv, hp, hr]

/-- `poll_recv` of the endpoint's socket, given that of the socket below. -/
def endpointPollRecv (blake2b256 : Blake2b256) (obf : Option Salamander)
    (base : Poll (Except IoError ℕ)) (bufs : List (List UInt8)) (metas : List RecvMeta) :
    Except Panic (Poll (Except IoError ℕ) × List (List UInt8) × List RecvMeta) :=
  match obf with
  | none => .ok (base, bufs, metas)
  | some obf => ObfuscatedUdpSocket.pollRecv blake2b256 obf base bufs metas

/-- What a call of `poll_recv` may cost and how it may end. -/
structure Bounded (blake2b256 : Blake2b256) (obf : Option Salamander) (start : Socket)
    (steps : List Step) (s : Socket) : Prop where
  /-- A call under way goes on, at an attempt whatever the kernel answers. -/
  ready : s.phase = .checking → ∃ u, s.pollRecv (.pollRecvReady none) = some u
  answered : s.phase = .attempting → ∀ result, s.pollRecv (.recv result) = some (s.react result)
  attempts_le : attempts steps ≤ 1 + reportsAfterFirst steps
  /-- The first answer that is not `WouldBlock` is the last. -/
  stops : ∀ pre result post, steps = pre ++ .recv result :: post →
    (∀ e, result = .error e → e.kind ≠ .wouldBlock) → attempts post = 0
  /-- The step that returns `Pending` finds readiness not set. -/
  pending : ∀ pre l post t u, steps = pre ++ l :: post → run Socket.pollRecv start pre = some t →
    t.pollRecv l = some u → ¬t.Done → u.phase = .returned .pending → t.ready = false
  /-- A real receive error is counted and returned, and is none that quinn retries on. -/
  failed : ∀ pre e post, steps = pre ++ .recv (.error e) :: post → e.kind ≠ .wouldBlock →
    ∃ e', s.phase = .returned (.ready (.error e')) ∧
      (∀ bufs metas, endpointPollRecv blake2b256 obf (.ready (.error e')) bufs metas =
        .ok (.ready (.error e'), bufs, metas)) ∧
      s.recvErrors = start.recvErrors + 1 ∧ s.received = start.received ∧
      e'.kind ≠ .wouldBlock ∧ e'.kind ≠ .connectionReset
  /-- The wrapper answers what the socket below answers. -/
  answer : ∀ base bufs metas r, endpointPollRecv blake2b256 obf base bufs metas = .ok r → r.1 = base

theorem endpointPollRecv_answer {blake2b256 : Blake2b256} {obf : Option Salamander}
    {base : Poll (Except IoError ℕ)} {bufs : List (List UInt8)} {metas : List RecvMeta}
    {r : Poll (Except IoError ℕ) × List (List UInt8) × List RecvMeta}
    (h : endpointPollRecv blake2b256 obf base bufs metas = .ok r) : r.1 = base := by
  cases obf with
  | none => cases h; rfl
  | some obf => exact ObfuscatedUdpSocket.pollRecv_answer blake2b256 obf h

theorem endpointPollRecv_error (blake2b256 : Blake2b256) (obf : Option Salamander) (e : IoError)
    (bufs : List (List UInt8)) (metas : List RecvMeta) :
    endpointPollRecv blake2b256 obf (.ready (.error e)) bufs metas =
      .ok (.ready (.error e), bufs, metas) := by
  cases obf <;> rfl

theorem endpointReceiveError_kind {e : IoError} (h : e.kind ≠ .wouldBlock) :
    (endpointReceiveError e).kind ≠ .wouldBlock ∧
      (endpointReceiveError e).kind ≠ .connectionReset := by
  unfold endpointReceiveError
  split
  · exact ⟨ErrorKind.noConfusion, ErrorKind.noConfusion⟩
  · next hn => exact ⟨h, hn⟩

theorem run_at_recv {pre post : List Step} {result : Except IoError ℕ}
    (h : run Socket.pollRecv start (pre ++ .recv result :: post) = some s) :
    ∃ t, run Socket.pollRecv start pre = some t ∧ t.phase = .attempting ∧
      run Socket.pollRecv (t.react result) post = some s := by
  obtain ⟨t, hpre, hrest⟩ := run_append_eq_some.mp h
  obtain ⟨u, hu, hpost⟩ := run_cons_eq_some.mp hrest
  rcases Socket.pollRecv_cases hu with ⟨hl, -⟩ | ⟨hl, -⟩ | ⟨hl, -⟩ | ⟨e, hl, -⟩ |
    ⟨r, hl, hp, -, rfl⟩
  · contradiction
  · contradiction
  · contradiction
  · contradiction
  · cases hl
    exact ⟨t, hpre, hp, hpost⟩

theorem first_recv (steps : List Step) : attempts steps = 0 ∨
    ∃ pre result post, steps = pre ++ .recv result :: post ∧
      attempts steps = attempts post + 1 ∧
      reportsAfterFirst steps = post.countP Step.isReadiness := by
  induction steps with
  | nil => exact .inl rfl
  | cons l steps ih =>
    have skip : l.isRecv = false → attempts (l :: steps) = attempts steps ∧
        reportsAfterFirst (l :: steps) = reportsAfterFirst steps := by
      intro hl
      simp [attempts, reportsAfterFirst, hl]
    cases l with
    | recv result =>
      refine .inr ⟨[], result, steps, rfl, List.countP_cons_of_pos rfl, ?_⟩
      simp [reportsAfterFirst, Step.isRecv, Step.isReadiness]
    | readiness | pollRecvReady failed =>
      obtain ⟨ha, hr⟩ := skip rfl
      rw [ha, hr]
      rcases ih with h | ⟨pre, result, post, rfl, hpost, hrep⟩
      · exact .inl h
      · exact .inr ⟨_ :: pre, result, post, rfl, hpost, hrep⟩

theorem attempts_le (h : run Socket.pollRecv start steps = some s) :
    attempts steps ≤ 1 + reportsAfterFirst steps := by
  rcases first_recv steps with h₀ | ⟨pre, result, post, rfl, ha, hr⟩
  · rw [h₀]
    exact Nat.zero_le _
  · obtain ⟨t, -, -, hpost⟩ := run_at_recv h
    have hle := attempts_le_credit hpost
    rw [credit_react, Nat.zero_add] at hle
    rw [ha, hr, Nat.add_comm]
    exact Nat.add_le_add_left hle 1

/-- Whatever the kernel and the reactor do, a call is bounded. -/
theorem pollRecv_bounded (blake2b256 : Blake2b256) (obf : Option Salamander) {ready : Bool}
    {received recvErrors : UInt64}
    (h : run Socket.pollRecv (Socket.polled ready received recvErrors) steps = some s) :
    Bounded blake2b256 obf (Socket.polled ready received recvErrors) steps s := by
  have react_done : ∀ (t : Socket) (result : Except IoError ℕ),
      (∀ e, result = .error e → e.kind ≠ .wouldBlock) → (t.react result).Done := by
    intro t result hn
    cases result with
    | ok n => exact ⟨nofun, nofun⟩
    | error e =>
      rw [t.react_error (hn e rfl)]
      exact ⟨nofun, nofun⟩
  refine ⟨pollRecvReady_of_checking, recv_of_attempting rfl h, attempts_le h, ?_, ?_, ?_,
    fun _ _ _ _ => endpointPollRecv_answer⟩
  · rintro pre result post rfl hn
    obtain ⟨t, -, -, hpost⟩ := run_at_recv h
    exact (run_done (react_done t result hn) hpost).1
  · intro pre l post t u _ _ hu hd hp
    rcases Socket.pollRecv_cases hu with ⟨-, rfl⟩ | ⟨-, -, hr, -⟩ | ⟨-, -, -, rfl⟩ |
      ⟨e, -, -, -, rfl⟩ | ⟨result, -, -, -, rfl⟩
    · have hp' : t.phase = .returned .pending := hp
      exact absurd ⟨by rw [hp']; nofun, by rw [hp']; nofun⟩ hd
    · exact hr
    · contradiction
    · cases hp
    · cases result with
      | ok n => cases hp
      | error e =>
        by_cases hw : e.kind = .wouldBlock
        · rw [t.react_wouldBlock hw] at hp
          cases hp
        · rw [t.react_error hw] at hp
          cases hp
  · rintro pre e post rfl hn
    obtain ⟨t, hpre, hp, hpost⟩ := run_at_recv h
    obtain ⟨hrec, herr⟩ := run_unchanged hpre fun hd => hd.2 hp
    rw [t.react_error hn] at hpost
    have hd : Socket.Done { t with
        recvErrors := t.recvErrors + 1
        phase := .returned (.ready (.error (endpointReceiveError e))) } := ⟨nofun, nofun⟩
    obtain ⟨-, hphase, hrec', herr'⟩ := run_done hd hpost
    refine ⟨endpointReceiveError e, hphase, endpointPollRecv_error _ _ _, ?_, hrec'.trans hrec,
      endpointReceiveError_kind hn⟩
    rw [herr', ← herr]

/-! ### A driver that polls again -/

inductive DriverStep
  | poll (l : Step)
  /-- The next call. -/
  | again

/-- quinn's endpoint driver. It polls again after an answer or when it is woken, and
of all errors retries on `ConnectionReset` only. -/
def driver (s : Socket) : DriverStep → Option Socket
  | .poll l => s.pollRecv l
  | .again =>
    match s.phase with
    | .returned (.ready (.error e)) =>
      if e.kind = .connectionReset then some { s with phase := .checking } else none
    | .returned _ => some { s with phase := .checking }
    | _ => none

/-- Of a socket that fails, every attempt is answered by a real error. -/
def DriverStep.Fails (l : DriverStep) : Prop :=
  ∀ result, l = .poll (.recv result) → ∃ e, result = .error e ∧ e.kind ≠ .wouldBlock

def DriverStep.isRecv : DriverStep → Bool
  | .poll l => l.isRecv
  | .again => false

/-- The attempts a driver has left on a socket that fails. -/
def allowance (s : Socket) : ℕ :=
  match s.phase with
  | .returned (.ready (.error e)) => if e.kind = .connectionReset then 1 else 0
  | _ => 1

theorem allowance_le_one (s : Socket) : allowance s ≤ 1 := by
  unfold allowance
  split
  · split
    · exact le_rfl
    · exact Nat.zero_le 1
  · exact le_rfl

theorem allowance_of_phase {p : Phase} (h : s.phase = p)
    (hn : ∀ e, p ≠ .returned (.ready (.error e))) : allowance s = 1 := by
  unfold allowance
  split
  · next e he => exact absurd (h.symm.trans he) (hn e)
  · rfl

theorem driver_pays {l : DriverStep} (hf : l.Fails) (h : driver s l = some s') :
    (if l.isRecv then 1 else 0) + allowance s' ≤ allowance s + if false then 1 else 0 := by
  cases l with
  | again =>
    have hs' : allowance s' ≤ allowance s := by
      simp only [driver] at h
      split at h
      · next e hp =>
        split at h
        · next hk =>
          cases h
          simp [allowance, hp, hk]
        · contradiction
      · next hn hp =>
        cases h
        rw [allowance_of_phase hp fun e he => hn e (Phase.returned.inj he)]
        exact allowance_le_one _
      · contradiction
    simpa [DriverStep.isRecv] using hs'
  | poll l =>
    rcases Socket.pollRecv_cases h with ⟨rfl, rfl⟩ | ⟨rfl, hp, -, -⟩ | ⟨rfl, hp, -, -⟩ |
      ⟨e, rfl, hp, -, -⟩ | ⟨result, rfl, hp, -, rfl⟩
    · exact (Nat.zero_add _).le
    · rw [allowance_of_phase hp nofun]
      exact (Nat.zero_add _).trans_le (allowance_le_one _)
    · rw [allowance_of_phase hp nofun]
      exact (Nat.zero_add _).trans_le (allowance_le_one _)
    · rw [allowance_of_phase hp nofun]
      exact (Nat.zero_add _).trans_le (allowance_le_one _)
    · obtain ⟨e, rfl, he⟩ := hf result rfl
      have hzero : allowance (s.react (.error e)) = 0 := by
        rw [s.react_error he]
        exact if_neg (endpointReceiveError_kind he).2
      rw [hzero, allowance_of_phase hp nofun]
      exact le_rfl

/-- On a socket that fails, the driver stops after one attempt. -/
theorem driver_stops {steps : List DriverStep} (hf : ∀ l ∈ steps, l.Fails)
    (h : run driver start steps = some s) : steps.countP DriverStep.isRecv ≤ 1 ∧
      (0 < steps.countP DriverStep.isRecv → driver s .again = none) := by
  have hle := run_countP_le allowance DriverStep.isRecv (fun _ => false)
    (fun _ _ _ hf h => driver_pays hf h) (along_of_forall fun l hl _ => hf l hl) h
  rw [List.countP_eq_zero.mpr fun _ _ => Bool.false_ne_true] at hle
  have hstart := allowance_le_one start
  refine ⟨by omega, fun hpos => ?_⟩
  have hzero : allowance s = 0 := by omega
  unfold allowance at hzero
  split at hzero
  · next e hp =>
    split at hzero
    · contradiction
    · next hk => simp [driver, hp, hk]
  · contradiction

/-- A receive error never spins the endpoint, plain or obfuscated: a call is
bounded by the reports of readiness, and a driver gives a failing socket up. -/
theorem receive_error_never_spins (blake2b256 : Blake2b256) (obf : Option Salamander)
    (ready : Bool) (received recvErrors : UInt64) :
    (∀ steps s, run Socket.pollRecv (Socket.polled ready received recvErrors) steps = some s →
      Bounded blake2b256 obf (Socket.polled ready received recvErrors) steps s) ∧
    ∀ steps s, (∀ l ∈ steps, DriverStep.Fails l) →
      run driver (Socket.polled ready received recvErrors) steps = some s →
      steps.countP DriverStep.isRecv ≤ 1 ∧
        (0 < steps.countP DriverStep.isRecv → driver s .again = none) :=
  ⟨fun _ _ => pollRecv_bounded blake2b256 obf, fun _ _ => driver_stops⟩

/-- The first attempt finds the connection reset. -/
def resetAtOnce : List DriverStep :=
  [.poll (.pollRecvReady none), .poll (.recv (.error (.simple .connectionReset)))]

theorem resetAtOnce_fails : ∀ l ∈ resetAtOnce, DriverStep.Fails l := by
  rintro l hl result rfl
  simp only [resetAtOnce, List.mem_cons, List.not_mem_nil, or_false, DriverStep.poll.injEq,
    Step.recv.injEq, reduceCtorEq, false_or] at hl
  subst hl
  exact ⟨_, rfl, ErrorKind.noConfusion⟩

/-- A socket that would block once, is reported ready again and then fails; and the driver's end. -/
theorem receive_error_never_spins_reset :
    Bounded (fun salted => Vector.replicate keyLen salted.sum) (some ⟨[7]⟩)
        (Socket.polled true 3 0)
        [.pollRecvReady none, .recv (.error (.simple .wouldBlock)), .readiness,
          .pollRecvReady none, .recv (.error (.simple .connectionReset))]
        ⟨true, 3, 1, .returned (.ready (.error (.other (.simple .connectionReset))))⟩ ∧
      ∃ s, run driver (Socket.polled true 3 0) resetAtOnce = some s ∧ driver s .again = none := by
  have hspin := receive_error_never_spins (fun salted => Vector.replicate keyLen salted.sum)
    (some ⟨[7]⟩) true 3 0
  obtain ⟨s, hs⟩ : ∃ s, run driver (Socket.polled true 3 0) resetAtOnce = some s := ⟨_, rfl⟩
  exact ⟨hspin.1 _ _ rfl, s, hs, (hspin.2 _ s resetAtOnce_fails hs).2 (by decide)⟩

end ConstructTransport.Datagram.SpinFree
