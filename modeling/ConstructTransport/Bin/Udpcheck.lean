import ConstructTransport.Basic.Polling
import ConstructTransport.Bin.Arguments
import ConstructTransport.Dial.Plan

/-! `udpcheck`: one handshake to a public control and one to the gateway, each held
if asked, and a verdict from what became of the two. The verdicts that name a cause
name the one that the two dials show, and the exit code is 2 exactly if the control
answers and the gateway does not. -/

namespace ConstructTransport.Bin.Udpcheck

open Text Polling Datagram Dial

/-! ### The verifier -/

/-- A byte of `hex_fp`. -/
def hexUpper (b : UInt8) : String :=
  .ofList [(Nat.digitChar (b.toNat / 16)).toUpper, (Nat.digitChar (b.toNat % 16)).toUpper]

def hexFp (bytes : List UInt8) : String := String.intercalate ":" (bytes.map hexUpper)

def pinMismatch : String :=
  "pinned cert mismatch — gateway cert differs from the bundled quic_gateway.der"

/-- `Verifier::verify_server_cert`: its answer, and the fingerprint it keeps. -/
def verifyServerCert (sha256 : List UInt8 → List UInt8) (pin : Option (List UInt8))
    (endEntity : List UInt8) : Except String Unit × Option String :=
  let seenFp := some (hexFp (sha256 endEntity))
  match pin with
  | none => (.ok (), seenFp)
  | some pin => if endEntity ≠ pin then (.error pinMismatch, seenFp) else (.ok (), seenFp)

/-! ### One dial -/

inductive Probe
  | fail (e : String)
  | ok (rtt : Duration) (fp : Option String)
  | throttled (rtt diedAfter : Duration) (reason : String) (fp : Option String)
  deriving DecidableEq, Repr

/-- A pass of the hold loop: the close reason and then the clock. -/
structure Look where
  closeReason : Option String
  elapsed : Duration

/-- A handshake: the certificate that gets to the verifier, and what comes of it, within
the timeout, if the verifier does not refuse. -/
structure Handshake where
  leaf : Option (List UInt8)
  outcome : Option (Except String Unit)

/-- What is dialed, as the network can tell dials apart. -/
structure Flow where
  addr : SocketAddr
  serverName : String
  psk : Option (List UInt8)

/-- What one dial meets. -/
structure Net where
  toSocketAddrs : String → ℕ → Except String (List SocketAddr)
  openEndpoint : SocketAddr → Option (List UInt8) → Except String Unit
  connect : Flow → Except String Unit
  handshake : Flow → Handshake
  /-- The connection's error for what the verifier refuses. -/
  refusal : String → String
  sha256 : List UInt8 → List UInt8
  rtt : Flow → Duration
  looks : Flow → List Look

structure Target where
  host : String
  port : ℕ
  pin : Option (List UInt8)
  hold : Duration
  sni : Option String
  psk : Option (List UInt8)

inductive Held
  | died (after : Duration) (reason : String)
  | survived
  deriving DecidableEq, Repr

def look (hold : Duration) (_ : Unit) (o : Look) : Held ⊕ Unit :=
  match o.closeReason with
  | some reason => .inl (.died o.elapsed reason)
  | none => if hold ≤ o.elapsed then .inl .survived else .inr ()

def Target.flow (t : Target) (addr : SocketAddr) : Flow :=
  ⟨addr, t.sni.getD t.host, t.psk⟩

/-- The end of `try_quic_inner`, from the connection on. -/
def keepOpen (net : Net) (hold : Duration) (f : Flow) (fp : Option String) : Option Probe :=
  if hold = 0 then some (.ok (net.rtt f) fp)
  else
    match loop (look hold) () (net.looks f) with
    | .inl (.died after reason, _) => some (.throttled (net.rtt f) after reason fp)
    | .inl (.survived, _) => some (.ok (net.rtt f) fp)
    | .inr () => none

/-- `try_quic_inner`, from the handshake on. -/
def shakeHands (net : Net) (t : Target) (f : Flow) : Option (Except String Probe) :=
  match (net.handshake f).leaf.map (verifyServerCert net.sha256 t.pin) with
  | some (.error e, _) => some (.error (net.refusal e))
  | verified =>
    match (net.handshake f).outcome with
    | none =>
      some (.error "QUIC handshake timed out — UDP/443 is filtered or throttled on this path")
    | some (.error e) => some (.error e)
    | some (.ok ()) => (keepOpen net t.hold f (verified.bind Prod.snd)).map .ok

/-- `try_quic_inner`, once it is done. -/
def tryQuicInner (net : Net) (t : Target) : Option (Except String Probe) :=
  match net.toSocketAddrs t.host t.port with
  | .error _ => some (.error ("DNS resolve " ++ t.host ++ ":" ++ t.port.repr))
  | .ok [] => some (.error ("no address for " ++ t.host ++ ":" ++ t.port.repr))
  | .ok (addr :: _) =>
    match net.openEndpoint (bindAddrFor addr) t.psk with
    | .error e =>
      some (.error (if t.psk.isSome then "bind Salamander-obfuscated client endpoint" else e))
    | .ok () =>
      match net.connect (t.flow addr) with
      | .error e => some (.error e)
      | .ok () => shakeHands net t (t.flow addr)

def tryQuic (net : Net) (t : Target) : Option Probe :=
  (tryQuicInner net t).map fun
    | .ok p => p
    | .error e => .fail e

def report : Probe → Bool × Option String
  | .ok _ fp => (true, fp)
  | .throttled _ _ _ fp => (true, fp)
  | .fail _ => (false, none)

/-! ### The verdict -/

inductive Mode
  | salamander
  | sni
  deriving DecidableEq, Repr

inductive Verdict
  | stalePin
  | modeSurvived (mode : Mode)
  | modeDied (mode : Mode) (diedAfter : Duration)
  | modeFailed (mode : Mode) (e : String) (controlOk : Bool)
  | wentSilent
  | allThrottled
  | works
  | oursUnanswered
  | blocked
  | unusual
  deriving DecidableEq, Repr

def Probe.throttled? : Probe → Bool
  | .throttled .. => true
  | _ => false

def Probe.pinMismatch? : Probe → Bool
  | .fail e => contains e "pinned cert mismatch"
  | _ => false

/-- The verdict `main` prints. -/
def verdict (mode : Option Mode) (control ours : Probe) : Verdict :=
  if ours.pinMismatch? then .stalePin
  else
    match mode with
    | some mode =>
      match ours with
      | .ok .. => .modeSurvived mode
      | .throttled _ diedAfter _ _ => .modeDied mode diedAfter
      | .fail e => .modeFailed mode e (report control).1
    | none =>
      match (report control).1, (report ours).1 with
      | true, true =>
        if ours.throttled? && !control.throttled? then .wentSilent
        else if control.throttled? then .allThrottled
        else .works
      | true, false => .oursUnanswered
      | false, false => .blocked
      | false, true => .unusual

def exitCode (control ours : Probe) : ℕ :=
  if (report control).1 && !(report ours).1 then 2 else 0

/-- How the program ends: with the fingerprints it has printed, its verdict and its exit
code, if it dials. -/
inductive Outcome
  | stopped (e : Stop)
  /-- "read pin cert" -/
  | pinUnreadable (path : String)
  | done (fps : Option String × Option String) (v : Verdict) (code : ℕ)
  deriving DecidableEq, Repr

def Args.mode (args : Args) : Option Mode :=
  if args.psk.isSome then some .salamander else if args.sni.isSome then some .sni else none

/-- The control is dialed plain, under its own name and without a pin. -/
def control (hold : Duration) : Target := ⟨"cloudflare-quic.com", 443, none, hold, none, none⟩

def Args.ours (args : Args) (host : String) (port : ℕ) (pin : Option (List UInt8)) : Target :=
  ⟨host, port, pin, args.holdSecs * 10 ^ 9, args.sni, args.psk⟩

/-- `--pin`, read from its path. -/
def readPin (read : String → Except String (List UInt8)) :
    Option String → Except String (Option (List UInt8))
  | none => .ok none
  | some p => match read p with
    | .ok bytes => .ok (some bytes)
    | .error _ => .error p

/-- `main`, once it is done. -/
def main (read : String → Except String (List UInt8)) (controlNet oursNet : Net)
    (argv : List String) : Option Outcome :=
  match configure argv with
  | .error e => some (.stopped e)
  | .ok (args, host, port) =>
    match readPin read args.pinPath with
    | .error p => some (.pinUnreadable p)
    | .ok pin =>
      match tryQuic controlNet (control (args.holdSecs * 10 ^ 9)) with
      | none => none
      | some controlProbe =>
        match tryQuic oursNet (args.ours host port pin) with
        | none => none
        | some oursProbe =>
          some (.done ((report controlProbe).2, (report oursProbe).2)
            (verdict args.mode controlProbe oursProbe) (exitCode controlProbe oursProbe))

/-! ### What becomes of a dial -/

section Dial

variable {net : Net} {t : Target} {p : Probe}

/-- The certificate is the pinned one, if one is pinned. -/
def Accepts (pin leaf : Option (List UInt8)) : Prop := ∀ l ∈ leaf, ∀ q ∈ pin, l = q

instance (pin leaf : Option (List UInt8)) : Decidable (Accepts pin leaf) := by
  unfold Accepts
  infer_instance

def Net.dials (net : Net) (t : Target) : Option Flow :=
  match net.toSocketAddrs t.host t.port with
  | .ok (addr :: _) =>
    match net.openEndpoint (bindAddrFor addr) t.psk, net.connect (t.flow addr) with
    | .ok (), .ok () => some (t.flow addr)
    | _, _ => none
  | _ => none

def Reaches (net : Net) (t : Target) (f : Flow) : Prop :=
  net.dials t = some f ∧ (net.handshake f).outcome = some (.ok ()) ∧
    Accepts t.pin (net.handshake f).leaf

def Mismatched (net : Net) (t : Target) : Prop :=
  ∃ f, net.dials t = some f ∧ ¬Accepts t.pin (net.handshake f).leaf

/-- The passes before the last of a hold loop. -/
def Quiet (hold : Duration) (os : List Look) : Prop :=
  ∀ o ∈ os, o.closeReason = none ∧ o.elapsed < hold

/-- The connection is made, and a pass of the hold finds it closed. -/
def Died (net : Net) (t : Target) : Prop :=
  ∃ f, Reaches net t f ∧ t.hold ≠ 0 ∧ ∃ pre o post, net.looks f = pre ++ o :: post ∧
    Quiet t.hold pre ∧ o.closeReason ≠ none

/-- The connection is made, and the pass that finds the hold over finds it open. -/
def Survived (net : Net) (t : Target) : Prop :=
  ∃ f, Reaches net t f ∧ (t.hold ≠ 0 → ∃ pre o post, net.looks f = pre ++ o :: post ∧
    Quiet t.hold pre ∧ o.closeReason = none ∧ t.hold ≤ o.elapsed)

theorem look_eq_inr_iff {hold : Duration} {o : Look} :
    look hold () o = .inr () ↔ o.closeReason = none ∧ o.elapsed < hold := by
  unfold look
  cases o.closeReason <;> simp

theorem loop_eq_inr_iff {hold : Duration} {os : List Look} :
    loop (look hold) () os = .inr () ↔ Quiet hold os := by
  induction os using List.reverseRecOn with
  | nil => simp [loop, Quiet]
  | append_singleton os o ih =>
    have hquiet : Quiet hold (os ++ [o]) ↔ Quiet hold os ∧ look hold () o = .inr () := by
      rw [look_eq_inr_iff, Quiet, List.forall_mem_append, List.forall_mem_singleton]
      rfl
    rw [hquiet, ← ih, loop_concat_eq_inr_iff]
    exact ⟨fun h => h.elim fun _ h => h, fun h => ⟨(), h⟩⟩

theorem verified_eq (sha256 : List UInt8 → List UInt8) (pin leaf : Option (List UInt8)) :
    leaf.map (verifyServerCert sha256 pin) =
      leaf.map fun l => (if Accepts pin leaf then .ok () else .error pinMismatch,
        some (hexFp (sha256 l))) := by
  cases leaf with
  | none => rfl
  | some l =>
    cases pin with
    | none => simp [verifyServerCert, Accepts]
    | some q => by_cases h : l = q <;> simp [verifyServerCert, Accepts, h]

theorem shakeHands_of_accepts {f : Flow} (h : Accepts t.pin (net.handshake f).leaf) :
    shakeHands net t f =
      match (net.handshake f).outcome with
      | none =>
        some (.error "QUIC handshake timed out — UDP/443 is filtered or throttled on this path")
      | some (.error e) => some (.error e)
      | some (.ok ()) => (keepOpen net t.hold f
          ((net.handshake f).leaf.map fun l => hexFp (net.sha256 l))).map .ok := by
  rw [shakeHands, verified_eq]
  simp only [if_pos h]
  cases (net.handshake f).leaf <;> rfl

theorem shakeHands_of_not_accepts {f : Flow} (h : ¬Accepts t.pin (net.handshake f).leaf) :
    shakeHands net t f = some (.error (net.refusal pinMismatch)) := by
  rw [shakeHands, verified_eq]
  simp only [if_neg h]
  cases hl : (net.handshake f).leaf with
  | none => exact absurd (by simp [Accepts, hl]) h
  | some l => rfl

theorem tryQuicInner_of_dials {f : Flow} (h : net.dials t = some f) :
    tryQuicInner net t = shakeHands net t f := by
  unfold Net.dials at h
  unfold tryQuicInner
  split at h
  · split at h
    · cases h
      simp only [*]
    · cases h
  · cases h

theorem tryQuicInner_of_not_dials (h : net.dials t = none) :
    ∃ e, tryQuicInner net t = some (.error e) := by
  unfold Net.dials at h
  unfold tryQuicInner
  split
  · exact ⟨_, rfl⟩
  · exact ⟨_, rfl⟩
  · split
    · exact ⟨_, rfl⟩
    · split
      · exact ⟨_, rfl⟩
      · simp [*] at h

theorem tryQuic_of_reaches {f : Flow} (h : Reaches net t f) :
    tryQuic net t = keepOpen net t.hold f
      ((net.handshake f).leaf.map fun l => hexFp (net.sha256 l)) := by
  rw [tryQuic, tryQuicInner_of_dials h.1, shakeHands_of_accepts h.2.2, h.2.1]
  cases keepOpen net t.hold f _ <;> rfl

theorem tryQuic_of_died (h : Died net t) :
    ∃ rtt after reason fp, tryQuic net t = some (.throttled rtt after reason fp) := by
  obtain ⟨f, hr, hhold, pre, o, post, hlooks, hpre, ho⟩ := h
  obtain ⟨reason, hreason⟩ := Option.ne_none_iff_exists'.mp ho
  have hlast : look t.hold () o = .inl (.died o.elapsed reason) := by
    rw [look, hreason]
  have hloop := loop_append (loop_eq_inr_iff.mpr hpre) (o :: post)
  rw [loop_cons_inl hlast, ← hlooks] at hloop
  rw [tryQuic_of_reaches hr, keepOpen, if_neg hhold, hloop]
  exact ⟨_, _, _, _, rfl⟩

theorem tryQuic_of_survived (h : Survived net t) :
    ∃ rtt fp, tryQuic net t = some (.ok rtt fp) := by
  obtain ⟨f, hr, hlast⟩ := h
  rw [tryQuic_of_reaches hr, keepOpen]
  by_cases hhold : t.hold = 0
  · exact ⟨_, _, if_pos hhold⟩
  · obtain ⟨pre, o, post, hlooks, hpre, ho, hlate⟩ := hlast hhold
    have hl : look t.hold () o = .inl .survived := by
      rw [look, ho]
      exact if_pos hlate
    have hloop := loop_append (loop_eq_inr_iff.mpr hpre) (o :: post)
    rw [loop_cons_inl hl, ← hlooks] at hloop
    rw [if_neg hhold, hloop]
    exact ⟨_, _, rfl⟩

theorem tryQuic_of_not_reaches (h : ∀ f, ¬Reaches net t f) :
    ∃ e, tryQuic net t = some (.fail e) ∧ (Mismatched net t → e = net.refusal pinMismatch) := by
  cases hd : net.dials t with
  | none =>
    obtain ⟨e, he⟩ := tryQuicInner_of_not_dials hd
    refine ⟨e, by rw [tryQuic, he]; rfl, fun ⟨f, hf, _⟩ => ?_⟩
    cases hd.symm.trans hf
  | some f =>
    rw [tryQuic, tryQuicInner_of_dials hd]
    by_cases ha : Accepts t.pin (net.handshake f).leaf
    · have hmis : ¬Mismatched net t := by
        rintro ⟨f', hf', hn⟩
        cases hd.symm.trans hf'
        exact hn ha
      rw [shakeHands_of_accepts ha]
      match ho : (net.handshake f).outcome with
      | none => exact ⟨_, rfl, fun hm => absurd hm hmis⟩
      | some (.error e) => exact ⟨_, rfl, fun hm => absurd hm hmis⟩
      | some (.ok ()) => exact absurd ⟨hd, ho, ha⟩ (h f)
    · rw [shakeHands_of_not_accepts ha]
      exact ⟨_, rfl, fun _ => rfl⟩

theorem keepOpen_cases {f : Flow} {fp : Option String} (hr : Reaches net t f)
    (h : keepOpen net t.hold f fp = some p) : Died net t ∨ Survived net t := by
  unfold keepOpen at h
  split_ifs at h with hhold
  · exact .inr ⟨f, hr, fun hn => absurd hhold hn⟩
  · cases hl : loop (look t.hold) () (net.looks f) with
    | inr u =>
      rw [hl] at h
      cases h
    | inl r =>
      obtain ⟨held, post⟩ := r
      obtain ⟨pre, o, u, hlooks, hpre, ho⟩ := loop_eq_inl_iff.mp hl
      have hquiet := loop_eq_inr_iff.mp hpre
      unfold look at ho
      cases hc : o.closeReason with
      | some reason => exact .inl ⟨f, hr, hhold, pre, o, post, hlooks, hquiet, by simp [hc]⟩
      | none =>
        rw [hc] at ho
        refine .inr ⟨f, hr, fun _ => ⟨pre, o, post, hlooks, hquiet, hc, Nat.le_of_not_lt ?_⟩⟩
        intro hlt
        dsimp only at ho
        rw [if_neg (Nat.not_le.mpr hlt)] at ho
        cases ho

/-- The three fates of a dial, and what is reported of each. -/
theorem tryQuic_cases (h : tryQuic net t = some p) :
    (∃ e, p = .fail e ∧ (Mismatched net t → e = net.refusal pinMismatch) ∧
        (∀ f, ¬Reaches net t f) ∧ ¬Died net t ∧ ¬Survived net t) ∨
      (∃ rtt after reason fp, p = .throttled rtt after reason fp ∧ (∃ f, Reaches net t f) ∧
        ¬Mismatched net t ∧ Died net t ∧ ¬Survived net t) ∨
      ∃ rtt fp, p = .ok rtt fp ∧ (∃ f, Reaches net t f) ∧
        ¬Mismatched net t ∧ ¬Died net t ∧ Survived net t := by
  by_cases hr : ∃ f, Reaches net t f
  · have hmis : ¬Mismatched net t := by
      rintro ⟨f', hf', hn⟩
      obtain ⟨f, hf, -, ha⟩ := hr
      cases hf.symm.trans hf'
      exact hn ha
    obtain ⟨f, hf⟩ := hr
    have hkeep := h
    rw [tryQuic_of_reaches hf] at hkeep
    right
    rcases keepOpen_cases hf hkeep with hd | hs
    · obtain ⟨rtt, after, reason, fp, hp⟩ := tryQuic_of_died hd
      have hns : ¬Survived net t := fun hs => by
        obtain ⟨_, _, hp'⟩ := tryQuic_of_survived hs
        cases hp.symm.trans hp'
      exact .inl ⟨rtt, after, reason, fp, Option.some_injective _ (h.symm.trans hp), ⟨f, hf⟩, hmis,
        hd, hns⟩
    · obtain ⟨rtt, fp, hp⟩ := tryQuic_of_survived hs
      have hnd : ¬Died net t := fun hd => by
        obtain ⟨_, _, _, _, hp'⟩ := tryQuic_of_died hd
        cases hp.symm.trans hp'
      exact .inr ⟨rtt, fp, Option.some_injective _ (h.symm.trans hp), ⟨f, hf⟩, hmis, hnd, hs⟩
  · have hn : ∀ f, ¬Reaches net t f := fun f hf => hr ⟨f, hf⟩
    obtain ⟨e, he, hm⟩ := tryQuic_of_not_reaches hn
    refine .inl ⟨e, Option.some_injective _ (h.symm.trans he), hm, hn, ?_, ?_⟩
    · exact fun ⟨f, hf, _⟩ => hn f hf
    · exact fun ⟨f, hf, _⟩ => hn f hf

end Dial

/-! ### What the verdict says -/

/-- What a verdict and an exit code owe to the two dials. -/
structure Diagnosis (controlNet oursNet : Net) (mode : Option Mode) (c o : Target) (v : Verdict)
    (code : ℕ) : Prop where
  code_two : code = 2 ↔ (∃ f, Reaches controlNet c f) ∧ ∀ f, ¬Reaches oursNet o f
  code_le : code = 0 ∨ code = 2
  stale : Mismatched oursNet o → v = .stalePin
  works : v = .works ↔ mode = none ∧ Survived controlNet c ∧ Survived oursNet o
  silent : v = .wentSilent ↔ mode = none ∧ Survived controlNet c ∧ Died oursNet o
  throttled : v = .allThrottled ↔ mode = none ∧ Died controlNet c ∧ ∃ f, Reaches oursNet o f
  unusual : v = .unusual ↔
    mode = none ∧ (∀ f, ¬Reaches controlNet c f) ∧ ∃ f, Reaches oursNet o f
  blocked : v = .blocked → (∀ f, ¬Reaches controlNet c f) ∧ ∀ f, ¬Reaches oursNet o f
  unanswered : v = .oursUnanswered →
    (∃ f, Reaches controlNet c f) ∧ (∀ f, ¬Reaches oursNet o f) ∧ ¬Mismatched oursNet o
  tried : ∀ m, mode = some m →
    (v = .modeSurvived m ↔ Survived oursNet o) ∧
      ((∃ after, v = .modeDied m after) ↔ Died oursNet o)

/-- The fingerprint of a report is that of the server's certificate, once a handshake has
succeeded with it. -/
structure Shows (net : Net) (t : Target) (fp : Option String) : Prop where
  reached : ∀ f, Reaches net t f → fp = (net.handshake f).leaf.map fun l => hexFp (net.sha256 l)
  failed : (∀ f, ¬Reaches net t f) → fp = none

theorem shows_report {net : Net} {t : Target} {p : Probe} (h : tryQuic net t = some p) :
    Shows net t (report p).2 := by
  constructor
  · intro f hf
    rw [tryQuic_of_reaches hf, keepOpen] at h
    split_ifs at h
    · cases h
      rfl
    · split at h <;> cases h <;> rfl
  · intro hn
    obtain ⟨e, he, -⟩ := tryQuic_of_not_reaches hn
    cases h.symm.trans he
    rfl

theorem contains_of_refusal {refusal : String → String}
    (h : contains (refusal pinMismatch) pinMismatch = true) :
    contains (refusal pinMismatch) "pinned cert mismatch" = true := by
  have hpre : "pinned cert mismatch".toList <+: pinMismatch.toList :=
    ⟨" — gateway cert differs from the bundled quic_gateway.der".toList, by
      unfold pinMismatch
      simp only [String.reduceToList, List.cons_append, List.nil_append]⟩
  exact decide_eq_true (hpre.isInfix.trans (of_decide_eq_true h))

/-- What a report says of a dial. -/
structure Reported (net : Net) (t : Target) (p : Probe) : Prop where
  reached : (∃ f, Reaches net t f) ↔ (report p).1 = true
  died : Died net t ↔ p.throttled? = true
  survived : Survived net t ↔ (report p).1 = true ∧ p.throttled? = false

theorem reported {net : Net} {t : Target} {p : Probe} (h : tryQuic net t = some p) :
    Reported net t p := by
  rcases tryQuic_cases h with ⟨e, rfl, -, hr, hd, hs⟩ | ⟨r, a, re, fp, rfl, hr, -, hd, hs⟩ |
    ⟨r, fp, rfl, hr, -, hd, hs⟩
  · exact ⟨by simpa [report] using hr, by simpa [Probe.throttled?] using hd,
      by simpa [report] using hs⟩
  · exact ⟨by simpa [report] using hr, by simpa [Probe.throttled?] using hd,
      by simpa [Probe.throttled?] using hs⟩
  · exact ⟨by simpa [report] using hr, by simpa [Probe.throttled?] using hd,
      by simpa [report, Probe.throttled?] using hs⟩

theorem pinMismatch_of_mismatched {net : Net} {t : Target} {p : Probe}
    (hrefusal : contains (net.refusal pinMismatch) pinMismatch = true)
    (h : tryQuic net t = some p) (hm : Mismatched net t) : p.pinMismatch? = true := by
  rcases tryQuic_cases h with ⟨e, rfl, he, -⟩ | ⟨_, _, _, _, -, -, hn, -⟩ | ⟨_, _, -, -, hn, -⟩
  · rw [he hm]
    exact contains_of_refusal hrefusal
  · exact absurd hm hn
  · exact absurd hm hn

theorem verdict_of_pinMismatch {mode : Option Mode} {cp op : Probe} (h : op.pinMismatch? = true) :
    verdict mode cp op = .stalePin := by
  unfold verdict
  exact if_pos h

theorem not_reported_of_pinMismatch {op : Probe} (h : op.pinMismatch? = true) :
    (report op).1 = false ∧ op.throttled? = false := by
  cases op with
  | fail e => exact ⟨rfl, rfl⟩
  | ok | throttled => cases h

theorem verdict_of_not_pinMismatch {mode : Option Mode} {cp op : Probe} :
    op.pinMismatch? = false → verdict mode cp op = match mode with
      | some mode => match op with
        | .ok .. => .modeSurvived mode
        | .throttled _ diedAfter _ _ => .modeDied mode diedAfter
        | .fail e => .modeFailed mode e (report cp).1
      | none => match (report cp).1, (report op).1 with
        | true, true =>
          if op.throttled? && !cp.throttled? then .wentSilent
          else if cp.throttled? then .allThrottled
          else .works
        | true, false => .oursUnanswered
        | false, false => .blocked
        | false, true => .unusual := by
  intro h
  unfold verdict
  exact if_neg (Bool.eq_false_iff.mp h)

theorem diagnosis_of_tryQuic {controlNet oursNet : Net} {mode : Option Mode} {c o : Target}
    {cp op : Probe} (hrefusal : contains (oursNet.refusal pinMismatch) pinMismatch = true)
    (hc : tryQuic controlNet c = some cp) (ho : tryQuic oursNet o = some op) :
    Diagnosis controlNet oursNet mode c o (verdict mode cp op) (exitCode cp op) := by
  obtain ⟨hcr, hcd, hcs⟩ := reported hc
  obtain ⟨hor, hod, hos⟩ := reported ho
  have hm := pinMismatch_of_mismatched hrefusal ho
  have hcn : (∀ f, ¬Reaches controlNet c f) ↔ (report cp).1 = false := by
    rw [← not_exists, hcr, Bool.not_eq_true]
  have hon : (∀ f, ¬Reaches oursNet o f) ↔ (report op).1 = false := by
    rw [← not_exists, hor, Bool.not_eq_true]
  have hcode : exitCode cp op = 2 ↔ (report cp).1 = true ∧ (report op).1 = false := by
    unfold exitCode
    cases (report cp).1 <;> cases (report op).1 <;> decide
  have hcode' : exitCode cp op = 0 ∨ exitCode cp op = 2 := by
    unfold exitCode
    split_ifs <;> simp
  cases hpm : op.pinMismatch? with
  | true =>
    obtain ⟨hr, ht⟩ := not_reported_of_pinMismatch hpm
    rw [verdict_of_pinMismatch hpm]
    constructor
    case code_le => exact hcode'
    all_goals simp [hcr, hcn, hor, hon, hod, hos, hr, ht, hcode]
  | false =>
    have hmis : ¬Mismatched oursNet o := fun h => by
      cases hpm.symm.trans (hm h)
    rw [verdict_of_not_pinMismatch hpm]
    constructor
    case code_le => exact hcode'
    all_goals simp only [hcr, hcn, hcd, hcs, hor, hon, hod, hos, hcode, hmis]
    all_goals
      clear hc ho hcr hcd hcs hor hod hos hcn hon
      cases cp <;> cases op <;> cases mode <;> simp [report, Probe.throttled?]

/-- A program that comes to a verdict has dialed the control and the gateway as it was
asked. It prints the fingerprint of a server exactly if the handshake succeeds, so none of
one that is not pinned. It exits with 2 exactly if the control answers and the gateway
does not. A certificate that is not the pinned one is always reported as a stale pin.
Without an override, the gateway is said to work exactly if both connections outlive the hold, to
go silent if its own alone dies, and the network to throttle if the control's dies; a
network is called blocked only if neither answers. With an override, the report on the
gateway is what became of its connection. -/
theorem udpcheck_verdict_exact {read : String → Except String (List UInt8)}
    {controlNet oursNet : Net} {argv : List String} {fps : Option String × Option String}
    {v : Verdict} {code : ℕ}
    (hrefusal : ∀ e, contains (oursNet.refusal e) e = true)
    (h : main read controlNet oursNet argv = some (.done fps v code)) :
    ∃ args host port pin, configure argv = .ok (args, host, port) ∧
      readPin read args.pinPath = .ok pin ∧
      Shows controlNet (control (args.holdSecs * 10 ^ 9)) fps.1 ∧
      Shows oursNet (args.ours host port pin) fps.2 ∧
      Diagnosis controlNet oursNet args.mode (control (args.holdSecs * 10 ^ 9))
        (args.ours host port pin) v code := by
  unfold main at h
  split at h
  · cases h
  · rename_i args host port hconf
    split at h
    · cases h
    · rename_i pin hpin
      split at h
      · cases h
      · rename_i cp hc
        split at h
        · cases h
        · rename_i op ho
          cases h
          exact ⟨args, host, port, pin, hconf, hpin, shows_report hc, shows_report ho,
            diagnosis_of_tryQuic (hrefusal _) hc ho⟩

/-- A server that answers, with a certificate of one byte. -/
def answering (looks : List Look) : Net where
  toSocketAddrs _ _ := .ok [⟨.v4 0, 443⟩]
  openEndpoint _ _ := .ok ()
  connect _ := .ok ()
  handshake _ := ⟨some [0], some (.ok ())⟩
  refusal e := "the cryptographic handshake failed: " ++ e
  sha256 leaf := leaf
  rtt _ := 0
  looks _ := looks

/-- A hold of three seconds, and the gateway's certificate pinned. -/
def pinnedHold : List Arguments.Item := [.flag "--hold" "3", .flag "--pin" "quic_gateway.der"]

theorem configure_pinnedHold : configure (Arguments.render pinnedHold) =
    .ok (⟨3, some "quic_gateway.der", none, none, []⟩, "quic.konstruct.cc", 443) :=
  configure_render (by simp [pinnedHold, Arguments.Item.Fits, grammar])
    ⟨fun v hv => ⟨3, by
      rw [List.mem_singleton.mp (show v ∈ ["3"] from hv)]
      decide⟩, fun v hv => by cases hv⟩

/-- The gateway shows the pinned certificate and goes silent after the first second. -/
theorem udpcheck_verdict_exact_answering :
    ∃ args host port pin, configure (Arguments.render pinnedHold) = .ok (args, host, port) ∧
      readPin (fun _ => .ok [0]) args.pinPath = .ok pin ∧
      Shows (answering [⟨none, 0⟩, ⟨none, fromMillis 3000⟩])
        (control (args.holdSecs * 10 ^ 9)) (some "00") ∧
      Shows (answering [⟨none, 0⟩, ⟨some "timed out", fromMillis 1000⟩])
        (args.ours host port pin) (some "00") ∧
      Diagnosis (answering [⟨none, 0⟩, ⟨none, fromMillis 3000⟩])
        (answering [⟨none, 0⟩, ⟨some "timed out", fromMillis 1000⟩]) args.mode
        (control (args.holdSecs * 10 ^ 9)) (args.ours host port pin) .wentSilent 0 := by
  have hmain : main (fun _ => .ok [0]) (answering [⟨none, 0⟩, ⟨none, fromMillis 3000⟩])
      (answering [⟨none, 0⟩, ⟨some "timed out", fromMillis 1000⟩]) (Arguments.render pinnedHold) =
      some (.done (some "00", some "00") .wentSilent 0) := by
    rw [main, configure_pinnedHold]
    decide
  refine udpcheck_verdict_exact (fun e => decide_eq_true ?_) hmain
  rw [answering, String.toList_append]
  exact (List.suffix_append _ _).isInfix

end ConstructTransport.Bin.Udpcheck
