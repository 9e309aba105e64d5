import ConstructTransport.Basic.Polling
import ConstructTransport.Bin.Arguments

/-! `ffiprobe`: connect, sit idle, and look at the statistics line of the connection
every five seconds. The program reads two things back from the line, the ping count
and whether there is a close reason, and it reads them right whatever the reason
says. Its exit code says that the idle connection lived and that the count moved. -/

namespace ConstructTransport.Bin.Ffiprobe

open Text Polling

/-! ### The statistics line -/

/-- What `stats_string` shows of a connection. -/
structure ConnectionStats (ρ : Type*) where
  txDatagrams : ℕ
  rxDatagrams : ℕ
  pingTx : ℕ
  rttMillis : ℕ
  lostPackets : ℕ
  closeReason : Option ρ

variable {ρ : Type*}

def debugOption (debug : ρ → String) : Option ρ → String
  | none => "None"
  | some r => "Some(" ++ debug r ++ ")"

/-- `QuicClient::stats_string`. -/
def statsString (debug : ρ → String) (s : ConnectionStats ρ) : String :=
  "tx_pkts=" ++ s.txDatagrams.repr ++ " rx_pkts=" ++ s.rxDatagrams.repr ++ " ping_tx=" ++
    s.pingTx.repr ++ " rtt=" ++ s.rttMillis.repr ++ "ms lost=" ++ s.lostPackets.repr ++
    " close=" ++ debugOption debug s.closeReason

def pingToken (line : String) : String :=
  ((splitWhitespace line).find? fun t => startsWith t "ping_tx=").getD "ping_tx=?"

section Line

variable (debug : ρ → String) (s : ConnectionStats ρ)

theorem not_isWhitespace_label {label : String} (hl : ∀ c ∈ label.toList, isWhitespace c = false)
    (n : ℕ) : ∀ c ∈ (label ++ n.repr).toList, isWhitespace c = false := by
  intro c hc
  rw [String.toList_append, List.mem_append] at hc
  rcases hc with hc | hc
  · exact hl c hc
  · exact isWhitespace_of_isDigit (isDigit_of_mem_repr hc)

/-- The token that is found is the third, whatever the close reason looks like. -/
theorem pingToken_statsString : pingToken (statsString debug s) = "ping_tx=" ++ s.pingTx.repr := by
  have hline : statsString debug s = "tx_pkts=" ++ s.txDatagrams.repr ++ " " ++
      ("rx_pkts=" ++ s.rxDatagrams.repr ++ " " ++ ("ping_tx=" ++ s.pingTx.repr ++ " " ++
        ("rtt=" ++ s.rttMillis.repr ++ "ms lost=" ++ s.lostPackets.repr ++ " close=" ++
          debugOption debug s.closeReason))) := by
    refine String.toList_inj.mp ?_
    unfold statsString
    simp only [String.toList_append, List.append_assoc, String.reduceToList,
      List.cons_append, List.nil_append]
  have hne : ∀ (label : String) (n : ℕ), label ≠ "" → label ++ n.repr ≠ "" := fun label n hl => by
    simp [hl]
  rw [pingToken, hline,
    splitWhitespace_append (hne _ _ (by simp)) (not_isWhitespace_label (by simp [isWhitespace]) _),
    splitWhitespace_append (hne _ _ (by simp)) (not_isWhitespace_label (by simp [isWhitespace]) _),
    splitWhitespace_append (hne _ _ (by simp)) (not_isWhitespace_label (by simp [isWhitespace]) _)]
  simp [startsWith]

theorem contains_close_iff :
    contains (statsString debug s) "close=Some" = true ↔ s.closeReason.isSome = true := by
  rw [contains, decide_eq_true_iff]
  cases hr : s.closeReason with
  | some r =>
    have hline : (statsString debug s).toList = ("tx_pkts=" ++ s.txDatagrams.repr ++ " rx_pkts=" ++
        s.rxDatagrams.repr ++ " ping_tx=" ++ s.pingTx.repr ++ " rtt=" ++ s.rttMillis.repr ++
        "ms lost=" ++ s.lostPackets.repr ++ " ").toList ++ "close=Some".toList ++
          ("(" ++ debug r ++ ")").toList := by
      unfold statsString
      simp only [hr, debugOption, String.toList_append, List.append_assoc, String.reduceToList,
        List.cons_append, List.nil_append]
    exact iff_of_true ⟨_, _, hline.symm⟩ rfl
  | none =>
    refine iff_of_false (fun h => ?_) (by simp)
    have hS : 'S' ∈ (statsString debug s).toList := h.subset (by simp)
    have hdigit : ∀ n : ℕ, 'S' ∉ n.repr.toList := fun n hm => by
      cases isDigit_of_mem_repr hm
    unfold statsString at hS
    simp only [hr, debugOption, String.toList_append, String.reduceToList, List.mem_append, hdigit,
      or_false] at hS
    simp at hS

end Line

/-! ### The idle loop -/

inductive Verdict
  | statsFailed (e : String)
  | closedDuringIdle
  | survived
  | notGrown
  deriving DecidableEq, Repr

def Verdict.code : Verdict → ℕ
  | survived => 0
  | statsFailed _ | closedDuringIdle | notGrown => 1

structure State where
  lastPing : String
  samples : UInt32
  pingGrew : Bool

def State.start : State := ⟨"", 0, false⟩

/-- A pass of the loop: the clock at its head, and what sampling returns after the sleep. -/
structure Look where
  elapsed : ℕ
  sample : Except String String

/-- The loop sleeps for five seconds, in nanoseconds. -/
def idleSleep : ℕ := 5 * 10 ^ 9

/-- The body of the `while` loop, and what follows it. -/
def look (hold : ℕ) (s : State) (o : Look) : Verdict ⊕ State :=
  if o.elapsed < hold then
    match o.sample with
    | .error e => .inl (.statsFailed e)
    | .ok line =>
      let ping := pingToken line
      let s := { lastPing := ping
                 samples := s.samples + 1
                 pingGrew := s.pingGrew || 0 < s.samples && ping != s.lastPing : State }
      if contains line "close=Some" then .inl .closedDuringIdle else .inr s
  else .inl (if s.pingGrew then .survived else .notGrown)

def Args.hold (args : Args) : ℕ := args.holdSecs * 10 ^ 9

/-- `main` behind the arguments, up to its exit code: the file system, whether a
connection is made with a certificate, and what the idle loop sees of it. -/
def idle (read : String → Except String (List UInt8))
    (connect : Args → List UInt8 → Except String Unit) (looks : List Look) (args : Args) :
    Option ℕ :=
  match read args.certPath with
  | .error _ => some 2
  | .ok cert =>
    match connect args cert with
    | .error _ => some 2
    | .ok () =>
      match loop (look args.hold) .start looks with
      | .inl (v, _) => some v.code
      | .inr _ => none

def main (home : String) (read : String → Except String (List UInt8))
    (connect : Args → List UInt8 → Except String Unit) (looks : List Look) (argv : List String) :
    Option ℕ :=
  idle read connect looks (parse argv (.start home))

/-! ### What the loop finds -/

/-- A pass that samples a connection, or fails to. -/
structure Seen (ρ : Type*) where
  elapsed : ℕ
  stats : Except String (ConnectionStats ρ)

def Seen.look (debug : ρ → String) (o : Seen ρ) : Look :=
  ⟨o.elapsed, o.stats.map (statsString debug)⟩

def Seen.Waits (hold : ℕ) (o : Seen ρ) : Prop :=
  o.elapsed < hold ∧ ∃ s, o.stats = .ok s ∧ s.closeReason = none

def pings (os : List (Seen ρ)) : List ℕ :=
  os.filterMap fun o => o.stats.toOption.map ConnectionStats.pingTx

/-- The state of a loop that has gone on after some passes. -/
structure Holds (os : List (Seen ρ)) (t : State) : Prop where
  samples : t.samples.toNat = (pings os).length
  last : ∀ p ∈ (pings os).getLast?, t.lastPing = "ping_tx=" ++ p.repr
  grew : t.pingGrew = true ↔ ∃ p ∈ pings os, ∃ q ∈ pings os, p ≠ q

section Loop

variable {debug : ρ → String} {hold : ℕ} {s t : State} {o : Seen ρ} {os : List (Seen ρ)}

theorem look_eq_inr_iff :
    look hold s (o.look debug) = .inr t ↔
      o.elapsed < hold ∧ ∃ c, o.stats = .ok c ∧ c.closeReason = none ∧
        t = ⟨"ping_tx=" ++ c.pingTx.repr, s.samples + 1,
          s.pingGrew || 0 < s.samples && "ping_tx=" ++ c.pingTx.repr != s.lastPing⟩ := by
  by_cases he : o.elapsed < hold
  · rw [look, Seen.look, if_pos he]
    cases hs : o.stats with
    | error e => simp [Except.map]
    | ok c =>
      simp only [Except.map, pingToken_statsString, contains_close_iff]
      cases hc : c.closeReason <;> simp [he, hc, eq_comm]
  · rw [look, Seen.look, if_neg he]
    simp [he]

/-- The loop compares each count with the one before. Once two differ, two neighbours do. -/
theorem Holds.sampled {c : ConnectionStats ρ} (h : Holds os s) (hc : o.stats = .ok c)
    (hfew : os.length + 1 < 2 ^ 32) :
    Holds (os ++ [o]) ⟨"ping_tx=" ++ c.pingTx.repr, s.samples + 1,
      s.pingGrew || 0 < s.samples && "ping_tx=" ++ c.pingTx.repr != s.lastPing⟩ := by
  have hp : pings (os ++ [o]) = pings os ++ [c.pingTx] := by
    simp [pings, hc, Except.toOption]
  have hcount : s.samples.toNat + 1 < 2 ^ 32 := by
    have hle : (pings os).length ≤ os.length := List.length_filterMap_le _ _
    have := h.samples
    omega
  refine ⟨?_, by simp [hp], ?_⟩
  · show (s.samples + 1).toNat = _
    rw [UInt32.toNat_add, UInt32.toNat_one, Nat.mod_eq_of_lt hcount, h.samples, hp,
      List.length_append, List.length_singleton]
  have hgrew := h.grew
  rw [hp, Bool.or_eq_true, hgrew, Bool.and_eq_true, decide_eq_true_iff, bne_iff_ne,
    UInt32.lt_iff_toNat_lt, UInt32.toNat_zero, h.samples]
  rcases List.eq_nil_or_concat (pings os) with hn | ⟨ps, q, hq⟩
  · simp [hn]
  · rw [List.concat_eq_append] at hq
    have hlast := h.last q (by simp [hq])
    have hne : "ping_tx=" ++ c.pingTx.repr ≠ s.lastPing ↔ c.pingTx ≠ q := by
      rw [hlast, Ne, Ne, String.append_right_inj, repr_injective.eq_iff]
    rw [hne]
    constructor
    · rintro (⟨p, hp, p', hp', hd⟩ | ⟨-, hd⟩)
      · exact ⟨p, List.mem_append_left _ hp, p', List.mem_append_left _ hp', hd⟩
      · exact ⟨c.pingTx, by simp, q, by simp [hq], hd⟩
    · intro hd
      by_cases hcq : c.pingTx = q
      · left
        have hmem : ∀ p ∈ pings os ++ [c.pingTx], p ∈ pings os := by
          simp [hcq, hq]
        obtain ⟨p, hp, p', hp', hd⟩ := hd
        exact ⟨p, hmem p hp, p', hmem p' hp', hd⟩
      · exact .inr ⟨by simp [hq], hcq⟩

/-- The loop goes on after passes that are early and find the connection open, and only then. -/
theorem loop_eq_inr_iff :
    (∃ t, loop (look hold) .start (os.map (Seen.look debug)) = .inr t) ↔
      ∀ o ∈ os, o.Waits hold := by
  induction os using List.reverseRecOn with
  | nil => simp [loop]
  | append_singleton os o ih =>
    rw [List.forall_mem_append, ← ih, List.map_append, List.map_singleton]
    simp only [loop_concat_eq_inr_iff, look_eq_inr_iff, List.forall_mem_singleton, Seen.Waits]
    constructor
    · rintro ⟨t, s', hs', he, c, hc, hr, -⟩
      exact ⟨⟨s', hs'⟩, he, c, hc, hr⟩
    · rintro ⟨⟨s', hs'⟩, he, c, hc, hr⟩
      exact ⟨_, s', hs', he, c, hc, hr, rfl⟩

theorem holds_of_loop (h : loop (look hold) .start (os.map (Seen.look debug)) = .inr t)
    (hfew : os.length < 2 ^ 32) : Holds os t := by
  induction os using List.reverseRecOn generalizing t with
  | nil =>
    cases h
    exact ⟨rfl, nofun, by simp [State.start, pings]⟩
  | append_singleton os o ih =>
    rw [List.map_append, List.map_singleton] at h
    obtain ⟨s', hs', ho⟩ := loop_concat_eq_inr_iff.mp h
    obtain ⟨-, c, hc, -, rfl⟩ := look_eq_inr_iff.mp ho
    rw [List.length_append, List.length_singleton] at hfew
    exact (ih hs' (Nat.lt_of_succ_lt hfew)).sampled hc hfew

/-- The loop ends well at the first pass that is late, if all before it went well. -/
theorem loop_survived_iff (hfew : os.length < 2 ^ 32) :
    (∃ rest, loop (look hold) .start (os.map (Seen.look debug)) = .inl (.survived, rest)) ↔
      ∃ pre last post, os = pre ++ last :: post ∧ hold ≤ last.elapsed ∧
        (∀ o ∈ pre, o.Waits hold) ∧ ∃ p ∈ pings pre, ∃ q ∈ pings pre, p ≠ q := by
  constructor
  · rintro ⟨rest, h⟩
    obtain ⟨looked, l, t, hs, hpre, hl⟩ := loop_eq_inl_iff.mp h
    obtain ⟨pre, tail, rfl, rfl, ht⟩ := List.map_eq_append_iff.mp hs
    rw [List.length_append] at hfew
    obtain ⟨last, post, rfl, rfl, rfl⟩ := List.map_eq_cons_iff.mp ht
    have hlate : hold ≤ last.elapsed ∧ t.pingGrew = true := by
      rw [look] at hl
      split_ifs at hl with he hg
      · cases hsample : (last.look debug).sample <;> rw [hsample] at hl
        · cases hl
        · dsimp only at hl
          split_ifs at hl
          cases hl
      · exact ⟨Nat.le_of_not_lt he, hg⟩
      · cases hl
    exact ⟨pre, last, post, rfl, hlate.1, loop_eq_inr_iff.mp ⟨t, hpre⟩,
      (holds_of_loop hpre (by omega)).grew.mp hlate.2⟩
  · rintro ⟨pre, last, post, rfl, hlate, hpre, hgrew⟩
    obtain ⟨t, ht⟩ : ∃ t, loop (look hold) .start (pre.map (Seen.look debug)) = .inr t :=
      loop_eq_inr_iff.mpr hpre
    have he : ¬(last.look debug).elapsed < hold := Nat.not_lt.mpr hlate
    rw [List.length_append] at hfew
    have hlast : look hold t (last.look debug) = .inl .survived := by
      rw [look, if_neg he, (holds_of_loop ht (by omega)).grew.mpr hgrew]
      rfl
    rw [List.map_append, List.map_cons]
    exact ⟨_, loop_eq_inl_iff.mpr ⟨_, _, t, rfl, ht, hlast⟩⟩

theorem one_sleep {pre : List (Seen ρ)} {last : Seen ρ} {post : List (Seen ρ)} {p q : ℕ}
    (h : Paced Seen.elapsed idleSleep (pre ++ last :: post)) (hpre : ∀ o ∈ pre, o.elapsed < hold)
    (hp : p ∈ pings pre) (hq : q ∈ pings pre) (hd : p ≠ q) : idleSleep < hold := by
  rcases pre with _ | ⟨o, _ | ⟨o', pre⟩⟩
  · cases hp
  · have hle : (pings [o]).length ≤ 1 := List.length_filterMap_le _ _
    rcases hs : pings [o] with _ | ⟨r, _ | ⟨r', rs⟩⟩ <;> rw [hs] at hp hq hle
    · cases hp
    · exact absurd ((List.mem_singleton.mp hp).trans (List.mem_singleton.mp hq).symm) hd
    · simp at hle
  · have hslept := (List.isChain_cons_cons.mp h).1
    have := hpre o' (by simp)
    omega

end Loop

section Exit

variable {debug : ρ → String} {home : String} {read : String → Except String (List UInt8)}
  {connect : Args → List UInt8 → Except String Unit} {os : List (Seen ρ)} {argv : List String}

def asked (home : String) (argv : List String) : Args :=
  .ofItems home (Arguments.scan grammar argv).1

def Connected (read : String → Except String (List UInt8))
    (connect : Args → List UInt8 → Except String Unit) (args : Args) : Prop :=
  ∃ cert, read args.certPath = .ok cert ∧ connect args cert = .ok ()

theorem idle_eq {looks : List Look} {args : Args} {n : Option ℕ} (hn : n ≠ some 2) :
    idle read connect looks args = n ↔
      Connected read connect args ∧
        (match loop (look args.hold) .start looks with
          | .inl (v, _) => some v.code
          | .inr _ => none) = n := by
  unfold idle Connected
  cases hr : read args.certPath with
  | error e => simp [hn.symm]
  | ok cert =>
    cases hc : connect args cert with
    | error e => simp [hc, hn.symm]
    | ok u => simp [hc]

theorem idle_eq_zero_iff {looks : List Look} {args : Args} :
    idle read connect looks args = some 0 ↔
      Connected read connect args ∧
        ∃ rest, loop (look args.hold) .start looks = .inl (.survived, rest) := by
  rw [idle_eq (by decide)]
  refine and_congr_right fun _ => ?_
  rcases loop (look args.hold) .start looks with ⟨v, rest⟩ | t
  · cases v <;> simp [Verdict.code]
  · simp

theorem idle_eq_none_iff {looks : List Look} {args : Args} :
    idle read connect looks args = none ↔
      Connected read connect args ∧ ∃ t, loop (look args.hold) .start looks = .inr t := by
  rw [idle_eq (by decide)]
  refine and_congr_right fun _ => ?_
  rcases loop (look args.hold) .start looks with ⟨v, rest⟩ | t <;> simp

/-- The program exits with 0 exactly if it reads a certificate and connects with it, then
finds the connection open in every look that starts before the hold is over, with
two different ping counts among them, and has a look that starts after, unless it looks
so often that its counter wraps. A hold of one sleep never passes. A program that goes on
has looked no more often than its sleeps fit into the hold. -/
theorem ffiprobe_exit_exact (hpaced : Paced Seen.elapsed idleSleep os)
    (hfew : os.length < 2 ^ 32) :
    (main home read connect (os.map (Seen.look debug)) argv = some 0 ↔
      Connected read connect (asked home argv) ∧
        ∃ pre last post, os = pre ++ last :: post ∧ (asked home argv).hold ≤ last.elapsed ∧
          (∀ o ∈ pre, o.Waits (asked home argv).hold) ∧
            ∃ p ∈ pings pre, ∃ q ∈ pings pre, p ≠ q) ∧
      (main home read connect (os.map (Seen.look debug)) argv = some 0 →
        idleSleep < (asked home argv).hold) ∧
      ∀ pre o, os = pre ++ [o] → main home read connect (os.map (Seen.look debug)) argv = none →
        pre.length * idleSleep < (asked home argv).hold := by
  have hmain : main home read connect (os.map (Seen.look debug)) argv =
      idle read connect (os.map (Seen.look debug)) (asked home argv) :=
    congrArg _ (parse_ofItems home argv)
  rw [hmain, idle_eq_zero_iff, loop_survived_iff hfew, idle_eq_none_iff, loop_eq_inr_iff]
  refine ⟨Iff.rfl, ?_, ?_⟩
  · rintro ⟨-, pre, last, post, rfl, -, hpre, p, hp, q, hq, hd⟩
    exact one_sleep hpaced (fun o ho => (hpre o ho).1) hp hq hd
  · rintro pre o rfl ⟨-, hwaits⟩
    exact hpaced.length_le.trans_lt (hwaits o (by simp)).1

/-- With no arguments the hold is a minute. -/
theorem ffiprobe_exit_exact_minute :
    main "" (fun _ => .ok []) (fun _ _ => .ok ())
      (([⟨0, .ok ⟨4, 3, 0, 20, 0, none⟩⟩, ⟨idleSleep, .ok ⟨5, 4, 1, 20, 0, none⟩⟩,
        ⟨60 * 10 ^ 9, .error ""⟩] : List (Seen String)).map (Seen.look id)) [] = some 0 := by
  refine (ffiprobe_exit_exact (by decide) (by decide)).1.mpr
    ⟨⟨[], rfl, rfl⟩, [_, _], _, [], rfl, ?_, ?_, ?_⟩
  · exact (le_refl (60 * 10 ^ 9) :)
  · rintro o ho
    simp only [List.mem_cons, List.not_mem_nil, or_false] at ho
    rcases ho with rfl | rfl
    · exact ⟨by decide, _, rfl, rfl⟩
    · exact ⟨by decide, _, rfl, rfl⟩
  · exact ⟨0, by decide, 1, by decide, by decide⟩

end Exit

end ConstructTransport.Bin.Ffiprobe
