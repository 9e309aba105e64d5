import ConstructTransport.Basic.Arguments
import ConstructTransport.Bin.DecodeHex

/-! The command lines of `udpcheck` and `ffiprobe`. Both go through their arguments
in one loop. `udpcheck` refuses what it cannot use and names the flag; `ffiprobe`
passes over it. What either makes of a command line depends on its items alone:
flags may stand anywhere, the last of a kind counts, and an operand is never taken
for a word, whatever it looks like. -/

namespace ConstructTransport.Bin

open Checked Text Arguments

/-! ### udpcheck -/

namespace Udpcheck

inductive ArgError
  | holdMissing
  | holdInvalid
  | pinMissing
  | sniMissing
  | pskMissing
  | pskInvalid (source : String)
  | portInvalid
  deriving DecidableEq, Repr

def ArgError.message : ArgError → String
  | holdMissing => "--hold needs a number of seconds"
  | holdInvalid => "invalid --hold value"
  | pinMissing => "--pin needs a path to a cert.der"
  | sniMissing => "--sni needs a server name"
  | pskMissing => "--psk needs a hex PSK"
  | pskInvalid _ => "invalid --psk hex"
  | portInvalid => "invalid port"

/-- How the program ends before it has dialed anything. -/
inductive Stop
  | usage (e : ArgError)
  | panic (p : Panic)
  deriving DecidableEq, Repr

structure Args where
  holdSecs : ℕ
  pinPath : Option String
  sni : Option String
  psk : Option (List UInt8)
  positional : List String
  deriving DecidableEq, Repr

def Args.start : Args := ⟨0, none, none, none, []⟩

/-- `decode_hex` of the operand of `--psk`, under its context. -/
def readPsk (hex : String) : Except Stop (List UInt8) :=
  match decodeHex hex with
  | .error p => .error (.panic p)
  | .ok (.error e) => .error (.usage (.pskInvalid e))
  | .ok (.ok key) => .ok key

/-- The `while let` loop over the arguments in `main`. -/
def parse : List String → Args → Except Stop Args
  | [], args => .ok args
  | a :: it, args =>
    if a = "--hold" then
      match it with
      | [] => .error (.usage .holdMissing)
      | v :: it =>
        match parseUnsigned (2 ^ 64) v with
        | none => .error (.usage .holdInvalid)
        | some n => parse it { args with holdSecs := n }
    else if a = "--pin" then
      match it with
      | [] => .error (.usage .pinMissing)
      | v :: it => parse it { args with pinPath := some v }
    else if a = "--sni" then
      match it with
      | [] => .error (.usage .sniMissing)
      | v :: it => parse it { args with sni := some v }
    else if a = "--psk" then
      match it with
      | [] => .error (.usage .pskMissing)
      | v :: it =>
        match readPsk v with
        | .error e => .error e
        | .ok key => parse it { args with psk := some key }
    else if a = "--" then parse it args
    else parse it { args with positional := args.positional ++ [a] }

def ours (positional : List String) : Except Stop (String × ℕ) :=
  let host := positional[0]?.getD "quic.konstruct.cc"
  match positional[1]? with
  | none => .ok (host, 443)
  | some p =>
    match parseUnsigned (2 ^ 16) p with
    | none => .error (.usage .portInvalid)
    | some port => .ok (host, port)

def grammar : Grammar := ⟨["--hold", "--pin", "--sni", "--psk"], ["--"]⟩

def check : Item → Except Stop Unit
  | .flag name v =>
    if name = "--hold" then
      match parseUnsigned (2 ^ 64) v with
      | none => .error (.usage .holdInvalid)
      | some _ => .ok ()
    else if name = "--psk" then (readPsk v).map fun _ => ()
    else .ok ()
  | _ => .ok ()

def put (args : Args) : Item → Args
  | .flag name v =>
    if name = "--hold" then { args with holdSecs := (parseUnsigned (2 ^ 64) v).getD 0 }
    else if name = "--pin" then { args with pinPath := some v }
    else if name = "--sni" then { args with sni := some v }
    else { args with psk := (readPsk v).toOption }
  | .switch _ => args
  | .word w => { args with positional := args.positional ++ [w] }

def missing (name : String) : ArgError :=
  if name = "--hold" then .holdMissing
  else if name = "--pin" then .pinMissing
  else if name = "--sni" then .sniMissing
  else .pskMissing

/-- The loop reads the items of the command line one by one. -/
theorem parse_eq (args : List String) (s : Args) :
    parse args s = match (scan grammar args).1.foldlM (read check put) s with
      | .error e => .error e
      | .ok s' => match (scan grammar args).2 with
        | none => .ok s'
        | some name => .error (.usage (missing name)) := by
  induction args using scan_induction (g := grammar) generalizing s with
  | nil => rfl
  | last a h =>
    rw [scan_last h]
    simp only [grammar, List.mem_cons, List.not_mem_nil, or_false] at h
    rcases h with rfl | rfl | rfl | rfl <;> rfl
  | flag a v it h ih =>
    rw [scan_flag h, foldlM_read_cons]
    simp only [grammar, List.mem_cons, List.not_mem_nil, or_false] at h
    rcases h with rfl | rfl | rfl | rfl
    · rw [parse, if_pos rfl, check, if_pos rfl]
      cases hp : parseUnsigned (2 ^ 64) v with
      | none => rfl
      | some n =>
        have hput : put s (.flag "--hold" v) = { s with holdSecs := n } := by
          rw [put, if_pos rfl, hp]
          rfl
        rw [hput]
        exact ih _
    · exact ih _
    · exact ih _
    · rw [parse, if_neg (by decide), if_neg (by decide), if_neg (by decide), if_pos rfl, check,
        if_neg (by decide), if_pos rfl]
      cases hk : readPsk v with
      | error e => rfl
      | ok key =>
        have hput : put s (.flag "--psk" v) = { s with psk := some key } := by
          rw [put, if_neg (by decide), if_neg (by decide), if_neg (by decide), hk]
          rfl
        rw [hput]
        exact ih _
  | single a it h ih =>
    rw [scan_single h, foldlM_read_cons]
    simp only [grammar, List.mem_cons, List.not_mem_nil, or_false, not_or] at h
    obtain ⟨h₁, h₂, h₃, h₄⟩ := h
    rw [parse.eq_def]
    simp only [if_neg h₁, if_neg h₂, if_neg h₃, if_neg h₄]
    by_cases hs : a = "--"
    · subst hs
      exact ih s
    · have hw : grammar.single a = .word a := if_neg (by simpa [grammar] using hs)
      rw [if_neg hs, hw]
      exact ih _

def Args.ofItems (items : List Item) : Args where
  holdSecs := ((operands "--hold" items).getLast?.bind (parseUnsigned (2 ^ 64))).getD 0
  pinPath := (operands "--pin" items).getLast?
  sni := (operands "--sni" items).getLast?
  psk := (operands "--psk" items).getLast?.bind fun v => (readPsk v).toOption
  positional := words items

theorem foldl_put {items : List Item} (h : ∀ item ∈ items, item.Fits grammar) :
    items.foldl put Args.start = Args.ofItems items := by
  induction items using List.reverseRecOn with
  | nil => rfl
  | append_singleton items item ih =>
    have hi := h item (by simp)
    rw [List.foldl_concat, ih fun i hm => h i (by simp [hm])]
    cases item with
    | flag name v =>
      simp only [Item.Fits, grammar, List.mem_cons, List.not_mem_nil, or_false] at hi
      rcases hi with rfl | rfl | rfl | rfl <;>
        simp [put, Args.ofItems, operands_append, words_append]
    | switch name => simp [put, Args.ofItems, operands_append, words_append]
    | word w => simp [put, Args.ofItems, operands_append, words_append]

/-- What `main` takes from the command line: the settings and the gateway to check. -/
def configure (args : List String) : Except Stop (Args × String × ℕ) :=
  match parse args .start with
  | .error e => .error e
  | .ok s => (ours s.positional).map fun target => (s, target)

/-- Every operand that has to be read can be. -/
def Accepted (items : List Item) : Prop :=
  (∀ v ∈ operands "--hold" items, ∃ n, parseUnsigned (2 ^ 64) v = some n) ∧
    ∀ v ∈ operands "--psk" items, ∃ key, readPsk v = .ok key

theorem check_flag_eq_error_iff {name v : String} {e : Stop} :
    check (.flag name v) = .error e ↔
      name = "--hold" ∧ parseUnsigned (2 ^ 64) v = none ∧ e = .usage .holdInvalid ∨
        name = "--psk" ∧ readPsk v = .error e := by
  rw [check]
  split_ifs with hh hp
  · subst hh
    cases parseUnsigned (2 ^ 64) v <;> simp [eq_comm]
  · subst hp
    cases readPsk v <;> simp [Except.map]
  · simp [hh, hp]

theorem accepted_iff {items : List Item} :
    Accepted items ↔ ∀ item ∈ items, check item = .ok () := by
  constructor
  · rintro ⟨hhold, hpsk⟩ item hm
    cases hc : check item with
    | ok u => rfl
    | error e =>
      cases item with
      | switch | word => cases hc
      | flag name v =>
        rcases check_flag_eq_error_iff.mp hc with ⟨rfl, hn, -⟩ | ⟨rfl, he⟩
        · obtain ⟨n, hs⟩ := hhold v (mem_operands.mpr hm)
          cases hn.symm.trans hs
        · obtain ⟨key, hk⟩ := hpsk v (mem_operands.mpr hm)
          cases he.symm.trans hk
  · intro h
    constructor
    · intro v hv
      refine Option.ne_none_iff_exists'.mp fun hn => ?_
      have he := check_flag_eq_error_iff.mpr (.inl ⟨rfl, hn, rfl⟩)
      cases he.symm.trans (h _ (mem_operands.mp hv))
    · intro v hv
      cases hk : readPsk v with
      | ok key => exact ⟨key, rfl⟩
      | error e =>
        have he := check_flag_eq_error_iff.mpr (.inr ⟨rfl, hk⟩)
        cases he.symm.trans (h _ (mem_operands.mp hv))

section Outcome

variable {args : List String} {e : Stop}

theorem parse_eq_ok_iff {s : Args} :
    parse args .start = .ok s ↔
      Accepted (scan grammar args).1 ∧ (scan grammar args).2 = none ∧
        s = .ofItems (scan grammar args).1 := by
  have hput := foldl_put (scan_fits (g := grammar) args)
  rw [parse_eq, accepted_iff]
  cases hf : (scan grammar args).1.foldlM (read check put) Args.start with
  | error e =>
    have bad : ¬∀ item ∈ (scan grammar args).1, check item = .ok () := fun h => by
      cases hf.symm.trans (foldlM_read_eq_ok_iff.mpr ⟨h, rfl⟩)
    simp [bad]
  | ok s' =>
    obtain ⟨hall, rfl⟩ := foldlM_read_eq_ok_iff.mp hf
    rw [hput]
    cases (scan grammar args).2 with
    | none => exact ⟨fun h => ⟨hall, rfl, (Except.ok.inj h).symm⟩, fun h => h.2.2 ▸ rfl⟩
    | some name => simp

/-- A command line that is written down item by item is read as those items. -/
theorem configure_render {items : List Item} (hfits : ∀ item ∈ items, item.Fits grammar)
    (ha : Accepted items) :
    configure (render items) = (ours (words items)).map fun target => (.ofItems items, target) := by
  have hp : parse (render items) .start = .ok (.ofItems items) := by
    rw [parse_eq_ok_iff, scan_render hfits]
    exact ⟨ha, rfl, rfl⟩
  rw [configure, hp]
  rfl

theorem parse_eq_error_iff :
    parse args .start = .error e ↔
      (∃ pre name v post, (scan grammar args).1 = pre ++ .flag name v :: post ∧ Accepted pre ∧
        (name = "--hold" ∧ parseUnsigned (2 ^ 64) v = none ∧ e = .usage .holdInvalid ∨
          name = "--psk" ∧ readPsk v = .error e)) ∨
      Accepted (scan grammar args).1 ∧
        ∃ name, (scan grammar args).2 = some name ∧ e = .usage (missing name) := by
  rw [parse_eq]
  cases hf : (scan grammar args).1.foldlM (read check put) Args.start with
  | error e' =>
    have bad : ¬Accepted (scan grammar args).1 := fun h => by
      cases hf.symm.trans (foldlM_read_eq_ok_iff.mpr ⟨accepted_iff.mp h, rfl⟩)
    simp only [bad, false_and, or_false]
    constructor
    · intro h
      cases h
      obtain ⟨pre, item, post, hs, hpre, hi⟩ := foldlM_read_eq_error_iff.mp hf
      cases item with
      | switch | word => cases hi
      | flag name v =>
        exact ⟨pre, name, v, post, hs, accepted_iff.mpr hpre, check_flag_eq_error_iff.mp hi⟩
    · rintro ⟨pre, name, v, post, hs, hpre, hv⟩
      exact hf.symm.trans (foldlM_read_eq_error_iff.mpr
        ⟨pre, _, post, hs, accepted_iff.mp hpre, check_flag_eq_error_iff.mpr hv⟩)
  | ok s' =>
    obtain ⟨hall, -⟩ := foldlM_read_eq_ok_iff.mp hf
    have none_bad : ¬∃ pre name v post,
        (scan grammar args).1 = pre ++ .flag name v :: post ∧ Accepted pre ∧
          (name = "--hold" ∧ parseUnsigned (2 ^ 64) v = none ∧ e = .usage .holdInvalid ∨
            name = "--psk" ∧ readPsk v = .error e) := by
      rintro ⟨pre, name, v, post, hs, -, hv⟩
      cases (hall (.flag name v) (by simp [hs])).symm.trans (check_flag_eq_error_iff.mpr hv)
    simp only [none_bad, false_or, accepted_iff.mpr hall, true_and]
    cases (scan grammar args).2 <;> simp [eq_comm]

end Outcome

/-- The command line is cut into items with nothing lost. It is taken exactly if every
operand can be read, no flag lacks its own and the second word, if there is one, is a
port; what is dialed then depends on the items alone. Otherwise the report is of the
first operand that cannot be read, or of the flag at the end, or of the port. -/
theorem udpcheck_reads_args (args : List String) :
    render (scan grammar args).1 ++ (scan grammar args).2.toList = args ∧
      (∀ s host port, configure args = .ok (s, host, port) ↔
        Accepted (scan grammar args).1 ∧ (scan grammar args).2 = none ∧
          s = .ofItems (scan grammar args).1 ∧
          ours (words (scan grammar args).1) = .ok (host, port)) ∧
      ∀ e, configure args = .error e ↔
        (∃ pre name v post, (scan grammar args).1 = pre ++ .flag name v :: post ∧ Accepted pre ∧
          (name = "--hold" ∧ parseUnsigned (2 ^ 64) v = none ∧ e = .usage .holdInvalid ∨
            name = "--psk" ∧ readPsk v = .error e)) ∨
        Accepted (scan grammar args).1 ∧
          ((∃ name, (scan grammar args).2 = some name ∧ e = .usage (missing name)) ∨
            (scan grammar args).2 = none ∧ ours (words (scan grammar args).1) = .error e) := by
  have hok := @parse_eq_ok_iff args
  have herr := @parse_eq_error_iff args
  refine ⟨render_scan args, fun s host port => ?_, fun e => ?_⟩
  · rw [configure]
    cases hp : parse args .start with
    | error e' =>
      have bad : ∀ s', ¬(Accepted (scan grammar args).1 ∧ (scan grammar args).2 = none ∧
          s' = Args.ofItems (scan grammar args).1) := fun s' h => by
        cases hp.symm.trans (hok.mpr h)
      simp only [reduceCtorEq, false_iff]
      rintro ⟨ha, hd, hs, -⟩
      exact bad s ⟨ha, hd, hs⟩
    | ok s' =>
      obtain ⟨ha, hd, rfl⟩ := hok.mp hp
      change (ours (words (scan grammar args).1)).map _ = _ ↔ _
      cases ours (words (scan grammar args).1) <;> simp [ha, hd, Except.map, eq_comm]
  · rw [and_or_left, ← or_assoc, ← herr, configure]
    cases hp : parse args .start with
    | error e' =>
      have bad : ¬(Accepted (scan grammar args).1 ∧ (scan grammar args).2 = none ∧
          ours (words (scan grammar args).1) = .error e) := fun h => by
        cases hp.symm.trans (hok.mpr ⟨h.1, h.2.1, rfl⟩)
      simp [bad]
    | ok s' =>
      obtain ⟨ha, hd, rfl⟩ := hok.mp hp
      change (ours (words (scan grammar args).1)).map _ = _ ↔ _
      cases ours (words (scan grammar args).1) <;> simp [ha, hd, Except.map]

end Udpcheck

/-! ### ffiprobe -/

namespace Ffiprobe

structure Args where
  host : String
  port : ℕ
  certPath : String
  holdSecs : ℕ
  direct : Bool
  positional : ℕ
  deriving DecidableEq, Repr

/-- The defaults, by `HOME`. -/
def Args.start (home : String) : Args where
  host := "quic.konstruct.cc"
  port := 443
  certPath := home ++ "/Code/construct-messenger/ConstructMessenger/quic_gateway.der"
  holdSecs := 60
  direct := false
  positional := 0

/-- A word, by how many came before it. -/
def word (args : Args) (other : String) : Args :=
  let args := match args.positional with
    | 0 => { args with host := other }
    | 1 => { args with port := (parseUnsigned (2 ^ 16) other).getD args.port }
    | _ => args
  { args with positional := args.positional + 1 }

/-- The `while` loop over the arguments in `main`. -/
def parse : List String → Args → Args
  | [], args => args
  | a :: it, args =>
    if a = "--" then parse it args
    else if a = "--direct" then parse it { args with direct := true }
    else if a = "--cert" then
      match it with
      | [] => args
      | v :: it => parse it { args with certPath := v }
    else if a = "--hold" then
      match it with
      | [] => args
      | v :: it =>
        parse it { args with holdSecs := (parseUnsigned (2 ^ 64) v).getD args.holdSecs }
    else parse it (word args a)

def grammar : Grammar := ⟨["--cert", "--hold"], ["--", "--direct"]⟩

def put (args : Args) : Item → Args
  | .flag name v =>
    if name = "--cert" then { args with certPath := v }
    else { args with holdSecs := (parseUnsigned (2 ^ 64) v).getD args.holdSecs }
  | .switch name => if name = "--direct" then { args with direct := true } else args
  | .word w => word args w

theorem parse_eq (args : List String) (s : Args) :
    parse args s = (scan grammar args).1.foldl put s := by
  induction args using scan_induction (g := grammar) generalizing s with
  | nil => rfl
  | last a h =>
    rw [scan_last h]
    simp only [grammar, List.mem_cons, List.not_mem_nil, or_false] at h
    rcases h with rfl | rfl <;> rfl
  | flag a v it h ih =>
    rw [scan_flag h]
    simp only [grammar, List.mem_cons, List.not_mem_nil, or_false] at h
    rcases h with rfl | rfl <;> exact ih _
  | single a it h ih =>
    rw [scan_single h, List.foldl_cons]
    simp only [grammar, List.mem_cons, List.not_mem_nil, or_false, not_or] at h
    rw [parse.eq_def]
    simp only [if_neg h.1, if_neg h.2]
    by_cases hs : a = "--"
    · subst hs
      exact ih s
    by_cases hd : a = "--direct"
    · subst hd
      exact ih _
    · have hw : grammar.single a = .word a := if_neg (by simp [grammar, hs, hd])
      rw [if_neg hs, if_neg hd, hw]
      exact ih _

def Args.ofItems (home : String) (items : List Item) : Args where
  host := (words items)[0]?.getD (start home).host
  port := ((words items)[1]?.bind (parseUnsigned (2 ^ 16))).getD (start home).port
  certPath := (operands "--cert" items).getLast?.getD (start home).certPath
  holdSecs := ((operands "--hold" items).filterMap (parseUnsigned (2 ^ 64))).getLast?.getD
    (start home).holdSecs
  direct := .switch "--direct" ∈ items
  positional := (words items).length

theorem word_ofItems (home : String) (items : List Item) (w : String) :
    word (Args.ofItems home items) w = Args.ofItems home (items ++ [.word w]) := by
  rcases hw : words items with _ | ⟨w₀, _ | ⟨w₁, ws⟩⟩ <;>
    simp [word, Args.ofItems, operands_append, words_append, hw]

/-- The command line is cut into items with nothing lost, and read item by item. The
first word is the host, and the second the port if it is one. Of each flag the last
operand counts that can be read. Nothing is refused. -/
theorem parse_ofItems (home : String) (args : List String) :
    parse args (.start home) = .ofItems home (scan grammar args).1 := by
  rw [parse_eq]
  have hfits := scan_fits (g := grammar) args
  generalize (scan grammar args).1 = items at hfits ⊢
  induction items using List.reverseRecOn with
  | nil => rfl
  | append_singleton items item ih =>
    have hi := hfits item (by simp)
    rw [List.foldl_concat, ih fun i hm => hfits i (by simp [hm])]
    cases item with
    | flag name v =>
      simp only [Item.Fits, grammar, List.mem_cons, List.not_mem_nil, or_false] at hi
      rcases hi with rfl | rfl
      · simp [put, Args.ofItems, operands_append, words_append]
      · cases parseUnsigned (2 ^ 64) v <;>
          simp [put, Args.ofItems, operands_append, words_append]
    | switch name =>
      by_cases hd : name = "--direct"
      · simp [put, Args.ofItems, operands_append, words_append, hd]
      · simp [put, Args.ofItems, operands_append, words_append, hd, Ne.symm hd]
    | word w => exact word_ofItems home items w

end Ffiprobe

end ConstructTransport.Bin
