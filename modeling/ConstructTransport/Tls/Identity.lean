import ConstructTransport.Tls.LoadOrGenerate

/-! When the pinned identity is torn. The two files are written without a lock and
a pair that is there is taken as it is, so a run that is stopped among its writes
leaves a pair that no generation made, and one that reads or writes among the
writes of another makes one. As long as neither happens, what is loaded is always
what one generation returned. -/

namespace ConstructTransport.Tls

open Files Interleaving Runs

variable {ε : Type}

/-- The pair of files, where both exist, is that of one generation. -/
def Volume.Settled (s : Volume) : Prop :=
  ∀ cert key, s.cert = some cert → s.key = some key → ⟨cert, key⟩ ∈ s.generated

/-- Every run that returned, returned a generated pair; and no run being among its
writes, the files hold one. -/
structure Untorn (c : Config Volume (Run ε)) : Prop where
  loaded : ∀ (i : ℕ) (b : CertBundle), c.procs[i]? = some (.returned b) → b ∈ c.shared.generated
  settled : (∀ (i : ℕ) (p : Run ε), c.procs[i]? = some p → p.writing = false) → c.shared.Settled

/-! ### The conditions -/

/-- Files are deleted only between runs. -/
def BetweenRuns (c : Config Volume (Run ε)) : Label Deleted (Act ε) → Prop
  | .env _ => ∀ p ∈ c.procs, p.ended = true
  | _ => True

instance (c : Config Volume (Run ε)) : ∀ l, Decidable (BetweenRuns c l)
  | .env _ => inferInstanceAs (Decidable (∀ p ∈ c.procs, p.ended = true))
  | .spawn | .act _ _ => .isTrue trivial

/-- A run that is stopped among its writes leaves no pair. -/
def Unbroken (s : Volume) (p : Run ε) : Act ε → Prop
  | .fails _ | .dies => p.writing = true → s.cert = none ∨ s.key = none
  | _ => True

instance (s : Volume) (p : Run ε) : ∀ a, Decidable (Unbroken s p a)
  | .fails _ | .dies => inferInstanceAs (Decidable (_ → _))
  | .go | .moves _ | .generates _ => .isTrue trivial

/-- A run that starts to write does so while the other neither reads nor writes,
one that starts to read while the other does not write. -/
def Uncontended (s : Volume) (q p : Run ε) : Act ε → Prop
  | .go =>
    match p with
    | .openCert _ => q.reading = false ∧ q.writing = false
    | .checkKey => s.key.isSome = true → q.writing = false
    | _ => True
  | _ => True

instance (s : Volume) (q : Run ε) : ∀ p a, Decidable (Uncontended s q p a)
  | .openCert _, .go => inferInstanceAs (Decidable (_ ∧ _))
  | .checkKey, .go => inferInstanceAs (Decidable (_ → _))
  | .checkCert, .go | .readCert _, .go | .readKey _ _, .go | .selfSigned, .go
  | .writeCert _ _, .go | .openKey _, .go | .writeKey _ _, .go | .returned _, .go
  | .failed _ _, .go | .killed, .go => .isTrue trivial
  | _, .moves _ | _, .generates _ | _, .fails _ | _, .dies => .isTrue trivial

def Orderly (c : Config Volume (Run ε)) : Label Deleted (Act ε) → Prop
  | .act i a => ∀ p, c.procs[i]? = some p → Unbroken c.shared p a ∧
    ∀ (j : ℕ) (q : Run ε), j ≠ i → c.procs[j]? = some q → Uncontended c.shared q p a
  | _ => True

instance (c : Config Volume (Run ε)) : ∀ l, Decidable (Orderly c l)
  | .env _ | .spawn => .isTrue trivial
  | .act i a =>
    match h : c.procs[i]? with
    | none => .isTrue fun p hp => absurd (h.symm.trans hp) nofun
    | some p =>
      decidable_of_iff (Unbroken c.shared p a ∧
        ∀ e ∈ c.procs.zipIdx, e.2 ≠ i → Uncontended c.shared e.1 p a) (by
          refine ⟨fun ⟨hu, ho⟩ q hq => ?_, fun ho => ?_⟩
          · cases h.symm.trans hq
            exact ⟨hu, fun j r hj hr => ho (r, j) (List.mk_mem_zipIdx_iff_getElem?.mpr hr) hj⟩
          · obtain ⟨hu, ho⟩ := ho p h
            exact ⟨hu, fun e he hj => ho e.2 e.1 hj (List.mk_mem_zipIdx_iff_getElem?.mp he)⟩)

/-! ### One run -/

/-- What holds of a run beside the files. -/
def Run.Placed (s : Volume) : Run ε → Prop
  | checkKey => s.cert.isSome = true
  | readCert got => ∃ b ∈ s.generated, s.cert = some b.cert ∧ s.key = some b.keyDer ∧ got <+: b.cert
  | readKey cert got =>
    ∃ b ∈ s.generated, s.cert = some b.cert ∧ s.key = some b.keyDer ∧ cert = b.cert ∧
      got <+: b.keyDer
  | openCert b | returned b => b ∈ s.generated
  | writeCert b off => b ∈ s.generated ∧ off ≤ b.cert.length ∧ s.cert = some (b.cert.take off)
  | openKey b => b ∈ s.generated ∧ s.cert = some b.cert
  | writeKey b off => b ∈ s.generated ∧ off ≤ b.keyDer.length ∧
    (off < b.keyDer.length → s.cert = some b.cert ∧ s.key = some (b.keyDer.take off))
  | _ => True

theorem takes_generated {s s' : Volume} {p p' : Run ε} {a : Act ε} (h : Takes s p a s' p') :
    s.generated ⊆ s'.generated := by
  cases h with
  | generates b => exact List.subset_append_left _ _
  | _ => exact List.Subset.refl _

/-- A step of `p` leaves the files alone, or it is one of those that `p` takes
among its writes or to get there. -/
theorem takes_files {s s' : Volume} {p p' : Run ε} {a : Act ε} (hp : p.Placed s)
    (h : Takes s p a s' p') : s'.cert = s.cert ∧ s'.key = s.key ∨
      (p.writing = true ∨ (∃ b, p = .openCert b) ∧ a = .go) ∧ s'.cert.isSome = true := by
  cases h with
  | openCert b => exact .inr ⟨.inr ⟨⟨b, rfl⟩, rfl⟩, rfl⟩
  | writeCert piece => exact .inr ⟨.inl rfl, rfl⟩
  | openKey b => exact .inr ⟨.inl rfl, by rw [hp.2]; rfl⟩
  | writeKey piece =>
    have hlt := writePiece_lt piece
    exact .inr ⟨.inl (decide_eq_true hlt), by rw [(hp.2.2 hlt).1]; rfl⟩
  | _ => exact .inl ⟨rfl, rfl⟩

theorem Run.Placed.mono {s s' : Volume} {q : Run ε} (hq : q.Placed s) (hc : s'.cert = s.cert)
    (hk : s'.key = s.key) (hg : s.generated ⊆ s'.generated) : q.Placed s' := by
  cases q with
  | checkKey => simpa only [Placed, hc] using hq
  | readCert got =>
    obtain ⟨b, hb, h⟩ := hq
    exact ⟨b, hg hb, by rw [hc, hk]; exact h⟩
  | readKey cert got =>
    obtain ⟨b, hb, h⟩ := hq
    exact ⟨b, hg hb, by rw [hc, hk]; exact h⟩
  | openCert b => exact hg hq
  | writeCert b off => exact ⟨hg hq.1, by rw [hc]; exact hq.2⟩
  | openKey b => exact ⟨hg hq.1, by rw [hc]; exact hq.2⟩
  | writeKey b off => exact ⟨hg hq.1, by rw [hc, hk]; exact hq.2⟩
  | returned b => exact hg hq
  | _ => trivial

theorem Run.Placed.idle {s s' : Volume} {q : Run ε} (hq : q.Placed s) (hr : q.reading = false)
    (hw : q.writing = false) (hc : s'.cert.isSome = true) (hg : s.generated ⊆ s'.generated) :
    q.Placed s' := by
  cases q with
  | checkKey => exact hc
  | readCert got => exact absurd hr.symm Bool.false_ne_true
  | readKey cert got => exact absurd hr.symm Bool.false_ne_true
  | openCert b => exact hg hq
  | writeCert b off => exact absurd hw.symm Bool.false_ne_true
  | openKey b => exact absurd hw.symm Bool.false_ne_true
  | writeKey b off => exact ⟨hg hq.1, hq.2.1, fun hlt => absurd hlt (of_decide_eq_false hw)⟩
  | returned b => exact hg hq
  | _ => trivial

/-- A run finds a key only where the files are settled. -/
theorem takes_placed {s s' : Volume} {p p' : Run ε} {a : Act ε} (hp : p.Placed s)
    (hs : p = .checkKey → a = .go → s.key.isSome = true → s.Settled) (h : Takes s p a s' p') :
    p'.Placed s' := by
  cases h with
  | certFound found => exact found
  | keyFound found =>
    obtain ⟨key, hkey⟩ := Option.isSome_iff_exists.mp found
    obtain ⟨cert, hcert⟩ := Option.isSome_iff_exists.mp (show s.cert.isSome = true from hp)
    exact ⟨⟨cert, key⟩, hs rfl rfl found cert key hcert hkey, hcert, hkey, List.nil_prefix⟩
  | readCert piece =>
    obtain ⟨b, hb, hc, hk, hg⟩ := hp
    rw [hc] at piece
    exact ⟨b, hb, hc, hk, readPiece_more piece hg⟩
  | certRead piece =>
    obtain ⟨b, hb, hc, hk, hg⟩ := hp
    rw [hc] at piece
    exact ⟨b, hb, hc, hk, readPiece_end piece hg, List.nil_prefix⟩
  | readKey piece =>
    obtain ⟨b, hb, hc, hk, he, hg⟩ := hp
    rw [hk] at piece
    exact ⟨b, hb, hc, hk, he, readPiece_more piece hg⟩
  | keyRead piece =>
    obtain ⟨b, hb, hc, hk, rfl, hg⟩ := hp
    rw [hk] at piece
    rw [readPiece_end piece hg]
    exact hb
  | generates b => exact List.mem_append_right _ (List.mem_singleton_self b)
  | openCert b => exact ⟨hp, Nat.zero_le _, rfl⟩
  | writeCert piece =>
    obtain ⟨hb, ho, hc⟩ := hp
    rw [hc] at piece
    obtain ⟨rfl, ho'⟩ := writePiece_next piece ho
    exact ⟨hb, ho', rfl⟩
  | certWritten all =>
    obtain ⟨hb, ho, hc⟩ := hp
    exact ⟨hb, by rw [hc, List.take_of_length_le all]⟩
  | openKey b => exact ⟨hp.1, Nat.zero_le _, fun _ => ⟨hp.2, rfl⟩⟩
  | writeKey piece =>
    obtain ⟨hb, ho, h⟩ := hp
    obtain ⟨hc, hk⟩ := h (writePiece_lt piece)
    rw [hk] at piece
    obtain ⟨rfl, ho'⟩ := writePiece_next piece ho
    exact ⟨hb, ho', fun _ => ⟨hc, rfl⟩⟩
  | keyWritten all => exact hp.1
  | _ => trivial

theorem Volume.Settled.mono {s s' : Volume} (h : s.Settled) (hc : s'.cert = s.cert)
    (hk : s'.key = s.key) (hg : s.generated ⊆ s'.generated) : s'.Settled := by
  intro cert key hcert hkey
  rw [hc] at hcert
  rw [hk] at hkey
  exact hg (h cert key hcert hkey)

theorem takes_settled {s s' : Volume} {p p' : Run ε} {a : Act ε} (hp : p.Placed s)
    (hs : p.writing = false → s.Settled) (hu : Unbroken s p a) (h : Takes s p a s' p')
    (hw : p'.writing = false) : s'.Settled := by
  -- stopped among its writes, the run leaves no pair
  have stopped : (p.writing = true → s.cert = none ∨ s.key = none) → s.Settled := by
    intro hstop cert key hcert hkey
    cases hwp : p.writing with
    | false => exact hs hwp cert key hcert hkey
    | true =>
      rcases hstop hwp with hn | hn
      · exact absurd (hn.symm.trans hcert) nofun
      · exact absurd (hn.symm.trans hkey) nofun
  cases h with
  | generates b => exact (hs rfl).mono rfl rfl (List.subset_append_left _ _)
  | openCert b => exact absurd hw.symm Bool.false_ne_true
  | writeCert piece => exact absurd hw.symm Bool.false_ne_true
  | certWritten all => exact absurd hw.symm Bool.false_ne_true
  | openKey b =>
    obtain ⟨hb, hc⟩ := hp
    have hnil : b.keyDer = [] :=
      List.eq_nil_of_length_eq_zero (Nat.eq_zero_of_not_pos (of_decide_eq_false hw))
    intro cert key hcert hkey
    cases hc.symm.trans hcert
    cases hkey
    rw [← hnil]
    exact hb
  | writeKey piece =>
    obtain ⟨hb, ho, h⟩ := hp
    obtain ⟨hc, hk⟩ := h (writePiece_lt piece)
    rw [hk] at piece
    obtain ⟨rfl, ho'⟩ := writePiece_next piece ho
    intro cert key hcert hkey
    cases hc.symm.trans hcert
    cases hkey
    rw [List.take_of_length_le (Nat.le_of_not_lt (of_decide_eq_false hw))]
    exact hb
  | keyWritten all => exact hs (decide_eq_false (Nat.not_lt.mpr all))
  | fails => exact stopped hu
  | dies => exact stopped hu
  | _ => exact hs rfl

/-! ### All runs -/

/-- A run is alone among its writes. -/
def Run.Alone (p q : Run ε) : Prop := p.writing = true → q.reading = false ∧ q.writing = false

structure Sound (c : Config Volume (Run ε)) : Prop where
  placed : ∀ (i : ℕ) (p : Run ε), c.procs[i]? = some p → p.Placed c.shared
  alone : ∀ (i j : ℕ) (p q : Run ε), i ≠ j → c.procs[i]? = some p → c.procs[j]? = some q →
    p.Alone q
  settled : (∀ (i : ℕ) (p : Run ε), c.procs[i]? = some p → p.writing = false) → c.shared.Settled

theorem untorn_of_sound {c : Config Volume (Run ε)} (h : Sound c) : Untorn c :=
  ⟨fun i _ hb => h.placed i _ hb, h.settled⟩

theorem sound_empty : Sound (emptyVolume : Config Volume (Run ε)) := by
  refine ⟨fun i p hp => ?_, fun i j p q _ hp => ?_, fun _ cert key hcert => ?_⟩
  · simp [emptyVolume] at hp
  · simp [emptyVolume] at hp
  · cases hcert

theorem sound_delete {c : Config Volume (Run ε)} {f : Deleted} {s : Volume} (h : Sound c)
    (hb : ∀ p ∈ c.procs, p.ended = true) (hd : delete c.shared f = some s) :
    Sound ⟨s, c.procs⟩ := by
  have hg : s.generated = c.shared.generated := by
    cases f with
    | cert => cases hd; rfl
    | key => cases hd; rfl
  refine ⟨fun i p hp => ?_, h.alone, fun hw cert key hcert hkey => ?_⟩
  · have hplaced := h.placed i p hp
    have hended := hb p (List.mem_of_getElem? hp)
    cases p with
    | returned b =>
      simp only [Run.Placed, hg] at hplaced ⊢
      exact hplaced
    | failed context e => trivial
    | killed => trivial
    | _ => exact absurd hended Bool.false_ne_true
  · cases f with
    | cert => cases hd; cases hcert
    | key => cases hd; cases hkey

/-- What `p` does where the others allow it keeps the writes apart. -/
theorem takes_alone {s s' : Volume} {p p' q : Run ε} {a : Act ε} (h : Takes s p a s' p')
    (hu : Uncontended s q p a) (hpq : p.Alone q) (hqp : q.Alone p) : p'.Alone q ∧ q.Alone p' := by
  have idle : p'.reading = false → p'.writing = false → p'.Alone q ∧ q.Alone p' :=
    fun hr hw => ⟨fun h => absurd (hw.symm.trans h) Bool.false_ne_true, fun _ => ⟨hr, hw⟩⟩
  have reads : p'.writing = false → (q.writing = true → False) → p'.Alone q ∧ q.Alone p' :=
    fun hw hn => ⟨fun h => absurd (hw.symm.trans h) Bool.false_ne_true, fun h => (hn h).elim⟩
  have writes : q.reading = false → q.writing = false → p'.Alone q ∧ q.Alone p' :=
    fun hr hw => ⟨fun _ => ⟨hr, hw⟩, fun h => absurd (hw.symm.trans h) Bool.false_ne_true⟩
  cases h with
  | certFound => exact idle rfl rfl
  | certMissing => exact idle rfl rfl
  | keyMissing => exact idle rfl rfl
  | keyRead => exact idle rfl rfl
  | generates => exact idle rfl rfl
  | keyWritten => exact idle rfl rfl
  | fails => exact idle rfl rfl
  | dies => exact idle rfl rfl
  | keyFound found => exact reads rfl fun hw => absurd ((hu found).symm.trans hw) Bool.false_ne_true
  | readCert => exact reads rfl fun hw => absurd (hqp hw).1.symm Bool.false_ne_true
  | certRead => exact reads rfl fun hw => absurd (hqp hw).1.symm Bool.false_ne_true
  | readKey => exact reads rfl fun hw => absurd (hqp hw).1.symm Bool.false_ne_true
  | openCert => exact writes hu.1 hu.2
  | writeCert => exact writes (hpq rfl).1 (hpq rfl).2
  | certWritten => exact writes (hpq rfl).1 (hpq rfl).2
  | openKey => exact writes (hpq rfl).1 (hpq rfl).2
  | writeKey piece =>
    obtain ⟨hr, hw⟩ := hpq (decide_eq_true (writePiece_lt piece))
    exact writes hr hw

theorem sound_spawn {c : Config Volume (Run ε)} (h : Sound c) :
    Sound ⟨c.shared, c.procs ++ [.checkCert]⟩ := by
  refine ⟨fun i p hp => ?_, fun i j p q hij hp hq => ?_, fun hw => ?_⟩
  · rcases getElem?_concat_cases hp with hp | ⟨-, rfl⟩
    · exact h.placed i p hp
    · trivial
  · rcases getElem?_concat_cases hp with hp | ⟨-, rfl⟩
    · rcases getElem?_concat_cases hq with hq | ⟨-, rfl⟩
      · exact h.alone i j p q hij hp hq
      · exact fun _ => ⟨rfl, rfl⟩
    · exact fun hw => absurd hw Bool.false_ne_true
  · exact h.settled fun i p hp => hw i p (getElem?_append_of_some hp _)

theorem step_placed {c : Config Volume (Run ε)} {k : ℕ} {p p' : Run ε} {a : Act ε} {s : Volume}
    (hc : Sound c) (hp : c.procs[k]? = some p) (h : Takes c.shared p a s p')
    (hothers : ∀ (j : ℕ) (q : Run ε), j ≠ k → c.procs[j]? = some q → Uncontended c.shared q p a)
    {i : ℕ} {q : Run ε} (hq : (c.procs.set k p')[i]? = some q) : q.Placed s := by
  have hplaced := hc.placed k p hp
  rcases getElem?_set_cases hq with ⟨rfl, rfl⟩ | ⟨hik, hq⟩
  · refine takes_placed hplaced (fun hcheck hgo hkey => hc.settled fun j r hr => ?_) h
    subst hcheck
    subst hgo
    by_cases hji : j = i
    · subst hji
      cases hr.symm.trans hp
      rfl
    · exact hothers j r hji hr hkey
  · have hold := hc.placed i q hq
    have hg := takes_generated h
    rcases takes_files hplaced h with ⟨hcert, hkey⟩ | ⟨hwrites, hcert⟩
    · exact hold.mono hcert hkey hg
    · have hidle : q.reading = false ∧ q.writing = false := by
        rcases hwrites with hw | ⟨⟨b, rfl⟩, rfl⟩
        · exact hc.alone k i p q (Ne.symm hik) hp hq hw
        · exact hothers i q hik hq
      exact hold.idle hidle.1 hidle.2 hcert hg

theorem step_sound {paths : Paths} {c c' : Config Volume (Run ε)} {l : Label Deleted (Act ε)}
    (hc : Sound c) (hb : BetweenRuns c l) (ho : Orderly c l)
    (h : (gateways paths).step c l = some c') : Sound c' := by
  rcases (gateways paths).step_cases h with ⟨f, s, rfl, hd, rfl⟩ | ⟨rfl, rfl⟩ |
    ⟨k, a, p, s, p', rfl, hp, ha, rfl⟩
  · exact sound_delete hc hb hd
  · exact sound_spawn hc
  obtain ⟨hunbroken, hothers⟩ := ho p hp
  have htakes := takes_of_step ha
  refine ⟨fun i q hq => step_placed hc hp htakes hothers hq, fun i j q r hij hq hr => ?_,
    fun hw => ?_⟩
  · rcases getElem?_set_cases hq with ⟨rfl, rfl⟩ | ⟨hik, hq'⟩
    · rcases getElem?_set_cases hr with ⟨rfl, -⟩ | ⟨hjk, hr'⟩
      · exact absurd rfl hij
      · exact (takes_alone htakes (hothers j r hjk hr') (hc.alone i j p r hij hp hr')
          (hc.alone j i r p (Ne.symm hij) hr' hp)).1
    · rcases getElem?_set_cases hr with ⟨rfl, rfl⟩ | ⟨-, hr'⟩
      · exact (takes_alone htakes (hothers i q hik hq') (hc.alone j i p q (Ne.symm hij) hp hq')
          (hc.alone i j q p hij hq' hp)).2
      · exact hc.alone i j q r hij hq' hr'
  · refine takes_settled (hc.placed k p hp) (fun hwp => hc.settled fun i q hq => ?_) hunbroken
      htakes (hw k p' (getElem?_set_of_some hp p'))
    by_cases hik : i = k
    · subst hik
      cases hq.symm.trans hp
      exact hwp
    · exact hw i q ((List.getElem?_set_ne (Ne.symm hik)).trans hq)

/-- In every run in which no gateway is stopped among its writes with both files
there, and none reads or writes among the writes of another, the identity is
never torn. -/
theorem identity_untorn {paths : Paths} {labels : List (Label Deleted (Act ε))}
    {c : Config Volume (Run ε)} (hb : Along (gateways paths).step BetweenRuns emptyVolume labels)
    (ho : Along (gateways paths).step Orderly emptyVolume labels)
    (h : run (gateways paths).step emptyVolume labels = some c) : Untorn c := by
  refine untorn_of_sound (run_invariant_along Sound ?_ sound_empty (hb.and ho) h)
  exact fun c l c' hc hl hs => step_sound hc hl.1 hl.2 hs

/-- One run generates a pair, its key is deleted, a second run generates another
and a third one loads it. -/
def restarts : List (Label Deleted (Act Unit)) :=
  [.spawn, .act 0 .go, .act 0 (.generates ⟨[1], [2]⟩), .act 0 .go, .act 0 (.moves 8), .act 0 .go,
    .act 0 .go, .act 0 (.moves 8), .act 0 .go, .env .key,
    .spawn, .act 1 .go, .act 1 .go, .act 1 (.generates ⟨[3], [4, 5]⟩), .act 1 .go,
    .act 1 (.moves 8), .act 1 .go, .act 1 .go, .act 1 (.moves 1), .act 1 (.moves 1), .act 1 .go,
    .spawn, .act 2 .go, .act 2 .go, .act 2 (.moves 8), .act 2 (.moves 8), .act 2 (.moves 8),
    .act 2 (.moves 8)]

theorem identity_untorn_restarts : ∃ c, run (gateways ⟨"cert.der", "key.der"⟩).step emptyVolume
      restarts = some c ∧ c.procs[2]? = some (.returned ⟨[3], [4, 5]⟩) ∧ Untorn c := by
  have hrun : (run (gateways ⟨"cert.der", "key.der"⟩).step emptyVolume restarts).map
      (fun c => c.procs[2]?) = some (some (.returned ⟨[3], [4, 5]⟩)) := by decide
  obtain ⟨c, hc, hloaded⟩ := Option.map_eq_some_iff.mp hrun
  exact ⟨c, hc, hloaded, identity_untorn (by decide) (by decide) hc⟩

/-- A run is killed after the first byte of its key, and the next one loads what is there. -/
def killedInKey : List (Label Deleted (Act Unit)) :=
  [.spawn, .act 0 .go, .act 0 (.generates ⟨[1], [2, 3]⟩), .act 0 .go, .act 0 (.moves 8),
    .act 0 .go, .act 0 .go, .act 0 (.moves 1), .act 0 .dies,
    .spawn, .act 1 .go, .act 1 .go, .act 1 (.moves 8), .act 1 (.moves 8), .act 1 (.moves 8),
    .act 1 (.moves 8)]

theorem killed_run_tears_identity : ¬∀ (labels : List (Label Deleted (Act Unit))) c,
    Along (gateways ⟨"cert.der", "key.der"⟩).step BetweenRuns emptyVolume labels →
    run (gateways ⟨"cert.der", "key.der"⟩).step emptyVolume labels = some c → Untorn c := by
  intro h
  have hrun : (run (gateways ⟨"cert.der", "key.der"⟩).step emptyVolume killedInKey).map
      (fun c => (c.procs[1]?, c.shared.generated)) =
      some (some (.returned ⟨[1], [2]⟩), [⟨[1], [2, 3]⟩]) := by decide
  obtain ⟨c, hc, hloaded⟩ := Option.map_eq_some_iff.mp hrun
  obtain ⟨hreturned, hgenerated⟩ := Prod.mk.inj hloaded
  have hmem := (h killedInKey c (by decide) hc).loaded 1 ⟨[1], [2]⟩ hreturned
  rw [hgenerated] at hmem
  exact absurd hmem (by decide)

end ConstructTransport.Tls
