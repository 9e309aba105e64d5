import ConstructTransport.Basic.Files
import ConstructTransport.Basic.Interleaving

/-! The pinned identity of the gateway (`tls.rs`). `load_or_generate` reads the
certificate and its key from two files, or generates both and writes them, one
file after the other and each in pieces. Runs of it share the two files, may
overlap, and may fail or be killed at any step. -/

namespace ConstructTransport.Tls

open Files Interleaving

variable {ε : Type}

/-- A self-signed certificate and its key, both DER. -/
structure CertBundle where
  cert : List UInt8
  keyDer : List UInt8
  deriving DecidableEq, Repr

/-- The two files, and what `self_signed` has returned to any run so far. -/
structure Volume where
  cert : Option (List UInt8)
  key : Option (List UInt8)
  generated : List CertBundle
  deriving DecidableEq, Repr

structure Paths where
  cert : String
  key : String

/-- Where a run of `load_or_generate` stands: `got` has been read of a file, `off`
bytes of one have been written. -/
inductive Run (ε : Type)
  | checkCert
  | checkKey
  | readCert (got : List UInt8)
  | readKey (cert got : List UInt8)
  | selfSigned
  | openCert (b : CertBundle)
  | writeCert (b : CertBundle) (off : ℕ)
  | openKey (b : CertBundle)
  | writeKey (b : CertBundle) (off : ℕ)
  | returned (b : CertBundle)
  | failed (context : Option String) (source : ε)
  | killed
  deriving DecidableEq, Repr

namespace Run

def ended : Run ε → Bool
  | returned _ | failed _ _ | killed => true
  | _ => false

def reading : Run ε → Bool
  | readCert _ | readKey _ _ => true
  | _ => false

/-- Between truncating the certificate and the last byte of the key. -/
def writing : Run ε → Bool
  | writeCert _ _ | openKey _ => true
  | writeKey b off => decide (off < b.keyDer.length)
  | _ => false

/-- The context of an error, where an error can occur: the existence checks turn
theirs into `false`. -/
def context? (paths : Paths) : Run ε → Option (Option String)
  | readCert _ => some (some ("read cert " ++ paths.cert))
  | readKey _ _ => some (some ("read key " ++ paths.key))
  | selfSigned => some none
  | openCert _ | writeCert _ _ => some (some ("write cert " ++ paths.cert))
  | openKey _ | writeKey _ _ => some (some ("write key " ++ paths.key))
  | _ => none

end Run

/-- `go` goes on by what the run and the files are, `moves` reads or writes a
piece of at most so many bytes. -/
inductive Act (ε : Type)
  | go
  | moves (n : ℕ)
  | generates (b : CertBundle)
  | fails (source : ε)
  | dies

/-- A step of `load_or_generate`. -/
def loadOrGenerate (paths : Paths) (s : Volume) (p : Run ε) : Act ε → Option (Volume × Run ε)
  | .go =>
    match p with
    | .checkCert => some (s, if s.cert.isSome then .checkKey else .selfSigned)
    | .checkKey => some (s, if s.key.isSome then .readCert [] else .selfSigned)
    -- `fs::write` creates or truncates the file before it writes
    | .openCert b => some ({ s with cert := some [] }, .writeCert b 0)
    | .writeCert b off => if off < b.cert.length then none else some (s, .openKey b)
    | .openKey b => some ({ s with key := some [] }, .writeKey b 0)
    | .writeKey b off => if off < b.keyDer.length then none else some (s, .returned b)
    | _ => none
  | .moves n =>
    match p with
    | .readCert got =>
      (readPiece s.cert got n).map fun r => (s, r.elim (.readKey got []) .readCert)
    | .readKey cert got =>
      (readPiece s.key got n).map fun r => (s, r.elim (.returned ⟨cert, got⟩) (.readKey cert))
    | .writeCert b off =>
      (writePiece s.cert b.cert off n).map fun r =>
        ({ s with cert := some r.1 }, .writeCert b r.2)
    | .writeKey b off =>
      (writePiece s.key b.keyDer off n).map fun r =>
        ({ s with key := some r.1 }, .writeKey b r.2)
    | _ => none
  | .generates b =>
    match p with
    | .selfSigned => some ({ s with generated := s.generated ++ [b] }, .openCert b)
    | _ => none
  | .fails e => (p.context? paths).map fun context => (s, .failed context e)
  | .dies => if p.ended then none else some (s, .killed)

/-- Files that somebody deletes. -/
inductive Deleted
  | cert
  | key
  deriving DecidableEq, Repr

def delete (s : Volume) : Deleted → Option Volume
  | .cert => some { s with cert := none }
  | .key => some { s with key := none }

/-- Gateways that start on one volume. -/
def gateways (paths : Paths) : System Volume (Run ε) Deleted (Act ε) where
  env := delete
  act := loadOrGenerate paths
  fresh := .checkCert

def emptyVolume : Config Volume (Run ε) := ⟨⟨none, none, []⟩, []⟩

inductive Takes (s : Volume) : Run ε → Act ε → Volume → Run ε → Prop
  | certFound (found : s.cert.isSome = true) : Takes s .checkCert .go s .checkKey
  | certMissing : Takes s .checkCert .go s .selfSigned
  | keyFound (found : s.key.isSome = true) : Takes s .checkKey .go s (.readCert [])
  | keyMissing : Takes s .checkKey .go s .selfSigned
  | readCert {got got' : List UInt8} {n : ℕ} (piece : readPiece s.cert got n = some (some got')) :
    Takes s (.readCert got) (.moves n) s (.readCert got')
  | certRead {got : List UInt8} {n : ℕ} (piece : readPiece s.cert got n = some none) :
    Takes s (.readCert got) (.moves n) s (.readKey got [])
  | readKey {cert got got' : List UInt8} {n : ℕ}
    (piece : readPiece s.key got n = some (some got')) :
    Takes s (.readKey cert got) (.moves n) s (.readKey cert got')
  | keyRead {cert got : List UInt8} {n : ℕ} (piece : readPiece s.key got n = some none) :
    Takes s (.readKey cert got) (.moves n) s (.returned ⟨cert, got⟩)
  | generates (b : CertBundle) :
    Takes s .selfSigned (.generates b) { s with generated := s.generated ++ [b] } (.openCert b)
  | openCert (b : CertBundle) :
    Takes s (.openCert b) .go { s with cert := some [] } (.writeCert b 0)
  | writeCert {b : CertBundle} {off off' n : ℕ} {new : List UInt8}
    (piece : writePiece s.cert b.cert off n = some (new, off')) :
    Takes s (.writeCert b off) (.moves n) { s with cert := some new } (.writeCert b off')
  | certWritten {b : CertBundle} {off : ℕ} (all : b.cert.length ≤ off) :
    Takes s (.writeCert b off) .go s (.openKey b)
  | openKey (b : CertBundle) : Takes s (.openKey b) .go { s with key := some [] } (.writeKey b 0)
  | writeKey {b : CertBundle} {off off' n : ℕ} {new : List UInt8}
    (piece : writePiece s.key b.keyDer off n = some (new, off')) :
    Takes s (.writeKey b off) (.moves n) { s with key := some new } (.writeKey b off')
  | keyWritten {b : CertBundle} {off : ℕ} (all : b.keyDer.length ≤ off) :
    Takes s (.writeKey b off) .go s (.returned b)
  | fails {p : Run ε} (context : Option String) (e : ε) :
    Takes s p (.fails e) s (.failed context e)
  | dies {p : Run ε} : Takes s p .dies s .killed

theorem takes_of_step {paths : Paths} {s s' : Volume} {p p' : Run ε} {a : Act ε}
    (h : loadOrGenerate paths s p a = some (s', p')) : Takes s p a s' p' := by
  cases a with
  | go =>
    cases p with
    | checkCert =>
      cases h
      split
      · next hc => exact .certFound hc
      · exact .certMissing
    | checkKey =>
      cases h
      split
      · next hk => exact .keyFound hk
      · exact .keyMissing
    | openCert b => cases h; exact .openCert b
    | openKey b => cases h; exact .openKey b
    | writeCert b off =>
      simp only [loadOrGenerate] at h
      split at h
      · contradiction
      · next hge => cases h; exact .certWritten (Nat.le_of_not_lt hge)
    | writeKey b off =>
      simp only [loadOrGenerate] at h
      split at h
      · contradiction
      · next hge => cases h; exact .keyWritten (Nat.le_of_not_lt hge)
    | _ => cases h
  | moves n =>
    cases p with
    | readCert got =>
      obtain ⟨r, hr, heq⟩ := Option.map_eq_some_iff.mp h
      cases heq
      cases r with
      | none => exact .certRead hr
      | some got' => exact .readCert hr
    | readKey cert got =>
      obtain ⟨r, hr, heq⟩ := Option.map_eq_some_iff.mp h
      cases heq
      cases r with
      | none => exact .keyRead hr
      | some got' => exact .readKey hr
    | writeCert b off =>
      obtain ⟨⟨new, off'⟩, hr, heq⟩ := Option.map_eq_some_iff.mp h
      cases heq
      exact .writeCert hr
    | writeKey b off =>
      obtain ⟨⟨new, off'⟩, hr, heq⟩ := Option.map_eq_some_iff.mp h
      cases heq
      exact .writeKey hr
    | _ => cases h
  | generates b =>
    cases p with
    | selfSigned => cases h; exact .generates b
    | _ => cases h
  | fails e =>
    obtain ⟨context, -, heq⟩ := Option.map_eq_some_iff.mp h
    cases heq
    exact .fails context e
  | dies =>
    simp only [loadOrGenerate] at h
    split at h
    · contradiction
    · cases h
      exact .dies

end ConstructTransport.Tls
