import ConstructTransport.Datagram.Coalesced
import ConstructTransport.Datagram.SpinFree

/-! What the socket counts. A failed send adds one to the send errors, a receive
the number of buffers it filled to the datagrams received. With segmentation
offload a transmit and a buffer hold several datagrams, so the counters are right
in the runs whose failed transmits and filled buffers hold one each. -/

namespace ConstructTransport.Datagram

/-- The datagrams in `len` bytes cut at `size`. Nothing is one empty datagram. -/
def segments (len size : ℕ) : ℕ := max 1 ((len + size - 1) / size)

def Transmit.datagrams (t : Transmit) : ℕ :=
  match t.segmentSize with
  | none => 1
  | some size => segments t.contents.length size

def RecvMeta.datagrams (m : RecvMeta) : ℕ := segments m.len m.stride

theorem length_cut {size : ℕ} (hs : 0 < size) (data : List UInt8) :
    (Coalesced.cut size data).length = (data.length + size - 1) / size := by
  induction data using Coalesced.cut.induct size with
  | case1 =>
    have hlt : 0 + size - 1 < size := by omega
    rw [Coalesced.cut_nil]
    exact (Nat.div_eq_of_lt hlt).symm
  | case2 b rest ih =>
    rw [Coalesced.cut, List.length_cons, ih, List.length_drop, List.length_cons]
    by_cases hle : rest.length ≤ size - 1
    · have h₀ : (rest.length - (size - 1) + size - 1) / size = 0 := Nat.div_eq_of_lt (by omega)
      have h₁ : (rest.length + 1 + size - 1) / size = 1 :=
        Nat.div_eq_of_lt_le (by omega) (by omega)
      rw [h₀, h₁]
    · rw [← Nat.add_div_right _ hs]
      congr 1
      omega

/-- Terms that are nowhere greater sum up to as much only if none is less. -/
theorem sum_map_eq_iff {α : Type*} {f g : α → ℕ} (h : ∀ a, f a ≤ g a) (l : List α) :
    (l.map f).sum ≤ (l.map g).sum ∧
      ((l.map f).sum = (l.map g).sum ↔ ∀ a ∈ l, f a = g a) := by
  induction l with
  | nil => simp
  | cons a l ih =>
    have ha := h a
    simp only [List.map_cons, List.sum_cons, List.forall_mem_cons, ← ih.2]
    omega

theorem Transmit.datagrams_pos (t : Transmit) : 0 < t.datagrams := by
  unfold datagrams
  split
  · exact Nat.one_pos
  · exact Nat.lt_of_lt_of_le Nat.one_pos (Nat.le_max_left _ _)

theorem RecvMeta.datagrams_pos (m : RecvMeta) : 0 < m.datagrams :=
  Nat.lt_of_lt_of_le Nat.one_pos (Nat.le_max_left _ _)

namespace SpinFree

open Checked Runs

/-- `io::Error` of a send, with the code of the system where it comes from there. -/
structure SendError where
  error : IoError
  rawOsError : Option Int32
  deriving DecidableEq, Repr

inductive SendDisposition
  | sent
  | wouldBlock
  | probeTooLarge
  | failed
  deriving DecidableEq, Repr

-- `libc::EMSGSIZE`, which the platforms number differently
variable (emsgsize : Int32)

def SendDisposition.of : Except SendError Unit → SendDisposition
  | .ok () => .sent
  | .error e =>
    if e.error.kind = .wouldBlock then .wouldBlock
    else if e.rawOsError = some emsgsize then .probeTooLarge
    else .failed

/-- A socket and the count of failed sends. -/
structure Gauged where
  socket : Socket
  /-- `SEND_ERRORS`. -/
  sendErrors : UInt64

/-- What happens to a socket, with the answers of tokio and of the kernel. -/
inductive Call
  | trySend (transmit : Transmit) (result : Except SendError Unit)
  /-- The next call of `poll_recv`. -/
  | pollRecv
  | readiness
  | pollRecvReady (failed : Option IoError)
  /-- The attempt of a call, with the metadata of the buffers it filled. -/
  | recv (result : Except IoError (List RecvMeta))

namespace Gauged

/-- `SpinFreeUdpSocket::try_send`, given what `try_io` answers. -/
def trySend (s : Gauged) (result : Except SendError Unit) : Gauged × Except SendError Unit :=
  match SendDisposition.of emsgsize result with
  | .sent | .probeTooLarge => (s, .ok ())
  | .wouldBlock => (s, result)
  | .failed => ({ s with sendErrors := s.sendErrors + 1 }, .ok ())

def poll (s : Gauged) (l : Step) : Option Gauged :=
  (s.socket.pollRecv l).map fun socket => { s with socket := socket }

/-- Sends at any time, and one call of `poll_recv` after the other. -/
def step (s : Gauged) : Call → Option Gauged
  | .trySend _ result => some (s.trySend emsgsize result).1
  | .pollRecv =>
    match s.socket.phase with
    | .returned _ => some { s with socket := { s.socket with phase := .checking } }
    | _ => none
  | .readiness => s.poll .readiness
  | .pollRecvReady failed => s.poll (.pollRecvReady failed)
  | .recv result => s.poll (.recv (result.map List.length))

end Gauged

/-! ### What a call adds -/

namespace Call

def sendErrors : Call → ℕ
  | .trySend _ result => if SendDisposition.of emsgsize result = .failed then 1 else 0
  | _ => 0

/-- The datagrams of a transmit that failed. -/
def failedDatagrams : Call → ℕ
  | .trySend transmit result =>
    if SendDisposition.of emsgsize result = .failed then transmit.datagrams else 0
  | _ => 0

def buffers : Call → ℕ
  | .recv (.ok metas) => metas.length
  | _ => 0

def receivedDatagrams : Call → ℕ
  | .recv (.ok metas) => (metas.map RecvMeta.datagrams).sum
  | _ => 0

/-- A transmit that fails holds one datagram, and so does a buffer that is filled. -/
def Single : Call → Prop
  | .trySend transmit result =>
    SendDisposition.of emsgsize result = .failed → transmit.datagrams = 1
  | .recv (.ok metas) => ∀ m ∈ metas, m.datagrams = 1
  | _ => True

/-- A success, backpressure, an MTU probe, or no attempt at all. -/
def Quiet : Call → Prop
  | .trySend _ result => SendDisposition.of emsgsize result ≠ .failed
  | .recv (.error e) => e.kind = .wouldBlock
  | _ => True

variable {emsgsize}

theorem length_datagrams (metas : List RecvMeta) :
    metas.length ≤ (metas.map RecvMeta.datagrams).sum ∧
      (metas.length = (metas.map RecvMeta.datagrams).sum ↔ ∀ m ∈ metas, m.datagrams = 1) := by
  have h := sum_map_eq_iff (fun m => m.datagrams_pos) metas
  have hone : (metas.map fun _ => 0 + 1).sum = metas.length := by simp
  simpa only [hone, Nat.zero_add, eq_comm] using h

theorem sendErrors_le (emsgsize : Int32) (c : Call) :
    c.sendErrors emsgsize ≤ c.failedDatagrams emsgsize := by
  cases c with
  | trySend transmit result =>
    simp only [sendErrors, failedDatagrams]
    split
    · exact transmit.datagrams_pos
    · exact le_rfl
  | _ => exact le_rfl

theorem buffers_le (c : Call) : c.buffers ≤ c.receivedDatagrams := by
  cases c with
  | recv result =>
    cases result with
    | ok metas => exact (length_datagrams metas).1
    | error e => exact le_rfl
  | _ => exact le_rfl

/-- What is counted is what is there exactly if the call is single. -/
theorem single_iff (c : Call) : c.Single emsgsize ↔
    c.sendErrors emsgsize = c.failedDatagrams emsgsize ∧ c.buffers = c.receivedDatagrams := by
  cases c with
  | trySend transmit result =>
    simp only [Single, sendErrors, failedDatagrams, buffers, receivedDatagrams, and_true]
    split
    · next hf => exact ⟨fun h => (h hf).symm, fun h _ => h.symm⟩
    · next hf => exact iff_of_true (fun h => absurd h hf) rfl
  | recv result =>
    cases result with
    | ok metas =>
      simp only [Single, sendErrors, failedDatagrams, buffers, receivedDatagrams, true_and]
      exact (length_datagrams metas).2.symm
    | error e => exact iff_of_true trivial ⟨rfl, rfl⟩
  | _ => exact iff_of_true trivial ⟨rfl, rfl⟩

end Call

/-! ### What the counters say -/

def sentErrors (calls : List Call) : ℕ := (calls.map (Call.sendErrors emsgsize)).sum

def failedDatagrams (calls : List Call) : ℕ := (calls.map (Call.failedDatagrams emsgsize)).sum

def receivedDatagrams (calls : List Call) : ℕ := (calls.map Call.receivedDatagrams).sum

/-- What the diagnostics say of a run. -/
structure CountsDatagrams (s : Gauged) (calls : List Call) (s' : Gauged) : Prop where
  sendErrors : s'.sendErrors = s.sendErrors + UInt64.ofNat (failedDatagrams emsgsize calls)
  received : s'.socket.received = s.socket.received + UInt64.ofNat (receivedDatagrams calls)
  quiet : ∀ pre c post t u, calls = pre ++ c :: post → run (Gauged.step emsgsize) s pre = some t →
    t.step emsgsize c = some u → c.Quiet emsgsize →
    u.sendErrors = t.sendErrors ∧ u.socket.recvErrors = t.socket.recvErrors
  answer : ∀ (t : Gauged) result e, (t.trySend emsgsize result).2 = .error e →
    e.error.kind = .wouldBlock

variable {emsgsize} {s s' t : Gauged} {calls : List Call} {c : Call}

def Step.delivered : Step → ℕ
  | .recv (.ok n) => n
  | _ => 0

theorem pollRecv_counts {s s' : Socket} {l : Step} (h : s.pollRecv l = some s') :
    s'.received = s.received + UInt64.ofNat l.delivered ∧
      ((∀ e, l = .recv (.error e) → e.kind = .wouldBlock) → s'.recvErrors = s.recvErrors) := by
  rcases Socket.pollRecv_cases h with ⟨rfl, rfl⟩ | ⟨rfl, -, -, rfl⟩ | ⟨rfl, -, -, rfl⟩ |
    ⟨e, rfl, -, -, rfl⟩ | ⟨result, rfl, -, -, rfl⟩
  · exact ⟨(UInt64.add_zero _).symm, fun _ => rfl⟩
  · exact ⟨(UInt64.add_zero _).symm, fun _ => rfl⟩
  · exact ⟨(UInt64.add_zero _).symm, fun _ => rfl⟩
  · exact ⟨(UInt64.add_zero _).symm, fun _ => rfl⟩
  · cases result with
    | ok n => exact ⟨rfl, fun _ => rfl⟩
    | error e =>
      by_cases hw : e.kind = .wouldBlock
      · rw [s.react_wouldBlock hw]
        exact ⟨(UInt64.add_zero _).symm, fun _ => rfl⟩
      · rw [s.react_error hw]
        exact ⟨(UInt64.add_zero _).symm, fun hq => absurd (hq e rfl) hw⟩

theorem trySend_counts (transmit : Transmit) (result : Except SendError Unit) :
    (s.trySend emsgsize result).1 = ⟨s.socket,
      s.sendErrors + UInt64.ofNat ((Call.trySend transmit result).sendErrors emsgsize)⟩ := by
  unfold Gauged.trySend Call.sendErrors
  cases hd : SendDisposition.of emsgsize result <;> simp [hd]

theorem step_counts (h : s.step emsgsize c = some t) :
    t.sendErrors = s.sendErrors + UInt64.ofNat (c.sendErrors emsgsize) ∧
      t.socket.received = s.socket.received + UInt64.ofNat c.buffers ∧
      (c.Quiet emsgsize → t.sendErrors = s.sendErrors ∧
        t.socket.recvErrors = s.socket.recvErrors) := by
  have polled : ∀ {l : Step}, s.poll l = some t →
      t.sendErrors = s.sendErrors + UInt64.ofNat 0 ∧
        t.socket.received = s.socket.received + UInt64.ofNat l.delivered ∧
        ((∀ e, l = .recv (.error e) → e.kind = .wouldBlock) → t.sendErrors = s.sendErrors ∧
          t.socket.recvErrors = s.socket.recvErrors) := by
    intro l hl
    obtain ⟨socket, hs, rfl⟩ := Option.map_eq_some_iff.mp hl
    obtain ⟨hr, he⟩ := pollRecv_counts hs
    exact ⟨(UInt64.add_zero _).symm, hr, fun hq => ⟨rfl, he hq⟩⟩
  cases c with
  | trySend transmit result =>
    cases h
    rw [trySend_counts transmit]
    refine ⟨rfl, (UInt64.add_zero _).symm, fun hq => ⟨?_, rfl⟩⟩
    rw [Call.sendErrors, if_neg hq]
    exact UInt64.add_zero _
  | pollRecv =>
    simp only [Gauged.step] at h
    split at h <;> cases h
    exact ⟨(UInt64.add_zero _).symm, (UInt64.add_zero _).symm, fun _ => ⟨rfl, rfl⟩⟩
  | readiness =>
    obtain ⟨hs, hr, hq⟩ := polled h
    exact ⟨hs, hr, fun _ => hq nofun⟩
  | pollRecvReady failed =>
    obtain ⟨hs, hr, hq⟩ := polled h
    exact ⟨hs, hr, fun _ => hq nofun⟩
  | recv result =>
    obtain ⟨hs, hr, hq⟩ := polled h
    cases result with
    | ok metas => exact ⟨hs, hr, fun _ => hq nofun⟩
    | error e =>
      refine ⟨hs, hr, fun hw => hq ?_⟩
      rintro e' ⟨⟩
      exact hw

theorem trySend_answer {result : Except SendError Unit} {e : SendError}
    (h : (s.trySend emsgsize result).2 = .error e) : e.error.kind = .wouldBlock := by
  unfold Gauged.trySend at h
  split at h
  · contradiction
  · contradiction
  · next hd =>
    subst h
    simp only [SendDisposition.of] at hd
    split_ifs at hd with hw
    exact hw
  · contradiction

/-- What the counters count, whatever the run: failed calls and filled buffers. -/
theorem run_counts (h : run (Gauged.step emsgsize) s calls = some s') :
    s'.sendErrors = s.sendErrors + UInt64.ofNat (sentErrors emsgsize calls) ∧
      s'.socket.received = s.socket.received + UInt64.ofNat (calls.map Call.buffers).sum :=
  ⟨run_counter Gauged.sendErrors _ (fun _ _ _ hc => (step_counts hc).1) h,
    run_counter (fun t => t.socket.received) _ (fun _ _ _ hc => (step_counts hc).2.1) h⟩

theorem single_iff_sums : (∀ c ∈ calls, c.Single emsgsize) ↔
    sentErrors emsgsize calls = failedDatagrams emsgsize calls ∧
      (calls.map Call.buffers).sum = receivedDatagrams calls := by
  have hs := (sum_map_eq_iff (Call.sendErrors_le emsgsize) calls).2
  have hb := (sum_map_eq_iff Call.buffers_le calls).2
  unfold sentErrors failedDatagrams receivedDatagrams
  rw [hs, hb, ← forall₂_and]
  exact forall₂_congr fun c _ => c.single_iff

theorem counter_inj {x : UInt64} {a b : ℕ} (ha : a < 2 ^ 64) (hb : b < 2 ^ 64)
    (h : x + UInt64.ofNat a = x + UInt64.ofNat b) : a = b := by
  have hn := congrArg UInt64.toNat (add_left_cancel h)
  rwa [UInt64.toNat_ofNat_of_lt' ha, UInt64.toNat_ofNat_of_lt' hb] at hn

/-- In a run whose failed transmits and filled buffers hold one datagram each, the
diagnostics count datagrams, and in no other whose datagrams fit the counters. -/
theorem diagnostics_count_datagrams (h : run (Gauged.step emsgsize) s calls = some s') :
    ((∀ c ∈ calls, c.Single emsgsize) → CountsDatagrams emsgsize s calls s') ∧
    (failedDatagrams emsgsize calls < 2 ^ 64 → receivedDatagrams calls < 2 ^ 64 →
      CountsDatagrams emsgsize s calls s' → ∀ c ∈ calls, c.Single emsgsize) := by
  obtain ⟨hs, hr⟩ := run_counts h
  constructor
  · intro hsingle
    obtain ⟨hse, hbe⟩ := single_iff_sums.mp hsingle
    refine ⟨hse ▸ hs, hbe ▸ hr, fun _ _ _ _ _ _ _ hc => (step_counts hc).2.2, ?_⟩
    exact fun _ _ _ => trySend_answer
  · intro hf hd hc
    have hle := (sum_map_eq_iff (Call.sendErrors_le emsgsize) calls).1
    have hble := (sum_map_eq_iff Call.buffers_le calls).1
    refine single_iff_sums.mpr ⟨?_, ?_⟩
    · exact counter_inj (hle.trans_lt hf) hf (hs.symm.trans hc.sendErrors)
    · exact counter_inj (hble.trans_lt hd) hd (hr.symm.trans hc.received)

theorem diagnostics_count_datagrams_single : CountsDatagrams 90
    ⟨Socket.polled true 0 0, 0⟩
    [.trySend ⟨⟨.v4 0, 443⟩, none, List.replicate 2400 0, some 1200, none⟩ (.ok ()),
      .trySend ⟨⟨.v4 0, 443⟩, none, List.replicate 1200 0, none, none⟩
        (.error ⟨.simple (.rest 0), some 101⟩),
      .pollRecvReady none,
      .recv (.ok [⟨⟨.v4 0, 443⟩, 1200, 1200, none, none⟩, ⟨⟨.v4 0, 443⟩, 40, 40, none, none⟩])]
    ⟨⟨true, 2, 0, .returned (.ready (.ok 2))⟩, 1⟩ := by
  refine (diagnostics_count_datagrams rfl).1 ?_
  simp only [List.forall_mem_cons, List.not_mem_nil, false_imp_iff, implies_true, and_true]
  exact ⟨nofun, fun _ => rfl, trivial, List.forall_mem_cons.mpr ⟨rfl, by simp; rfl⟩⟩

def twoSegments : Transmit := ⟨⟨.v4 0, 443⟩, none, List.replicate 2400 0, some 1200, none⟩

theorem twoSegments_datagrams : twoSegments.datagrams = 2 := by
  rw [Transmit.datagrams, twoSegments, List.length_replicate]
  rfl

/-- Two datagrams fail in one transmit and are counted as one; two arrive in one
buffer and are counted as one. -/
theorem segments_count_once : (¬∀ emsgsize s calls s',
      run (Gauged.step emsgsize) s calls = some s' → CountsDatagrams emsgsize s calls s') ∧
    ∃ s', run (Gauged.step 90) ⟨Socket.polled true 0 0, 0⟩
        [.pollRecvReady none, .recv (.ok [⟨⟨.v4 0, 443⟩, 2400, 1200, none, none⟩])] = some s' ∧
      s'.socket.received = 1 := by
  refine ⟨fun h => ?_, _, rfl, rfl⟩
  have hc := (h 90 ⟨Socket.polled true 0 0, 0⟩
    [.trySend twoSegments (.error ⟨.simple (.rest 0), some 101⟩)]
    ⟨Socket.polled true 0 0, 1⟩ rfl).sendErrors
  have hfail : SendDisposition.of 90 (.error ⟨.simple (.rest 0), some 101⟩) = .failed := by decide
  rw [failedDatagrams, List.map_singleton, List.sum_singleton, Call.failedDatagrams,
    if_pos hfail, twoSegments_datagrams] at hc
  exact absurd hc (by decide)

end SpinFree

end ConstructTransport.Datagram
