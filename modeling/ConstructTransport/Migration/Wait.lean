import ConstructTransport.Migration.Concurrent
import Mathlib.Data.List.Chain

/-! How a migration waits for its verdict. A poll of the loop looks at the close
reason, at the two counters and at the clock, in this order, and leaves the loop
at the first that decides. Closing is for good and a sleep takes its time, so
the clock bounds the polls, and evidence counts whenever no poll before it saw
the connection closed or the deadline reached. -/

namespace ConstructTransport.Migration

open Datagram Dial Interleaving Runs

/-- What a poll of the loop sees, each value when it looks at it. -/
structure Observation where
  closed : Bool
  /-- `arrivals.received_datagrams()`. -/
  received : ℕ
  /-- `udp_rx.datagrams`. -/
  accepted : ℕ
  now : ℕ
  deriving DecidableEq, Repr

/-- The next poll sees a connection that stays closed, counters that only grow and a
clock that a sleep has advanced. -/
structure Observation.Follows (o o' : Observation) : Prop where
  closed : o.closed = true → o'.closed = true
  received : o.received ≤ o'.received
  accepted : o.accepted ≤ o'.accepted
  slept : o.now + migrationPollInterval ≤ o'.now

instance : Trans Observation.Follows Observation.Follows Observation.Follows where
  trans h h' :=
    { closed := h'.closed ∘ h.closed
      received := h.received.trans h'.received
      accepted := h.accepted.trans h'.accepted
      slept := h.slept.trans ((Nat.le_add_right _ _).trans h'.slept) }

namespace Wait

variable {w : Wait} {armed : ℕ} {os pre post : List Observation} {o : Observation}

def Evidence (w : Wait) (o : Observation) : Prop :=
  0 < o.received ∧ w.acceptedBefore < o.accepted

instance (w : Wait) (o : Observation) : Decidable (w.Evidence o) :=
  inferInstanceAs (Decidable (_ ∧ _))

/-- One poll of the loop in `rebind`. -/
def observe (w : Wait) (o : Observation) : Option (Except RebindError SocketAddr) :=
  if o.closed then some (.error .died)
  else if w.Evidence o then some (.ok w.localAddr)
  else if w.deadline ≤ o.now then some (.error (.unconfirmed w.localAddr))
  else none

def loop (w : Wait) : List Observation → Option (Except RebindError SocketAddr × ℕ)
  | [] => none
  | o :: os =>
    match w.observe o with
    | some v => some (v, 1)
    | none => (w.loop os).map fun r => (r.1, r.2 + 1)

/-- What a loop that was armed at some time can see. -/
structure Trace (w : Wait) (armed : ℕ) (os : List Observation) : Prop where
  deadline : w.deadline = armed + migrationProofBudget
  started : ∀ o, os.head? = some o → armed ≤ o.now
  follows : os.IsChain Observation.Follows

/-- The budget in poll steps, rounded up, and two more. -/
def maxPolls : ℕ :=
  (migrationProofBudget + migrationPollInterval - 1) / migrationPollInterval + 2

/-! ### One poll -/

theorem observe_eq_none_iff :
    w.observe o = none ↔ o.closed = false ∧ ¬w.Evidence o ∧ o.now < w.deadline := by
  unfold observe
  split_ifs with hc he hd
  · simp [hc]
  · simp [he]
  · simp [hd.not_gt]
  · exact iff_of_true rfl ⟨Bool.eq_false_iff.mpr hc, he, Nat.lt_of_not_le hd⟩

/-- A poll is decided for the connection by evidence and nothing else. -/
theorem observe_eq_ok_iff {addr : SocketAddr} :
    w.observe o = some (.ok addr) ↔ o.closed = false ∧ w.Evidence o ∧ addr = w.localAddr := by
  unfold observe
  split_ifs with hc he hd
  · simp [hc]
  · simp [hc, he, eq_comm]
  · simp [he]
  · simp [he]

theorem observe_late (hc : o.closed = false) (he : ¬w.Evidence o) (hd : w.deadline ≤ o.now) :
    w.observe o = some (.error (.unconfirmed w.localAddr)) := by
  rw [observe, if_neg (Bool.eq_false_iff.mp hc), if_neg he, if_pos hd]

/-! ### The loop -/

theorem loop_eq_none_iff : w.loop os = none ↔ ∀ o ∈ os, w.observe o = none := by
  induction os with
  | nil => simp [loop]
  | cons o os ih =>
    rw [loop, List.forall_mem_cons, ← ih]
    cases w.observe o <;> simp

theorem loop_eq_some {v : Except RebindError SocketAddr} {polls : ℕ}
    (h : w.loop os = some (v, polls)) :
    ∃ pre o post, os = pre ++ o :: post ∧ polls = pre.length + 1 ∧ w.observe o = some v ∧
      ∀ o' ∈ pre, w.observe o' = none := by
  induction os generalizing polls with
  | nil => cases h
  | cons o os ih =>
    rw [loop] at h
    cases ho : w.observe o with
    | some v' =>
      rw [ho] at h
      cases h
      exact ⟨[], o, os, rfl, rfl, ho, nofun⟩
    | none =>
      rw [ho] at h
      obtain ⟨⟨v', n⟩, hr, he⟩ := Option.map_eq_some_iff.mp h
      cases he
      obtain ⟨pre, o', post, rfl, rfl, hv, hpre⟩ := ih hr
      exact ⟨o :: pre, o', post, rfl, rfl, hv, List.forall_mem_cons.mpr ⟨ho, hpre⟩⟩

theorem loop_concat {v : Except RebindError SocketAddr} (hos : ∀ o' ∈ os, w.observe o' = none)
    (ho : w.observe o = some v) : w.loop (os ++ [o]) = some (v, os.length + 1) := by
  induction os with
  | nil => rw [List.nil_append, loop, ho, List.length_nil]
  | cons p os ih =>
    obtain ⟨hp, hos⟩ := List.forall_mem_cons.mp hos
    rw [List.cons_append, loop, hp, ih hos]
    rfl

/-- Evidence decides for the connection where no poll before it decides otherwise. -/
theorem loop_ok (ho : o.closed = false) (he : w.Evidence o)
    (hpre : ∀ o' ∈ pre, o'.closed = false ∧ o'.now < w.deadline) (post : List Observation) :
    ∃ polls, w.loop (pre ++ o :: post) = some (.ok w.localAddr, polls) := by
  induction pre with
  | nil =>
    have hv : w.observe o = some (.ok w.localAddr) := observe_eq_ok_iff.mpr ⟨ho, he, rfl⟩
    exact ⟨1, by rw [List.nil_append, loop, hv]⟩
  | cons p pre ih =>
    obtain ⟨⟨hc, hd⟩, hrest⟩ := List.forall_mem_cons.mp hpre
    obtain ⟨polls, hr⟩ := ih hrest
    by_cases hep : w.Evidence p
    · have hv : w.observe p = some (.ok w.localAddr) := observe_eq_ok_iff.mpr ⟨hc, hep, rfl⟩
      exact ⟨1, by rw [List.cons_append, loop, hv]⟩
    · have hv : w.observe p = none := observe_eq_none_iff.mpr ⟨hc, hep, hd⟩
      exact ⟨polls + 1, by rw [List.cons_append, loop, hv, hr]; rfl⟩

/-! ### Traces -/

theorem open_before (h : (pre ++ o :: post).IsChain Observation.Follows)
    (ho : o.closed = false) : ∀ o' ∈ pre, o'.closed = false := by
  intro o' ho'
  have hf : o'.Follows o :=
    (List.pairwise_append.mp (List.isChain_iff_pairwise.mp h)).2.2 o' ho' o List.mem_cons_self
  refine Bool.eq_false_iff.mpr fun hc => ?_
  exact Bool.false_ne_true (ho.symm.trans (hf.closed hc))

/-- Polls that see the deadline ahead are as few as the sleeps that fit before it. -/
theorem polls_before (start : ℕ) (hs : ∀ o, os.head? = some o → start ≤ o.now)
    (hf : os.IsChain Observation.Follows) (hd : ∀ o ∈ os, o.now < w.deadline) (hne : os ≠ []) :
    start + (os.length - 1) * migrationPollInterval < w.deadline := by
  induction os generalizing start with
  | nil => contradiction
  | cons o os ih =>
    have ho : start ≤ o.now := hs o rfl
    cases os with
    | nil =>
      have := hd o List.mem_cons_self
      simpa using ho.trans_lt this
    | cons o' os =>
      obtain ⟨hfo, hf⟩ := List.isChain_cons_cons.mp hf
      have hnext := ih (start + migrationPollInterval) ?_ hf
        (fun x hx => hd x (List.mem_cons_of_mem _ hx)) (List.cons_ne_nil _ _)
      · simp only [List.length_cons, Nat.add_sub_cancel, Nat.succ_mul] at hnext ⊢
        omega
      · intro x hx
        cases hx
        exact (Nat.add_le_add_right ho _).trans hfo.slept

theorem Trace.left (h : w.Trace armed (pre ++ post)) : w.Trace armed pre := by
  refine ⟨h.deadline, fun o ho => h.started o ?_, h.follows.left_of_append⟩
  rw [List.head?_append, ho, Option.some_or]

/-- A last poll may have come later and seen more. -/
theorem Trace.later {o' : Observation} (h : w.Trace armed (os ++ [o]))
    (hopen : o.closed = false) (hr : o.received ≤ o'.received) (ha : o.accepted ≤ o'.accepted)
    (hn : o.now ≤ o'.now) : w.Trace armed (os ++ [o']) := by
  refine ⟨h.deadline, fun x hx => ?_, ?_⟩
  · cases os with
    | nil =>
      cases hx
      exact (h.started o rfl).trans hn
    | cons p os => exact h.started x hx
  · obtain ⟨hos, -, hlast⟩ := List.isChain_append.mp h.follows
    refine List.isChain_append.mpr ⟨hos, .singleton o', fun x hx y hy => ?_⟩
    cases hy
    have hf := hlast x hx o rfl
    refine ⟨fun hc => absurd (hf.closed hc) (Bool.eq_false_iff.mp hopen), ?_, ?_, ?_⟩
    · exact hf.received.trans hr
    · exact hf.accepted.trans ha
    · exact hf.slept.trans hn

theorem Trace.slept (h : w.Trace armed (os ++ [o])) :
    w.Trace armed (os ++ [o] ++ [{ o with now := o.now + migrationPollInterval }]) := by
  refine ⟨h.deadline, fun x hx => h.started x ?_, ?_⟩
  · rwa [List.head?_append_of_ne_nil _ (by simp)] at hx
  · refine List.isChain_append.mpr ⟨h.follows, .singleton _, fun x hx y hy => ?_⟩
    rw [List.getLast?_concat] at hx
    cases hx
    cases hy
    exact ⟨id, le_rfl, le_rfl, le_rfl⟩

/-- The deadline leaves room for that many polls that do not decide. -/
theorem Trace.undecided_length (h : w.Trace armed os) (hn : ∀ o ∈ os, w.observe o = none) :
    os.length + 2 ≤ maxPolls := by
  refine Nat.add_le_add_right ((Nat.le_div_iff_mul_le (by decide)).mpr ?_) 2
  rcases os with _ | ⟨o, os⟩
  · exact (Nat.zero_mul _).trans_le (Nat.zero_le _)
  · have hlt := polls_before armed h.started h.follows
      (fun x hx => (observe_eq_none_iff.mp (hn x hx)).2.2) (List.cons_ne_nil _ _)
    rw [h.deadline, List.length_cons, Nat.add_sub_cancel] at hlt
    have hlt' : os.length * migrationPollInterval < migrationProofBudget :=
      Nat.lt_of_add_lt_add_left hlt
    rw [List.length_cons, Nat.succ_mul]
    omega

end Wait

/-- The wait of a migration ends, and with the right verdict: within its polls, with
`Ok` exactly if some poll sees evidence on an open connection before any has seen
the deadline, never with `Ok` at a poll that sees the connection closed, and with
`Ok` also if the evidence comes with the deadline. -/
theorem migration_wait_exact {w : Wait} {armed : ℕ} {os : List Observation}
    (h : w.Trace armed os) :
    (Wait.maxPolls ≤ os.length → ∃ v polls, w.loop os = some (v, polls)) ∧
    (∀ v polls, w.loop os = some (v, polls) → polls ≤ Wait.maxPolls ∧
      ∀ o, os[polls - 1]? = some o → o.closed = true → ∀ addr, v ≠ .ok addr) ∧
    ((∃ addr polls, w.loop os = some (.ok addr, polls)) ↔
      ∃ pre o post, os = pre ++ o :: post ∧ w.Evidence o ∧ o.closed = false ∧
        ∀ o' ∈ pre, o'.now < w.deadline) ∧
    ∀ pre o post, os = pre ++ o :: post → (∀ o' ∈ pre, o'.now < w.deadline) →
      w.deadline ≤ o.now → w.Evidence o → o.closed = false →
      ∃ polls, w.loop os = some (.ok w.localAddr, polls) := by
  have evident : ∀ pre o post, os = pre ++ o :: post → w.Evidence o → o.closed = false →
      (∀ o' ∈ pre, o'.now < w.deadline) →
      ∃ polls, w.loop os = some (.ok w.localAddr, polls) := by
    rintro pre o post rfl he ho hd
    have hopen := Wait.open_before h.follows ho
    exact Wait.loop_ok ho he (fun o' ho' => ⟨hopen o' ho', hd o' ho'⟩) post
  refine ⟨fun hlen => ?_, fun v polls hv => ?_, ⟨?_, ?_⟩, ?_⟩
  · cases hl : w.loop os with
    | some r => exact ⟨r.1, r.2, rfl⟩
    | none =>
      have := h.undecided_length (Wait.loop_eq_none_iff.mp hl)
      omega
  · obtain ⟨pre, o, post, rfl, rfl, ho, hpre⟩ := Wait.loop_eq_some hv
    refine ⟨Nat.le_of_succ_le (h.left.undecided_length hpre), fun o' ho' hc addr he => ?_⟩
    rw [Nat.add_sub_cancel, List.getElem?_append_right le_rfl, Nat.sub_self] at ho'
    cases ho'
    subst he
    exact Bool.false_ne_true ((Wait.observe_eq_ok_iff.mp ho).1.symm.trans hc)
  · rintro ⟨addr, polls, hv⟩
    obtain ⟨pre, o, post, rfl, -, ho, hpre⟩ := Wait.loop_eq_some hv
    obtain ⟨hopen, he, -⟩ := Wait.observe_eq_ok_iff.mp ho
    exact ⟨pre, o, post, rfl, he, hopen,
      fun o' ho' => (Wait.observe_eq_none_iff.mp (hpre o' ho')).2.2⟩
  · rintro ⟨pre, o, post, hos, he, ho, hd⟩
    obtain ⟨polls, hv⟩ := evident pre o post hos he ho hd
    exact ⟨_, polls, hv⟩
  · exact fun pre o post hos hd _ he ho => evident pre o post hos he ho hd

/-- One poll sees nothing, the next sees the evidence and the deadline at once. -/
theorem migration_wait_exact_late : ∃ polls,
    Wait.loop ⟨3, 1, ⟨.v4 0, 40001⟩, migrationProofBudget⟩
      [⟨false, 0, 3, 0⟩, ⟨false, 1, 4, migrationProofBudget⟩] =
      some (.ok ⟨.v4 0, 40001⟩, polls) := by
  have h : Wait.Trace ⟨3, 1, ⟨.v4 0, 40001⟩, migrationProofBudget⟩ 0
      [⟨false, 0, 3, 0⟩, ⟨false, 1, 4, migrationProofBudget⟩] := by
    refine ⟨(Nat.zero_add _).symm, fun o _ => Nat.zero_le _, ?_⟩
    exact .cons_cons ⟨nofun, by decide, by decide, by decide⟩ (.singleton _)
  exact (migration_wait_exact h).2.2.2 [⟨false, 0, 3, 0⟩] _ [] rfl (by decide) (by decide)
    (by decide) rfl

/-! ### The calls of a client -/

/-- What an endpoint shows at the latest by time `t`, on socket `k`. -/
structure Observation.Upto (o : Observation) (e : Endpoint) (k t : ℕ) : Prop where
  opened : o.closed = false
  received : o.received ≤ e.received k
  accepted : o.accepted ≤ e.accepted
  now : o.now ≤ t

/-- What the poll under way has seen at a check. -/
def Wait.Pending (w : Wait) (e : Endpoint) (o : Observation) : Check → Prop
  | .closeReason | .arrivals => o.Upto e w.socket e.now
  | .accepted => o.Upto e w.socket e.now ∧ 0 < o.received
  | .deadline => o.Upto e w.socket e.now ∧ ¬w.Evidence o
  | .asleep wake => o.Upto e w.socket wake

/-- A verdict of the loop, over polls that a call can make. -/
def Wait.Gives (socket : Option ℕ) (verdict : Except RebindError SocketAddr) : Prop :=
  ∃ (w : Wait) (armed : ℕ) (os : List Observation) (polls : ℕ), socket = some w.socket ∧
    w.Trace armed os ∧ w.loop os = some (verdict, polls)

/-- Where a call is in the loop, or how it left. -/
def Phase.Waits (e : Endpoint) : Phase → Prop
  | .waiting w check => ∃ armed os o, w.Trace armed (os ++ [o]) ∧
      (∀ o' ∈ os, w.observe o' = none) ∧ w.Pending e o check
  | .returned socket verdict => Wait.Gives socket verdict ∨
      verdict ∈ [.error .bindSocket, .error .rebindEndpoint, .error .localAddr]
  | _ => True

theorem Observation.Upto.mono {o : Observation} {e e' : Endpoint} {k t t' : ℕ}
    (h : o.Upto e k t) (hr : e.received k ≤ e'.received k) (ha : e.accepted ≤ e'.accepted)
    (ht : t ≤ t') : o.Upto e' k t' :=
  ⟨h.opened, h.received.trans hr, h.accepted.trans ha, h.now.trans ht⟩

/-- What a call knows outlives any event and any step of another call. -/
theorem Phase.Waits.mono {e e' : Endpoint} {p : Phase} (h : p.Waits e)
    (hr : ∀ k, e.received k ≤ e'.received k) (ha : e.accepted ≤ e'.accepted)
    (hn : e.now ≤ e'.now) : p.Waits e' := by
  cases p with
  | waiting w check =>
    obtain ⟨armed, os, o, ht, hos, hp⟩ := h
    refine ⟨armed, os, o, ht, hos, ?_⟩
    cases check with
    | closeReason => exact hp.mono (hr _) ha hn
    | arrivals => exact hp.mono (hr _) ha hn
    | accepted => exact ⟨hp.1.mono (hr _) ha hn, hp.2⟩
    | deadline => exact ⟨hp.1.mono (hr _) ha hn, hp.2⟩
    | asleep wake => exact hp.mono (hr _) ha le_rfl
  | returned socket verdict => exact h
  | _ => trivial

theorem Wait.gives_of_observe {w : Wait} {armed : ℕ} {os : List Observation} {o : Observation}
    {v : Except RebindError SocketAddr} (ht : w.Trace armed (os ++ [o]))
    (hos : ∀ o' ∈ os, w.observe o' = none) (ho : w.observe o = some v) :
    Wait.Gives (some w.socket) v :=
  ⟨w, armed, os ++ [o], os.length + 1, rfl, ht, Wait.loop_concat hos ho⟩

/-- Each check of the loop looks at its part of the observation. -/
theorem Wait.poll_waits {w : Wait} {e : Endpoint} {check : Check} {p : Phase}
    (h : (Phase.waiting w check).Waits e) (hp : w.poll e check = some p) : p.Waits e := by
  obtain ⟨armed, os, o, ht, hos, ho⟩ := h
  cases check with
  | closeReason =>
    simp only [poll] at hp
    split at hp <;> cases hp
    · have ht' : w.Trace armed (os ++ [{ o with closed := true }]) :=
        ht.later ho.opened le_rfl le_rfl le_rfl
      exact .inl (gives_of_observe ht' hos rfl)
    · exact ⟨armed, os, o, ht, hos, ho⟩
  | arrivals =>
    simp only [poll] at hp
    split at hp <;> cases hp
    · next hr =>
      refine ⟨armed, os, { o with received := e.received w.socket }, ?_, hos, ?_, hr⟩
      · exact ht.later ho.opened ho.received le_rfl le_rfl
      · exact ⟨ho.opened, le_rfl, ho.accepted, ho.now⟩
    · next hr =>
      exact ⟨armed, os, o, ht, hos, ho, fun he => hr (he.1.trans_le ho.received)⟩
  | accepted =>
    obtain ⟨ho, hr⟩ := ho
    simp only [poll] at hp
    split at hp <;> cases hp
    · next ha =>
      have ht' : w.Trace armed (os ++ [{ o with accepted := e.accepted }]) :=
        ht.later ho.opened le_rfl ho.accepted le_rfl
      exact .inl (gives_of_observe ht' hos (observe_eq_ok_iff.mpr ⟨ho.opened, ⟨hr, ha⟩, rfl⟩))
    · next ha =>
      exact ⟨armed, os, o, ht, hos, ho, fun he => ha (he.2.trans_le ho.accepted)⟩
  | deadline =>
    obtain ⟨ho, hev⟩ := ho
    have ht' : w.Trace armed (os ++ [{ o with now := e.now }]) :=
      ht.later ho.opened le_rfl le_rfl ho.now
    simp only [poll] at hp
    split at hp <;> cases hp
    · next hd =>
      exact .inl (gives_of_observe ht' hos (observe_late ho.opened hev hd))
    · next hd =>
      refine ⟨armed, _, _, ht'.slept, fun o' ho' => ?_, ho.opened, ho.received, ho.accepted, le_rfl⟩
      rcases List.mem_append.mp ho' with ho' | ho'
      · exact hos o' ho'
      · cases List.mem_singleton.mp ho'
        exact observe_eq_none_iff.mpr ⟨ho.opened, hev, Nat.lt_of_not_le hd⟩
  | asleep wake =>
    simp only [poll] at hp
    split at hp <;> cases hp
    next hwake =>
    exact ⟨armed, os, o, ht, hos, ho.mono le_rfl le_rfl hwake⟩

theorem rebind_waits {e e' : Endpoint} {p p' : Phase} {a : Act}
    (h : rebind e p a = some (e', p')) (hp : p.Waits e) : p'.Waits e' := by
  unfold rebind at h
  split at h
  · cases h; trivial
  · cases h; exact .inr (by simp)
  · cases h; trivial
  · cases h; exact .inr (by simp)
  · cases h; trivial
  · cases h; exact .inr (by simp)
  · obtain ⟨socket, hs, he⟩ := Option.map_eq_some_iff.mp h
    cases he
    trivial
  · next n k addr =>
    cases h
    refine ⟨e.now, [], ⟨false, e.received k, e.accepted, e.now⟩, ⟨rfl, ?_, .singleton _⟩, nofun,
      rfl, le_rfl, le_rfl, le_rfl⟩
    rintro o ⟨⟩
    exact le_rfl
  · obtain ⟨q, hq, he⟩ := Option.map_eq_some_iff.mp h
    cases he
    exact Wait.poll_waits hp hq
  · contradiction

theorem handle_forward {e e' : Endpoint} {ev : Event} (h : e.handle ev = some e') :
    e.accepted ≤ e'.accepted ∧ e.now ≤ e'.now := by
  cases ev with
  | read k ours =>
    unfold Endpoint.handle at h
    cases hs : e.sockets[k]? with
    | none => simp [hs] at h
    | some socket =>
      simp only [hs, Option.ite_none_right_eq_some] at h
      obtain ⟨-, he⟩ := h
      cases he
      exact ⟨le_rfl, le_rfl⟩
  | account =>
    unfold Endpoint.handle at h
    cases hi : e.inbox with
    | nil => simp [hi] at h
    | cons j inbox =>
      simp only [hi] at h
      cases h
      exact ⟨Nat.le_succ _, le_rfl⟩
  | abandon => cases h; exact ⟨le_rfl, le_rfl⟩
  | close => cases h; exact ⟨le_rfl, le_rfl⟩
  | tick d => cases h; exact ⟨le_rfl, Nat.le_add_right _ _⟩

theorem rebind_now {e e' : Endpoint} {p p' : Phase} {a : Act}
    (h : rebind e p a = some (e', p')) : e'.now = e.now := by
  rcases rebind_cases h with ⟨-, rfl, -⟩ | ⟨n, port, -, -, rfl⟩ | ⟨n, k, -, -, rfl⟩ |
    ⟨w, check, -, rfl, -⟩ | ⟨rfl, -⟩ <;> rfl

/-- In any run of the client, what the loop of a call has seen is a trace, and the
verdict is that of its polls. -/
theorem client_waits {recipe : SocketRecipe} {port : UInt16} {labels : List (Label Event Act)}
    {s : Config Endpoint Phase} (h : run client.step (opened recipe port) labels = some s) :
    ∀ (c : ℕ) (p : Phase), s.procs[c]? = some p → p.Waits s.shared := by
  intro c
  refine client.run_follow (C := fun _ _ => True) (fun s l s' hs _ hi => ?_)
    (along_of_forall fun _ _ _ => trivial) rfl h
  refine client.step_follow hs hi ?_ trivial ?_ ?_
  · intro ev e p _ _ hp he
    exact hp.mono (handle_received_le he) (handle_forward he).1 (handle_forward he).2
  · exact fun a p e p' _ _ hp ha => rebind_waits ha hp
  · intro j a p q e q' _ _ _ hp _ ha
    obtain ⟨hr, -, hacc, -⟩ := rebind_counts ha
    exact hp.mono (fun k => (congrFun hr k).ge) hacc.ge (rebind_now ha).ge

end ConstructTransport.Migration
