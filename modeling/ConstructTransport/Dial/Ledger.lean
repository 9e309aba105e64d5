import ConstructTransport.Dial.Connect

/-! The time a call of `connect` takes. Resolution and the QUIC handshakes are under
timeouts that share out the budget; the HTTP/3 setup is under none. Whatever the
network does, the call keeps its budget at every pace of the timed steps exactly
where the setups fit into what the slices leave. -/

namespace ConstructTransport.Dial

open Checked Datagram

variable {ε : Type}

def elapsed (events : List DialEvent) : Duration :=
  (events.map fun
    | .awaited d => d
    | _ => 0).sum

@[simp] theorem elapsed_awaited (d : Duration) (events : List DialEvent) :
    elapsed (.awaited d :: events) = d + elapsed events := rfl

@[simp] theorem elapsed_bound (addr : SocketAddr) (events : List DialEvent) :
    elapsed (.bound addr :: events) = elapsed events := Nat.zero_add _

@[simp] theorem elapsed_append (xs ys : List DialEvent) :
    elapsed (xs ++ ys) = elapsed xs + elapsed ys := by
  simp [elapsed]

/-! ### What an attempt costs -/

namespace Attempt

def starts (a : Attempt ε) : Bool :=
  match a.bind, a.start with
  | .ok (), .ok () => true
  | _, _ => false

def setsUp (a : Attempt ε) : Bool :=
  match a.starts, a.quic with
  | true, some (.ok ()) => true
  | _, _ => false

def wins (a : Attempt ε) : Bool :=
  match a.setsUp, a.setup with
  | true, .ok () => true
  | _, _ => false

/-- The time of the HTTP/3 setup, if it comes to that. -/
def setupCost (a : Attempt ε) : Duration := if a.setsUp then a.setupTime else 0

end Attempt

/-- The attempts that are made of at most `n` from `i` on: up to the first that wins. -/
def Network.made (net : Network ε) : ℕ → ℕ → List (Attempt ε)
  | 0, _ => []
  | n + 1, i => net.attempt i :: if (net.attempt i).wins then [] else net.made n (i + 1)

theorem Network.made_length_le (net : Network ε) (n i : ℕ) : (net.made n i).length ≤ n := by
  induction n generalizing i with
  | zero => exact le_rfl
  | succ n ih =>
    have := ih (i + 1)
    rw [made, List.length_cons]
    split
    · exact Nat.succ_le_succ (Nat.zero_le n)
    · exact Nat.succ_le_succ this

/-- The candidates of a call; none if it does not come to dialing. -/
def Network.candidates (net : Network ε) : List SocketAddr :=
  match net.config, net.lookup with
  | .ok (), some (.ok found) => dialCandidates found
  | _, _ => []

def Network.dialed (net : Network ε) : List (Attempt ε) :=
  net.made (net.candidates.take (attempts net.candidates.length)).length 0

/-- The handshakes begun, each at the cost of a slice. -/
def sliceCost (budget : Duration) (as : List (Attempt ε)) : Duration :=
  as.countP Attempt.starts * budget

def setupCosts (as : List (Attempt ε)) : Duration := (as.map Attempt.setupCost).sum

@[simp] theorem sliceCost_nil (budget : Duration) : sliceCost budget ([] : List (Attempt ε)) = 0 :=
  Nat.zero_mul budget

theorem sliceCost_cons (budget : Duration) (a : Attempt ε) (as : List (Attempt ε)) :
    sliceCost budget (a :: as) = (if a.starts then budget else 0) + sliceCost budget as := by
  unfold sliceCost
  rw [List.countP_cons, Nat.add_mul, Nat.add_comm]
  split <;> simp

theorem setupCosts_cons (a : Attempt ε) (as : List (Attempt ε)) :
    setupCosts (a :: as) = a.setupCost + setupCosts as := List.sum_cons

/-- A handshake begun takes at most its slice, and all of it at a slow enough pace. -/
theorem handshake_elapsed {a : Attempt ε} (hb : a.bind = .ok ()) (recipe : SocketRecipe)
    (addr : SocketAddr) (budget pace : Duration) :
    ∃ d ≤ budget, (budget ≤ pace → d = budget) ∧
      elapsed (handshake recipe addr budget pace a).2 = (if a.starts then d else 0) + a.setupCost ∧
      (a.wins = true ↔ ∃ client, (handshake recipe addr budget pace a).1 = .ok client) := by
  obtain ⟨bind, start, quic, setup, setupTime⟩ := a
  cases hb
  cases start with
  | error e =>
    exact ⟨budget, le_rfl, fun _ => rfl, rfl,
      by simp [Attempt.wins, Attempt.setsUp, Attempt.starts, handshake]⟩
  | ok =>
    rcases quic with _ | _ | _
    · exact ⟨budget, le_rfl, fun _ => rfl, rfl,
        by simp [Attempt.wins, Attempt.setsUp, handshake, timeout]⟩
    · exact ⟨min pace budget, Nat.min_le_right _ _, Nat.min_eq_right, rfl,
        by simp [Attempt.wins, Attempt.setsUp, handshake, timeout]⟩
    · refine ⟨min pace budget, Nat.min_le_right _ _, Nat.min_eq_right, ?_, ?_⟩
      · cases setup <;> rfl
      · cases setup <;>
          simp [Attempt.wins, Attempt.setsUp, Attempt.starts, handshake, timeout]

section Loop

variable {obf : Option Salamander} {budget : Duration} {net : Network ε} {pace : Pace}
  {addr : SocketAddr} {rest : List SocketAddr} {i : ℕ} {failures : List (Failure ε)}

theorem dialLoop_nil (obf : Option Salamander) (budget : Duration) (net : Network ε) (pace : Pace)
    (i : ℕ) (failures : List (Failure ε)) :
    dialLoop obf budget net pace [] i failures = (.error (.handshakesFailed failures), []) := rfl

theorem dialLoop_unbound {e : ε} (hb : (net.attempt i).bind = .error e) :
    dialLoop obf budget net pace (addr :: rest) i failures =
      dialLoop obf budget net pace rest (i + 1) (failures ++ [.bindEndpoint addr e]) := by
  rw [dialLoop, hb]

theorem dialLoop_won {client : QuicClient} {events : List DialEvent}
    (hb : (net.attempt i).bind = .ok ())
    (hr : handshake ⟨bindAddrFor addr, obf⟩ addr budget (pace.quic i) (net.attempt i) =
      (.ok client, events)) :
    dialLoop obf budget net pace (addr :: rest) i failures =
      (.ok client, .bound addr :: events) := by
  rw [dialLoop, hb]
  simp only [hr]

theorem dialLoop_lost {e : Failure ε} {events : List DialEvent}
    (hb : (net.attempt i).bind = .ok ())
    (hr : handshake ⟨bindAddrFor addr, obf⟩ addr budget (pace.quic i) (net.attempt i) =
      (.error e, events)) :
    dialLoop obf budget net pace (addr :: rest) i failures =
      ((dialLoop obf budget net pace rest (i + 1) (failures ++ [e])).1,
        .bound addr :: (events ++ (dialLoop obf budget net pace rest (i + 1)
          (failures ++ [e])).2)) := by
  rw [dialLoop, hb]
  simp only [hr]

end Loop

/-- The loop spends on handshakes what the slices allow, and the setups on top. -/
theorem dialLoop_elapsed (obf : Option Salamander) (budget : Duration) (net : Network ε)
    (pace : Pace) (addrs : List SocketAddr) (i : ℕ) (failures : List (Failure ε)) :
    ∃ d ≤ sliceCost budget (net.made addrs.length i),
      ((∀ j, budget ≤ pace.quic j) → d = sliceCost budget (net.made addrs.length i)) ∧
      elapsed (dialLoop obf budget net pace addrs i failures).2 =
        d + setupCosts (net.made addrs.length i) := by
  induction addrs generalizing i failures with
  | nil => exact ⟨0, Nat.zero_le _, fun _ => (sliceCost_nil budget).symm, rfl⟩
  | cons addr rest ih =>
    rw [List.length_cons, Network.made, sliceCost_cons, setupCosts_cons]
    cases hb : (net.attempt i).bind with
    | error e =>
      have hs : (net.attempt i).starts = false := by simp [Attempt.starts, hb]
      have hu : (net.attempt i).setsUp = false := by simp [Attempt.setsUp, hs]
      have hw : (net.attempt i).wins = false := by simp [Attempt.wins, hu]
      have hcost : (net.attempt i).setupCost = 0 := by simp [Attempt.setupCost, hu]
      rw [dialLoop_unbound hb, hw, hs, hcost]
      simpa using ih (i + 1) (failures ++ [.bindEndpoint addr e])
    | ok =>
      obtain ⟨d, hle, heq, he, hwin⟩ :=
        handshake_elapsed hb ⟨bindAddrFor addr, obf⟩ addr budget (pace.quic i)
      have hslice : (if (net.attempt i).starts then d else 0) ≤
          if (net.attempt i).starts then budget else 0 := by
        split
        · exact hle
        · exact le_rfl
      rcases hr : handshake ⟨bindAddrFor addr, obf⟩ addr budget (pace.quic i) (net.attempt i) with
        ⟨e | client, events⟩
      · have hw : (net.attempt i).wins ≠ true := by
          rw [ne_eq, hwin, hr]
          rintro ⟨client, hc⟩
          contradiction
        obtain ⟨d', hle', heq', he'⟩ := ih (i + 1) (failures ++ [e])
        rw [hr] at he
        rw [dialLoop_lost hb hr, if_neg hw]
        refine ⟨(if (net.attempt i).starts then d else 0) + d', Nat.add_le_add hslice hle',
          fun hslow => ?_, ?_⟩
        · rw [heq' hslow, heq (hslow i)]
        · rw [elapsed_bound, elapsed_append, he', he]
          exact Nat.add_add_add_comm _ _ _ _
      · have hw : (net.attempt i).wins = true := by
          rw [hwin, hr]
          exact ⟨client, rfl⟩
        rw [hr] at he
        rw [dialLoop_won hb hr, if_pos hw]
        refine ⟨if (net.attempt i).starts then d else 0, Nat.le_add_right_of_le hslice,
          fun hslow => ?_, ?_⟩
        · rw [heq (hslow i), sliceCost_nil, Nat.add_zero]
        · rw [elapsed_bound, he]
          rfl

/-! ### A whole call -/

/-- The call returns, within its budget. -/
def InBudget {ρ : Type} (call : Except Panic (ρ × List DialEvent)) : Prop :=
  ∃ r events, call = .ok (r, events) ∧ elapsed events ≤ connectBudget

/-- The resolve timeout, a slice for each handshake begun and the HTTP/3 setups fit the budget. -/
def SetupsFit (net : Network ε) : Prop :=
  resolveTimeout + sliceCost (slice net.candidates.length) net.dialed + setupCosts net.dialed ≤
    connectBudget

/-- Without the setups everything fits. -/
theorem slices_fit (net : Network ε) :
    resolveTimeout + sliceCost (slice net.candidates.length) net.dialed ≤ connectBudget := by
  have hdialed : net.dialed.countP Attempt.starts ≤ attempts net.candidates.length :=
    List.countP_le_length.trans ((net.made_length_le _ 0).trans (List.length_take_le _ _))
  have hslices := (Nat.mul_le_mul_right (slice net.candidates.length) hdialed).trans
    (attempts_mul_slice_le net.candidates.length)
  rw [← resolveTimeout_add_handshakeTimeout]
  exact Nat.add_le_add_left hslices resolveTimeout

theorem connectWith_dials {net : Network ε} (h : net.candidates ≠ []) (obf : Option Salamander)
    (pace : Pace) :
    ∃ r events,
      connectWith obf net pace = .ok (r, .awaited (min pace.lookup resolveTimeout) :: events) ∧
      (r, events) = dialLoop obf (slice net.candidates.length) net pace
        (net.candidates.take (attempts net.candidates.length)) 0 [] := by
  obtain ⟨config, lookup, attempt⟩ := net
  rcases config with _ | _
  · exact absurd rfl h
  rcases lookup with _ | _ | found
  · exact absurd rfl h
  · exact absurd rfl h
  have hc : dialCandidates found ≠ [] := h
  obtain ⟨addr, rest, hcons⟩ := List.exists_cons_of_ne_nil hc
  refine ⟨_, _, ?_, rfl⟩
  simp only [connectWith, resolveAll, timeout, Network.candidates, hcons, dial, dialPlan_eq,
    ok_bind]
  rfl

theorem connectWith_stops {net : Network ε} (h : net.candidates = []) (obf : Option Salamander)
    (pace : Pace) :
    ∃ e events, connectWith obf net pace = .ok (.error e, events) ∧
      elapsed events ≤ resolveTimeout := by
  obtain ⟨config, lookup, attempt⟩ := net
  rcases config with _ | _
  · exact ⟨_, _, rfl, Nat.zero_le _⟩
  rcases lookup with _ | _ | found
  · exact ⟨_, _, rfl, le_rfl⟩
  · exact ⟨_, _, rfl, Nat.min_le_right _ _⟩
  have hc : dialCandidates found = [] := h
  refine ⟨.noAddress, [.awaited (min pace.lookup resolveTimeout)], ?_, Nat.min_le_right _ _⟩
  simp only [connectWith, resolveAll, timeout, hc]
  rfl

theorem connectWith_inBudget_iff (obf : Option Salamander) (net : Network ε) :
    (∀ pace, InBudget (connectWith obf net pace)) ↔ SetupsFit net := by
  by_cases hn : net.candidates = []
  · have hd : net.dialed = [] := by
      rw [Network.dialed, hn]
      rfl
    refine iff_of_true (fun pace => ?_) ?_
    · obtain ⟨e, events, hr, he⟩ := connectWith_stops hn obf pace
      exact ⟨_, events, hr, he.trans (by decide)⟩
    · rw [SetupsFit, hd, sliceCost_nil]
      exact show resolveTimeout + 0 + 0 ≤ connectBudget by decide
  · constructor
    · intro hall
      obtain ⟨r, events, hr, he⟩ := hall ⟨resolveTimeout, fun _ => slice net.candidates.length⟩
      obtain ⟨r', events', hr', hloop⟩ :=
        connectWith_dials hn obf ⟨resolveTimeout, fun _ => slice net.candidates.length⟩
      cases hr.symm.trans hr'
      obtain ⟨d, -, heq, hd⟩ := dialLoop_elapsed obf (slice net.candidates.length) net
        ⟨resolveTimeout, fun _ => slice net.candidates.length⟩
        (net.candidates.take (attempts net.candidates.length)) 0 []
      rw [← hloop, heq fun _ => le_rfl] at hd
      rw [elapsed_awaited, hd, Nat.min_self, ← Nat.add_assoc] at he
      exact he
    · intro hfit pace
      obtain ⟨r, events, hr, hloop⟩ := connectWith_dials hn obf pace
      obtain ⟨d, hle, -, hd⟩ := dialLoop_elapsed obf (slice net.candidates.length) net pace
        (net.candidates.take (attempts net.candidates.length)) 0 []
      refine ⟨r, _, hr, ?_⟩
      rw [← hloop] at hd
      rw [elapsed_awaited, hd]
      have hlookup : min pace.lookup resolveTimeout ≤ resolveTimeout := Nat.min_le_right _ _
      calc min pace.lookup resolveTimeout + (d + setupCosts net.dialed)
          ≤ resolveTimeout + (sliceCost (slice net.candidates.length) net.dialed +
              setupCosts net.dialed) :=
            Nat.add_le_add hlookup (Nat.add_le_add_right hle _)
        _ ≤ connectBudget := (Nat.add_assoc _ _ _).symm.trans_le hfit

/-- Both ways to connect keep their budget exactly where the HTTP/3 setups fit into it. -/
theorem connect_in_budget_iff (net : Network ε) :
    ((∀ pace, InBudget (connect net pace)) ↔ SetupsFit net) ∧
      ∀ psk, (∀ pace, InBudget (connectObfuscated psk net pace)) ↔ SetupsFit net :=
  ⟨connectWith_inBudget_iff none net, fun psk => connectWith_inBudget_iff (some ⟨psk⟩) net⟩

/-- A peer that completes the QUIC handshake and then stalls the setup for two seconds. -/
def stalledSetup : Network Unit where
  config := .ok ()
  lookup := some (.ok [⟨.v4 0x0a000001, 443⟩])
  attempt _ :=
    { bind := .ok (), start := .ok (), quic := some (.ok ()), setup := .ok ()
      setupTime := fromMillis 2000 }

theorem stalled_setup_overruns :
    ¬∀ (net : Network Unit) (pace : Pace), InBudget (connect net pace) := by
  intro hall
  obtain ⟨r, events, hr, he⟩ := hall stalledSetup ⟨fromMillis 10, fun _ => fromMillis 85⟩
  have hrun : connect stalledSetup ⟨fromMillis 10, fun _ => fromMillis 85⟩ =
      .ok (.ok ⟨⟨.v4 0x0a000001, 443⟩, ⟨⟨.v4 0, 0⟩, none⟩⟩,
        [.awaited (fromMillis 10), .bound ⟨.v4 0x0a000001, 443⟩, .awaited (fromMillis 85),
          .awaited (fromMillis 2000), .counted ⟨.v4 0x0a000001, 443⟩]) := by
    rfl
  cases hr.symm.trans hrun
  revert he
  decide

/-! ### Any budget -/

/-- The body of `dial`, for any handshake budget and least attempt. -/
def dialFor (handshake least : Duration) (obf : Option Salamander) (net : Network ε)
    (pace : Pace) (candidates : List SocketAddr) :
    Except Panic (Except (ConnectError ε) QuicClient × List DialEvent) := do
  let (n, budget) ← dialPlanFor handshake least candidates.length
  return dialLoop obf budget net pace (candidates.take n) 0 []

theorem dial_eq (obf : Option Salamander) (net : Network ε) (pace : Pace)
    (candidates : List SocketAddr) :
    dial obf net pace candidates = dialFor handshakeTimeout minAttempt obf net pace candidates :=
  rfl

/-- The time of the QUIC handshakes: of the awaits that come right behind a bind. -/
def quicPhases : List DialEvent → Duration
  | .bound _ :: .awaited d :: events => d + quicPhases events
  | _ :: events => quicPhases events
  | [] => 0

theorem handshake_quicPhases (recipe : SocketRecipe) (addr : SocketAddr) (budget pace : Duration)
    (a : Attempt ε) (later : List DialEvent) :
    quicPhases (.bound addr :: ((handshake recipe addr budget pace a).2 ++ later)) ≤
      budget + quicPhases later := by
  obtain ⟨bind, start, quic, setup, setupTime⟩ := a
  cases start with
  | error e => exact Nat.le_add_left _ _
  | ok =>
    rcases quic with _ | _ | _
    · exact le_rfl
    · exact Nat.add_le_add_right (Nat.min_le_right _ _) _
    · cases setup <;> exact Nat.add_le_add_right (Nat.min_le_right _ _) _

theorem dialLoop_quicPhases (obf : Option Salamander) (budget : Duration) (net : Network ε)
    (pace : Pace) (addrs : List SocketAddr) (i : ℕ) (failures : List (Failure ε)) :
    quicPhases (dialLoop obf budget net pace addrs i failures).2 ≤ addrs.length * budget := by
  induction addrs generalizing i failures with
  | nil => exact Nat.zero_le _
  | cons addr rest ih =>
    rw [List.length_cons, Nat.succ_mul, Nat.add_comm]
    cases hb : (net.attempt i).bind with
    | error e =>
      rw [dialLoop_unbound hb]
      exact (ih _ _).trans (Nat.le_add_left _ _)
    | ok =>
      rcases hr : handshake ⟨bindAddrFor addr, obf⟩ addr budget (pace.quic i) (net.attempt i) with
        ⟨e | client, events⟩
      · have hq := handshake_quicPhases ⟨bindAddrFor addr, obf⟩ addr budget (pace.quic i)
          (net.attempt i) (dialLoop obf budget net pace rest (i + 1) (failures ++ [e])).2
        rw [hr] at hq
        rw [dialLoop_lost hb hr]
        exact hq.trans (Nat.add_le_add_left (ih _ _) _)
      · have hq := handshake_quicPhases ⟨bindAddrFor addr, obf⟩ addr budget (pace.quic i)
          (net.attempt i) []
        rw [hr, List.append_nil] at hq
        rw [dialLoop_won hb hr]
        exact hq.trans (Nat.add_le_add_left (Nat.zero_le _) _)

/-- Whatever the constants are, the plan neither overruns nor starves, and the QUIC
handshakes of a dial stay within the budget. -/
theorem dial_plan_fits (handshake : Duration) (millis : ℕ) (hpos : 0 < millis)
    (hfits : handshake / fromMillis millis < 2 ^ 32) :
    (∀ candidateCount, ∃ n slice,
      dialPlanFor handshake (fromMillis millis) candidateCount = .ok (n, slice) ∧
      Fits handshake (fromMillis millis) candidateCount n slice) ∧
    ∀ (obf : Option Salamander) (net : Network ε) (pace : Pace) (candidates : List SocketAddr),
      ∃ r events,
        dialFor handshake (fromMillis millis) obf net pace candidates = .ok (r, events) ∧
        quicPhases events ≤ handshake := by
  have hl : 0 < fromMillis millis := Nat.mul_pos hpos (by decide)
  refine ⟨fun c => ⟨_, _, dialPlanFor_eq hpos hfits c, fitting_fits hl c⟩,
    fun obf net pace candidates => ?_⟩
  have hplan := dialPlanFor_eq hpos hfits candidates.length
  have hfit : Fits handshake (fromMillis millis) candidates.length _ _ :=
    fitting_fits hl candidates.length
  refine ⟨_, _, by rw [dialFor, hplan, ok_bind]; rfl, ?_⟩
  refine (dialLoop_quicPhases obf _ net pace _ 0 []).trans (Nat.le_trans ?_ hfit.total)
  exact Nat.mul_le_mul_right _ (List.length_take_le _ _)

/-- The plan and the dial as the code has them, for three candidates. -/
theorem dial_plan_fits_code :
    (∃ n slice, dialPlan 3 = .ok (n, slice) ∧ Fits handshakeTimeout minAttempt 3 n slice) ∧
    ∃ r events, dial none stalledSetup ⟨fromMillis 10, fun _ => fromMillis 85⟩
        [⟨.v4 1, 443⟩, ⟨.v4 2, 443⟩, ⟨.v4 3, 443⟩] = .ok (r, events) ∧
      quicPhases events ≤ handshakeTimeout := by
  refine ⟨(dial_plan_fits (ε := Unit) handshakeTimeout 250 (by decide) (by decide)).1 3, ?_⟩
  simp only [dial_eq]
  exact (dial_plan_fits handshakeTimeout 250 (by decide) (by decide)).2 _ _ _ _

end ConstructTransport.Dial
