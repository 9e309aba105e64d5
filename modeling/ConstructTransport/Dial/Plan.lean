import ConstructTransport.Basic.Checked
import ConstructTransport.Datagram.Salamander
import ConstructTransport.Datagram.Udp
import Mathlib.Order.Bounds.Defs

/-! What the client decides before it dials: its time budgets, which addresses to
try and how long each, and the socket to try from. A duration is a number of
nanoseconds. -/

namespace ConstructTransport.Dial

open Checked Datagram

abbrev Duration := ℕ

def fromMillis (millis : ℕ) : Duration := millis * 1000000

/-- `Duration::as_millis`, which truncates. -/
def asMillis (d : Duration) : ℕ := d / 1000000

def connectBudget : Duration := fromMillis 1500

def resolveTimeout : Duration := fromMillis 500

/-- `HANDSHAKE_TIMEOUT`, a saturating difference. -/
def handshakeTimeout : Duration := connectBudget - resolveTimeout

def minAttempt : Duration := fromMillis 250

def migrationProofBudget : Duration := connectBudget

def migrationPollInterval : Duration := fromMillis 10

structure SocketRecipe where
  bind : SocketAddr
  obf : Option Salamander
  deriving DecidableEq, Repr

def bindAddrFor (peer : SocketAddr) : SocketAddr :=
  match peer.ip with
  | .v4 _ => ⟨.v4 0, 0⟩
  | .v6 _ => ⟨.v6 0, 0⟩

def dialCandidates (addrs : List SocketAddr) : List SocketAddr :=
  addrs.foldl (fun out addr => if out.contains addr then out else out ++ [addr]) []

/-- The body of `dial_plan`, for any handshake budget and least attempt. -/
def dialPlanFor (handshake least : Duration) (candidateCount : ℕ) :
    Except Panic (ℕ × Duration) := do
  let fits ← divide (asMillis handshake) (asMillis least)
  let maxFits := max fits 1 % 2 ^ 64
  let n := min (max candidateCount 1) maxFits
  let slice ← divide handshake (n % 2 ^ 32)
  return (n, slice)

def dialPlan (candidateCount : ℕ) : Except Panic (ℕ × Duration) :=
  dialPlanFor handshakeTimeout minAttempt candidateCount

/-! ### The plan -/

/-- How many addresses are dialed. -/
def attempts (candidateCount : ℕ) : ℕ := min (max candidateCount 1) 4

def slice (candidateCount : ℕ) : Duration := handshakeTimeout / attempts candidateCount

theorem attempts_mul_slice_le (candidateCount : ℕ) :
    attempts candidateCount * slice candidateCount ≤ handshakeTimeout := Nat.mul_div_le _ _

/-- Resolution and the handshakes share the whole budget. -/
theorem resolveTimeout_add_handshakeTimeout :
    resolveTimeout + handshakeTimeout = connectBudget := by decide

/-! ### The plan for any budget -/

/-- What a plan owes its caller. -/
structure Fits (handshake least : Duration) (candidateCount n : ℕ) (slice : Duration) : Prop where
  pos : 1 ≤ n
  le_count : n ≤ max candidateCount 1
  total : n * slice ≤ handshake
  left : handshake - n * slice < n
  least_le : least ≤ handshake → least ≤ slice
  whole : candidateCount ≤ 1 ∨ handshake < 2 * least → slice = handshake
  greatest : IsGreatest {k | 1 ≤ k ∧ k ≤ max candidateCount 1 ∧ k * least ≤ handshake} n ∨
    (∀ k, 1 ≤ k → k ≤ max candidateCount 1 → ¬k * least ≤ handshake) ∧ n = 1

/-- How many attempts fit, one at the least. -/
def fitting (handshake least : Duration) (candidateCount : ℕ) : ℕ :=
  min (max candidateCount 1) (max (handshake / least) 1)

section Any

variable {handshake least : Duration} {candidateCount : ℕ}

theorem fitting_pos (handshake least : Duration) (candidateCount : ℕ) :
    1 ≤ fitting handshake least candidateCount :=
  Nat.le_min.mpr ⟨Nat.le_max_right _ _, Nat.le_max_right _ _⟩

/-- Counts in whole milliseconds are counts in nanoseconds. -/
theorem asMillis_div (handshake : Duration) (millis : ℕ) :
    asMillis handshake / asMillis (fromMillis millis) = handshake / fromMillis millis := by
  have hm : asMillis (fromMillis millis) = millis := Nat.mul_div_cancel _ (by decide)
  rw [hm, asMillis, fromMillis, Nat.div_div_eq_div_mul, Nat.mul_comm]

theorem dialPlanFor_eq {millis : ℕ} (hpos : 0 < millis)
    (hfits : handshake / fromMillis millis < 2 ^ 32) (candidateCount : ℕ) :
    dialPlanFor handshake (fromMillis millis) candidateCount =
      .ok (fitting handshake (fromMillis millis) candidateCount,
        handshake / fitting handshake (fromMillis millis) candidateCount) := by
  have hm : asMillis (fromMillis millis) ≠ 0 := by
    rw [asMillis, fromMillis, Nat.mul_div_cancel _ (by decide)]
    omega
  have hlt : max (handshake / fromMillis millis) 1 < 2 ^ 32 := Nat.max_lt.mpr ⟨hfits, by decide⟩
  have hmax : max (handshake / fromMillis millis) 1 % 2 ^ 64 =
      max (handshake / fromMillis millis) 1 := Nat.mod_eq_of_lt (hlt.trans (by decide))
  have hn : fitting handshake (fromMillis millis) candidateCount % 2 ^ 32 =
      fitting handshake (fromMillis millis) candidateCount :=
    Nat.mod_eq_of_lt ((Nat.min_le_right _ _).trans_lt hlt)
  have hpos' := fitting_pos handshake (fromMillis millis) candidateCount
  rw [dialPlanFor, divide_ok hm, ok_bind, asMillis_div]
  simp only [hmax]
  rw [show min (max candidateCount 1) (max (handshake / fromMillis millis) 1) =
    fitting handshake (fromMillis millis) candidateCount from rfl, hn, divide_ok (by omega), ok_bind]
  rfl

theorem dialPlan_eq (candidateCount : ℕ) :
    dialPlan candidateCount = .ok (attempts candidateCount, slice candidateCount) := by
  -- four attempts fit the code's own constants
  have hn : fitting handshakeTimeout minAttempt candidateCount = attempts candidateCount := rfl
  have h := dialPlanFor_eq (by decide : 0 < 250)
    (by decide : handshakeTimeout / fromMillis 250 < 2 ^ 32) candidateCount
  rwa [← minAttempt, hn] at h

/-- Where one attempt fits, the plan has the greatest count that does. -/
theorem fitting_isGreatest (hl : 0 < least) (hle : least ≤ handshake) (candidateCount : ℕ) :
    IsGreatest {k | 1 ≤ k ∧ k ≤ max candidateCount 1 ∧ k * least ≤ handshake}
      (fitting handshake least candidateCount) := by
  have hone : max (handshake / least) 1 = handshake / least :=
    Nat.max_eq_left (Nat.div_pos hle hl)
  constructor
  · refine ⟨fitting_pos _ _ _, Nat.min_le_left _ _, ?_⟩
    refine (Nat.le_div_iff_mul_le hl).mp ?_
    rw [← hone]
    exact Nat.min_le_right _ _
  · rintro k ⟨-, hk, hfit⟩
    refine Nat.le_min.mpr ⟨hk, ?_⟩
    rw [hone]
    exact (Nat.le_div_iff_mul_le hl).mpr hfit

/-- Where the whole budget is shorter than one attempt, or than two, there is one. -/
theorem fitting_eq_one (h : candidateCount ≤ 1 ∨ handshake < 2 * least) (hl : 0 < least) :
    fitting handshake least candidateCount = 1 := by
  refine Nat.le_antisymm ?_ (fitting_pos _ _ _)
  rcases h with hc | hs
  · exact (Nat.min_le_left _ _).trans (Nat.max_le.mpr ⟨hc, le_rfl⟩)
  · have hdiv : handshake / least < 2 := (Nat.div_lt_iff_lt_mul hl).mpr hs
    exact (Nat.min_le_right _ _).trans (Nat.max_le.mpr ⟨Nat.le_of_lt_succ hdiv, le_rfl⟩)

theorem fitting_fits (hl : 0 < least) (candidateCount : ℕ) :
    Fits handshake least candidateCount (fitting handshake least candidateCount)
      (handshake / fitting handshake least candidateCount) where
  pos := fitting_pos _ _ _
  le_count := Nat.min_le_left _ _
  total := Nat.mul_div_le _ _
  left := by
    rw [← Nat.mod_eq_sub_mul_div]
    exact Nat.mod_lt _ (fitting_pos _ _ _)
  least_le hle := by
    refine (Nat.le_div_iff_mul_le (fitting_pos _ _ _)).mpr ?_
    rw [Nat.mul_comm]
    exact (fitting_isGreatest hl hle candidateCount).1.2.2
  whole h := by rw [fitting_eq_one h hl, Nat.div_one]
  greatest := by
    by_cases hle : least ≤ handshake
    · exact .inl (fitting_isGreatest hl hle candidateCount)
    · have hshort : handshake < 2 * least :=
        (Nat.lt_of_not_le hle).trans_le (Nat.le_mul_of_pos_left least (by decide))
      refine .inr ⟨fun k hk _ hfit => hle ?_, fitting_eq_one (.inr hshort) hl⟩
      exact (Nat.le_mul_of_pos_left least hk).trans hfit

end Any

end ConstructTransport.Dial
