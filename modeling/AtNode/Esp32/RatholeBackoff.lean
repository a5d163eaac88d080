import AtNode.Lib.Run
import AtNode.Esp32.Cfg

/-!
# The reconnect backoff of the rathole manager

Every turn of the manager loop that attempts a connection ends in a wait of `backoff_ms`. The wait
doubles from one attempt to the next, up to 30 s; a session that stayed up for more than 3 s resets
it. The base of the first wait is read before the attempt, from the larger of the configured retry
and the wait so far, so a session that comes behind a long run of failures does not bring it back to
the configured value.
-/

namespace AtNode.Rathole

open Run Config

variable {retry : ℕ}

def retryS (val : Text) : ℕ := (parseUnsigned u8Max val).getD 1

/-- A handshake that failed, or a session and whether it stayed up for more than 3 s. -/
inductive Attempted where
  | failed
  | session (healthy : Bool)

/-- A turn of the manager loop. -/
inductive Turn where
  | parked
  | linkDown
  | lowHeap
  | notConfigured
  | attempt (o : Attempted)

def Turn.healthy : Turn → Bool
  | .attempt (.session true) => true
  | _ => false

def backoffCap : ℕ := 30000

/-- `backoff_ms` at the end of a turn of the loop of `task`. -/
def turn (retry backoff : ℕ) : Turn → ℕ
  | .parked => 0
  | .linkDown | .lowHeap | .notConfigured => backoff
  | .attempt o =>
    let base := max backoff (retry * 1000)
    let backoff := match o with
      | .failed => backoff
      | .session healthy => if healthy then 0 else backoff
    min (if backoff = 0 then base else backoff * 2) backoffCap

/-- `waits` counts the waits since the last reset. -/
structure Backoff where
  backoffMs : ℕ
  waits : ℕ

def backoffStep (retry : ℕ) (b : Backoff) (t : Turn) : Backoff where
  backoffMs := turn retry b.backoffMs t
  waits :=
    match t with
    | .parked => 0
    | .linkDown | .lowHeap | .notConfigured => b.waits
    | .attempt _ => if t.healthy then 1 else b.waits + 1

/-- The wait behind the `k`-th attempt since the last reset. -/
def nominal (retry k : ℕ) : ℕ := min (retry * 1000 * 2 ^ k) backoffCap

def BackoffLaw (retry : ℕ) (b : Backoff) : Prop :=
  ∀ k, b.waits = k + 1 → b.backoffMs = nominal retry k

/-- A healthy session comes before the second wait since the last reset, or the first wait is the
longest one already. -/
def EarlySession (retry : ℕ) (b : Backoff) (t : Turn) : Prop :=
  t.healthy = true → b.waits ≤ 1 ∨ backoffCap ≤ retry * 1000

theorem nominal_pos (hr : 1 ≤ retry) (k : ℕ) : 0 < nominal retry k := by
  have hpow : 0 < 2 ^ k := Nat.two_pow_pos k
  have hmul : 0 < retry * 1000 * 2 ^ k := Nat.mul_pos (Nat.mul_pos hr (by decide)) hpow
  exact Nat.lt_min.mpr ⟨hmul, by decide⟩

theorem nominal_zero (retry : ℕ) : nominal retry 0 = min (retry * 1000) backoffCap := by
  rw [nominal, Nat.pow_zero, Nat.mul_one]

/-- The wait doubles up to the cap. -/
theorem nominal_succ (retry k : ℕ) :
    nominal retry (k + 1) = min (nominal retry k * 2) backoffCap := by
  rw [nominal, nominal, Nat.pow_succ, ← Nat.mul_assoc]
  omega

/-- From the second wait on the wait is longer than the configured one. -/
theorem lt_nominal_succ (hr : 1 ≤ retry) (h : retry * 1000 < backoffCap) (k : ℕ) :
    retry * 1000 < nominal retry (k + 1) := by
  have hpow : 2 ≤ 2 ^ (k + 1) := by
    rw [Nat.pow_succ]
    have := Nat.two_pow_pos k
    omega
  have hmul : retry * 1000 * 2 ≤ retry * 1000 * 2 ^ (k + 1) := Nat.mul_le_mul_left _ hpow
  exact Nat.lt_min.mpr ⟨by omega, h⟩

structure BackoffInv (retry : ℕ) (b : Backoff) : Prop where
  fresh : b.waits = 0 → b.backoffMs = 0
  law : BackoffLaw retry b

theorem backoff_goes_on (hr : 1 ≤ retry) {b : Backoff} (hi : BackoffInv retry b) :
    min (if b.backoffMs = 0 then max b.backoffMs (retry * 1000) else b.backoffMs * 2) backoffCap =
      nominal retry b.waits := by
  cases hw : b.waits with
  | zero => rw [hi.fresh hw, if_pos rfl, Nat.zero_max, nominal_zero]
  | succ k =>
    have hlaw := hi.law k hw
    have hpos := nominal_pos hr k
    rw [if_neg (by omega), hlaw, nominal_succ]

/-- Behind a healthy session the wait is the first one again if and only if the session was
early. -/
theorem backoff_reset_iff (hr : 1 ≤ retry) {b : Backoff} (hi : BackoffInv retry b) :
    min (max b.backoffMs (retry * 1000)) backoffCap = nominal retry 0 ↔
      b.waits ≤ 1 ∨ backoffCap ≤ retry * 1000 := by
  rw [nominal_zero]
  by_cases hcap : backoffCap ≤ retry * 1000
  · exact iff_of_true (by omega) (Or.inr hcap)
  cases hw : b.waits with
  | zero =>
    rw [hi.fresh hw, Nat.zero_max]
    exact iff_of_true rfl (Or.inl (Nat.zero_le 1))
  | succ k =>
    have hlaw := hi.law k hw
    cases k with
    | zero =>
      rw [hlaw, nominal_zero]
      exact iff_of_true (by omega) (Or.inl (Nat.le_refl 1))
    | succ k =>
      have hlt := lt_nominal_succ hr (Nat.lt_of_not_le hcap) k
      rw [hlaw]
      exact iff_of_false (by unfold nominal at *; omega) (by omega)

theorem law_of_wait {b' : Backoff} {n : ℕ} (hw : b'.waits = n + 1) :
    BackoffLaw retry b' ↔ b'.backoffMs = nominal retry n := by
  constructor
  · intro h
    exact h n hw
  · intro h k hk
    have hkn : k = n := by omega
    rw [hkn, h]

theorem backoffLaw_step (hr : 1 ≤ retry) {b : Backoff} (hi : BackoffInv retry b) (t : Turn) :
    BackoffLaw retry (backoffStep retry b t) ↔ EarlySession retry b t := by
  cases t with
  | parked => exact iff_of_true nofun nofun
  | linkDown | lowHeap | notConfigured => exact iff_of_true hi.law nofun
  | attempt o =>
    cases o with
    | failed => exact iff_of_true ((law_of_wait rfl).mpr (backoff_goes_on hr hi)) nofun
    | session healthy =>
      cases healthy with
      | false => exact iff_of_true ((law_of_wait rfl).mpr (backoff_goes_on hr hi)) nofun
      | true =>
        refine (law_of_wait rfl).trans ((backoff_reset_iff hr hi).trans ?_)
        exact ⟨fun h _ => h, fun h => h rfl⟩

theorem fresh_step {b : Backoff} (hi : BackoffInv retry b) (t : Turn)
    (hw : (backoffStep retry b t).waits = 0) : (backoffStep retry b t).backoffMs = 0 := by
  cases t with
  | parked => rfl
  | linkDown | lowHeap | notConfigured => exact hi.fresh hw
  | attempt o =>
    exfalso
    change (if (Turn.attempt o).healthy then 1 else b.waits + 1) = 0 at hw
    split at hw
    · cases hw
    · cases hw

theorem retryS_admitted {raw val : Text} (h : validate .tunnelRetry raw = .ok val) :
    1 ≤ retryS val := by
  obtain ⟨v, h1, h60, rfl⟩ := validateInt_ok h
  have hparse := parse_toDigits_retry v (List.mem_range.mpr (Nat.lt_succ_of_le h60))
  rw [retryS, hparse]
  exact h1

/-- For every retry the registry takes, the waits follow the law throughout a run if and only if
every healthy session comes early. -/
theorem backoff_law_iff {raw val : Text} (h : validate .tunnelRetry raw = .ok val)
    (turns : List Turn) :
    Always (backoffStep (retryS val)) (BackoffLaw (retryS val)) ⟨0, 0⟩ turns ↔
      Along (backoffStep (retryS val)) (EarlySession (retryS val)) ⟨0, 0⟩ turns := by
  have hr := retryS_admitted h
  have hstart : BackoffInv (retryS val) ⟨0, 0⟩ := ⟨fun _ => rfl, nofun⟩
  refine always_iff_along (fun b hi => hi.law) ?_ ?_ hstart
  · intro b t hi hP
    exact ⟨fresh_step hi t, (backoffLaw_step hr hi t).mpr hP⟩
  · intro b t hi hP hlaw
    exact hP ((backoffLaw_step hr hi t).mp hlaw)

/-- A healthy session first, then two failures, at a retry of one second. -/
theorem early_session_law :
    Always (backoffStep (retryS ['1'])) (BackoffLaw (retryS ['1'])) ⟨0, 0⟩
      [.attempt (.session true), .attempt .failed, .attempt .failed] := by
  have hval : validate .tunnelRetry ['1'] = .ok ['1'] := by decide +kernel
  exact (backoff_law_iff hval _).mpr ⟨fun _ => Or.inl (Nat.zero_le 1), nofun, nofun, trivial⟩

/-- Six failures bring the wait to 30 s, and it stays there behind a healthy session. -/
theorem wait_not_reset :
    ¬ BackoffLaw (retryS ['1']) (final (backoffStep (retryS ['1'])) ⟨0, 0⟩
      [.attempt .failed, .attempt .failed, .attempt .failed, .attempt .failed, .attempt .failed,
        .attempt .failed, .attempt (.session true)]) := by
  intro h
  have hwait := h 0 (by decide +kernel)
  exact absurd hwait (by decide +kernel)

end AtNode.Rathole
