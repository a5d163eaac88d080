import Mathlib.Data.Nat.ModEq

/-!
# A counter with an alarm

A counter runs from 0 to `P - 1` and begins again. It reads `t % P` after `t` ticks, and its alarm
rings when it reads the value the alarm is set to, which may also be a value it never reads.
-/

namespace AtNode.CyclicCounter

variable {P start delay trigger t : ℕ}

/-- The ticks from a reading to the next time the counter reads `b`. -/
def distance (P a b : ℕ) : ℕ := (b + (P - a)) % P

/-- The value stands for the instant on the counter. -/
structure Timely (P t trigger : ℕ) : Prop where
  lt : trigger < P
  modEq : trigger ≡ t [MOD P]

/-- Counted from `start`, the alarm rings after `delay` ticks for the first time. -/
structure FirstRing (P start delay trigger : ℕ) : Prop where
  rings : (start + delay) % P = trigger
  not_before : ∀ k, 0 < k → k < delay → (start + k) % P ≠ trigger

theorem distance_of_lt {a b : ℕ} (hb : b < a) (ha : a < P) : distance P a b = b + (P - a) :=
  Nat.mod_eq_of_lt (by omega)

theorem distance_of_le {a b : ℕ} (h : a ≤ b) (hb : b < P) : distance P a b = b - a := by
  have hsum : b + (P - a) = b - a + P := by omega
  rw [distance, hsum, Nat.add_mod_right, Nat.mod_eq_of_lt (by omega)]

theorem distance_lt {a b : ℕ} (hb : b < P) : distance P a b < P := Nat.mod_lt _ (by omega)

theorem add_distance_modEq {a b : ℕ} (ha : a < P) : a + distance P a b ≡ b [MOD P] := by
  have hmod : a + distance P a b ≡ a + (b + (P - a)) [MOD P] := (Nat.mod_modEq _ _).add_left a
  have hsum : a + (b + (P - a)) = b + P := by omega
  rw [hsum] at hmod
  exact hmod.trans (Nat.ModEq.add_right_cancel' 0 (by simp))

theorem timely_iff (hP : 0 < P) : Timely P t trigger ↔ trigger = t % P := by
  constructor
  · rintro ⟨hlt, hmod⟩
    rw [← hmod, Nat.mod_eq_of_lt hlt]
  · rintro rfl
    exact ⟨Nat.mod_lt t hP, Nat.mod_modEq t P⟩

theorem timely_self (h : t < P) : Timely P t t := ⟨h, rfl⟩

theorem Timely.congr {u : ℕ} (h : Timely P t trigger) (hmod : t ≡ u [MOD P]) : Timely P u trigger :=
  ⟨h.lt, h.modEq.trans hmod⟩

/-- A value that stands for an instant at most one round away rings there, and no other does. -/
theorem firstRing_iff_timely (hP : 0 < P) (hdelay : delay ≤ P) :
    FirstRing P start delay trigger ↔ Timely P (start + delay) trigger := by
  rw [timely_iff hP]
  constructor
  · exact fun h => h.rings.symm
  · rintro rfl
    refine ⟨rfl, fun k hk hlt heq => ?_⟩
    have hmod : k ≡ delay [MOD P] := Nat.ModEq.add_left_cancel' start heq
    have hdvd : P ∣ delay - k := (Nat.modEq_iff_dvd' hlt.le).mp hmod
    exact absurd (Nat.le_of_dvd (Nat.sub_pos_of_lt hlt) hdvd) (by omega)

end AtNode.CyclicCounter
