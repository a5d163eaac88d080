import Mathlib.Algebra.Group.Nat.Defs
import Mathlib.Data.List.Induction
import Mathlib.Tactic.Ring

/-!
# Numbers written in digits

`Denotes digit base s v` says that the text `s` is a row of one or more digits that stands for `v` in
a positional system; what is a digit, and of what value, is the parameter `digit`. `readDigits` is
the loop that reads one.
-/

namespace AtNode.Numeral

variable {α : Type*} {digit : α → Option ℕ} {base v d n : ℕ} {s : List α} {c : α}

inductive Denotes (digit : α → Option ℕ) (base : ℕ) : List α → ℕ → Prop
  | single {c : α} {d : ℕ} (hd : digit c = some d) : Denotes digit base [c] d
  | snoc {s : List α} {v : ℕ} {c : α} {d : ℕ} (hs : Denotes digit base s v) (hd : digit c = some d) :
      Denotes digit base (s ++ [c]) (base * v + d)

theorem Denotes.ne_nil (h : Denotes digit base s v) : s ≠ [] := by
  cases h <;> simp

theorem Denotes.digit_of_mem (h : Denotes digit base s v) : ∀ c ∈ s, (digit c).isSome := by
  induction h with
  | single hd => simp [hd]
  | snoc hs hd ih =>
    intro x hx
    rcases List.mem_append.mp hx with hx | hx
    · exact ih x hx
    · rw [List.mem_singleton.mp hx, hd]
      rfl

theorem denotes_snoc_iff (hs : s ≠ []) : Denotes digit base (s ++ [c]) n ↔
    ∃ v d, Denotes digit base s v ∧ digit c = some d ∧ n = base * v + d := by
  constructor
  · intro h
    generalize ht : s ++ [c] = t at h
    cases h with
    | single hd =>
      have hlen := congrArg List.length ht
      rw [List.length_append, List.length_singleton, List.length_singleton] at hlen
      exact absurd (List.length_eq_zero_iff.mp (Nat.succ.inj hlen)) hs
    | @snoc s' v' c' d' hs' hd =>
      obtain ⟨rfl, rfl⟩ := List.append_singleton_inj.mp ht
      exact ⟨v', d', hs', hd, rfl⟩
  · rintro ⟨v, d, hs, hd, rfl⟩
    exact .snoc hs hd

theorem denotes_singleton_iff : Denotes digit base [c] n ↔ digit c = some n := by
  constructor
  · intro h
    generalize ht : [c] = t at h
    cases h with
    | single hd =>
      cases ht
      exact hd
    | snoc hs hd =>
      exact absurd (List.append_singleton_inj.mp (ht : [] ++ [c] = _)).1.symm hs.ne_nil
  · exact .single

theorem denotes_append_iff {t : List α} (hs : s ≠ []) (ht : t ≠ []) :
    Denotes digit base (s ++ t) n ↔
      ∃ v w, Denotes digit base s v ∧ Denotes digit base t w ∧ n = base ^ t.length * v + w := by
  induction t using List.reverseRecOn generalizing n with
  | nil => exact absurd rfl ht
  | append_singleton t c ih =>
    rw [← List.append_assoc, denotes_snoc_iff (List.append_ne_nil_of_left_ne_nil hs _)]
    by_cases hnil : t = []
    · subst hnil
      simp only [List.append_nil, List.nil_append, denotes_singleton_iff, List.length_singleton,
        Nat.pow_one, exists_and_left]
    · simp only [ih hnil, denotes_snoc_iff hnil, List.length_append, List.length_singleton]
      constructor
      · rintro ⟨m, d, ⟨v, w, hv, hw, rfl⟩, hd, rfl⟩
        exact ⟨v, base * w + d, hv, ⟨w, d, hw, hd, rfl⟩, by rw [Nat.pow_succ]; ring⟩
      · rintro ⟨v, m, hv, ⟨w, d, hw, hd, rfl⟩, rfl⟩
        exact ⟨_, d, ⟨v, w, hv, hw, rfl⟩, hd, by rw [Nat.pow_succ]; ring⟩

theorem Denotes.lt_pow (h : Denotes digit base s v) (hbase : ∀ c d, digit c = some d → d < base) :
    v < base ^ s.length := by
  induction h with
  | @single c d hd => simpa using hbase c d hd
  | @snoc s v c d hs hd ih =>
    have hlt := hbase c d hd
    rw [List.length_append, List.length_singleton, Nat.pow_succ']
    calc base * v + d < base * v + base := Nat.add_lt_add_left hlt _
      _ = base * (v + 1) := (Nat.mul_succ base v).symm
      _ ≤ base * base ^ s.length := Nat.mul_le_mul_left base ih

/-- The loop over the digits. -/
def readDigits (digit : α → Option ℕ) (base : ℕ) (s : List α) : Option ℕ :=
  s.foldl (fun n c => n.bind fun n => (digit c).map (base * n + ·)) (some 0)

theorem readDigits_snoc (s : List α) (c : α) : readDigits digit base (s ++ [c]) =
    (readDigits digit base s).bind fun n => (digit c).map (base * n + ·) := by
  rw [readDigits, List.foldl_append]
  rfl

theorem denotes_iff : Denotes digit base s v ↔ s ≠ [] ∧ readDigits digit base s = some v := by
  induction s using List.reverseRecOn generalizing v with
  | nil => exact iff_of_false (fun h => h.ne_nil rfl) fun h => h.1 rfl
  | append_singleton s c ih =>
    have hne : s ++ [c] ≠ [] := List.append_ne_nil_of_right_ne_nil _ (List.cons_ne_nil _ _)
    rw [readDigits_snoc, and_iff_right hne]
    by_cases hs : s = []
    · subst hs
      rw [List.nil_append, denotes_singleton_iff, readDigits, List.foldl_nil, Option.bind_some]
      cases digit c <;> simp
    · simp only [denotes_snoc_iff hs, ih, hs, ne_eq, not_false_eq_true, true_and,
        Option.bind_eq_some_iff, Option.map_eq_some_iff]
      constructor
      · rintro ⟨w, d, hw, hd, rfl⟩
        exact ⟨w, hw, d, hd, rfl⟩
      · rintro ⟨w, hw, d, hd, rfl⟩
        exact ⟨w, d, hw, hd, rfl⟩

end AtNode.Numeral
