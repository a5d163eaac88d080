import Mathlib.Data.List.Basic

/-!
# Outputs left with a report

A log lists reports in the order in which they were sent, each with the output it went to. One
report `rest` means that nothing is pressed. An output is held by a log if some other report went to
it and no `rest` after that one; a log is released if it holds no output.
-/

namespace AtNode.Outputs

variable {ο ρ : Type*} {rest : ρ}

def Held (rest : ρ) (b : ο) : List (ο × ρ) → Prop
  | [] => False
  | (c, r) :: log => (c = b ∧ r ≠ rest ∧ (b, rest) ∉ log) ∨ Held rest b log

def Released (rest : ρ) (log : List (ο × ρ)) : Prop := ∀ b, ¬ Held rest b log

@[simp] theorem not_held_nil (b : ο) : ¬ Held rest b [] := id

@[simp] theorem released_nil : Released rest ([] : List (ο × ρ)) := fun _ => id

/-- One report more: it decides for its own output and changes nothing for the others. -/
theorem held_snoc (b c : ο) (r : ρ) (log : List (ο × ρ)) :
    Held rest b (log ++ [(c, r)]) ↔
      (c = b ∧ r ≠ rest) ∨ (Held rest b log ∧ ¬ (c = b ∧ r = rest)) := by
  induction log with
  | nil => simp [Held]
  | cons e log ih =>
    obtain ⟨d, q⟩ := e
    have hmem : (b, rest) ∈ log ++ [(c, r)] ↔ (b, rest) ∈ log ∨ (c = b ∧ r = rest) := by
      simp only [List.mem_append, List.mem_singleton, Prod.mk.injEq, eq_comm]
    simp only [List.cons_append, Held, ih, hmem]
    grind

theorem held_snoc_rest (b c : ο) (log : List (ο × ρ)) :
    Held rest b (log ++ [(c, rest)]) ↔ Held rest b log ∧ c ≠ b := by
  simp only [held_snoc, ne_eq, not_true_eq_false, and_false, and_true, false_or]

/-- Sending `rest` to `c` releases a log exactly when nothing but `c` is held. -/
theorem released_snoc_rest (c : ο) (log : List (ο × ρ)) :
    Released rest (log ++ [(c, rest)]) ↔ ∀ b, Held rest b log → b = c := by
  unfold Released
  refine forall_congr' fun b => ?_
  rw [held_snoc_rest, not_and, not_not, eq_comm]

theorem held_append_rest (b : ο) (os : List ο) (log : List (ο × ρ)) :
    Held rest b (log ++ os.map fun c => (c, rest)) ↔ Held rest b log ∧ b ∉ os := by
  induction os generalizing log with
  | nil => simp
  | cons c os ih =>
    rw [List.map_cons, List.append_cons, ih, held_snoc_rest, List.mem_cons, not_or, and_assoc,
      ne_comm]

/-- Sending `rest` to every held output releases a log. -/
theorem released_append_rest {os : List ο} {log : List (ο × ρ)}
    (h : ∀ b, Held rest b log → b ∈ os) : Released rest (log ++ os.map fun c => (c, rest)) := by
  intro b hb
  obtain ⟨hheld, hmem⟩ := (held_append_rest b os log).mp hb
  exact hmem (h b hheld)

/-- Forgetting the reports of some outputs holds no other one. -/
theorem Held.of_filter {b : ο} {p : ο → Bool} {log : List (ο × ρ)}
    (h : Held rest b (log.filter fun e => p e.1)) : Held rest b log := by
  induction log with
  | nil => exact h
  | cons e log ih =>
    obtain ⟨c, r⟩ := e
    by_cases hp : p c = true
    · rw [List.filter_cons_of_pos (p := fun e : ο × ρ => p e.1) hp] at h
      rcases h with ⟨rfl, hr, hmem⟩ | h
      · exact Or.inl ⟨rfl, hr, fun hin => hmem (List.mem_filter.mpr ⟨hin, hp⟩)⟩
      · exact Or.inr (ih h)
    · rw [List.filter_cons_of_neg (p := fun e : ο × ρ => p e.1) hp] at h
      exact Or.inr (ih h)

/-- A held output appears in the log. -/
theorem Held.mem {b : ο} {log : List (ο × ρ)} (h : Held rest b log) : ∃ r, (b, r) ∈ log := by
  induction log with
  | nil => exact absurd h (not_held_nil b)
  | cons e log ih =>
    obtain ⟨c, r⟩ := e
    rcases h with ⟨rfl, -, -⟩ | h
    · exact ⟨r, List.mem_cons_self⟩
    · obtain ⟨q, hq⟩ := ih h
      exact ⟨q, List.mem_cons_of_mem _ hq⟩

end AtNode.Outputs
