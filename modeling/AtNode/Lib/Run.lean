import Mathlib.Data.List.Basic

/-!
# Runs of an event-driven machine

A deterministic machine is a function `step : σ → ε → σ`. `Always step Q s es` says that every
state of the run of `es` from `s` satisfies `Q`, the first one included; `Along step P s es` says
that every event of the run meets `P` in the state in which it is taken.

The rules below turn a statement about one step into the corresponding statement about a run. The
last one gives an equivalence: if an invariant survives exactly the steps that meet `P`, and a step
that does not meet `P` breaks the required property at once, the property holds throughout a run
if and only if `P` is met along it.
-/

namespace AtNode.Run

variable {σ ε ο : Type*} (step : σ → ε → σ)

def Along (P : σ → ε → Prop) : σ → List ε → Prop
  | _, [] => True
  | s, e :: es => P s e ∧ Along P (step s e) es

def Always (Q : σ → Prop) : σ → List ε → Prop
  | s, [] => Q s
  | s, e :: es => Q s ∧ Always Q (step s e) es

def final (s : σ) (es : List ε) : σ := es.foldl step s

variable {step}

instance Along.decide {P : σ → ε → Prop} [∀ s e, Decidable (P s e)] :
    ∀ s es, Decidable (Along step P s es)
  | _, [] => isTrue trivial
  | s, e :: es => @instDecidableAnd _ _ _ (Along.decide (step s e) es)

@[simp] theorem along_nil {P : σ → ε → Prop} {s : σ} : Along step P s [] := trivial

@[simp] theorem along_cons {P : σ → ε → Prop} {s : σ} {e : ε} {es : List ε} :
    Along step P s (e :: es) ↔ P s e ∧ Along step P (step s e) es := Iff.rfl

@[simp] theorem always_nil {Q : σ → Prop} {s : σ} : Always step Q s [] ↔ Q s := Iff.rfl

@[simp] theorem always_cons {Q : σ → Prop} {s : σ} {e : ε} {es : List ε} :
    Always step Q s (e :: es) ↔ Q s ∧ Always step Q (step s e) es := Iff.rfl

@[simp] theorem final_nil {s : σ} : final step s [] = s := rfl

@[simp] theorem final_cons {s : σ} {e : ε} {es : List ε} :
    final step s (e :: es) = final step (step s e) es := rfl

theorem final_append {s : σ} {es fs : List ε} :
    final step s (es ++ fs) = final step (final step s es) fs := List.foldl_append

theorem along_append {P : σ → ε → Prop} {s : σ} {es fs : List ε} :
    Along step P s (es ++ fs) ↔ Along step P s es ∧ Along step P (final step s es) fs := by
  induction es generalizing s with
  | nil => simp
  | cons e es ih => simp [ih, and_assoc]

theorem Along.mono {P P' : σ → ε → Prop} (h : ∀ s e, P s e → P' s e) {s : σ} {es : List ε}
    (ha : Along step P s es) : Along step P' s es := by
  induction es generalizing s with
  | nil => trivial
  | cons e es ih => exact ⟨h s e ha.1, ih ha.2⟩

theorem Along.and {P P' : σ → ε → Prop} {s : σ} {es : List ε} (h : Along step P s es)
    (h' : Along step P' s es) : Along step (fun s e => P s e ∧ P' s e) s es := by
  induction es generalizing s with
  | nil => trivial
  | cons e es ih => exact ⟨⟨h.1, h'.1⟩, ih h.2 h'.2⟩

theorem Always.head {Q : σ → Prop} {s : σ} {es : List ε} (h : Always step Q s es) : Q s := by
  cases es with
  | nil => exact h
  | cons e es => exact h.1

theorem Always.final {Q : σ → Prop} {s : σ} {es : List ε} (h : Always step Q s es) :
    Q (final step s es) := by
  induction es generalizing s with
  | nil => exact h
  | cons e es ih => exact ih h.2

theorem Always.mono {Q Q' : σ → Prop} (h : ∀ s, Q s → Q' s) {s : σ} {es : List ε}
    (ha : Always step Q s es) : Always step Q' s es := by
  induction es generalizing s with
  | nil => exact h s ha
  | cons e es ih => exact ⟨h s ha.1, ih ha.2⟩

/-- An invariant that every step meeting `P` preserves holds throughout a run that meets `P`. -/
theorem always_of_along {I : σ → Prop} {P : σ → ε → Prop}
    (hstep : ∀ s e, I s → P s e → I (step s e)) {s : σ} {es : List ε}
    (hs : I s) (hP : Along step P s es) : Always step I s es := by
  induction es generalizing s with
  | nil => exact hs
  | cons e es ih => exact ⟨hs, ih (hstep s e hs hP.1) hP.2⟩

/-- A step property that follows from the invariant and `P` holds along a run that meets `P`. -/
theorem along_of_inv {I : σ → Prop} {P P' : σ → ε → Prop}
    (hstep : ∀ s e, I s → P s e → I (step s e)) (hP' : ∀ s e, I s → P s e → P' s e)
    {s : σ} {es : List ε} (hs : I s) (hP : Along step P s es) : Along step P' s es := by
  induction es generalizing s with
  | nil => trivial
  | cons e es ih => exact ⟨hP' s e hs hP.1, ih (hstep s e hs hP.1) hP.2⟩

/-- A step property that follows from an invariant of every step holds along every run. -/
theorem along_of_step {I : σ → Prop} {P : σ → ε → Prop} (hstep : ∀ s e, I s → I (step s e))
    (hP : ∀ s e, I s → P s e) {s : σ} {es : List ε} (hs : I s) : Along step P s es := by
  induction es generalizing s with
  | nil => trivial
  | cons e es ih => exact ⟨hP s e hs, ih (hstep s e hs)⟩

/-- Under an invariant of every step, conditions that agree are met along the same runs. -/
theorem along_iff_of_inv {I : σ → Prop} {P P' : σ → ε → Prop}
    (hstep : ∀ s e, I s → I (step s e)) (h : ∀ s e, I s → (P s e ↔ P' s e))
    {s : σ} {es : List ε} (hs : I s) : Along step P s es ↔ Along step P' s es :=
  ⟨along_of_inv (fun s e hi _ => hstep s e hi) (fun s e hi => (h s e hi).mp) hs,
    along_of_inv (fun s e hi _ => hstep s e hi) (fun s e hi => (h s e hi).mpr) hs⟩

theorem always_of_step {I : σ → Prop} (hstep : ∀ s e, I s → I (step s e)) {s : σ} {es : List ε}
    (hs : I s) : Always step I s es := by
  induction es generalizing s with
  | nil => exact hs
  | cons e es ih => exact ⟨hs, ih (hstep s e hs)⟩

/-- The exact-condition rule: `Q` holds throughout the run if and only if `P` is met along it. -/
theorem always_iff_along {I Q : σ → Prop} {P : σ → ε → Prop} (hQ : ∀ s, I s → Q s)
    (hgood : ∀ s e, I s → P s e → I (step s e))
    (hbad : ∀ s e, I s → ¬ P s e → ¬ Q (step s e)) {s : σ} {es : List ε} (hs : I s) :
    Always step Q s es ↔ Along step P s es := by
  induction es generalizing s with
  | nil => exact ⟨fun _ => trivial, fun _ => hQ s hs⟩
  | cons e es ih =>
    by_cases hP : P s e
    · simp only [always_cons, along_cons, hP, true_and, hQ s hs, ih (hgood s e hs hP)]
    · constructor
      · intro h
        exact absurd h.2.head (hbad s e hs hP)
      · intro h
        exact absurd h.1 hP

/-- The same in runs that meet `E`. -/
theorem always_iff_along_of_along {I Q : σ → Prop} {E P : σ → ε → Prop} (hQ : ∀ s, I s → Q s)
    (hgood : ∀ s e, I s → E s e → P s e → I (step s e))
    (hbad : ∀ s e, I s → E s e → ¬ P s e → ¬ Q (step s e)) {s : σ} {es : List ε} (hs : I s)
    (hE : Along step E s es) : Always step Q s es ↔ Along step P s es := by
  induction es generalizing s with
  | nil => exact ⟨fun _ => trivial, fun _ => hQ s hs⟩
  | cons e es ih =>
    by_cases hP : P s e
    · simp only [always_cons, along_cons, hP, true_and, hQ s hs, ih (hgood s e hs hE.1 hP) hE.2]
    · constructor
      · intro h
        exact absurd h.2.head (hbad s e hs hE.1 hP)
      · intro h
        exact absurd h.1 hP

end AtNode.Run
