import AtNode.Lib.Run
import Mathlib.Data.List.Induction

/-!
# What has held since an event

Some events raise a flag and some lower it. In a run the flag is up exactly when one of the events raised
it and none after that one lowered it, whatever else the machine does.
-/

namespace AtNode.Past

variable {σ ε : Type*} {step : σ → ε → σ} {raise lower : ε → Prop} {e : ε} {es : List ε}

/-- One of the events raises the flag, and none after it lowers it. -/
def Since (raise lower : ε → Prop) (es : List ε) : Prop :=
  ∃ before e after, es = before ++ e :: after ∧ raise e ∧ ∀ x ∈ after, ¬ lower x

@[simp] theorem since_nil : ¬ Since raise lower [] := by
  rintro ⟨before, e, after, h, -⟩
  simp at h

theorem since_concat :
    Since raise lower (es ++ [e]) ↔ raise e ∨ Since raise lower es ∧ ¬ lower e := by
  constructor
  · rintro ⟨before, x, after, h, hx, hafter⟩
    rcases List.eq_nil_or_concat' after with rfl | ⟨after, y, rfl⟩
    · obtain ⟨-, he⟩ := List.append_inj' h rfl
      obtain rfl : e = x := by simpa using he
      exact Or.inl hx
    · rw [← List.cons_append, ← List.append_assoc] at h
      obtain ⟨rfl, he⟩ := List.append_inj' h rfl
      obtain rfl : e = y := by simpa using he
      refine Or.inr ⟨⟨before, x, after, rfl, hx, fun z hz => ?_⟩, ?_⟩
      · exact hafter z (List.mem_append_left _ hz)
      · exact hafter e (by simp)
  · rintro (he | ⟨⟨before, x, after, rfl, hx, hafter⟩, he⟩)
    · exact ⟨es, e, [], rfl, he, by simp⟩
    · refine ⟨before, x, after ++ [e], by simp, hx, fun z hz => ?_⟩
      rcases List.mem_append.mp hz with hz | hz
      · exact hafter z hz
      · rwa [List.mem_singleton.mp hz]

/-- The flag as it is kept. -/
def flag (raise lower : ε → Prop) [DecidablePred raise] [DecidablePred lower] (es : List ε) : Bool :=
  es.foldl (fun up e => decide (raise e) || up && !decide (lower e)) false

theorem flag_iff [DecidablePred raise] [DecidablePred lower] :
    flag raise lower es = true ↔ Since raise lower es := by
  induction es using List.reverseRecOn with
  | nil => simp [flag]
  | append_singleton es e ih =>
    unfold flag at ih ⊢
    rw [List.foldl_append, since_concat, ← ih]
    simp

instance [DecidablePred raise] [DecidablePred lower] (es : List ε) : Decidable (Since raise lower es) :=
  decidable_of_iff _ flag_iff

/-- What a machine keeps as a flag says what has held since. -/
theorem iff_since (up : σ → Prop) {I : σ → Prop} {P : σ → ε → Prop}
    (hinv : ∀ s e, I s → P s e → I (step s e))
    (hup : ∀ s e, I s → P s e → (up (step s e) ↔ raise e ∨ up s ∧ ¬ lower e))
    {s : σ} (hs : I s) (h0 : ¬ up s) (hP : Run.Along step P s es) :
    up (Run.final step s es) ↔ Since raise lower es := by
  induction es using List.reverseRecOn with
  | nil => simpa using h0
  | append_singleton es e ih =>
    obtain ⟨hes, he⟩ := Run.along_append.mp hP
    have hi : I (Run.final step s es) := (Run.always_of_along hinv hs hes).final
    rw [Run.final_append, since_concat, ← ih hes]
    exact hup _ _ hi he.1

theorem Since.mono {raise' lower' : ε → Prop} (hr : ∀ e, raise e → raise' e)
    (hl : ∀ e, lower' e → lower e) (h : Since raise lower es) : Since raise' lower' es := by
  obtain ⟨before, e, after, rfl, he, hafter⟩ := h
  exact ⟨before, e, after, rfl, hr e he, fun x hx hlx => hafter x hx (hl x hlx)⟩

end AtNode.Past
