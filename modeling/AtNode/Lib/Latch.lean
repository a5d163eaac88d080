import Mathlib.Data.List.Basic

/-!
# A flag that messages set and reset

A stream of messages drives a flag: some reset it, some set it, the others leave it. At the end the
flag is down if and only if a reset answered the flag that was up and every message that set it.
-/

namespace AtNode.Latch

variable {α : Type*} {reset set : α → Bool} {a : α} {l : List α} {up : Bool}

def latch (reset set : α → Bool) (up : Bool) (a : α) : Bool :=
  if reset a then false else if set a then true else up

/-- Every message of the list that sets the flag comes with a reset, in itself or behind it. -/
def Answered (reset set : α → Bool) (l : List α) : Prop :=
  ∀ before a behind, l = before ++ a :: behind → set a = true →
    reset a = true ∨ ∃ b ∈ behind, reset b = true

theorem answered_nil : Answered reset set ([] : List α) := by
  intro before a behind h
  cases before with
  | nil => cases h
  | cons b before => cases h

theorem answered_cons : Answered reset set (a :: l) ↔
    (set a = true → reset a = true ∨ ∃ b ∈ l, reset b = true) ∧ Answered reset set l := by
  constructor
  · intro h
    refine ⟨h [] a l rfl, fun before b behind hl => h (a :: before) b behind ?_⟩
    rw [hl]
    rfl
  · rintro ⟨ha, hl⟩ before b behind heq
    cases before with
    | nil =>
      cases heq
      exact ha
    | cons c before =>
      cases heq
      exact hl before b behind rfl

theorem latch_down_iff : l.foldl (latch reset set) up = false ↔
    (up = true → ∃ a ∈ l, reset a = true) ∧ Answered reset set l := by
  induction l generalizing up with
  | nil =>
    constructor
    · intro h
      exact ⟨fun hup => absurd (hup.symm.trans h) (by decide), answered_nil⟩
    · rintro ⟨h, -⟩
      cases up with
      | false => rfl
      | true =>
        obtain ⟨a, ha, -⟩ := h rfl
        cases ha
  | cons a l ih =>
    have hex : (∃ b ∈ a :: l, reset b = true) ↔ reset a = true ∨ ∃ b ∈ l, reset b = true :=
      List.exists_mem_cons_iff _ a l
    rw [List.foldl_cons, ih, answered_cons, hex]
    unfold latch
    cases hr : reset a with
    | true => simp
    | false =>
      cases hs : set a with
      | true =>
        simp only [Bool.false_eq_true, if_false, if_true, false_or, forall_const]
        constructor
        · rintro ⟨hex, hl⟩
          exact ⟨fun _ => hex, hex, hl⟩
        · rintro ⟨-, hex, hl⟩
          exact ⟨hex, hl⟩
      | false => simp

end AtNode.Latch
