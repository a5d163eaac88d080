import Mathlib.Data.List.Induction

/-!
# Splitting a stream at a terminator

`splitLines nl` returns the finished segments of a stream, without their terminators, and the
unfinished rest. `splitLines_snoc` describes what one more element does, which is what a machine
that reads its input element by element needs.
-/

namespace AtNode

variable {α : Type*} [DecidableEq α] (nl : α)

def splitLines : List α → List (List α) × List α
  | [] => ([], [])
  | a :: as =>
    if a = nl then ([] :: (splitLines as).1, (splitLines as).2)
    else
      match (splitLines as).1 with
      | [] => ([], a :: (splitLines as).2)
      | l :: ls => ((a :: l) :: ls, (splitLines as).2)

def lines (as : List α) : List (List α) := (splitLines nl as).1

def unfinished (as : List α) : List α := (splitLines nl as).2

variable {nl}

@[simp] theorem lines_nil : lines nl [] = [] := rfl

@[simp] theorem unfinished_nil : unfinished nl [] = [] := rfl

theorem splitLines_snoc_nl (as : List α) :
    splitLines nl (as ++ [nl]) = (lines nl as ++ [unfinished nl as], []) := by
  induction as with
  | nil => simp [splitLines, lines, unfinished]
  | cons a as ih =>
    by_cases h : a = nl
    · simp [splitLines, lines, unfinished, h, ih]
    · cases hl : (splitLines nl as).1 <;> simp [splitLines, lines, unfinished, h, ih, hl]

theorem splitLines_snoc_ne (as : List α) {a : α} (h : a ≠ nl) :
    splitLines nl (as ++ [a]) = (lines nl as, unfinished nl as ++ [a]) := by
  induction as with
  | nil => simp [splitLines, lines, unfinished, h]
  | cons b as ih =>
    by_cases hb : b = nl
    · simp [splitLines, lines, unfinished, hb, ih]
    · cases hl : (splitLines nl as).1 <;> simp [splitLines, lines, unfinished, hb, ih, hl]

@[simp] theorem lines_snoc_nl (as : List α) :
    lines nl (as ++ [nl]) = lines nl as ++ [unfinished nl as] :=
  congrArg Prod.fst (splitLines_snoc_nl as)

@[simp] theorem unfinished_snoc_nl (as : List α) : unfinished nl (as ++ [nl]) = [] :=
  congrArg Prod.snd (splitLines_snoc_nl as)

theorem lines_snoc_ne (as : List α) {a : α} (h : a ≠ nl) :
    lines nl (as ++ [a]) = lines nl as := by
  simp only [lines, splitLines_snoc_ne as h]

theorem unfinished_snoc_ne (as : List α) {a : α} (h : a ≠ nl) :
    unfinished nl (as ++ [a]) = unfinished nl as ++ [a] := by
  simp only [unfinished, splitLines_snoc_ne as h]

/-- What follows in the stream does not change the lines that are finished. -/
theorem prefix_lines (as bs : List α) : lines nl as <+: lines nl (as ++ bs) := by
  induction bs using List.reverseRecOn with
  | nil => exact ⟨[], by rw [List.append_nil, List.append_nil]⟩
  | append_singleton bs b ih =>
    rw [← List.append_assoc]
    by_cases hb : b = nl
    · rw [hb, lines_snoc_nl]
      exact ih.trans (List.prefix_append _ _)
    · rw [lines_snoc_ne _ hb]
      exact ih

end AtNode
