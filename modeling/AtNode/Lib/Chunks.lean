import Mathlib.Data.List.Basic

/-!
# Streams that arrive in chunks

A byte stream is delivered as a list of chunks. A read asks for at most `n` elements and gets what
the first chunk with anything in it can give; the empty answer means the end of the stream. The
lemmas describe a read by the flattened stream alone, which is what makes a reader that loops until
it has enough independent of the chunking.

`overwrite` is the effect of a read on the buffer it reads into.
-/

namespace AtNode.Chunks

variable {α : Type*}

def read (n : ℕ) : List (List α) → List α × List (List α)
  | [] => ([], [])
  | [] :: cs => read n cs
  | (a :: c) :: cs => ((a :: c).take n, (a :: c).drop n :: cs)

theorem read_append (n : ℕ) (cs : List (List α)) :
    (read n cs).1 ++ (read n cs).2.flatten = cs.flatten := by
  induction cs with
  | nil => rfl
  | cons c cs ih =>
    cases c with
    | nil => simpa only [read, List.flatten_cons, List.nil_append] using ih
    | cons a c => simp only [read, List.flatten_cons, ← List.append_assoc, List.take_append_drop]

theorem length_read_le (n : ℕ) (cs : List (List α)) : (read n cs).1.length ≤ n := by
  induction cs with
  | nil => exact Nat.zero_le n
  | cons c cs ih =>
    cases c with
    | nil => exact ih
    | cons a c =>
      rw [read, List.length_take]
      exact Nat.min_le_left _ _

theorem read_eq_nil_iff {n : ℕ} (hn : 0 < n) (cs : List (List α)) :
    (read n cs).1 = [] ↔ cs.flatten = [] := by
  induction cs with
  | nil => simp [read]
  | cons c cs ih =>
    cases c with
    | nil => simpa only [read, List.flatten_cons, List.nil_append] using ih
    | cons a c =>
      have : n ≠ 0 := Nat.pos_iff_ne_zero.mp hn
      simp [read, this]

/-- A read that finds something does not see the chunks behind. -/
theorem read_append_right {n : ℕ} {cs t : List (List α)} {a : α} {bs : List α}
    (h : read n cs = (a :: bs, t)) (ds : List (List α)) :
    read n (cs ++ ds) = (a :: bs, t ++ ds) := by
  induction cs with
  | nil => cases h
  | cons c cs ih =>
    cases c with
    | nil => exact ih h
    | cons b c =>
      rw [read, Prod.mk.injEq] at h
      rw [List.cons_append, read, h.1, ← h.2, List.cons_append]

def overwrite (buf : List α) (pos : ℕ) (bs : List α) : List α :=
  buf.take pos ++ bs ++ buf.drop (pos + bs.length)

theorem length_overwrite {buf bs : List α} {pos : ℕ} (h : pos + bs.length ≤ buf.length) :
    (overwrite buf pos bs).length = buf.length := by
  simp only [overwrite, List.length_append, List.length_take, List.length_drop]
  omega

theorem overwrite_zero (buf bs : List α) :
    overwrite buf 0 bs = bs ++ buf.drop bs.length := by
  rw [overwrite, List.take_zero, List.nil_append, Nat.zero_add]

theorem overwrite_nil (buf : List α) (pos : ℕ) : overwrite buf pos [] = buf := by
  rw [overwrite, List.append_nil, List.length_nil, Nat.add_zero, List.take_append_drop]

/-- Two adjacent writes are one. -/
theorem overwrite_overwrite {buf bs cs : List α} {pos : ℕ} (h : pos ≤ buf.length) :
    overwrite (overwrite buf pos bs) (pos + bs.length) cs = overwrite buf pos (bs ++ cs) := by
  have hpos : (buf.take pos ++ bs).length = pos + bs.length := by
    rw [List.length_append, List.length_take, Nat.min_eq_left h]
  have htake : (overwrite buf pos bs).take (pos + bs.length) = buf.take pos ++ bs := by
    rw [overwrite, List.take_append_of_le_length (Nat.le_of_eq hpos.symm), ← hpos, List.take_length]
  have hdrop : (overwrite buf pos bs).drop (pos + bs.length + cs.length) =
      buf.drop (pos + (bs ++ cs).length) := by
    rw [overwrite, ← List.drop_drop, List.drop_append_of_le_length (Nat.le_of_eq hpos.symm),
      ← hpos, List.drop_length, List.nil_append, List.drop_drop, hpos, List.length_append,
      Nat.add_assoc]
  rw [overwrite, htake, hdrop, overwrite, List.append_assoc (buf.take pos) bs cs]

end AtNode.Chunks
