import Mathlib.Algebra.Ring.Nat
import Mathlib.Data.List.Induction

/-!
# Records in a file of lines

A record is a row of pieces with separators between them, and a file is a sequence of records, each
with a terminator behind it. Cutting a file at the terminators and a line at the separators gives the
records back exactly when no piece has one of the two in it; otherwise there are too many lines, or
too many pieces.
-/

namespace AtNode.Records

variable {α ι : Type*} [DecidableEq α] {a : α} {s : List α} {pieces : List (List α)}

theorem length_splitOn (a : α) (s : List α) : (s.splitOn a).length = s.count a + 1 := by
  induction s with
  | nil => rfl
  | cons b s ih =>
    rw [List.splitOn_cons_eq_if_modifyHead]
    by_cases h : b = a
    · simp [h, ih]
    · simp [h, ih, List.count_cons_of_ne]

theorem count_intercalate (hne : pieces ≠ []) :
    ([a].intercalate pieces).count a + 1 = (pieces.map (List.count a)).sum + pieces.length := by
  induction pieces with
  | nil => exact absurd rfl hne
  | cons p rest ih =>
    cases rest with
    | nil => simp [List.intercalate]
    | cons q rest =>
      have hcons : [a].intercalate (p :: q :: rest) = p ++ a :: [a].intercalate (q :: rest) := by
        simp [List.intercalate]
      rw [hcons, List.count_append, List.count_cons_self, List.map_cons, List.sum_cons,
        List.length_cons]
      have := ih (List.cons_ne_nil q rest)
      omega

/-- The pieces come back when there are no more than before. -/
theorem length_pieces_iff (hne : pieces ≠ []) :
    (([a].intercalate pieces).splitOn a).length ≤ pieces.length ↔ ∀ p ∈ pieces, a ∉ p := by
  have hsum : (pieces.map (List.count a)).sum = 0 ↔ ∀ p ∈ pieces, a ∉ p := by
    rw [List.sum_eq_zero_iff_forall_eq_nat]
    simp [List.count_eq_zero]
  rw [length_splitOn, ← hsum, count_intercalate hne]
  omega

/-- What is in the row but not a separator is in a piece. -/
theorem not_mem_intercalate {b : α} (hb : b ≠ a) :
    b ∉ [a].intercalate pieces ↔ ∀ p ∈ pieces, b ∉ p := by
  induction pieces with
  | nil => simp
  | cons p rest ih =>
    by_cases hrest : rest = []
    · simp [hrest]
    · rw [List.intercalate_cons_of_ne_nil hrest, List.mem_append, List.mem_append, List.mem_singleton,
        List.forall_mem_cons, ← ih]
      tauto

/-- The lines of a file, each behind its terminator. -/
def readLines (a : α) (file : List α) : List (List α) := (file.splitOn a).dropLast

def writeLines (a : α) (bodies : List (List α)) : List α := bodies.flatMap fun b => b ++ [a]

theorem splitOn_writeLines (bodies : List (List α)) :
    (writeLines a bodies).splitOn a = (bodies.flatMap fun b => b.splitOn a) ++ [[]] := by
  induction bodies with
  | nil => rfl
  | cons b bodies ih =>
    have hcons : writeLines a (b :: bodies) = b ++ a :: writeLines a bodies := by
      simp [writeLines]
    rw [hcons, List.splitOn_append_cons_self, ih, List.flatMap_cons, List.append_assoc]

theorem readLines_writeLines (bodies : List (List α)) :
    readLines a (writeLines a bodies) = bodies.flatMap fun b => b.splitOn a := by
  rw [readLines, splitOn_writeLines, List.dropLast_concat]

theorem readLines_of_plain {bodies : List (List α)} (h : ∀ b ∈ bodies, a ∉ b) :
    readLines a (writeLines a bodies) = bodies := by
  rw [readLines_writeLines]
  induction bodies with
  | nil => rfl
  | cons b bodies ih =>
    obtain ⟨hb, hbodies⟩ := List.forall_mem_cons.mp h
    rw [List.flatMap_cons, List.splitOn_eq_singleton hb, ih hbodies]
    rfl

section Last

variable {fs : List (List α)} {v : List α}

omit [DecidableEq α] in
theorem intercalate_concat (fs : List (List α)) (v : List α) :
    [a].intercalate (fs ++ [v]) = writeLines a fs ++ v := by
  induction fs with
  | nil => simp [writeLines]
  | cons f fs ih =>
    rw [List.cons_append, List.intercalate_cons_of_ne_nil (List.append_ne_nil_of_right_ne_nil _ (by simp)), ih]
    simp [writeLines]

theorem splitOn_writeLines_append (hfs : ∀ f ∈ fs, a ∉ f) (hv : a ∉ v) :
    (writeLines a fs ++ v).splitOn a = fs ++ [v] := by
  rw [← intercalate_concat]
  apply List.splitOn_intercalate
  · rw [List.forall_mem_append, List.forall_mem_singleton]
    exact ⟨hfs, hv⟩
  · simp

theorem not_mem_of_mem_splitOn : ∀ p ∈ s.splitOn a, a ∉ p := by
  rw [← length_pieces_iff (List.splitOn_ne_nil a s), List.intercalate_splitOn]

/-- Of a row whose last piece is known: what is in front of it, and that it may be replaced. -/
theorem eq_of_splitOn_concat (h : s.splitOn a = fs ++ [v]) :
    s = writeLines a fs ++ v ∧ ∀ u, a ∉ u → (writeLines a fs ++ u).splitOn a = fs ++ [u] := by
  have hplain := not_mem_of_mem_splitOn (s := s) (a := a)
  rw [h, List.forall_mem_append] at hplain
  refine ⟨?_, fun u hu => splitOn_writeLines_append hplain.1 hu⟩
  rw [← intercalate_concat, ← h, List.intercalate_splitOn]

end Last

/-- There is a line for each body, and another one for each terminator in a body. -/
theorem length_readLines (bodies : List (List α)) :
    (readLines a (writeLines a bodies)).length =
      bodies.length + (bodies.map (List.count a)).sum := by
  rw [readLines_writeLines]
  induction bodies with
  | nil => rfl
  | cons b bodies ih =>
    rw [List.flatMap_cons, List.length_append, length_splitOn, ih, List.map_cons, List.sum_cons,
      List.length_cons]
    omega

theorem plain_of_length {bodies : List (List α)}
    (h : (readLines a (writeLines a bodies)).length = bodies.length) : ∀ b ∈ bodies, a ∉ b := by
  rw [length_readLines] at h
  have hsum : (bodies.map (List.count a)).sum = 0 := by omega
  rw [List.sum_eq_zero_iff_forall_eq_nat] at hsum
  intro b hb
  exact List.count_eq_zero.mp (hsum _ (List.mem_map_of_mem hb))

/-- Reading a file line by line gives back what was written exactly when every body is one line and
is read as what it was written for. -/
theorem map_readLines_iff {β : Type*} {body : ι → List α} {read : List α → β} {own : ι → β}
    (xs : List ι) :
    (readLines a (writeLines a (xs.map body))).map read = xs.map own ↔
      ∀ x ∈ xs, a ∉ body x ∧ read (body x) = own x := by
  constructor
  · intro h
    have hlen := congrArg List.length h
    rw [List.length_map, List.length_map, ← List.length_map (f := body)] at hlen
    have hplain := plain_of_length hlen
    rw [readLines_of_plain hplain, List.map_map, List.map_inj_left] at h
    exact fun x hx => ⟨hplain _ (List.mem_map_of_mem hx), h x hx⟩
  · intro h
    have hplain : ∀ b ∈ xs.map body, a ∉ b := by
      intro b hb
      obtain ⟨x, hx, rfl⟩ := List.mem_map.mp hb
      exact (h x hx).1
    rw [readLines_of_plain hplain, List.map_map]
    exact List.map_congr_left fun x hx => (h x hx).2

end AtNode.Records
