import AtNode.Lib.Utf8

/-!
# Slices of a text by the positions of its bytes

A text can be cut only where a character begins or the text ends. A slice at another position, or
behind the end, has no result. `find` gives the position of a character; a text can always be cut on
both sides of what it finds, where that character is a single byte.
-/

namespace AtNode.Utf8

def cut : ℕ → List Char → Option (List Char × List Char)
  | 0, s => some ([], s)
  | _ + 1, [] => none
  | n + 1, c :: s =>
    if c.utf8Size ≤ n + 1 then (cut (n + 1 - c.utf8Size) s).map fun p => (c :: p.1, p.2) else none

def sliceTo (s : List Char) (i : ℕ) : Option (List Char) := (cut i s).map Prod.fst

def sliceFrom (s : List Char) (i : ℕ) : Option (List Char) := (cut i s).map Prod.snd

def slice (s : List Char) (i j : ℕ) : Option (List Char) :=
  if i ≤ j then (sliceFrom s i).bind fun t => sliceTo t (j - i) else none

def find (c : Char) : List Char → Option ℕ
  | [] => none
  | d :: s => if d = c then some 0 else (find c s).map (d.utf8Size + ·)

/-- The text can be cut behind its first `n` bytes. -/
def Boundary (s : List Char) (n : ℕ) : Prop := ∃ t u, s = t ++ u ∧ (encode t).length = n

variable {s t u : List Char} {c : Char} {n : ℕ}

theorem length_encode_cons (c : Char) (s : List Char) :
    (encode (c :: s)).length = c.utf8Size + (encode s).length := by
  rw [encode_cons, List.length_append, String.length_utf8EncodeChar]

theorem cut_append (t u : List Char) : cut (encode t).length (t ++ u) = some (t, u) := by
  induction t with
  | nil =>
    cases u with
    | nil => rfl
    | cons c u => rfl
  | cons c t ih =>
    have hpos := c.utf8Size_pos
    obtain ⟨n, hn⟩ : ∃ n, (encode (c :: t)).length = n + 1 :=
      Nat.exists_eq_succ_of_ne_zero (by rw [length_encode_cons]; omega)
    have hrest : n + 1 - c.utf8Size = (encode t).length := by
      rw [length_encode_cons] at hn
      omega
    rw [hn, List.cons_append, cut, if_pos (by rw [length_encode_cons] at hn; omega), hrest, ih]
    rfl

theorem cut_eq_some_iff : cut n s = some (t, u) ↔ s = t ++ u ∧ (encode t).length = n := by
  constructor
  · intro h
    induction s generalizing n t with
    | nil =>
      cases n with
      | zero =>
        cases h
        exact ⟨rfl, rfl⟩
      | succ n => cases h
    | cons c s ih =>
      cases n with
      | zero =>
        cases h
        exact ⟨rfl, rfl⟩
      | succ n =>
        rw [cut] at h
        split at h
        · rename_i hle
          obtain ⟨p, hp, heq⟩ := Option.map_eq_some_iff.mp h
          cases heq
          obtain ⟨hs, hlen⟩ := ih hp
          refine ⟨by rw [hs, List.cons_append], ?_⟩
          rw [length_encode_cons, hlen]
          omega
        · cases h
  · rintro ⟨rfl, rfl⟩
    exact cut_append t u

theorem cut_isSome_iff : (cut n s).isSome ↔ Boundary s n := by
  rw [Option.isSome_iff_exists]
  constructor
  · rintro ⟨⟨t, u⟩, h⟩
    exact ⟨t, u, cut_eq_some_iff.mp h⟩
  · rintro ⟨t, u, rfl, rfl⟩
    exact ⟨(t, u), cut_append t u⟩

theorem sliceTo_append (t u : List Char) : sliceTo (t ++ u) (encode t).length = some t := by
  rw [sliceTo, cut_append]
  rfl

theorem sliceFrom_append (t u : List Char) : sliceFrom (t ++ u) (encode t).length = some u := by
  rw [sliceFrom, cut_append]
  rfl

/-- A slice that begins where a character does. -/
theorem slice_append (t u : List Char) (n : ℕ) :
    slice (t ++ u) (encode t).length ((encode t).length + n) = sliceTo u n := by
  rw [slice, if_pos (Nat.le_add_right _ _), sliceFrom_append, Option.bind_some,
    Nat.add_sub_cancel_left]

theorem find_eq_none_iff : find c s = none ↔ c ∉ s := by
  induction s with
  | nil => simp [find]
  | cons d s ih =>
    by_cases hd : d = c
    · simp [find, hd]
    · simp [find, hd, ih, Ne.symm hd]

theorem find_append (h : c ∉ t) (u : List Char) :
    find c (t ++ c :: u) = some (encode t).length := by
  induction t with
  | nil => simp [find]
  | cons d t ih =>
    obtain ⟨hd, ht⟩ := not_or.mp (List.mem_cons.not.mp h)
    rw [List.cons_append, find, if_neg (Ne.symm hd), ih ht, length_encode_cons]
    rfl

end AtNode.Utf8
