import Mathlib.Data.List.Basic
import Mathlib.Tactic

/-!
# Ring buffers with one free cell

`head` is the write index and `tail` the read index. Equal indices mean empty, so a ring of `cap`
cells holds at most `cap - 1` elements. `contents` is the FIFO view. `window` and `advance` are the
unchecked halves of a bulk read: they follow the cells past the write index when asked for more
than the ring holds, which is how a wrong element count shows up.
-/

namespace AtNode

structure Ring (α : Type*) (cap : ℕ) where
  buf : ℕ → α
  head : ℕ
  tail : ℕ
  head_lt : head < cap
  tail_lt : tail < cap

namespace Ring

variable {α : Type*} {cap : ℕ}

def count (r : Ring α cap) : ℕ := (r.head + cap - r.tail) % cap

def window (r : Ring α cap) (n : ℕ) : List α :=
  (List.range n).map fun i => r.buf ((r.tail + i) % cap)

def contents (r : Ring α cap) : List α := r.window r.count

def advance (r : Ring α cap) (n : ℕ) : Ring α cap where
  buf := r.buf
  head := r.head
  tail := (r.tail + n) % cap
  head_lt := r.head_lt
  tail_lt := Nat.mod_lt _ (Nat.zero_lt_of_lt r.tail_lt)

def push (r : Ring α cap) (a : α) : Option (Ring α cap) :=
  if (r.head + 1) % cap = r.tail then none
  else some
    { buf := fun i => if i = r.head then a else r.buf i
      head := (r.head + 1) % cap
      tail := r.tail
      head_lt := Nat.mod_lt _ (Nat.zero_lt_of_lt r.tail_lt)
      tail_lt := r.tail_lt }

def pop (r : Ring α cap) : Option (α × Ring α cap) :=
  if r.tail = r.head then none else some (r.buf r.tail, r.advance 1)

theorem count_eq (r : Ring α cap) :
    r.count = if r.tail ≤ r.head then r.head - r.tail else r.head + cap - r.tail := by
  have hh := r.head_lt
  have ht := r.tail_lt
  unfold count
  split_ifs with h
  · rw [show r.head + cap - r.tail = r.head - r.tail + cap by omega, Nat.add_mod_right,
      Nat.mod_eq_of_lt (by omega)]
  · exact Nat.mod_eq_of_lt (by omega)

theorem count_lt (r : Ring α cap) : r.count < cap := Nat.mod_lt _ (Nat.zero_lt_of_lt r.tail_lt)

theorem count_eq_zero_iff (r : Ring α cap) : r.count = 0 ↔ r.tail = r.head := by
  have hh := r.head_lt
  have ht := r.tail_lt
  rw [count_eq]
  split_ifs <;> omega

@[simp] theorem length_window (r : Ring α cap) (n : ℕ) : (r.window n).length = n := by
  simp [window]

@[simp] theorem length_contents (r : Ring α cap) : r.contents.length = r.count := by
  simp [contents]

theorem contents_eq_nil_iff (r : Ring α cap) : r.contents = [] ↔ r.tail = r.head := by
  rw [← List.length_eq_zero_iff, length_contents, count_eq_zero_iff]

theorem head_eq_add_count (r : Ring α cap) : r.head = (r.tail + r.count) % cap := by
  have hh := r.head_lt
  have ht := r.tail_lt
  rw [count_eq]
  split_ifs with h
  · rw [Nat.add_sub_cancel' h, Nat.mod_eq_of_lt hh]
  · rw [show r.tail + (r.head + cap - r.tail) = r.head + cap by omega, Nat.add_mod_right,
      Nat.mod_eq_of_lt hh]

@[simp] theorem advance_head (r : Ring α cap) (n : ℕ) : (r.advance n).head = r.head := rfl

theorem advance_tail (r : Ring α cap) (n : ℕ) : (r.advance n).tail = (r.tail + n) % cap := rfl

theorem count_advance (r : Ring α cap) {n : ℕ} (hn : n ≤ r.count) :
    (r.advance n).count = r.count - n := by
  have hh := r.head_lt
  have ht := r.tail_lt
  have hc := r.count_eq
  have hlt := r.count_lt
  have ht' := r.advance_tail n
  rw [count_eq, advance_head]
  rcases Nat.lt_or_ge (r.tail + n) cap with h | h
  · rw [Nat.mod_eq_of_lt h] at ht'
    split_ifs at hc ⊢ <;> omega
  · rw [Nat.mod_eq_sub_mod h, Nat.mod_eq_of_lt (by omega)] at ht'
    split_ifs at hc ⊢ <;> omega

theorem window_take (r : Ring α cap) {m n : ℕ} (h : m ≤ n) :
    (r.window n).take m = r.window m := by
  simp only [window, ← List.map_take, List.take_range, Nat.min_eq_left h]

theorem window_advance (r : Ring α cap) (m n : ℕ) :
    (r.advance m).window n = (r.window (m + n)).drop m := by
  simp only [window, advance, ← List.map_drop]
  apply List.ext_getElem
  · simp
  · intro i h₁ h₂
    simp [Nat.add_assoc]

theorem contents_advance (r : Ring α cap) {n : ℕ} (hn : n ≤ r.count) :
    (r.advance n).contents = r.contents.drop n := by
  rw [contents, count_advance r hn, window_advance, Nat.add_sub_cancel' hn, contents]

theorem window_append_contents_advance (r : Ring α cap) {n : ℕ} (hn : n ≤ r.count) :
    r.window n ++ (r.advance n).contents = r.contents := by
  rw [contents_advance r hn, ← r.window_take hn]
  exact List.take_append_drop n r.contents

theorem push_eq_none_iff (r : Ring α cap) (a : α) : r.push a = none ↔ r.count + 1 = cap := by
  have hh := r.head_lt
  have ht := r.tail_lt
  have hc := r.count_eq
  simp only [push, ite_eq_left_iff, reduceCtorEq, imp_false, not_not]
  rcases Nat.lt_or_ge (r.head + 1) cap with h | h
  · rw [Nat.mod_eq_of_lt h]
    split_ifs at hc <;> omega
  · rw [show r.head + 1 = cap by omega, Nat.mod_self]
    split_ifs at hc <;> omega

theorem count_push (r : Ring α cap) {a : α} {r' : Ring α cap} (h : r.push a = some r') :
    r'.count = r.count + 1 := by
  have hh := r.head_lt
  have ht := r.tail_lt
  have hc := r.count_eq
  simp only [push] at h
  split_ifs at h with hf
  rw [count_eq, ← Option.some.inj h]
  rcases Nat.lt_or_ge (r.head + 1) cap with hl | hl
  · simp only [Nat.mod_eq_of_lt hl] at hf ⊢
    split_ifs at hc ⊢ <;> omega
  · simp only [show r.head + 1 = cap by omega, Nat.mod_self] at hf ⊢
    split_ifs at hc ⊢ <;> omega

theorem contents_push (r : Ring α cap) {a : α} {r' : Ring α cap} (h : r.push a = some r') :
    r'.contents = r.contents ++ [a] := by
  have hcount := r.count_push h
  have hlt := r'.count_lt
  have hhead := r.head_eq_add_count
  have ht := r.tail_lt
  simp only [contents, hcount, window, List.range_succ, List.map_append, List.map_cons,
    List.map_nil]
  simp only [push] at h
  split_ifs at h with hf
  obtain rfl := Option.some.inj h
  congr 1
  · apply List.map_congr_left
    intro i hi
    have hi' := List.mem_range.mp hi
    have hne : (r.tail + i) % cap ≠ r.head := by
      rw [hhead]
      intro he
      have hmod : i ≡ r.count [MOD cap] := Nat.ModEq.add_left_cancel' r.tail he
      have := hmod.eq_of_lt_of_lt (by omega) (by omega)
      omega
    simp only [if_neg hne]
  · simp only [← hhead, if_true]

theorem head_push (r : Ring α cap) {a : α} {r' : Ring α cap} (h : r.push a = some r') :
    r'.head = (r.head + 1) % cap ∧ r'.tail = r.tail := by
  simp only [push] at h
  split_ifs at h with hf
  obtain rfl := Option.some.inj h
  exact ⟨rfl, rfl⟩

theorem contents_pop (r : Ring α cap) {a : α} {r' : Ring α cap} (h : r.pop = some (a, r')) :
    r.contents = a :: r'.contents := by
  simp only [pop] at h
  split_ifs at h with he
  obtain ⟨rfl, rfl⟩ := Prod.mk.inj (Option.some.inj h)
  have hpos : 1 ≤ r.count := by
    have := r.count_eq_zero_iff.not.mpr he
    omega
  have hw := r.window_append_contents_advance hpos
  simpa [window, Nat.mod_eq_of_lt r.tail_lt] using hw.symm

/-- The loop `while (len--)` of a writer that stops at the first element it has no cell for. The
second component is what was stored. -/
def pushAll (r : Ring α cap) : List α → Ring α cap × List α
  | [] => (r, [])
  | a :: as =>
    match r.push a with
    | none => (r, [])
    | some r' => let q := r'.pushAll as; (q.1, a :: q.2)

theorem contents_pushAll (r : Ring α cap) (as : List α) :
    (r.pushAll as).1.contents = r.contents ++ (r.pushAll as).2 := by
  induction as generalizing r with
  | nil => simp [pushAll]
  | cons a as ih =>
    cases h : r.push a with
    | none => simp [pushAll, h]
    | some r' => simp [pushAll, h, ih r', r.contents_push h]

theorem pushAll_fits (r : Ring α cap) {as : List α} (h : r.count + as.length < cap) :
    (r.pushAll as).2 = as := by
  induction as generalizing r with
  | nil => rfl
  | cons a as ih =>
    cases hp : r.push a with
    | none =>
      have := (r.push_eq_none_iff a).mp hp
      simp only [List.length_cons] at h
      omega
    | some r' =>
      have hc := r.count_push hp
      simp only [List.length_cons] at h
      simp [pushAll, hp, ih r' (by omega)]

theorem indices_pushAll (r : Ring α cap) (as : List α) :
    (r.pushAll as).1.head = (r.head + (r.pushAll as).2.length) % cap ∧
      (r.pushAll as).1.tail = r.tail := by
  induction as generalizing r with
  | nil => simp [pushAll, Nat.mod_eq_of_lt r.head_lt]
  | cons a as ih =>
    cases h : r.push a with
    | none => simp [pushAll, h, Nat.mod_eq_of_lt r.head_lt]
    | some r' =>
      obtain ⟨hh, ht⟩ := r.head_push h
      obtain ⟨ih₁, ih₂⟩ := ih r'
      simp only [pushAll, h, ih₁, ih₂, hh, ht, List.length_cons, Nat.mod_add_mod, and_true]
      congr 1
      omega

/-- A writer that keeps going when the ring is full and loses the element. -/
def offer (r : Ring α cap) (a : α) : Ring α cap := (r.push a).getD r

def offerAll (r : Ring α cap) (as : List α) : Ring α cap := as.foldl offer r

theorem contents_offerAll (r : Ring α cap) {as : List α} (h : r.count + as.length < cap) :
    (r.offerAll as).contents = r.contents ++ as := by
  induction as generalizing r with
  | nil => simp [offerAll]
  | cons a as ih =>
    simp only [List.length_cons] at h
    cases hp : r.push a with
    | none =>
      have := (r.push_eq_none_iff a).mp hp
      omega
    | some r' =>
      have hc := r.count_push hp
      have ho : r.offer a = r' := by simp [offer, hp]
      have hi := ih r' (by omega)
      simpa [offerAll, ho, r.contents_push hp] using hi

/-- The loop `while (n < maxlen && tail != head)` of a reader. -/
def popN : ℕ → Ring α cap → List α × Ring α cap
  | 0, r => ([], r)
  | n + 1, r =>
    match r.pop with
    | none => ([], r)
    | some (a, r') => let q := popN n r'; (a :: q.1, q.2)

theorem popN_append_contents (n : ℕ) (r : Ring α cap) :
    (popN n r).1 ++ (popN n r).2.contents = r.contents := by
  induction n generalizing r with
  | zero => rfl
  | succ n ih =>
    cases h : r.pop with
    | none => simp [popN, h]
    | some q => simp [popN, h, ih q.2, r.contents_pop h]

def empty (a : α) (h : 0 < cap) : Ring α cap := ⟨fun _ => a, 0, 0, h, h⟩

@[simp] theorem contents_empty (a : α) (h : 0 < cap) :
    (empty a h : Ring α cap).contents = [] := by
  rw [contents_eq_nil_iff]
  rfl

end Ring
end AtNode
