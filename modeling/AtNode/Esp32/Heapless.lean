import AtNode.Esp32.Cfg

/-!
# Strings of a fixed capacity

The firmware assembles its texts in strings of `heapless`. A push that does not fit fails and leaves
the string as it is; `write!` pushes its pieces in order and stops at the first that fails. Where the
result is not looked at, the string keeps the pieces in front of that one.
-/

namespace AtNode.Heapless

open Config

variable {cap : ℕ} {s t : Text} {ts : List Text}

section Model

def pushStr (cap : ℕ) (s t : Text) : Option Text :=
  if byteLen s + byteLen t ≤ cap then some (s ++ t) else none

/-- A push whose result is not looked at. -/
def put (cap : ℕ) (s t : Text) : Text := (pushStr cap s t).getD s

def push (cap : ℕ) (s : Text) (c : Char) : Text := put cap s [c]

/-- `write!` with its pieces, and whether it succeeds. -/
def write (cap : ℕ) (s : Text) : List Text → Text × Bool
  | [] => (s, true)
  | t :: ts =>
    match pushStr cap s t with
    | some s => write cap s ts
    | none => (s, false)

/-- The pieces of a format string between its arguments, in the order they are written. -/
def formatArgs : List Text → List Text → List Text
  | l :: ls, a :: as => l :: a :: formatArgs ls as
  | ls, [] => ls
  | [], as => as

/-- A text from pushes whose results are not looked at. -/
def putAll (cap : ℕ) (s : Text) (ts : List Text) : Text := ts.foldl (put cap) s

/-- `try_into().unwrap_or_default()`. -/
def ofStr (cap : ℕ) (t : Text) : Text := if byteLen t ≤ cap then t else []

end Model

section Laws

theorem put_fits (h : byteLen s + byteLen t ≤ cap) : put cap s t = s ++ t := by
  rw [put, pushStr, if_pos h]
  rfl

theorem put_full (h : cap < byteLen s + byteLen t) : put cap s t = s := by
  rw [put, pushStr, if_neg (Nat.not_le.mpr h)]
  rfl

theorem byteLen_put (h : byteLen s ≤ cap) : byteLen (put cap s t) ≤ cap := by
  rcases Nat.lt_or_ge cap (byteLen s + byteLen t) with hf | hf
  · rw [put_full hf]
    exact h
  · rw [put_fits hf, byteLen_append]
    exact hf

theorem prefix_put (cap : ℕ) (s t : Text) : s <+: put cap s t := by
  rcases Nat.lt_or_ge cap (byteLen s + byteLen t) with hf | hf
  · exact ⟨[], by rw [put_full hf, List.append_nil]⟩
  · rw [put_fits hf]
    exact List.prefix_append _ _

theorem prefix_foldl {α : Type*} {g : Text → α → Text} (h : ∀ s a, s <+: g s a) (s : Text)
    (as : List α) : s <+: as.foldl g s := by
  induction as generalizing s with
  | nil => exact List.prefix_rfl
  | cons a as ih => exact (h s a).trans (ih _)

theorem prefix_putAll (cap : ℕ) (s : Text) (ts : List Text) : s <+: putAll cap s ts :=
  prefix_foldl (prefix_put cap) s ts

theorem write_fits (h : byteLen s + byteLen ts.flatten ≤ cap) :
    write cap s ts = (s ++ ts.flatten, true) := by
  induction ts generalizing s with
  | nil => rw [List.flatten_nil, List.append_nil, write]
  | cons t ts ih =>
    rw [List.flatten_cons, byteLen_append] at h
    have ht : byteLen s + byteLen t ≤ cap := by omega
    rw [write, pushStr, if_pos ht]
    dsimp only
    rw [ih (by rw [byteLen_append]; omega), List.flatten_cons, List.append_assoc]

/-- Of two pieces the first is written, and the second where it fits. -/
theorem write_pair (h : byteLen s ≤ cap) : (write cap [] [s, t]).1 = put cap s t := by
  have hs : pushStr cap [] s = some s := by
    rw [pushStr, byteLen_nil, Nat.zero_add, if_pos h]
    rfl
  rw [write, hs]
  dsimp only
  rw [write, put]
  cases pushStr cap s t <;> rfl

theorem prefix_write (cap : ℕ) (s : Text) (ts : List Text) : s <+: (write cap s ts).1 := by
  induction ts generalizing s with
  | nil => exact List.prefix_rfl
  | cons t ts ih =>
    rw [write, pushStr]
    split_ifs
    · exact (List.prefix_append s t).trans (ih _)
    · exact List.prefix_rfl

theorem byteLen_write (ts : List Text) (h : byteLen s ≤ cap) : byteLen (write cap s ts).1 ≤ cap := by
  induction ts generalizing s with
  | nil => exact h
  | cons t ts ih =>
    rw [write, pushStr]
    by_cases ht : byteLen s + byteLen t ≤ cap
    · rw [if_pos ht]
      exact ih (by rwa [byteLen_append])
    · rw [if_neg ht]
      exact h

/-- The whole text is written exactly when it fits. -/
theorem write_eq_append_iff (ts : List Text) (h : byteLen s ≤ cap) :
    (write cap s ts).1 = s ++ ts.flatten ↔ byteLen s + byteLen ts.flatten ≤ cap := by
  constructor
  · intro heq
    have hlen := byteLen_write ts h
    rwa [heq, byteLen_append] at hlen
  · intro hf
    rw [write_fits hf]

theorem byteLen_formatArgs (ls as : List Text) :
    byteLen (formatArgs ls as).flatten = byteLen ls.flatten + byteLen as.flatten := by
  induction ls generalizing as with
  | nil => cases as <;> simp [formatArgs]
  | cons l ls ih =>
    cases as with
    | nil => simp [formatArgs]
    | cons a as =>
      simp only [formatArgs, List.flatten_cons, byteLen_append, ih]
      omega

theorem byteLen_flatten_le {ns : List ℕ} (h : List.Forall₂ (fun t n => byteLen t ≤ n) ts ns) :
    byteLen ts.flatten ≤ ns.foldr (· + ·) 0 := by
  induction h with
  | nil => exact Nat.le_refl _
  | cons ht _ ih =>
    rw [List.flatten_cons, byteLen_append, List.foldr_cons]
    exact Nat.add_le_add ht ih

theorem foldl_fits {α : Type} {g : Text → α → Text} {item : α → Text} {as : List α}
    (hg : ∀ out, ∀ a ∈ as, byteLen out + byteLen (item a) ≤ cap → g out a = out ++ item a)
    (h : byteLen s + byteLen (as.flatMap item) ≤ cap) :
    as.foldl g s = s ++ as.flatMap item := by
  induction as generalizing s with
  | nil => rw [List.foldl_nil, List.flatMap_nil, List.append_nil]
  | cons a as ih =>
    rw [List.flatMap_cons, byteLen_append] at h
    rw [List.foldl_cons, hg s a List.mem_cons_self (by omega),
      ih (fun out b hb => hg out b (List.mem_cons_of_mem _ hb)) (by rw [byteLen_append]; omega),
      List.flatMap_cons, List.append_assoc]

theorem ofStr_fits (h : byteLen t ≤ cap) : ofStr cap t = t := if_pos h

end Laws

end AtNode.Heapless
