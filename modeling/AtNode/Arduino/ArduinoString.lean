import AtNode.Lib.CString
import AtNode.Lib.Occurs
import Mathlib.Data.List.TakeWhile

/-!
# Strings of the Arduino firmware

A string of the firmware has a length and may contain any byte. The class compares and searches with
the functions of the C library, so a comparison or a search ends at the first zero byte behind the
place where it begins; `substring` goes by the length.
-/

namespace AtNode.ArduinoString

open CString (toLower)

abbrev Str := List UInt8

def ascii (s : String) : Str := s.toList.map fun c => c.toNat.toUInt8

/-- What the C library sees of a string. -/
def cStr (s : Str) : Str := s.takeWhile (· ≠ 0)

/-- `String == const char *`. -/
def equals (s : Str) (lit : String) : Bool := cStr s == ascii lit

/-- The characters are compared up to the zero byte, after the lengths. -/
def equalsIgnoreCase (s : Str) (lit : String) : Bool :=
  s.length = (ascii lit).length ∧ (cStr s).map toLower <+: (ascii lit).map toLower

/-- `indexOf` of a text: `strstr`. -/
def indexOfText (s k : Str) : Option ℕ :=
  if s = [] then none else Occurs.indexOf (cStr k) (cStr s)

/-- `indexOf` of a character, from an index on: `strchr`. -/
def indexOfChar (s : Str) (c : UInt8) (start : ℕ) : Option ℕ :=
  if s.length ≤ start then none else (Occurs.indexOf [c] (cStr (s.drop start))).map (· + start)

def substring (s : Str) (left right : ℕ) : Str := (s.take right).drop left

section Zeros

variable {s t k : Str} {c : UInt8} {n start : ℕ}

theorem cStr_eq_self_iff : cStr s = s ↔ 0 ∉ s := by
  rw [cStr, List.takeWhile_eq_self_iff]
  simp only [decide_eq_true_eq]
  exact ⟨fun h h0 => h 0 h0 rfl, fun h x hx h0 => h (h0 ▸ hx)⟩

theorem cStr_cons_of_ne (hc : c ≠ 0) (s : Str) : cStr (c :: s) = c :: cStr s :=
  List.takeWhile_cons_of_pos (decide_eq_true hc)

theorem cStr_prefix_self (s : Str) : cStr s <+: s := List.takeWhile_prefix _

theorem getElem?_cStr (h : n < (cStr s).length) : (cStr s)[n]? = s[n]? := by
  obtain ⟨t, ht⟩ := cStr_prefix_self s
  rw [← List.getElem?_append_left h, ht]

theorem cStr_append_of_notMem (hs : 0 ∉ s) (t : Str) : cStr (s ++ t) = s ++ cStr t :=
  List.takeWhile_append_of_pos fun _ hx => decide_eq_true fun h => hs (h ▸ hx)

theorem cStr_append_of_mem (hs : 0 ∈ s) (t : Str) : cStr (s ++ t) = cStr s := by
  induction s with
  | nil => exact absurd hs List.not_mem_nil
  | cons c s ih =>
    by_cases hc : c = 0
    · subst hc
      rfl
    · rw [List.cons_append, cStr_cons_of_ne hc, cStr_cons_of_ne hc,
        ih ((List.mem_cons.mp hs).resolve_left (Ne.symm hc))]

theorem le_length_cStr_iff (hn : n ≤ s.length) : n ≤ (cStr s).length ↔ 0 ∉ s.take n := by
  induction s generalizing n with
  | nil =>
    rw [List.take_nil]
    exact iff_of_true hn List.not_mem_nil
  | cons c s ih =>
    cases n with
    | zero => exact iff_of_true (Nat.zero_le _) List.not_mem_nil
    | succ n =>
      rw [List.take_succ_cons, List.mem_cons, not_or]
      by_cases hc : c = 0
      · subst hc
        exact iff_of_false (Nat.not_succ_le_zero n) fun h => h.1 rfl
      · rw [cStr_cons_of_ne hc, List.length_cons, Nat.succ_le_succ_iff,
          ih (Nat.le_of_succ_le_succ hn), and_iff_right (Ne.symm hc)]

end Zeros

section Searches

variable {s k pair rest : Str} {c : UInt8}

theorem indexOfText_eq (hk : k ≠ []) (hzero : 0 ∉ k) (s : Str) :
    indexOfText s k = Occurs.indexOf k (cStr s) := by
  rw [indexOfText, cStr_eq_self_iff.mpr hzero]
  split_ifs with h
  · rw [h, cStr, List.takeWhile_nil, Occurs.indexOf, if_neg hk]
  · rfl

/-- A character is not found where a zero byte stands before it. -/
theorem indexOfChar_hidden (h : c ∉ cStr s) : indexOfChar s c 0 = none := by
  rw [indexOfChar, List.drop_zero, Occurs.indexOf_single h]
  exact ite_self _

theorem indexOfChar_append (hpair : c ∉ pair) (hzero : 0 ∉ pair) (hc : c ≠ 0) (rest : Str) :
    indexOfChar (pair ++ c :: rest) c 0 = some pair.length := by
  rw [indexOfChar, if_neg (by simp), List.drop_zero, cStr_append_of_notMem hzero,
    cStr_cons_of_ne hc, Occurs.indexOf_append hpair, if_pos List.nil_prefix]
  rfl

theorem indexOfChar_of_lt {start : ℕ} (h : start < s.length) :
    indexOfChar s c start = (indexOfChar (s.drop start) c 0).map (· + start) := by
  have hdrop : ¬ (s.drop start).length ≤ 0 := by
    rw [List.length_drop]
    omega
  rw [indexOfChar, if_neg (Nat.not_le.mpr h), indexOfChar, if_neg hdrop, List.drop_zero,
    Option.map_map]
  rfl

end Searches

end AtNode.ArduinoString
