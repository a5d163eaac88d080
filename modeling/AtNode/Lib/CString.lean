import Mathlib.Algebra.Group.Nat.Defs
import Mathlib.Data.Int.Notation
import Mathlib.Data.List.Basic
import Mathlib.Data.List.TakeWhile

/-!
# Numbers in C strings

`atoi` as the C library of the target computes it: leading white space, a sign, decimal digits, and
the result cut to the range of a 32-bit `long`. `strtoul` takes its base from the head of the number.
-/

namespace AtNode.CString

def isSpace (c : UInt8) : Bool := c == 0x20 || (0x09 ≤ c && c ≤ 0x0D)

def isDigit (c : UInt8) : Bool := 0x30 ≤ c && c ≤ 0x39

/-- ASCII case folding. -/
def toLower (c : UInt8) : UInt8 := if 0x41 ≤ c ∧ c ≤ 0x5A then c + 0x20 else c

/-- The value of the leading decimal digits. -/
def digits (s : List UInt8) : ℕ :=
  (s.takeWhile isDigit).foldl (fun n c => 10 * n + (c.toNat - 0x30)) 0

def atoi (s : List UInt8) : ℤ :=
  match s.dropWhile isSpace with
  | [] => 0
  | c :: t =>
    if c = 0x2D then max (-(digits t : ℤ)) (-2147483648)
    else if c = 0x2B then min (digits t : ℤ) 2147483647
    else min (digits (c :: t) : ℤ) 2147483647

/-- The cast to `uint8_t`. -/
def toU8 (z : ℤ) : UInt8 := UInt8.ofNat (z % 256).toNat

def digitValue (c : UInt8) : ℕ :=
  if isDigit c then c.toNat - 0x30
  else if 0x41 ≤ c ∧ c ≤ 0x5A then c.toNat - 0x41 + 10
  else if 0x61 ≤ c ∧ c ≤ 0x7A then c.toNat - 0x61 + 10
  else 36

/-- The value of the leading digits in a base. -/
def digitsIn (base : ℕ) (s : List UInt8) : ℕ :=
  (s.takeWhile fun c => digitValue c < base).foldl (fun n c => base * n + digitValue c) 0

def baseZero : List UInt8 → ℕ
  | 0x30 :: x :: t => if x = 0x78 ∨ x = 0x58 then digitsIn 16 t else digitsIn 8 (x :: t)
  | s => digitsIn 10 s

/-- `strtoul` in base 0. -/
def strtoul (s : List UInt8) : UInt32 :=
  let t := s.dropWhile isSpace
  let v := baseZero (if t.head? = some 0x2D ∨ t.head? = some 0x2B then t.tail else t)
  if 2 ^ 32 ≤ v then 0xFFFFFFFF
  else if t.head? = some 0x2D then -UInt32.ofNat v
  else UInt32.ofNat v

/-- The cast to `uint16_t`. -/
def toU16 (z : ℤ) : UInt16 := UInt16.ofNat (z % 65536).toNat

theorem isSpace_of_isDigit {c : UInt8} (h : isDigit c = true) : isSpace c = false := by
  have hrange : 0x30 ≤ c.toNat ∧ c.toNat ≤ 0x39 := by
    simpa [isDigit, UInt8.le_iff_toNat_le] using h
  have h20 : c ≠ 0x20 := by
    rintro rfl
    exact absurd hrange.1 (by decide)
  simp [isSpace, h20, UInt8.le_iff_toNat_le]
  omega

section Numeral

/-- The number of a decimal text: digits, with or without a sign. -/
def numeral : List UInt8 → Option ℤ
  | [] => none
  | c :: t =>
    if c = 0x2D then if t ≠ [] ∧ t.all isDigit then some (-(digits t : ℤ)) else none
    else if c = 0x2B then if t ≠ [] ∧ t.all isDigit then some (digits t) else none
    else if (c :: t).all isDigit then some (digits (c :: t)) else none

variable {t : List UInt8} {z : ℤ}

/-- A number that does not fit is read as the nearest one that does. -/
theorem atoi_of_numeral (h : numeral t = some z) :
    atoi t = max (min z 2147483647) (-2147483648) := by
  unfold numeral at h
  cases t with
  | nil => cases h
  | cons c t =>
    dsimp only at h
    have hspace : isSpace c = false := by
      by_cases hd : isDigit c = true
      · exact isSpace_of_isDigit hd
      · split_ifs at h with h2d h2b h2b hall <;> simp_all [isSpace]
    unfold atoi
    rw [List.dropWhile_cons, hspace, if_neg Bool.false_ne_true]
    dsimp only
    split_ifs at h ⊢
    all_goals
      obtain rfl := Option.some.inj h
      omega

/-- The cast to a byte keeps the number exactly when it is one. -/
theorem toU8_atoi_eq_iff (h : numeral t = some z) :
    ((toU8 (atoi t)).toNat : ℤ) = z ↔ 0 ≤ z ∧ z ≤ 255 := by
  rw [atoi_of_numeral h, toU8, UInt8.toNat_ofNat']
  omega

theorem toU16_atoi_eq_iff (h : numeral t = some z) :
    ((toU16 (atoi t)).toNat : ℤ) = z ↔ 0 ≤ z ∧ z ≤ 65535 := by
  rw [atoi_of_numeral h, toU16, UInt16.toNat_ofNat']
  omega

end Numeral

section Separators

variable {c : UInt8} {s t : List UInt8} {base : ℕ}

/-- A character that begins no number and belongs to none. -/
structure Separator (c : UInt8) : Prop where
  notSpace : isSpace c = false
  notDigit : digitValue c = 36
  notMinus : c ≠ 0x2D
  notPlus : c ≠ 0x2B
  notX : c ≠ 0x78 ∧ c ≠ 0x58

theorem separator_comma : Separator 0x2C := ⟨by decide, by decide, by decide, by decide, by decide⟩

theorem digitsIn_append (hc : Separator c) (hbase : base ≤ 36) (s t : List UInt8) :
    digitsIn base (s ++ c :: t) = digitsIn base s := by
  have hstop : decide (digitValue c < base) = false := decide_eq_false (by rw [hc.notDigit]; omega)
  rw [digitsIn, digitsIn, List.takeWhile_append]
  split
  · rw [List.takeWhile_cons_of_neg (by simp [hstop]), List.append_nil]
    rename_i hlen
    rw [(List.takeWhile_prefix _).eq_of_length hlen]
  · rfl

theorem digitsIn_separator (hc : Separator c) (hbase : base ≤ 36) (t : List UInt8) :
    digitsIn base (c :: t) = 0 := by
  have h := digitsIn_append hc hbase [] t
  rwa [List.nil_append] at h

theorem baseZero_append (hc : Separator c) (s t : List UInt8) :
    baseZero (s ++ c :: t) = baseZero s := by
  have hzero : c ≠ 0x30 := by
    rintro rfl
    exact absurd hc.notDigit (by decide)
  cases s with
  | nil =>
    rw [List.nil_append, baseZero, digitsIn_separator hc (by decide)]
    · rfl
    · exact fun x u h => hzero (List.cons.inj h).1
  | cons a s =>
    by_cases ha : a = 0x30
    · subst ha
      cases s with
      | nil =>
        rw [List.cons_append, List.nil_append, baseZero,
          if_neg (not_or.mpr hc.notX), digitsIn_separator hc (by decide)]
        rfl
      | cons x s =>
        rw [List.cons_append, List.cons_append, baseZero, baseZero, ← List.cons_append,
          digitsIn_append hc (by decide), digitsIn_append hc (by decide)]
    · have hnot : ∀ x u v, a :: v = 0x30 :: x :: u → False := fun x u v h => ha (List.cons.inj h).1
      rw [List.cons_append, baseZero, baseZero, ← List.cons_append, digitsIn_append hc (by decide)]
      · exact fun x u h => hnot x u _ h
      · exact fun x u h => hnot x u _ h

/-- What stands behind a separator is not read. -/
theorem strtoul_append (hc : Separator c) (s t : List UInt8) : strtoul (s ++ c :: t) = strtoul s := by
  have hdrop : (s ++ c :: t).dropWhile isSpace = s.dropWhile isSpace ++ c :: t := by
    rw [List.dropWhile_append]
    split
    · rename_i h
      rw [List.isEmpty_iff.mp h, List.dropWhile_cons_of_neg (by simp [hc.notSpace]), List.nil_append]
    · rfl
  have hhead (x : UInt8) (hx : c ≠ x) (u : List UInt8) :
      (u ++ c :: t).head? = some x ↔ u.head? = some x := by
    cases u <;> simp [hx]
  have hrest (u : List UInt8) :
      baseZero (if (u ++ c :: t).head? = some 0x2D ∨ (u ++ c :: t).head? = some 0x2B then
        (u ++ c :: t).tail else u ++ c :: t) =
      baseZero (if u.head? = some 0x2D ∨ u.head? = some 0x2B then u.tail else u) := by
    simp only [hhead _ hc.notMinus, hhead _ hc.notPlus]
    split
    · cases u with
      | nil => simp_all
      | cons a u => exact baseZero_append hc u t
    · exact baseZero_append hc u t
  unfold strtoul
  dsimp only
  rw [hdrop, hrest]
  simp only [hhead _ hc.notMinus]

end Separators

section Decimal

/-- `%d` of a natural number. -/
def natText (n : ℕ) : List UInt8 := (Nat.toDigits 10 n).map fun c => c.toNat.toUInt8

def digitText (d : ℕ) : UInt8 := UInt8.ofNat (0x30 + d)

theorem natText_of_lt {n : ℕ} (h : n < 10) : natText n = [digitText n] := by
  rw [natText, Nat.toDigits_of_lt_base h, List.map_singleton, Nat.toNat_digitChar_of_lt_ten h]
  rfl

theorem natText_of_ge {n : ℕ} (h : 10 ≤ n) : natText n = natText (n / 10) ++ [digitText (n % 10)] := by
  have hlt : n % 10 < 10 := Nat.mod_lt _ (by decide)
  rw [natText, Nat.toDigits_of_base_le (by decide) h, List.map_append, List.map_singleton,
    Nat.toNat_digitChar_of_lt_ten hlt]
  rfl

theorem toNat_digitText {d : ℕ} (h : d < 10) : (digitText d).toNat = 0x30 + d := by
  rw [digitText, UInt8.toNat_ofNat']
  omega

theorem isDigit_digitText {d : ℕ} (h : d < 10) : isDigit (digitText d) = true := by
  have hd := toNat_digitText h
  simp only [isDigit, Bool.and_eq_true, decide_eq_true_eq, UInt8.le_iff_toNat_le, hd]
  exact ⟨Nat.le_add_right _ _, by simp; omega⟩

theorem isDigit_natText (n : ℕ) : ∀ c ∈ natText n, isDigit c = true := by
  induction n using Nat.strongRecOn with
  | ind n ih =>
    intro c hc
    by_cases hn : n < 10
    · rw [natText_of_lt hn, List.mem_singleton] at hc
      rw [hc]
      exact isDigit_digitText hn
    · rw [natText_of_ge (by omega), List.mem_append, List.mem_singleton] at hc
      rcases hc with hc | rfl
      · exact ih (n / 10) (by omega) c hc
      · exact isDigit_digitText (Nat.mod_lt _ (by decide))

theorem digits_natText (n : ℕ) : digits (natText n) = n := by
  have htake : (natText n).takeWhile isDigit = natText n :=
    List.takeWhile_eq_self_iff.mpr (isDigit_natText n)
  rw [digits, htake]
  clear htake
  induction n using Nat.strongRecOn with
  | ind n ih =>
    by_cases hn : n < 10
    · rw [natText_of_lt hn, List.foldl_cons, List.foldl_nil, toNat_digitText hn]
      omega
    · rw [natText_of_ge (by omega), List.foldl_append, ih (n / 10) (by omega), List.foldl_cons,
        List.foldl_nil, toNat_digitText (Nat.mod_lt _ (by decide))]
      omega

/-- A number is read back as it was written. -/
theorem atoi_natText {n : ℕ} (h : n ≤ 2147483647) : atoi (natText n) = n := by
  have hne : natText n ≠ [] := by
    rw [natText, Ne, List.map_eq_nil_iff]
    exact Nat.toDigits_ne_nil
  obtain ⟨c, t, hct⟩ := List.exists_cons_of_ne_nil hne
  have hdigits := digits_natText n
  have hc : isDigit c = true := isDigit_natText n c (hct ▸ List.mem_cons_self)
  rw [hct] at hdigits ⊢
  have h2d : c ≠ 0x2D := by
    rintro rfl
    exact absurd hc (by decide)
  have h2b : c ≠ 0x2B := by
    rintro rfl
    exact absurd hc (by decide)
  have hdrop : (c :: t).dropWhile isSpace = c :: t := by
    rw [List.dropWhile_cons, isSpace_of_isDigit hc]
    rfl
  unfold atoi
  rw [hdrop]
  dsimp only
  rw [if_neg h2d, if_neg h2b, hdigits]
  omega

end Decimal

end AtNode.CString
