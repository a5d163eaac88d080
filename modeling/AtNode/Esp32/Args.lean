import AtNode.Esp32.Cfg

/-!
# The arguments of commands

Numbers are decimal, or hexadecimal behind `0x`. A colour is a name, a hexadecimal triple behind `#`,
or three numbers with commas between them.
-/

namespace AtNode.Args

open Config

/-- `from_str_radix` of an unsigned type to the base sixteen. -/
def parseHex (max : ℕ) (s : Text) : Option ℕ :=
  let digits := match s with
    | '+' :: t => t
    | _ => s
  if digits = [] then none
  else
    (digits.foldl (fun n c => n.bind fun n => (toDigit16 c).map (16 * n + ·)) (some 0)).bind fun v =>
      if v ≤ max then some v else none

def parseNum (max : ℕ) (s : Text) : Option ℕ :=
  match s with
  | '0' :: 'x' :: h | '0' :: 'X' :: h => parseHex max h
  | _ => parseUnsigned max s

theorem parseHex_le {max v : ℕ} {s : Text} (h : parseHex max s = some v) : v ≤ max := by
  unfold parseHex at h
  dsimp only at h
  generalize (match s with
    | '+' :: t => t
    | _ => s) = digits at h
  split_ifs at h
  obtain ⟨m, -, hm⟩ := Option.bind_eq_some_iff.mp h
  split_ifs at hm with hle
  cases hm
  exact hle

theorem parseNum_le {max v : ℕ} {s : Text} (h : parseNum max s = some v) : v ≤ max := by
  unfold parseNum at h
  split at h
  · exact parseHex_le h
  · exact parseHex_le h
  · exact parseUnsigned_le h

section Ends

variable {max : ℕ} {u : Text} {c : Char}

theorem parseUnsigned_concat (hdigit : c.isDigit = false) (hplus : c ≠ '+') :
    parseUnsigned max (u ++ [c]) = none := by
  have hall : ∀ s : Text, c ∈ s → ¬ s.all Char.isDigit := by
    intro s hs hdigits
    rw [List.all_eq_true] at hdigits
    exact absurd (hdigits c hs) (by simp [hdigit])
  unfold parseUnsigned
  dsimp only
  split
  · rename_i t heq
    rw [if_pos (Or.inr (hall t ?_))]
    cases u with
    | nil => exact absurd (List.cons.inj heq).1 hplus
    | cons b u =>
      rw [← (List.cons.inj heq).2]
      exact List.mem_append_right _ List.mem_cons_self
  · rw [if_pos (Or.inr (hall _ (List.mem_append_right _ List.mem_cons_self)))]

theorem parseHex_concat (hdigit : toDigit16 c = none) (hplus : c ≠ '+') :
    parseHex max (u ++ [c]) = none := by
  have hfold : ∀ s : Text, (s ++ [c]).foldl
      (fun n c => n.bind fun n => (toDigit16 c).map (16 * n + ·)) (some 0) = none := by
    intro s
    rw [List.foldl_append, List.foldl_cons, List.foldl_nil, hdigit]
    cases List.foldl _ _ s <;> rfl
  unfold parseHex
  dsimp only
  split
  · rename_i t heq
    cases u with
    | nil => exact absurd (List.cons.inj heq).1 hplus
    | cons b u =>
      have ht : t = u ++ [c] := (List.cons.inj heq).2.symm
      rw [ht, hfold]
      exact ite_self _
  · rw [hfold]
    exact ite_self _

/-- A text with a character at its end that no number has is no number. -/
theorem parseNum_concat (hdigit : c.isDigit = false) (hhex : toDigit16 c = none)
    (hc : c ∉ ['+', 'x', 'X']) : parseNum max (u ++ [c]) = none := by
  simp only [List.mem_cons, List.not_mem_nil, or_false, not_or] at hc
  have hbehind : ∀ {x h}, c ≠ x → u ++ [c] = '0' :: x :: h → ∃ u', h = u' ++ [c] := by
    intro x h hx heq
    rcases u with _ | ⟨b, _ | ⟨b', u⟩⟩
    · cases heq
    · injection heq with _ heq
      injection heq with heq _
      exact absurd heq hx
    · injection heq with _ heq
      injection heq with _ heq
      exact ⟨u, heq.symm⟩
  unfold parseNum
  split
  · rename_i h heq
    obtain ⟨u', rfl⟩ := hbehind hc.2.1 heq
    exact parseHex_concat hhex hc.1
  · rename_i h heq
    obtain ⟨u', rfl⟩ := hbehind hc.2.2 heq
    exact parseHex_concat hhex hc.1
  · exact parseUnsigned_concat hdigit hc.1

end Ends

section Led

inductive LedAction where
  | rgb (r g b : UInt8)
  | off
  | auto
  deriving DecidableEq

def toU8 (s : Text) : Option UInt8 := (parseNum u8Max s).map Nat.toUInt8

def toAsciiLower (c : Char) : Char := if 'A' ≤ c ∧ c ≤ 'Z' then Char.ofNat (c.toNat + 32) else c

def eqIgnoreAsciiCase (s t : Text) : Bool := s.map toAsciiLower = t.map toAsciiLower

/-- The parser of the colour commands. -/
def parseColor (s : Text) : Option LedAction :=
  if eqIgnoreAsciiCase s "off".toList then some .off
  else if eqIgnoreAsciiCase s "auto".toList then some .auto
  else
    match s with
    | '#' :: h =>
      if byteLen h ≠ 6 then none
      else (parseHex u32Max h).map fun v => .rgb (v >>> 16).toUInt8 (v >>> 8).toUInt8 v.toUInt8
    | _ =>
      match s.splitOn ',' with
      | [r, g, b] =>
        match toU8 r, toU8 g, toU8 b with
        | some r, some g, some b => some (.rgb r g b)
        | _, _, _ => none
      | _ => none

/-- What the LED shows, as it is reported. -/
inductive LedMode where
  | auto
  | custom
  | off
  | none

def LedMode.text : LedMode → Text
  | .auto => "auto".toList
  | .custom => "custom".toList
  | .off => "off".toList
  | .none => "none".toList

end Led

end AtNode.Args
