import Mathlib.Data.List.Basic

/-!
# Boot keyboard reports and the host that reads them

A keyboard sends reports of a modifier byte and six usage codes. The host takes a usage code as
pressed when it stands in a report and did not stand in the one before, and turns it into a
character by the US layout; the shift keys of the report choose the level.
-/

namespace AtNode.Hid

structure Report where
  mods : UInt8
  keys : Vector UInt8 6
  deriving DecidableEq

/-- Nothing pressed. -/
def Report.rest : Report := ⟨0, #v[0, 0, 0, 0, 0, 0]⟩

def Report.press (mods key : UInt8) : Report := ⟨mods, #v[key, 0, 0, 0, 0, 0]⟩

/-- The keys of a US keyboard that type a character: usage, plain and shifted character. -/
def usLayout : List (UInt8 × Char × Char) :=
  [(4, 'a', 'A'), (5, 'b', 'B'), (6, 'c', 'C'), (7, 'd', 'D'), (8, 'e', 'E'), (9, 'f', 'F'),
    (10, 'g', 'G'), (11, 'h', 'H'), (12, 'i', 'I'), (13, 'j', 'J'), (14, 'k', 'K'), (15, 'l', 'L'),
    (16, 'm', 'M'), (17, 'n', 'N'), (18, 'o', 'O'), (19, 'p', 'P'), (20, 'q', 'Q'), (21, 'r', 'R'),
    (22, 's', 'S'), (23, 't', 'T'), (24, 'u', 'U'), (25, 'v', 'V'), (26, 'w', 'W'), (27, 'x', 'X'),
    (28, 'y', 'Y'), (29, 'z', 'Z'),
    (30, '1', '!'), (31, '2', '@'), (32, '3', '#'), (33, '4', '$'), (34, '5', '%'), (35, '6', '^'),
    (36, '7', '&'), (37, '8', '*'), (38, '9', '('), (39, '0', ')'),
    (40, '\n', '\n'), (43, '\t', '\t'), (44, ' ', ' '),
    (45, '-', '_'), (46, '=', '+'), (47, '[', '\x7B'), (48, ']', '\x7D'), (49, '\x5C', '|'),
    (51, ';', ':'), (52, '\x27', '\x22'), (53, '\x60', '~'), (54, ',', '<'), (55, '.', '>'),
    (56, '/', '?')]

/-- Left or right shift. -/
def shifted (mods : UInt8) : Bool := mods &&& 0x22 != 0

def charOf (mods usage : UInt8) : Option Char :=
  (usLayout.find? fun k => k.1 = usage).map fun k => if shifted mods then k.2.2 else k.2.1

/-- A character some key of the layout types. -/
def Typeable (c : Char) : Prop := ∃ k ∈ usLayout, c = k.2.1 ∨ c = k.2.2

instance (c : Char) : Decidable (Typeable c) :=
  inferInstanceAs (Decidable (∃ k ∈ usLayout, c = k.2.1 ∨ c = k.2.2))

theorem typeable_of_charOf {mods usage : UInt8} {c : Char} (h : charOf mods usage = some c) :
    Typeable c := by
  obtain ⟨k, hk, rfl⟩ := Option.map_eq_some_iff.mp h
  refine ⟨k, List.mem_of_find?_eq_some hk, ?_⟩
  split
  · exact Or.inr rfl
  · exact Or.inl rfl

/-- The usage codes pressed between two reports. -/
def newKeys (prev r : Report) : List UInt8 :=
  r.keys.toList.filter fun k => k ≠ 0 ∧ k ∉ prev.keys

/-- What the host types for a sequence of reports after `prev`. -/
def typed : Report → List Report → List Char
  | _, [] => []
  | prev, r :: rs => (newKeys prev r).filterMap (charOf r.mods) ++ typed r rs

@[simp] theorem typed_nil (prev : Report) : typed prev [] = [] := rfl

theorem typed_cons (prev r : Report) (rs : List Report) :
    typed prev (r :: rs) = (newKeys prev r).filterMap (charOf r.mods) ++ typed r rs := rfl

@[simp] theorem newKeys_rest (prev : Report) : newKeys prev .rest = [] := by
  apply List.filter_eq_nil_iff.mpr
  simp [Report.rest]

theorem typed_rest (prev : Report) (rs : List Report) :
    typed prev (.rest :: rs) = typed .rest rs := by
  rw [typed_cons, newKeys_rest, List.filterMap_nil, List.nil_append]

theorem newKeys_press {prev : Report} {mods key : UInt8} (hkey : key ≠ 0) :
    newKeys prev (.press mods key) = if key ∈ prev.keys then [] else [key] := by
  have htail : (List.replicate 5 (0 : UInt8)).filter (fun k => k ≠ 0 ∧ k ∉ prev.keys) = [] := by
    simp
  change ([key] ++ List.replicate 5 0).filter (fun k => k ≠ 0 ∧ k ∉ prev.keys) = _
  rw [List.filter_append, htail, List.append_nil]
  by_cases hmem : key ∈ prev.keys <;> simp [hmem, hkey]

/-- A key pressed and released: its character is typed unless the usage was down already. -/
theorem typed_stroke {prev : Report} {mods key : UInt8} {c : Char} (hkey : key ≠ 0)
    (hc : charOf mods key = some c) (rs : List Report) :
    typed prev (.press mods key :: .rest :: rs) =
      if key ∈ prev.keys then typed .rest rs else c :: typed .rest rs := by
  rw [typed_cons, typed_rest, newKeys_press hkey]
  split
  · rfl
  · simp [Report.press, hc]

end AtNode.Hid
