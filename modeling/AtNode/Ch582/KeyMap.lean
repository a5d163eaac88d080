import AtNode.Lib.BootKeyboard
import Mathlib.Tactic.Linarith

/-!
# Characters and keys of the CH582 text playback

`keystr_map` gives the modifier and usage for a byte of the text. It is the inverse of the US
layout: whatever the layout can type has a key, and that key types it.
-/

namespace AtNode.Playback

open Hid

def plainKeys : List (Char × UInt8) :=
  [(' ', 44), ('\t', 43), ('\n', 40), ('-', 45), ('=', 46), ('[', 47), (']', 48), ('\x5C', 49),
    (';', 51), ('\x27', 52), ('\x60', 53), (',', 54), ('.', 55), ('/', 56)]

def sym : List Char := ['!', '@', '#', '$', '%', '^', '&', '*', '(', ')']

def shiftKeys : List (Char × UInt8) :=
  [('_', 45), ('+', 46), ('\x7B', 47), ('\x7D', 48), ('|', 49), (':', 51), ('\x22', 52), ('~', 53),
    ('<', 54), ('>', 55), ('?', 56)]

def lookupKey (keys : List (Char × UInt8)) (c : UInt8) : Option UInt8 :=
  (keys.find? fun k => k.1.toUInt8 = c).map Prod.snd

def keystrMap (c : UInt8) : Option (UInt8 × UInt8) :=
  if 'a'.toUInt8 ≤ c ∧ c ≤ 'z'.toUInt8 then some (0, c - 'a'.toUInt8 + 4)
  else if 'A'.toUInt8 ≤ c ∧ c ≤ 'Z'.toUInt8 then some (2, c - 'A'.toUInt8 + 4)
  else if '1'.toUInt8 ≤ c ∧ c ≤ '9'.toUInt8 then some (0, c - '1'.toUInt8 + 30)
  else if c = '0'.toUInt8 then some (0, 39)
  else match lookupKey plainKeys c with
    | some key => some (0, key)
    | none =>
      match sym.findIdx? (fun d => d.toUInt8 = c) with
      | some i => some (2, if i = 9 then 39 else UInt8.ofNat (30 + i))
      | none => (lookupKey shiftKeys c).map fun key => (2, key)

def charOfByte (c : UInt8) : Char := Char.ofNat c.toNat

theorem forall_byte {P : UInt8 → Bool} (h : (List.range 256).all fun i => P (UInt8.ofNat i))
    (c : UInt8) : P c = true := by
  have hc := List.all_eq_true.mp h c.toNat (List.mem_range.mpr c.toNat_lt)
  rwa [UInt8.ofNat_toNat] at hc

/-- The key `keystr_map` finds for the byte types it on a US host. -/
def typedBack (c : UInt8) : Bool :=
  (keystrMap c).all fun k => k.2 ≠ 0 ∧ charOf k.1 k.2 = some (charOfByte c)

theorem charOf_keystrMap {c mods key : UInt8} (h : keystrMap c = some (mods, key)) :
    key ≠ 0 ∧ charOf mods key = some (charOfByte c) := by
  have hall : (List.range 256).all fun i => typedBack (UInt8.ofNat i) := by
    decide +kernel
  have hc := forall_byte hall c
  rw [typedBack, h, Option.all_some] at hc
  exact of_decide_eq_true hc

theorem toUInt8_charOfByte (c : UInt8) : (charOfByte c).toUInt8 = c := by
  have hvalid : c.toNat.isValidChar := Or.inl (by have := c.toNat_lt; omega)
  have hchar : charOfByte c = Char.ofNatAux c.toNat hvalid := dif_pos hvalid
  rw [hchar]
  apply UInt8.toNat_inj.mp
  exact Nat.mod_eq_of_lt c.toNat_lt

theorem keystrMap_eq_none_iff (c : UInt8) : keystrMap c = none ↔ ¬ Typeable (charOfByte c) := by
  constructor
  · rintro h ⟨k, hk, hc⟩
    have hall : ∀ k ∈ usLayout,
        keystrMap k.2.1.toUInt8 ≠ none ∧ keystrMap k.2.2.toUInt8 ≠ none := by decide
    rw [← toUInt8_charOfByte c] at h
    rcases hc with hc | hc <;> rw [hc] at h
    · exact (hall k hk).1 h
    · exact (hall k hk).2 h
  · intro h
    by_contra hne
    obtain ⟨k, hk⟩ := Option.ne_none_iff_exists'.mp hne
    exact h (typeable_of_charOf (charOf_keystrMap hk).2)

/-- The characters of a text that a US keyboard types. -/
def mappable (text : List UInt8) : List Char :=
  (text.map charOfByte).filter fun c => Typeable c

end AtNode.Playback
