import AtNode.Esp32.Heapless
import AtNode.Lib.Pairs

/-!
# Query strings of the ESP32 firmware

`query_get` finds a parameter of a query string by its key and decodes its value into a string of
256 bytes. The decoder works on the bytes of the value and pushes each byte as a character, and each
escape as the character of its number. A character that does not fit is left out. An escape is cut
out of the text by the positions of its bytes, which stops the firmware where a position is inside a
character.
-/

namespace AtNode.Query

open Config Heapless

abbrev scratchCap : ℕ := 256

abbrev percent : UInt8 := 0x25

abbrev plus : UInt8 := 0x2B

def hexDigit (b : UInt8) : Option ℕ :=
  if 0x30 ≤ b ∧ b ≤ 0x39 then some (b.toNat - 0x30)
  else if 0x41 ≤ b ∧ b ≤ 0x46 then some (b.toNat - 0x41 + 10)
  else if 0x61 ≤ b ∧ b ≤ 0x66 then some (b.toNat - 0x61 + 10)
  else none

/-- `u8::from_str_radix` of two bytes; a plus sign may be in front. -/
def fromStrRadix16 (a b : UInt8) : Option ℕ :=
  if a = plus then hexDigit b
  else (hexDigit a).bind fun hi => (hexDigit b).map (16 * hi + ·)

def isContinuation (b : UInt8) : Bool := 0x80 ≤ b && b ≤ 0xBF

def asChar (b : UInt8) : Char := Char.ofNat b.toNat

/-- The loop of `url_decode`; without a result the slice of an escape is not at the bounds of
characters. -/
def urlDecodeLoop (cap : ℕ) : List UInt8 → Text → Option Text
  | [], out => some out
  | c :: rest, out =>
    if c = percent then
      match rest with
      | a :: b :: rest' =>
        if isContinuation a || rest'.head?.any isContinuation then none
        else
          match fromStrRadix16 a b with
          | some v => urlDecodeLoop cap rest' (push cap out (Char.ofNat v))
          | none => urlDecodeLoop cap (a :: b :: rest') (push cap out '%')
      | [a] => urlDecodeLoop cap [a] (push cap out (asChar c))
      | [] => urlDecodeLoop cap [] (push cap out (asChar c))
    else if c = plus then urlDecodeLoop cap rest (push cap out ' ')
    else urlDecodeLoop cap rest (push cap out (asChar c))

def urlDecode (input : Text) : Option Text := urlDecodeLoop scratchCap (Utf8.encode input) []

/-- `query_get`; a key that is not there has the empty value. -/
def queryGet (query key : Text) : Option Text :=
  match Pairs.lookup '&' '=' key query with
  | some v => urlDecode v
  | none => some []

section Characters

variable {b : UInt8} {c : Char}

theorem toNat_asChar (b : UInt8) : (asChar b).toNat = b.toNat := by
  have hb : b.toNat < 256 := b.toNat_lt
  have hvalid : b.toNat.isValidChar := Or.inl (by omega)
  rw [asChar, Char.ofNat, dif_pos hvalid]
  rfl

theorem utf8Size_asChar_of_lt (h : b.toNat < 128) : (asChar b).utf8Size = 1 := by
  rw [Char.utf8Size_eq_one_iff, UInt32.le_iff_toNat_le]
  have hc : (asChar b).val.toNat = b.toNat := toNat_asChar b
  rw [hc]
  exact Nat.le_of_lt_succ h

theorem utf8Size_asChar_of_le (h : 128 ≤ b.toNat) : (asChar b).utf8Size = 2 := by
  have hb : b.toNat < 256 := b.toNat_lt
  have hc : (asChar b).val.toNat = b.toNat := toNat_asChar b
  rw [Char.utf8Size_eq_two_iff, UInt32.lt_iff_toNat_lt, UInt32.le_iff_toNat_le, hc]
  exact ⟨h, Nat.le_trans (Nat.le_of_lt hb) (by decide)⟩

theorem encode_asChar (h : b.toNat < 128) : Utf8.encode [asChar b] = [b] := by
  rw [Utf8.encode_cons, Utf8.encode_nil, List.append_nil,
    Utf8.encodeChar_of_lt (by rwa [toNat_asChar]), toNat_asChar, UInt8.ofNat_toNat]

theorem asChar_toNat (h : c.toNat < 128) : asChar (UInt8.ofNat c.toNat) = c := by
  rw [asChar, UInt8.toNat_ofNat', Nat.mod_eq_of_lt (by omega), Char.ofNat_toNat]

end Characters

section Decoding

variable {cap : ℕ} {a b c : UInt8} {bs : List UInt8} {out : Text} {n : ℕ}

theorem urlDecodeLoop_byte (hpct : c ≠ percent) (hplus : c ≠ plus) :
    urlDecodeLoop cap (c :: bs) out = urlDecodeLoop cap bs (push cap out (asChar c)) := by
  rw [urlDecodeLoop.eq_def]
  dsimp only
  rw [if_neg hpct, if_neg hplus]

theorem urlDecodeLoop_plus :
    urlDecodeLoop cap (plus :: bs) out = urlDecodeLoop cap bs (push cap out ' ') := by
  rw [urlDecodeLoop.eq_def]
  rfl

theorem urlDecodeLoop_escape (ha : isContinuation a = false)
    (hbs : bs.head?.any isContinuation = false) (hn : fromStrRadix16 a b = some n) :
    urlDecodeLoop cap (percent :: a :: b :: bs) out =
      urlDecodeLoop cap bs (push cap out (Char.ofNat n)) := by
  rw [urlDecodeLoop.eq_def]
  dsimp only
  rw [if_pos rfl, ha, hbs, Bool.or_self, if_neg Bool.false_ne_true, hn]

end Decoding

end AtNode.Query
