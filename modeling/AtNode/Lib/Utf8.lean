import Mathlib.Data.List.Basic

/-!
# UTF-8 on lists of bytes

`decode` reads a list of bytes as a text, or fails. It succeeds exactly on the encodings of texts,
so a list of bytes is valid when some text encodes to it, and it then has no other text.
-/

namespace AtNode.Utf8

variable {c : Char} {cs : List Char} {bs : List UInt8}

def encode (cs : List Char) : List UInt8 := cs.flatMap String.utf8EncodeChar

/-- The character at the head of the bytes; none is longer than four bytes. -/
def decodeChar (bs : List UInt8) : Option Char := (bs.take 4).toByteArray.utf8DecodeChar? 0

def decodeLoop : ℕ → List UInt8 → Option (List Char)
  | _, [] => some []
  | 0, _ :: _ => none
  | n + 1, b :: bs =>
    match decodeChar (b :: bs) with
    | none => none
    | some c => (decodeLoop n ((b :: bs).drop c.utf8Size)).map (c :: ·)

/-- Every character takes a byte, so the length bounds the number of characters. -/
def decode (bs : List UInt8) : Option (List Char) := decodeLoop bs.length bs

@[simp] theorem encode_nil : encode [] = [] := rfl

@[simp] theorem encode_cons : encode (c :: cs) = String.utf8EncodeChar c ++ encode cs := rfl

@[simp] theorem encode_append (cs ds : List Char) : encode (cs ++ ds) = encode cs ++ encode ds :=
  List.flatMap_append

/-- The characters below 128 are their own byte. -/
theorem encodeChar_of_lt (h : c.toNat < 128) : String.utf8EncodeChar c = [UInt8.ofNat c.toNat] := by
  have hle : c.val.toNat ≤ 127 := Nat.le_of_lt_succ h
  unfold String.utf8EncodeChar
  dsimp only
  rw [if_pos hle]
  rfl

/-- No byte of the other characters is below 128. -/
theorem le_of_mem_encodeChar (h : 128 ≤ c.toNat) {b : UInt8} (hb : b ∈ String.utf8EncodeChar c) :
    128 ≤ b.toNat := by
  have hgt : ¬ c.val.toNat ≤ 127 := Nat.not_le.mpr h
  unfold String.utf8EncodeChar at hb
  dsimp only at hb
  rw [if_neg hgt] at hb
  split_ifs at hb <;>
    · simp only [List.mem_cons, List.not_mem_nil, or_false] at hb
      rcases hb with rfl | rfl | rfl | rfl <;> simp only [UInt8.toNat_ofNat'] <;> omega

theorem encodeChar_ne_nil (c : Char) : String.utf8EncodeChar c ≠ [] := by
  intro h
  have hlen := String.length_utf8EncodeChar c
  rw [h, List.length_nil] at hlen
  exact absurd c.utf8Size_pos (by omega)

theorem decodeChar_encodeChar (c : Char) (bs : List UInt8) :
    decodeChar (String.utf8EncodeChar c ++ bs) = some c := by
  have hlen : (String.utf8EncodeChar c).length ≤ 4 := by
    rw [String.length_utf8EncodeChar]
    exact c.utf8Size_le_four
  rw [decodeChar, List.take_append, List.take_of_length_le hlen, List.toByteArray_append]
  exact ByteArray.utf8DecodeChar?_utf8EncodeChar_append

theorem eq_of_decodeChar (h : decodeChar bs = some c) :
    bs = String.utf8EncodeChar c ++ bs.drop c.utf8Size := by
  obtain ⟨l, hl⟩ := ByteArray.exists_of_utf8DecodeChar?_eq_some h
  have htake : bs.take 4 = String.utf8EncodeChar c ++ l.data.toList := by
    have hdata := congrArg (fun b : ByteArray => b.data.toList) hl
    simpa using hdata
  have hsize : c.utf8Size ≤ 4 := c.utf8Size_le_four
  have hchar : bs.take c.utf8Size = String.utf8EncodeChar c := by
    have hcut := congrArg (List.take c.utf8Size) htake
    rw [List.take_take, Nat.min_eq_left hsize, ← String.length_utf8EncodeChar,
      List.take_left] at hcut
    rwa [String.length_utf8EncodeChar] at hcut
  rw [← hchar, List.take_append_drop]

theorem decodeLoop_encode (cs : List Char) (n : ℕ) (h : cs.length ≤ n) :
    decodeLoop n (encode cs) = some cs := by
  induction cs generalizing n with
  | nil => cases n <;> rfl
  | cons c cs ih =>
    cases n with
    | zero => simp at h
    | succ n =>
      obtain ⟨b, bs, hb⟩ := List.exists_cons_of_ne_nil (encodeChar_ne_nil c)
      have hchar := decodeChar_encodeChar c (encode cs)
      have hdrop : (String.utf8EncodeChar c ++ encode cs).drop c.utf8Size = encode cs := by
        rw [← String.length_utf8EncodeChar, List.drop_left]
      rw [encode_cons]
      rw [hb, List.cons_append] at hchar hdrop ⊢
      rw [decodeLoop, hchar]
      dsimp only
      rw [hdrop, ih n (by simpa using h)]
      rfl

theorem length_le_length_encode (cs : List Char) : cs.length ≤ (encode cs).length := by
  induction cs with
  | nil => exact Nat.le_refl _
  | cons c cs ih =>
    rw [encode_cons, List.length_append, String.length_utf8EncodeChar, List.length_cons]
    have hpos := c.utf8Size_pos
    omega

@[simp] theorem decode_encode (cs : List Char) : decode (encode cs) = some cs :=
  decodeLoop_encode cs _ (length_le_length_encode cs)

theorem eq_encode_of_decodeLoop (n : ℕ) (h : decodeLoop n bs = some cs) : bs = encode cs := by
  induction n generalizing bs cs with
  | zero =>
    cases bs with
    | nil =>
      cases h
      rfl
    | cons b bs => cases h
  | succ n ih =>
    cases bs with
    | nil =>
      cases h
      rfl
    | cons b bs =>
      rw [decodeLoop] at h
      split at h
      · cases h
      · rename_i c hc
        obtain ⟨ds, hds, rfl⟩ := Option.map_eq_some_iff.mp h
        rw [encode_cons, ← ih hds]
        exact eq_of_decodeChar hc

theorem decode_eq_some_iff : decode bs = some cs ↔ bs = encode cs := by
  constructor
  · exact eq_encode_of_decodeLoop _
  · rintro rfl
    exact decode_encode cs

end AtNode.Utf8
