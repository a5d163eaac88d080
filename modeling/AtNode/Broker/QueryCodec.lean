import Mathlib.Data.List.Nodup
import AtNode.Esp32.Query

/-!
# Query strings between the bridge and the firmware

The bridge encodes the parameters of a call with `urlencode`: the UTF-8 bytes of a text, the bytes
that are not left alone as escapes. The firmware reads a parameter with `query_get`, which turns each
byte back into a character, so the text of a value is not the text that was encoded where a
character has more than one byte.
-/

namespace AtNode.QueryCodec

open Config Heapless Query

variable {c : Char} {s t k v w : Text} {b : UInt8} {ps : List (Text × Text)} {cap : ℕ}

section Model

def isUnreserved (c : Char) : Bool := c.isAlphanum || c = '_' || c = '.' || c = '-' || c = '~'

def upperHex (n : ℕ) : Char := if n < 10 then Char.ofNat (0x30 + n) else Char.ofNat (0x41 + n - 10)

def quoteByte (safe : Text) (b : UInt8) : Text :=
  if isUnreserved (asChar b) || safe.contains (asChar b) then [asChar b]
  else ['%', upperHex (b.toNat / 16), upperHex (b.toNat % 16)]

def quote (safe s : Text) : Text := (Utf8.encode s).flatMap (quoteByte safe)

def quotePlus (s : Text) : Text :=
  if s.contains ' ' then (quote [' '] s).map fun c => if c = ' ' then '+' else c
  else quote [] s

def urlencode (ps : List (Text × Text)) : Text :=
  ['&'].intercalate (ps.map fun p => quotePlus p.1 ++ '=' :: quotePlus p.2)

end Model

section Bytes

def Ascii (s : Text) : Prop := ∀ c ∈ s, c.toNat < 128

instance : DecidablePred Ascii := List.decidableBAll fun (c : Char) => c.toNat < 128

/-- The characters that stand in the text of a value when each of its bytes is one. -/
def byteText (s : Text) : Text := (Utf8.encode s).map asChar

theorem byteText_append (s t : Text) : byteText (s ++ t) = byteText s ++ byteText t := by
  rw [byteText, Utf8.encode_append, List.map_append, byteText, byteText]

theorem length_byteText (s : Text) : (byteText s).length = byteLen s := by
  rw [byteText, List.length_map, length_encode]

theorem byteText_ascii (h : Ascii s) : byteText s = s := by
  induction s with
  | nil => rfl
  | cons c s ih =>
    have hc := h c List.mem_cons_self
    rw [byteText, Utf8.encode_cons, Utf8.encodeChar_of_lt hc, List.map_append, List.map_singleton,
      asChar_toNat hc, List.singleton_append]
    exact congrArg (c :: ·) (ih fun d hd => h d (List.mem_cons_of_mem _ hd))

end Bytes

section Escapes

def plusByte (b : UInt8) : Text := if b = 0x20 then ['+'] else quoteByte [] b

theorem toNat_lt_of_isUnreserved (h : isUnreserved c) : c.toNat < 128 := by
  unfold isUnreserved at h
  simp only [Bool.or_eq_true, decide_eq_true_eq] at h
  rcases h with (((h | rfl) | rfl) | rfl) | rfl
  · have hranges : c.isAlphanum = (decide (65 ≤ c.val ∧ c.val ≤ 90) ||
        (decide (97 ≤ c.val) && decide (c.val ≤ 122)) ||
          (decide (48 ≤ c.val) && decide (c.val ≤ 57))) := rfl
    rw [hranges] at h
    simp only [Bool.or_eq_true, Bool.and_eq_true, decide_eq_true_eq, UInt32.le_iff_toNat_le] at h
    have hc : c.val.toNat = c.toNat := rfl
    rw [hc] at h
    rcases h with (⟨-, h⟩ | ⟨-, h⟩) | ⟨-, h⟩ <;> exact Nat.lt_of_le_of_lt h (by decide)
  all_goals decide

theorem upperHex_spec : ∀ n < 16, hexDigit (UInt8.ofNat (upperHex n).toNat) = some n ∧
    (upperHex n).toNat < 128 ∧ UInt8.ofNat (upperHex n).toNat ≠ plus ∧
      isContinuation (UInt8.ofNat (upperHex n).toNat) = false ∧
        upperHex n ∉ ['&', '=', ' ', '+'] := by
  decide

theorem ascii_quoteByte (safe : Text) (hs : Ascii safe) (b : UInt8) : Ascii (quoteByte safe b) := by
  have hb : b.toNat < 256 := b.toNat_lt
  have hhi := upperHex_spec (b.toNat / 16) (by omega)
  have hlo := upperHex_spec (b.toNat % 16) (by omega)
  intro c hc
  rw [quoteByte] at hc
  split_ifs at hc with hsafe
  · rw [List.mem_singleton] at hc
    rw [hc]
    rcases Bool.or_eq_true _ _ ▸ hsafe with h | h
    · exact toNat_lt_of_isUnreserved h
    · exact hs _ (List.contains_iff_mem.mp h)
  · simp only [List.mem_cons, List.not_mem_nil, or_false] at hc
    rcases hc with rfl | rfl | rfl
    · decide
    · exact hhi.2.1
    · exact hlo.2.1

theorem ascii_plusByte (b : UInt8) : Ascii (plusByte b) := by
  rw [plusByte]
  split_ifs with h
  · intro c hc
    rw [List.mem_singleton.mp hc]
    decide
  · exact ascii_quoteByte [] (fun c hc => absurd hc List.not_mem_nil) b

/-- No separator of a query and no blank is in an escape. -/
theorem not_mem_quoteByte (b : UInt8) (hc : c ∈ ['&', '=', ' ', '+']) : c ∉ quoteByte [] b := by
  have hb : b.toNat < 256 := b.toNat_lt
  have hhi := (upperHex_spec (b.toNat / 16) (by omega)).2.2.2.2
  have hlo := (upperHex_spec (b.toNat % 16) (by omega)).2.2.2.2
  have hres : ['&', '=', ' ', '+'].all (fun d => !isUnreserved d && d != '%') = true := rfl
  obtain ⟨hunres, hpct⟩ : isUnreserved c = false ∧ c ≠ '%' := by
    simpa using List.all_eq_true.mp hres c hc
  intro hmem
  rw [quoteByte] at hmem
  split_ifs at hmem with hsafe
  · rw [List.mem_singleton.mp hmem] at hunres
    rw [hunres] at hsafe
    cases hsafe
  · simp only [List.mem_cons, List.not_mem_nil, or_false] at hmem
    rcases hmem with rfl | rfl | rfl
    · exact hpct rfl
    · exact hhi hc
    · exact hlo hc

theorem not_mem_plusByte (b : UInt8) (hc : c ∈ ['&', '=', ' ']) : c ∉ plusByte b := by
  rw [plusByte]
  split_ifs with h
  · rintro hplus
    rw [List.mem_singleton.mp hplus] at hc
    exact absurd hc (by decide)
  · exact not_mem_quoteByte b (List.mem_append_left ['+'] hc)

/-- The blanks that `quote` is told to leave become plus signs. -/
theorem map_quoteByte_blank (b : UInt8) :
    (quoteByte [' '] b).map (fun c => if c = ' ' then '+' else c) = plusByte b := by
  have hblank : asChar b = ' ' ↔ b = 0x20 := by
    constructor
    · intro h
      have hn := congrArg Char.toNat h
      rw [toNat_asChar] at hn
      exact UInt8.toNat_inj.mp hn
    · rintro rfl
      rfl
  rw [plusByte]
  by_cases hb : b = 0x20
  · rw [if_pos hb, hb]
    rfl
  · have hsame : quoteByte [' '] b = quoteByte [] b := by
      have hcontains : [' '].contains (asChar b) = ([] : Text).contains (asChar b) := by
        rw [List.contains_cons, beq_eq_false_iff_ne.mpr (mt hblank.mp hb), Bool.false_or]
      rw [quoteByte, hcontains, ← quoteByte]
    have hid : ∀ c ∈ quoteByte [] b, (if c = ' ' then '+' else c) = id c := by
      intro c hc
      have hne : c ≠ ' ' := by
        rintro rfl
        exact not_mem_quoteByte b (by decide) hc
      rw [if_neg hne, id]
    rw [if_neg hb, hsame, List.map_congr_left hid, List.map_id]

theorem blank_mem_of_mem_encode (h : 0x20 ∈ Utf8.encode s) : ' ' ∈ s := by
  obtain ⟨c, hc, hb⟩ := List.mem_flatMap.mp h
  rcases Nat.lt_or_ge c.toNat 128 with hlt | hge
  · rw [Utf8.encodeChar_of_lt hlt, List.mem_singleton] at hb
    have hchar := congrArg asChar hb
    rw [asChar_toNat hlt] at hchar
    rwa [← hchar] at hc
  · exact absurd (Utf8.le_of_mem_encodeChar hge hb) (by decide)

theorem quotePlus_eq (s : Text) : quotePlus s = (Utf8.encode s).flatMap plusByte := by
  rw [quotePlus]
  split_ifs with h
  · rw [quote, List.map_flatMap, funext map_quoteByte_blank]
  · rw [quote]
    apply List.flatMap_congr
    intro b hb
    have hne : b ≠ 0x20 := by
      rintro rfl
      exact h (List.contains_iff_mem.mpr (blank_mem_of_mem_encode hb))
    rw [plusByte, if_neg hne]

theorem ascii_quotePlus (s : Text) : Ascii (quotePlus s) := by
  intro c hc
  rw [quotePlus_eq] at hc
  obtain ⟨b, -, hb⟩ := List.mem_flatMap.mp hc
  exact ascii_plusByte b c hb

theorem not_mem_quotePlus (s : Text) (hc : c ∈ ['&', '=', ' ']) : c ∉ quotePlus s := by
  intro h
  rw [quotePlus_eq] at h
  obtain ⟨b, -, hb⟩ := List.mem_flatMap.mp h
  exact not_mem_plusByte b hc hb

end Escapes

section Decoding

variable {out rest : Text}

def pushAll (cap : ℕ) (out s : Text) : Text := s.foldl (push cap) out

/-- Behind an escape of ASCII text a slice is at the bounds of characters. -/
theorem head_encode_ascii (h : Ascii rest) :
    (Utf8.encode rest).head?.any isContinuation = false := by
  cases rest with
  | nil => rfl
  | cons c rest =>
    have hc := h c List.mem_cons_self
    rw [Utf8.encode_cons, Utf8.encodeChar_of_lt hc, List.singleton_append, List.head?_cons,
      Option.any_some, isContinuation, Bool.and_eq_false_iff]
    left
    rw [decide_eq_false_iff_not, UInt8.le_iff_toNat_le, UInt8.toNat_ofNat',
      Nat.mod_eq_of_lt (by omega)]
    exact Nat.not_le.mpr hc

theorem fromStrRadix16_upperHex (b : UInt8) :
    fromStrRadix16 (UInt8.ofNat (upperHex (b.toNat / 16)).toNat)
      (UInt8.ofNat (upperHex (b.toNat % 16)).toNat) = some b.toNat := by
  have hb : b.toNat < 256 := b.toNat_lt
  have hhi := upperHex_spec (b.toNat / 16) (by omega)
  have hlo := upperHex_spec (b.toNat % 16) (by omega)
  rw [fromStrRadix16, if_neg hhi.2.2.1, hhi.1, hlo.1, Option.bind_some, Option.map_some,
    Nat.div_add_mod]

/-- One byte of the encoded text is decoded to its character. -/
theorem urlDecodeLoop_plusByte (b : UInt8) (h : Ascii rest) :
    urlDecodeLoop cap (Utf8.encode (plusByte b ++ rest)) out =
      urlDecodeLoop cap (Utf8.encode rest) (push cap out (asChar b)) := by
  rw [Utf8.encode_append, plusByte]
  by_cases hblank : b = 0x20
  · rw [if_pos hblank, hblank]
    exact urlDecodeLoop_plus
  · rw [if_neg hblank, quoteByte]
    by_cases hunres : isUnreserved (asChar b) = true
    · have hlt : b.toNat < 128 := toNat_asChar b ▸ toNat_lt_of_isUnreserved hunres
      have hpct : b ≠ percent := by
        rintro rfl
        revert hunres
        decide
      have hplus : b ≠ plus := by
        rintro rfl
        revert hunres
        decide
      rw [if_pos (by rw [hunres, Bool.true_or]), encode_asChar hlt, List.singleton_append,
        urlDecodeLoop_byte hpct hplus]
    · have hb : b.toNat < 256 := b.toNat_lt
      have hhi := upperHex_spec (b.toNat / 16) (by omega)
      have hlo := upperHex_spec (b.toNat % 16) (by omega)
      have hbytes : Utf8.encode ['%', upperHex (b.toNat / 16), upperHex (b.toNat % 16)] =
          [percent, UInt8.ofNat (upperHex (b.toNat / 16)).toNat,
            UInt8.ofNat (upperHex (b.toNat % 16)).toNat] := by
        rw [Utf8.encode_cons, Utf8.encode_cons, Utf8.encode_cons,
          Utf8.encodeChar_of_lt (by decide), Utf8.encodeChar_of_lt hhi.2.1,
          Utf8.encodeChar_of_lt hlo.2.1]
        rfl
      rw [if_neg (by simpa using hunres), hbytes]
      exact urlDecodeLoop_escape hhi.2.2.2.1 (head_encode_ascii h) (fromStrRadix16_upperHex b)

theorem urlDecodeLoop_quotePlus (s : Text) (out : Text) :
    urlDecodeLoop cap (Utf8.encode (quotePlus s)) out = some (pushAll cap out (byteText s)) := by
  rw [quotePlus_eq, byteText]
  generalize Utf8.encode s = bs
  induction bs generalizing out with
  | nil => rfl
  | cons b bs ih =>
    have hascii : Ascii (bs.flatMap plusByte) := by
      intro c hc
      obtain ⟨d, -, hd⟩ := List.mem_flatMap.mp hc
      exact ascii_plusByte d c hd
    rw [List.flatMap_cons, urlDecodeLoop_plusByte b hascii, ih]
    rfl

theorem urlDecode_quotePlus (s : Text) :
    urlDecode (quotePlus s) = some (pushAll scratchCap [] (byteText s)) :=
  urlDecodeLoop_quotePlus s []

end Decoding

section Values

variable {out r : Text}

def Wide (s : Text) : Prop := ∀ c ∈ s, 128 ≤ c.toNat

/-- The values that are decoded to themselves: an ASCII text, or one that fills the buffer while the
text of its bytes begins with it. -/
def Survives (v : Text) : Prop :=
  Ascii v ∨ ∃ w t, v = w ++ t ∧ w <+: byteText w ∧ scratchCap ≤ byteLen w + 1 ∧ Ascii t

theorem pushAll_append (cap : ℕ) (out s t : Text) :
    pushAll cap out (s ++ t) = pushAll cap (pushAll cap out s) t := List.foldl_append

theorem pushAll_fits (h : byteLen out + byteLen s ≤ cap) : pushAll cap out s = out ++ s := by
  induction s generalizing out with
  | nil => exact (List.append_nil out).symm
  | cons c s ih =>
    rw [byteLen_cons] at h
    have hpush : push cap out c = out ++ [c] := by
      apply put_fits
      rw [byteLen_cons, byteLen_nil]
      omega
    have hrest : byteLen (out ++ [c]) + byteLen s ≤ cap := by
      rw [byteLen_append, byteLen_cons, byteLen_nil]
      omega
    rw [pushAll, List.foldl_cons, hpush, ← pushAll, ih hrest, List.append_assoc,
      List.singleton_append]

theorem pushAll_full (h : ∀ c ∈ s, cap < byteLen out + c.utf8Size) : pushAll cap out s = out := by
  induction s with
  | nil => rfl
  | cons c s ih =>
    have hpush : push cap out c = out := by
      apply put_full
      rw [byteLen_cons, byteLen_nil]
      exact h c List.mem_cons_self
    rw [pushAll, List.foldl_cons, hpush]
    exact ih fun d hd => h d (List.mem_cons_of_mem _ hd)

theorem byteLen_pushAll (h : byteLen out ≤ cap) : byteLen (pushAll cap out s) ≤ cap := by
  induction s generalizing out with
  | nil => exact h
  | cons c s ih => exact ih (byteLen_put h)

theorem prefix_pushAll (cap : ℕ) (out s : Text) : out <+: pushAll cap out s := by
  induction s generalizing out with
  | nil => exact List.prefix_rfl
  | cons c s ih =>
    have hput := prefix_putAll cap out [[c]]
    exact hput.trans (ih _)

theorem fits_or_first_full (out s : Text) (h : byteLen out ≤ cap) :
    byteLen out + byteLen s ≤ cap ∨ ∃ p c r, s = p ++ c :: r ∧ byteLen (out ++ p) ≤ cap ∧
      cap < byteLen (out ++ p) + c.utf8Size := by
  induction s generalizing out with
  | nil => exact Or.inl h
  | cons c s ih =>
    rcases Nat.lt_or_ge cap (byteLen out + c.utf8Size) with hc | hc
    · refine Or.inr ⟨[], c, s, rfl, ?_, ?_⟩
      · rwa [List.append_nil]
      · rwa [List.append_nil]
    · have hlen : byteLen (out ++ [c]) = byteLen out + c.utf8Size := by
        rw [byteLen_append, byteLen_cons, byteLen_nil, Nat.add_zero]
      rcases ih (out ++ [c]) (hlen ▸ hc) with hfit | ⟨p, d, r, rfl, hp, hd⟩
      · left
        rw [byteLen_cons]
        omega
      · rw [List.append_assoc] at hp hd
        exact Or.inr ⟨c :: p, d, r, rfl, hp, hd⟩

theorem utf8Size_eq_one_iff_lt (c : Char) : c.utf8Size = 1 ↔ c.toNat < 128 := by
  rw [Char.utf8Size_eq_one_iff, UInt32.le_iff_toNat_le]
  exact Nat.lt_succ_iff.symm

theorem ascii_of_byteLen_le (h : byteLen s ≤ s.length) : Ascii s := by
  have hge : ∀ t : Text, t.length ≤ byteLen t := by
    intro t
    rw [← length_encode]
    exact Utf8.length_le_length_encode t
  induction s with
  | nil => exact fun c hc => absurd hc List.not_mem_nil
  | cons c s ih =>
    have hs := hge s
    have hpos := c.utf8Size_pos
    rw [byteLen_cons, List.length_cons] at h
    intro d hd
    rcases List.mem_cons.mp hd with rfl | hd
    · exact (utf8Size_eq_one_iff_lt d).mp (by omega)
    · exact ih (by omega) d hd

theorem wide_byteText (h : Wide s) : Wide (byteText s) := by
  intro c hc
  obtain ⟨b, hb, rfl⟩ := List.mem_map.mp hc
  obtain ⟨d, hd, hbd⟩ := List.mem_flatMap.mp hb
  rw [toNat_asChar]
  exact Utf8.le_of_mem_encodeChar (h d hd) hbd

theorem two_mul_length_le (h : Wide s) : 2 * s.length ≤ byteLen s := by
  induction s with
  | nil => exact Nat.le_refl _
  | cons c s ih =>
    have hs := ih fun d hd => h d (List.mem_cons_of_mem _ hd)
    have hpos := c.utf8Size_pos
    have hne : c.utf8Size ≠ 1 := fun hone =>
      absurd ((utf8Size_eq_one_iff_lt c).mp hone) (Nat.not_lt.mpr (h c List.mem_cons_self))
    rw [byteLen_cons, List.length_cons]
    omega

/-- Each character comes from one in front of it, and these have two bytes. -/
theorem wide_of_prefix_byteText (hc : 128 ≤ c.toNat) (h : c :: s <+: byteText (c :: s)) :
    Wide (c :: s) := by
  have hall : ∀ n, Wide ((c :: s).take (n + 1)) := by
    intro n
    induction n with
    | zero =>
      intro d hd
      rw [List.mem_singleton.mp hd]
      exact hc
    | succ n ih =>
      have hmono : byteText ((c :: s).take (n + 1)) <+: byteText (c :: s) := by
        conv_rhs => rw [← List.take_append_drop (n + 1) (c :: s), byteText_append]
        exact List.prefix_append _ _
      have hlen : ((c :: s).take (n + 2)).length ≤ (byteText ((c :: s).take (n + 1))).length := by
        have htwo := two_mul_length_le ih
        rw [length_byteText]
        rw [List.length_take] at htwo ⊢
        rw [List.length_cons] at htwo ⊢
        omega
      have hpre := List.prefix_of_prefix_length_le ((List.take_prefix _ _).trans h) hmono hlen
      exact fun d hd => wide_byteText ih d (hpre.subset hd)
  have htake := hall s.length
  rwa [List.take_of_length_le (Nat.le_of_eq List.length_cons)] at htake

/-- Behind a text that the text of its bytes begins with, there is no ASCII. -/
theorem wide_rest (h : byteText s = s ++ r) : Wide r := by
  induction s with
  | nil =>
    rw [List.nil_append] at h
    rw [← h]
    exact fun c hc => absurd hc List.not_mem_nil
  | cons c s ih =>
    rcases Nat.lt_or_ge c.toNat 128 with hlt | hge
    · have hhead : byteText [c] = [c] := byteText_ascii fun d hd => by
        rw [List.mem_singleton.mp hd]
        exact hlt
      rw [← List.singleton_append, byteText_append, hhead, List.append_assoc,
        List.append_cancel_left_eq] at h
      exact ih h
    · have hwide := wide_byteText (wide_of_prefix_byteText hge ⟨r, h.symm⟩)
      rw [h] at hwide
      exact fun d hd => hwide d (List.mem_append_right _ hd)

theorem utf8Size_le_two_of_mem_byteText (h : c ∈ byteText s) : c.utf8Size ≤ 2 := by
  obtain ⟨b, -, rfl⟩ := List.mem_map.mp h
  rcases Nat.lt_or_ge b.toNat 128 with hb | hb
  · rw [utf8Size_asChar_of_lt hb]
    decide
  · exact Nat.le_of_eq (utf8Size_asChar_of_le hb)

theorem survives_of_decoded (h : pushAll scratchCap [] (byteText v) = v) : Survives v := by
  rcases fits_or_first_full [] (byteText v) (Nat.zero_le scratchCap) with
    hfit | ⟨p, c, r, hsplit, hp, hc⟩
  · left
    rw [pushAll_fits hfit, List.nil_append] at h
    have hlen := length_byteText v
    rw [h] at hlen
    exact ascii_of_byteLen_le (Nat.le_of_eq hlen.symm)
  · right
    rw [List.nil_append] at hp hc
    have hsize : c.utf8Size ≤ 2 := by
      apply utf8Size_le_two_of_mem_byteText (s := v)
      rw [hsplit]
      exact List.mem_append_right _ List.mem_cons_self
    obtain ⟨t, ht⟩ := prefix_pushAll scratchCap (pushAll scratchCap [] p) (c :: r)
    have hfirst : pushAll scratchCap [] p = p := by
      rw [pushAll_fits (by rwa [byteLen_nil, Nat.zero_add]), List.nil_append]
    rw [← pushAll_append, ← hsplit, h, hfirst] at ht
    have hlen : byteLen v ≤ scratchCap := by
      rw [← h]
      exact byteLen_pushAll (Nat.zero_le _)
    have hcap : scratchCap = 256 := rfl
    refine ⟨p, t, ht.symm, ?_, by omega, ?_⟩
    · have hpv : p <+: byteText v := ⟨c :: r, hsplit.symm⟩
      rw [← ht, byteText_append] at hpv
      refine List.prefix_of_prefix_length_le hpv (List.prefix_append _ _) ?_
      rw [length_byteText, ← length_encode]
      exact Utf8.length_le_length_encode p
    · apply ascii_of_byteLen_le
      rw [← ht, byteLen_append] at hlen
      cases t with
      | nil => exact Nat.le_refl _
      | cons d t =>
        rw [byteLen_cons] at hlen ⊢
        have hpos := d.utf8Size_pos
        rw [List.length_cons]
        omega

theorem decoded_of_survives (hlen : byteLen v ≤ scratchCap) (h : Survives v) :
    pushAll scratchCap [] (byteText v) = v := by
  rcases h with hascii | ⟨w, t, rfl, ⟨r, hr⟩, hw, ht⟩
  · rw [byteText_ascii hascii, pushAll_fits (by rwa [byteLen_nil, Nat.zero_add]), List.nil_append]
  · have hfull : ∀ c ∈ r, scratchCap < byteLen w + c.utf8Size := by
      intro c hc
      have hwide := wide_rest hr.symm c hc
      have hne : c.utf8Size ≠ 1 := fun hone =>
        absurd ((utf8Size_eq_one_iff_lt c).mp hone) (Nat.not_lt.mpr hwide)
      have hpos := c.utf8Size_pos
      omega
    rw [byteLen_append] at hlen
    have hfirst : pushAll scratchCap [] w = w := by
      rw [pushAll_fits (by rw [byteLen_nil]; omega), List.nil_append]
    rw [byteText_append, byteText_ascii ht, ← hr, pushAll_append, pushAll_append, hfirst,
      pushAll_full hfull, pushAll_fits hlen]

theorem decoded_iff (hlen : byteLen v ≤ scratchCap) :
    pushAll scratchCap [] (byteText v) = v ↔ Survives v :=
  ⟨survives_of_decoded, decoded_of_survives hlen⟩

end Values

section Keys

/-- A key that is its own encoding. -/
def Plain (k : Text) : Prop := ∀ c ∈ k, isUnreserved c

instance : DecidablePred Plain := List.decidableBAll fun c => isUnreserved c

theorem quotePlus_ascii (h : Ascii k) :
    quotePlus k = k.flatMap fun c => plusByte (UInt8.ofNat c.toNat) := by
  have hbytes : Utf8.encode k = k.map fun c => UInt8.ofNat c.toNat := by
    induction k with
    | nil => rfl
    | cons c k ih =>
      rw [Utf8.encode_cons, Utf8.encodeChar_of_lt (h c List.mem_cons_self),
        ih fun d hd => h d (List.mem_cons_of_mem _ hd), List.map_cons, List.singleton_append]
  rw [quotePlus_eq, hbytes, List.flatMap_map]

theorem plusByte_of_unreserved (h : isUnreserved c) : plusByte (UInt8.ofNat c.toNat) = [c] := by
  have hchar := asChar_toNat (toNat_lt_of_isUnreserved h)
  have hne : UInt8.ofNat c.toNat ≠ 0x20 := by
    intro hb
    rw [hb] at hchar
    rw [← hchar] at h
    revert h
    decide
  rw [plusByte, if_neg hne, quoteByte, hchar, if_pos (by rw [h, Bool.true_or])]

theorem length_plusByte_of_reserved (hc : c.toNat < 128) (h : isUnreserved c = false)
    (hblank : c ≠ ' ') : (plusByte (UInt8.ofNat c.toNat)).length = 3 := by
  have hchar := asChar_toNat hc
  have hne : UInt8.ofNat c.toNat ≠ 0x20 := by
    intro hb
    rw [hb] at hchar
    exact hblank hchar.symm
  rw [plusByte, if_neg hne, quoteByte, hchar, h, if_neg (by simp)]
  rfl

theorem quotePlus_plain (h : Plain k) : quotePlus k = k := by
  rw [quotePlus_ascii fun c hc => toNat_lt_of_isUnreserved (h c hc)]
  induction k with
  | nil => rfl
  | cons c k ih =>
    rw [List.flatMap_cons, plusByte_of_unreserved (h c List.mem_cons_self),
      ih fun d hd => h d (List.mem_cons_of_mem _ hd), List.singleton_append]

/-- What is left alone in a text is all of it, where nothing else comes out. -/
theorem plain_of_quotePlus (h : Plain (quotePlus k)) : Plain k := by
  have hbyte : ∀ b ∈ Utf8.encode k, isUnreserved (asChar b) := by
    intro b hb
    have hsub : ∀ c ∈ plusByte b, isUnreserved c := by
      intro c hc
      apply h
      rw [quotePlus_eq]
      exact List.mem_flatMap.mpr ⟨b, hb, hc⟩
    by_contra hres
    rw [plusByte, quoteByte] at hsub
    split_ifs at hsub with hblank hsafe
    · exact absurd (hsub '+' List.mem_cons_self) (by decide)
    · exact hres (by simpa using hsafe)
    · exact absurd (hsub '%' List.mem_cons_self) (by decide)
  intro c hc
  obtain ⟨b, hb⟩ := List.exists_mem_of_ne_nil _ (Utf8.encodeChar_ne_nil c)
  have hmem : b ∈ Utf8.encode k := List.mem_flatMap.mpr ⟨c, hc, hb⟩
  have hunres := hbyte b hmem
  rcases Nat.lt_or_ge c.toNat 128 with hlt | hge
  · rw [Utf8.encodeChar_of_lt hlt, List.mem_singleton] at hb
    rwa [hb, asChar_toNat hlt] at hunres
  · have hlt := toNat_lt_of_isUnreserved hunres
    rw [toNat_asChar] at hlt
    exact absurd (Utf8.le_of_mem_encodeChar hge hb) (Nat.not_le.mpr hlt)

theorem length_le_length_quotePlus (h : Ascii k) (hblank : ' ' ∉ k) :
    k.length ≤ (quotePlus k).length ∧ (¬ Plain k → k.length < (quotePlus k).length) := by
  rw [quotePlus_ascii h]
  induction k with
  | nil => exact ⟨Nat.le_refl _, fun hp => absurd (fun c hc => absurd hc List.not_mem_nil) hp⟩
  | cons c k ih =>
    obtain ⟨hle, hlt⟩ := ih (fun d hd => h d (List.mem_cons_of_mem _ hd))
      (fun hk => hblank (List.mem_cons_of_mem _ hk))
    rw [List.flatMap_cons, List.length_append, List.length_cons]
    by_cases hc : isUnreserved c = true
    · rw [plusByte_of_unreserved hc, List.length_singleton]
      refine ⟨by omega, fun hp => ?_⟩
      have hk : ¬ Plain k := by
        intro hk
        apply hp
        intro d hd
        rcases List.mem_cons.mp hd with rfl | hd
        · exact hc
        · exact hk d hd
      have hrest := hlt hk
      omega
    · rw [length_plusByte_of_reserved (h c List.mem_cons_self) (Bool.eq_false_iff.mpr hc)
        fun hb => hblank (hb ▸ List.mem_cons_self)]
      exact ⟨by omega, fun _ => by omega⟩

/-- The encoding of an encoding is longer, where there was something to encode. -/
theorem length_lt_of_not_plain (h : ¬ Plain (quotePlus k)) :
    (quotePlus k).length < (quotePlus (quotePlus k)).length :=
  (length_le_length_quotePlus (ascii_quotePlus k) (not_mem_quotePlus k (by decide))).2 h

end Keys

section Calls

open Pairs (valueOf splitOnce_append lookup)

theorem valueOf_pair (k : Text) (p : Text × Text) :
    valueOf '=' k (quotePlus p.1 ++ '=' :: quotePlus p.2) =
      if quotePlus p.1 = k then some (quotePlus p.2) else none := by
  rw [valueOf, splitOnce_append (not_mem_quotePlus p.1 (by decide))]

theorem queryGet_urlencode (hps : ps ≠ []) (k : Text) :
    queryGet (urlencode ps) k =
      match ps.find? fun p => quotePlus p.1 = k with
      | some p => some (pushAll scratchCap [] (byteText p.2))
      | none => some [] := by
  have hsep : ∀ l ∈ ps.map fun p => quotePlus p.1 ++ '=' :: quotePlus p.2, '&' ∉ l := by
    intro l hl hmem
    obtain ⟨p, -, rfl⟩ := List.mem_map.mp hl
    rcases List.mem_append.mp hmem with h | h
    · exact not_mem_quotePlus p.1 (by decide) h
    · rcases List.mem_cons.mp h with h | h
      · exact absurd h (by decide)
      · exact not_mem_quotePlus p.2 (by decide) h
  have hfind : (ps.map fun p => quotePlus p.1 ++ '=' :: quotePlus p.2).findSome? (valueOf '=' k) =
      (ps.find? fun p => quotePlus p.1 = k).map fun p => quotePlus p.2 := by
    clear hsep hps
    induction ps with
    | nil => rfl
    | cons p ps ih =>
      rw [List.map_cons, List.findSome?_cons, valueOf_pair, List.find?_cons]
      by_cases hk : quotePlus p.1 = k
      · rw [if_pos hk, decide_eq_true hk]
        rfl
      · rw [if_neg hk, decide_eq_false hk]
        exact ih
  rw [queryGet, lookup, urlencode, List.splitOn_intercalate _ hsep (by simpa using hps), hfind]
  cases ps.find? fun p => quotePlus p.1 = k with
  | none => rfl
  | some p => exact urlDecode_quotePlus p.2

theorem find_plain (hkeys : (ps.map Prod.fst).Nodup) {p : Text × Text} (hp : p ∈ ps)
    (hplain : Plain p.1) : ps.find? (fun q => quotePlus q.1 = p.1) = some p := by
  cases hfind : ps.find? fun q => quotePlus q.1 = p.1 with
  | none =>
    have hnone := List.find?_eq_none.mp hfind p hp
    exact absurd (decide_eq_true (quotePlus_plain hplain)) hnone
  | some q =>
    have hq : quotePlus q.1 = p.1 := by simpa using List.find?_some hfind
    have hq_plain : Plain q.1 := plain_of_quotePlus (hq ▸ hplain)
    rw [quotePlus_plain hq_plain] at hq
    rw [List.inj_on_of_nodup_map hkeys (List.mem_of_find?_eq_some hfind) hp hq]

/-- Under another key only such a parameter can be found, and its key is shorter. -/
theorem queryGet_reserved (hps : ps ≠ []) (hk : ¬ Plain k)
    (hempty : ∀ q ∈ ps, ¬ Plain q.1 → (quotePlus q.1).length < (quotePlus k).length → q.2 = []) :
    queryGet (urlencode ps) k = some [] := by
  rw [queryGet_urlencode hps]
  cases hfind : ps.find? fun q => quotePlus q.1 = k with
  | none => rfl
  | some q =>
    have hq : quotePlus q.1 = k := by simpa using List.find?_some hfind
    have hq_reserved : ¬ Plain q.1 := by
      intro hplain
      rw [quotePlus_plain hplain] at hq
      exact hk (hq ▸ hplain)
    have hlonger := length_lt_of_not_plain (k := q.1) (by rwa [hq])
    rw [hq] at hlonger
    have hvalue := hempty q (List.mem_of_find?_eq_some hfind) hq_reserved (by rwa [hq])
    dsimp only
    rw [hvalue]
    rfl

/-- A parameter under a key with its own encoding comes back; under another key only the empty value
does, which is what a missing key gives. -/
theorem params_survive_iff (hkeys : (ps.map Prod.fst).Nodup)
    (hfit : ∀ p ∈ ps, byteLen p.2 ≤ scratchCap) :
    (∀ p ∈ ps, queryGet (urlencode ps) p.1 = some p.2) ↔
      ∀ p ∈ ps, Survives p.2 ∧ (Plain p.1 ∨ p.2 = []) := by
  have hplain : ∀ p ∈ ps, Plain p.1 →
      (queryGet (urlencode ps) p.1 = some p.2 ↔ Survives p.2) := by
    intro p hp hk
    rw [queryGet_urlencode (List.ne_nil_of_mem hp), find_plain hkeys hp hk, Option.some_inj]
    exact decoded_iff (hfit p hp)
  constructor
  · intro h
    -- the parameter that a reserved key finds has a shorter key, and is empty itself
    have hempty : ∀ n, ∀ p ∈ ps, (quotePlus p.1).length = n → ¬ Plain p.1 → p.2 = [] := by
      intro n
      induction n using Nat.strongRecOn with
      | ind n ih =>
        intro p hp hn hk
        have hnone := queryGet_reserved (List.ne_nil_of_mem hp) hk fun q hq hqk hlt =>
          ih _ (hn ▸ hlt) q hq rfl hqk
        rw [h p hp] at hnone
        exact Option.some.inj hnone
    intro p hp
    by_cases hk : Plain p.1
    · exact ⟨(hplain p hp hk).mp (h p hp), Or.inl hk⟩
    · have hvalue := hempty _ p hp rfl hk
      rw [hvalue]
      exact ⟨Or.inl fun c hc => absurd hc List.not_mem_nil, Or.inr rfl⟩
  · intro h p hp
    by_cases hk : Plain p.1
    · exact (hplain p hp hk).mpr (h p hp).1
    · rw [queryGet_reserved (List.ne_nil_of_mem hp) hk fun q hq hqk _ =>
        (h q hq).2.resolve_left hqk, (h p hp).2.resolve_left hk]

theorem params_survive_ascii :
    let ps := [("key".toList, "device.name".toList), ("val".toList, "my node & co".toList)]
    ∀ p ∈ ps, queryGet (urlencode ps) p.1 = some p.2 := by
  intro ps
  refine (params_survive_iff (by decide) (by decide)).mpr fun p hp => ?_
  have hplain : ∀ q ∈ ps, Ascii q.2 ∧ Plain q.1 := by decide
  exact ⟨Or.inl (hplain p hp).1, Or.inl (hplain p hp).2⟩

theorem accented_value_changes :
    let ps := [("val".toList, "é".toList)]
    (ps.map Prod.fst).Nodup ∧ (∀ p ∈ ps, Ascii p.1 ∧ byteLen p.2 ≤ scratchCap) ∧
      urlencode ps = "val=%C3%A9".toList ∧ queryGet (urlencode ps) "val".toList = some "Ã©".toList ∧
        ¬ ∀ p ∈ ps, queryGet (urlencode ps) p.1 = some p.2 := by
  decide

end Calls

end AtNode.QueryCodec
