import AtNode.Esp32.Query

/-!
# The arguments of a query in full

The value of a key stands for the text whose UTF-8 bytes it encodes, of any length. The decoder of the
firmware yields that text where the value is plain: it decodes to ASCII that is not longer than the
buffer, and no escape has a plus sign for its first digit, which the firmware takes for a number.
-/

namespace AtNode.FullArgs

open Config Heapless Query

section Arguments

/-- The bytes that an encoded value stands for. -/
def fullBytes : List UInt8 → List UInt8
  | [] => []
  | c :: rest =>
    if c = percent then
      match rest with
      | a :: b :: rest' =>
        match hexDigit a, hexDigit b with
        | some hi, some lo => UInt8.ofNat (16 * hi + lo) :: fullBytes rest'
        | _, _ => percent :: fullBytes (a :: b :: rest')
      | [a] => percent :: fullBytes [a]
      | [] => [percent]
    else if c = plus then 0x20 :: fullBytes rest
    else c :: fullBytes rest

/-- The encoded value of a key in a query. -/
def rawArg (query key : Text) : Option Text := Pairs.lookup '&' '=' key query

/-- The value of a key, of any length and in any characters; without a result its bytes are no
text. -/
def fullArg (query key : Text) : Option Text :=
  match rawArg query key with
  | some v => Utf8.decode (fullBytes (Utf8.encode v))
  | none => some []

/-- An escape with a plus sign for its first digit. -/
def hasSignedEscape : List UInt8 → Bool
  | [] => false
  | c :: rest =>
    (c = percent && match rest with
      | a :: b :: _ => a = plus && (hexDigit b).isSome
      | _ => false) || hasSignedEscape rest

/-- The value of a key is one the decoder of the firmware keeps: ASCII, not longer than its buffer,
and with plain escapes. -/
def Plain (query key : Text) : Prop :=
  ∀ v ∈ rawArg query key, (∀ b ∈ fullBytes (Utf8.encode v), b < 128) ∧
    (fullBytes (Utf8.encode v)).length ≤ scratchCap ∧ hasSignedEscape (Utf8.encode v) = false

variable {bs rest : List UInt8} {a b c : UInt8} {out : Text} {query key : Text} {cap : ℕ}

theorem fullBytes_byte (hpct : c ≠ percent) (hplus : c ≠ plus) :
    fullBytes (c :: bs) = c :: fullBytes bs := by
  rw [fullBytes.eq_def]
  dsimp only
  rw [if_neg hpct, if_neg hplus]

theorem fullBytes_plus : fullBytes (plus :: bs) = 0x20 :: fullBytes bs := by
  rw [fullBytes.eq_def]
  rfl

theorem fullBytes_escape {hi lo : ℕ} (ha : hexDigit a = some hi) (hb : hexDigit b = some lo) :
    fullBytes (percent :: a :: b :: bs) = UInt8.ofNat (16 * hi + lo) :: fullBytes bs := by
  rw [fullBytes.eq_def]
  dsimp only
  rw [if_pos rfl, ha, hb]

theorem fullBytes_percent (h : hexDigit a = none ∨ hexDigit b = none) :
    fullBytes (percent :: a :: b :: bs) = percent :: fullBytes (a :: b :: bs) := by
  rw [fullBytes.eq_def]
  dsimp only
  rw [if_pos rfl]
  rcases h with ha | hb
  · rw [ha]
  · rw [hb]
    cases hexDigit a <;> rfl

theorem hexDigit_high (h : 128 ≤ b) : hexDigit b = none := by
  have hb : 128 ≤ b.toNat := UInt8.le_iff_toNat_le.mp h
  have hdec : (0x39 : UInt8).toNat = 57 ∧ (0x46 : UInt8).toNat = 70 ∧ (0x66 : UInt8).toNat = 102 := by
    decide
  rw [hexDigit, if_neg, if_neg, if_neg] <;>
    · rintro ⟨-, hle⟩
      have hle := UInt8.le_iff_toNat_le.mp hle
      omega

theorem hexDigit_lt {n : ℕ} (h : hexDigit b = some n) : n < 16 := by
  unfold hexDigit at h
  split_ifs at h with h₁ h₂ h₃ <;>
    · cases h
      simp only [UInt8.le_iff_toNat_le, UInt8.reduceToNat] at *
      omega

/-- The decoding takes one byte, or an escape. -/
theorem fullBytes_cons (c : UInt8) (rest : List UInt8) :
    (fullBytes (c :: rest) = (if c = plus then 0x20 else c) :: fullBytes rest ∧
      ¬ ∃ a b rest', c = percent ∧ rest = a :: b :: rest' ∧ hexDigit a ≠ none ∧ hexDigit b ≠ none) ∨
    ∃ a b hi lo rest', c = percent ∧ rest = a :: b :: rest' ∧ hexDigit a = some hi ∧
      hexDigit b = some lo ∧ fullBytes (c :: rest) = UInt8.ofNat (16 * hi + lo) :: fullBytes rest' := by
  have hne : (percent : UInt8) ≠ plus := by decide
  by_cases hpct : c = percent
  · subst hpct
    match rest with
    | [] => exact Or.inl ⟨rfl, by rintro ⟨a, b, rest', -, h, -⟩; cases h⟩
    | [a] => exact Or.inl ⟨rfl, by rintro ⟨a, b, rest', -, h, -⟩; cases h⟩
    | a :: b :: rest' =>
      rw [if_neg hne]
      cases ha : hexDigit a with
      | none =>
        refine Or.inl ⟨fullBytes_percent (Or.inl ha), ?_⟩
        rintro ⟨a', b', rest'', -, h, ha', -⟩
        cases h
        exact ha' ha
      | some hi =>
        cases hb : hexDigit b with
        | none =>
          refine Or.inl ⟨fullBytes_percent (Or.inr hb), ?_⟩
          rintro ⟨a', b', rest'', -, h, -, hb'⟩
          cases h
          exact hb' hb
        | some lo => exact Or.inr ⟨a, b, hi, lo, rest', rfl, rfl, ha, hb, fullBytes_escape ha hb⟩
  · refine Or.inl ⟨?_, fun ⟨_, _, _, h, _⟩ => hpct h⟩
    by_cases hplus : c = plus
    · subst hplus
      exact fullBytes_plus
    · rw [if_neg hplus]
      exact fullBytes_byte hpct hplus

theorem mem_fullBytes {d : UInt8} (hd : 128 ≤ d) {bs : List UInt8} (h : d ∈ bs) : d ∈ fullBytes bs := by
  induction hn : bs.length using Nat.strongRecOn generalizing bs with
  | ind n ih =>
    cases bs with
    | nil => exact absurd h List.not_mem_nil
    | cons c rest =>
      rcases fullBytes_cons c rest with ⟨heq, -⟩ | ⟨a, b, hi, lo, rest', rfl, rfl, ha, hb, heq⟩
      · rw [heq]
        rcases List.mem_cons.mp h with rfl | hrest
        · have hplus : d ≠ plus := by
            rintro rfl
            exact absurd hd (by decide)
          rw [if_neg hplus]
          exact List.mem_cons_self
        · exact List.mem_cons_of_mem _ (ih rest.length (by rw [← hn]; exact Nat.lt_succ_self _) hrest rfl)
      · have hmem : d ∈ rest' := by
          simp only [List.mem_cons] at h
          rcases h with rfl | rfl | rfl | h
          · exact absurd hd (by decide)
          · rw [hexDigit_high hd] at ha
            cases ha
          · rw [hexDigit_high hd] at hb
            cases hb
          · exact h
        rw [heq]
        refine List.mem_cons_of_mem _ (ih rest'.length ?_ hmem rfl)
        rw [← hn]
        simp only [List.length_cons]
        omega

theorem isContinuation_low (h : b < 128) : isContinuation b = false := by
  rw [isContinuation, Bool.and_eq_false_iff]
  left
  rw [decide_eq_false_iff_not]
  exact UInt8.not_le.mpr h

/-- On ASCII with plain escapes the firmware decodes a byte to its character. -/
theorem urlDecodeLoop_cons (cap : ℕ) (hlow : ∀ d ∈ c :: rest, d < 128)
    (hsigned : hasSignedEscape (c :: rest) = false) (out : Text) :
    ∃ d rest', fullBytes (c :: rest) = d :: fullBytes rest' ∧ rest' <:+ rest ∧
      urlDecodeLoop cap (c :: rest) out = urlDecodeLoop cap rest' (push cap out (asChar d)) := by
  rcases fullBytes_cons c rest with ⟨heq, hescape⟩ | ⟨a, b, hi, lo, rest', rfl, rfl, ha, hb, heq⟩
  · refine ⟨_, rest, heq, List.suffix_rfl, ?_⟩
    by_cases hpct : c = percent
    · subst hpct
      have hpush : push cap out (asChar percent) = push cap out '%' := rfl
      rw [if_neg (by decide : percent ≠ plus), hpush]
      match rest with
      | [] => rfl
      | [a] => rfl
      | a :: b :: rest' =>
        have hhead : rest'.head?.any isContinuation = false := by
          cases rest' with
          | nil => rfl
          | cons d rest' => exact isContinuation_low (hlow d (by simp))
        have hn : fromStrRadix16 a b = none := by
          rw [fromStrRadix16]
          split_ifs with hplus
          · rw [hasSignedEscape, Bool.or_eq_false_iff] at hsigned
            have hb := hsigned.1
            rw [hplus] at hb
            cases hdigit : hexDigit b with
            | none => rfl
            | some v =>
              rw [hdigit] at hb
              cases hb
          · cases ha : hexDigit a with
            | none => rfl
            | some hi =>
              cases hb : hexDigit b with
              | none => rfl
              | some lo =>
                exact absurd ⟨a, b, rest', rfl, rfl, ha ▸ Option.some_ne_none hi,
                  hb ▸ Option.some_ne_none lo⟩ hescape
        rw [urlDecodeLoop.eq_def]
        dsimp only
        rw [if_pos rfl, isContinuation_low (hlow a (by simp)), hhead, Bool.or_self,
          if_neg Bool.false_ne_true, hn]
    · by_cases hplus : c = plus
      · subst hplus
        exact urlDecodeLoop_plus
      · rw [if_neg hplus]
        exact urlDecodeLoop_byte hpct hplus
  · refine ⟨_, rest', heq, ⟨[a, b], rfl⟩, ?_⟩
    have hn : fromStrRadix16 a b = some (16 * hi + lo) := by
      have hplus : a ≠ plus := by
        rintro rfl
        cases ha
      rw [fromStrRadix16, if_neg hplus, ha, hb]
      rfl
    have hhead : rest'.head?.any isContinuation = false := by
      cases rest' with
      | nil => rfl
      | cons d rest' => exact isContinuation_low (hlow d (by simp))
    have hlt : 16 * hi + lo < 256 := by
      have hhi := hexDigit_lt ha
      have hlo := hexDigit_lt hb
      omega
    rw [urlDecodeLoop_escape (isContinuation_low (hlow a (by simp))) hhead hn, asChar,
      UInt8.toNat_ofNat', Nat.mod_eq_of_lt hlt]

theorem hasSignedEscape_suffix {rest bs : List UInt8} (hrest : rest <:+ bs)
    (h : hasSignedEscape bs = false) : hasSignedEscape rest = false := by
  obtain ⟨front, rfl⟩ := hrest
  induction front with
  | nil => exact h
  | cons c front ih =>
    rw [List.cons_append, hasSignedEscape.eq_def] at h
    exact ih (Bool.or_eq_false_iff.mp h).2

/-- A value that is plain is decoded in full. -/
theorem urlDecodeLoop_plain {bs : List UInt8} {out : Text} (hlow : ∀ b ∈ fullBytes bs, b < 128)
    (hsigned : hasSignedEscape bs = false) (hroom : byteLen out + (fullBytes bs).length ≤ cap) :
    urlDecodeLoop cap bs out = some (out ++ (fullBytes bs).map asChar) := by
  induction hn : bs.length using Nat.strongRecOn generalizing bs out with
  | ind n ih =>
    cases bs with
    | nil => rw [urlDecodeLoop, fullBytes, List.map_nil, List.append_nil]
    | cons c rest =>
      have hbytes : ∀ d ∈ c :: rest, d < 128 := by
        intro d hd
        by_contra hhigh
        have hle : 128 ≤ d := UInt8.not_lt.mp hhigh
        exact absurd (hlow d (mem_fullBytes hle hd)) hhigh
      obtain ⟨d, rest', hfull, hsuffix, hloop⟩ := urlDecodeLoop_cons cap hbytes hsigned out
      have hd : d.toNat < 128 := UInt8.lt_iff_toNat_lt.mp (hlow d (hfull ▸ List.mem_cons_self))
      have hone : byteLen [asChar d] = 1 := by
        rw [byteLen_cons, byteLen_nil, utf8Size_asChar_of_lt hd]
      rw [hfull, List.length_cons] at hroom
      have hlen := hsuffix.length_le
      rw [hloop, push, put_fits (by omega), ih rest'.length (by rw [← hn, List.length_cons]; omega)
        (fun b hb => hlow b (hfull ▸ List.mem_cons_of_mem _ hb))
        (hasSignedEscape_suffix (hsuffix.trans (List.suffix_cons c rest)) hsigned)
        (by rw [byteLen_append, hone]; omega) rfl, hfull, List.map_cons, List.append_assoc,
        List.singleton_append]

theorem encode_map_asChar {bs : List UInt8} (h : ∀ b ∈ bs, b < 128) :
    Utf8.encode (bs.map asChar) = bs := by
  induction bs with
  | nil => rfl
  | cons b bs ih =>
    have hb : b.toNat < 128 := UInt8.lt_iff_toNat_lt.mp (h b List.mem_cons_self)
    rw [List.map_cons, ← List.singleton_append, Utf8.encode_append, encode_asChar hb,
      ih fun c hc => h c (List.mem_cons_of_mem _ hc), List.singleton_append]

theorem queryGet_plain (h : Plain query key) :
    ∃ t, queryGet query key = some t ∧ fullArg query key = some t ∧ ofStr scratchCap t = t := by
  rw [queryGet, fullArg, ← rawArg]
  cases hraw : rawArg query key with
  | none => exact ⟨[], rfl, rfl, rfl⟩
  | some v =>
    obtain ⟨hlow, hlen, hsigned⟩ := h v hraw
    have hencode := encode_map_asChar hlow
    refine ⟨(fullBytes (Utf8.encode v)).map asChar, ?_, ?_, ofStr_fits ?_⟩
    · have hroom : byteLen [] + (fullBytes (Utf8.encode v)).length ≤ scratchCap := by
        rwa [byteLen_nil, Nat.zero_add]
      exact urlDecodeLoop_plain hlow hsigned hroom
    · exact Utf8.decode_eq_some_iff.mpr hencode.symm
    · rw [← length_encode, hencode]
      exact hlen

end Arguments

end AtNode.FullArgs
