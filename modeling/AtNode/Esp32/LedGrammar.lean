import AtNode.Esp32.Args
import AtNode.Lib.Numeral

/-!
# The grammar of LED colours

A colour is a name in any letter case, six hexadecimal digits behind a hash, or three components with
commas between them, each a decimal number or a hexadecimal one behind `0x`. The parser reads the
numbers with the library's functions, which take a plus sign in front of the digits, so it also
accepts colours written with such signs, and no others.
-/

namespace AtNode.Args

open Config Numeral

section Numbers

variable {s : Text} {max v n : ℕ} {c : Char}

def toDigit10 (c : Char) : Option ℕ := if c.isDigit then some (c.toNat - '0'.toNat) else none

/-- The text behind a plus sign, if there is one. -/
def unsigned (s : Text) : Text :=
  match s with
  | '+' :: t => t
  | _ => s

theorem readDigits_ten (s : Text) : readDigits toDigit10 10 s =
    if s.all Char.isDigit then some (s.foldl (fun n c => 10 * n + (c.toNat - '0'.toNat)) 0)
    else none := by
  induction s using List.reverseRecOn with
  | nil => rfl
  | append_singleton s c ih =>
    rw [readDigits_snoc, ih, List.all_append, List.foldl_append, toDigit10]
    cases s.all Char.isDigit <;> cases hc : c.isDigit <;> simp [hc]

theorem parseUnsigned_eq (max : ℕ) (s : Text) : parseUnsigned max s =
    if unsigned s = [] ∨ ¬ (unsigned s).all Char.isDigit then none
    else
      if (unsigned s).foldl (fun n c => 10 * n + (c.toNat - '0'.toNat)) 0 ≤ max then
        some ((unsigned s).foldl (fun n c => 10 * n + (c.toNat - '0'.toNat)) 0)
      else none := rfl

theorem parseHex_eq (max : ℕ) (s : Text) : parseHex max s =
    if unsigned s = [] then none
    else (readDigits toDigit16 16 (unsigned s)).bind fun v => if v ≤ max then some v else none := rfl

theorem parseUnsigned_eq_some_iff : parseUnsigned max s = some v ↔
    Denotes toDigit10 10 (unsigned s) v ∧ v ≤ max := by
  rw [denotes_iff, readDigits_ten, parseUnsigned_eq]
  generalize unsigned s = digits
  by_cases hd : digits = []
  · simp [hd]
  · cases hall : digits.all Char.isDigit
    · simp
    · simp only [hd, not_true_eq_false, or_self, if_false, ne_eq, not_false_eq_true, if_true,
        Option.some_inj, true_and]
      split_ifs with hle
      · rw [Option.some_inj]
        exact ⟨fun h => ⟨h, h ▸ hle⟩, And.left⟩
      · exact iff_of_false id fun h => hle (h.1 ▸ h.2)

theorem parseHex_eq_some_iff : parseHex max s = some v ↔
    Denotes toDigit16 16 (unsigned s) v ∧ v ≤ max := by
  rw [denotes_iff, parseHex_eq]
  generalize unsigned s = digits
  by_cases hd : digits = []
  · simp [hd]
  · rw [if_neg hd, and_iff_right hd, Option.bind_eq_some_iff]
    constructor
    · rintro ⟨w, hw, hle⟩
      split_ifs at hle with h
      cases hle
      exact ⟨hw, h⟩
    · rintro ⟨hw, hle⟩
      exact ⟨v, hw, if_pos hle⟩

theorem toDigit10_plus : toDigit10 '+' = none := by decide

theorem toDigit16_plus : toDigit16 '+' = none := by decide

/-- Digits do not begin with a plus sign, so the sign is there or not. -/
theorem denotes_unsigned_iff {digit : Char → Option ℕ} {base : ℕ} (hplus : digit '+' = none) :
    Denotes digit base (unsigned s) v ↔
      Denotes digit base s v ∨ ∃ t, s = '+' :: t ∧ Denotes digit base t v := by
  have hno {t : Text} (h : Denotes digit base ('+' :: t) v) : False := by
    have hdigit := h.digit_of_mem '+' List.mem_cons_self
    rw [hplus] at hdigit
    cases hdigit
  unfold unsigned
  split
  · rename_i t
    constructor
    · exact fun h => Or.inr ⟨t, rfl, h⟩
    · rintro (h | ⟨u, hu, h⟩)
      · exact (hno h).elim
      · cases hu
        exact h
  · rename_i hs
    constructor
    · exact Or.inl
    · rintro (h | ⟨u, hu, -⟩)
      · exact h
      · exact absurd hu (hs u)

def Prefix16 (x : Char) : Prop := x = 'x' ∨ x = 'X'

/-- A number as the grammar has it. -/
inductive Unsigned : Text → ℕ → Prop
  | dec {s : Text} {v : ℕ} (h : Denotes toDigit10 10 s v) : Unsigned s v
  | hex {x : Char} {s : Text} {v : ℕ} (hx : Prefix16 x) (h : Denotes toDigit16 16 s v) :
      Unsigned ('0' :: x :: s) v

/-- A number with a plus sign in front of its digits. -/
inductive Signed : Text → ℕ → Prop
  | dec {s : Text} {v : ℕ} (h : Denotes toDigit10 10 s v) : Signed ('+' :: s) v
  | hex {x : Char} {s : Text} {v : ℕ} (hx : Prefix16 x) (h : Denotes toDigit16 16 s v) :
      Signed ('0' :: x :: '+' :: s) v

theorem parseNum_hex {x : Char} (hx : Prefix16 x) (max : ℕ) (s : Text) :
    parseNum max ('0' :: x :: s) = parseHex max s := by
  rcases hx with rfl | rfl <;> rfl

theorem parseNum_of_ne (h : ∀ x t, s = '0' :: x :: t → ¬ Prefix16 x) (max : ℕ) :
    parseNum max s = parseUnsigned max s := by
  unfold parseNum
  split
  · exact absurd (Or.inl rfl) (h _ _ rfl)
  · exact absurd (Or.inr rfl) (h _ _ rfl)
  · rfl

theorem not_prefix16_of_denotes {x : Char} (h : Denotes toDigit10 10 s v) (hx : x ∈ s) :
    ¬ Prefix16 x := by
  have hdigit := h.digit_of_mem x hx
  rintro (rfl | rfl) <;> exact absurd hdigit (by decide)

theorem parseNum_eq_some_iff : parseNum max s = some v ↔ (Unsigned s v ∨ Signed s v) ∧ v ≤ max := by
  by_cases hhex : ∃ x t, s = '0' :: x :: t ∧ Prefix16 x
  · obtain ⟨x, t, rfl, hx⟩ := hhex
    rw [parseNum_hex hx, parseHex_eq_some_iff, denotes_unsigned_iff toDigit16_plus]
    refine and_congr_left fun _ => ⟨?_, ?_⟩
    · rintro (h | ⟨u, rfl, h⟩)
      · exact Or.inl (.hex hx h)
      · exact Or.inr (.hex hx h)
    · rintro (h | h)
      · cases h with
        | dec h => exact absurd hx (not_prefix16_of_denotes h (by simp))
        | hex _ h => exact Or.inl h
      · cases h with
        | hex _ h => exact Or.inr ⟨_, rfl, h⟩
  · have hne : ∀ x t, s = '0' :: x :: t → ¬ Prefix16 x := fun x t hs hx => hhex ⟨x, t, hs, hx⟩
    rw [parseNum_of_ne hne, parseUnsigned_eq_some_iff, denotes_unsigned_iff toDigit10_plus]
    refine and_congr_left fun _ => ⟨?_, ?_⟩
    · rintro (h | ⟨u, rfl, h⟩)
      · exact Or.inl (.dec h)
      · exact Or.inr (.dec h)
    · rintro (h | h)
      · cases h with
        | dec h => exact Or.inl h
        | hex hx _ => exact absurd hx (hne _ _ rfl)
      · cases h with
        | dec h => exact Or.inr ⟨_, rfl, h⟩
        | hex hx _ => exact absurd hx (hne _ _ rfl)

theorem toU8_eq_some_iff {b : UInt8} : toU8 s = some b ↔
    ∃ v, (Unsigned s v ∨ Signed s v) ∧ v ≤ u8Max ∧ v.toUInt8 = b := by
  simp only [toU8, Option.map_eq_some_iff, parseNum_eq_some_iff, and_assoc]

end Numbers

section Grammar

variable {s r g b h : Text} {v : ℕ} {a : LedAction} {c : Char}

/-- The word in any letter case. -/
def AnyCase (word s : Text) : Prop := List.Forall₂ (fun l c => c = l ∨ c = l.toUpper) word s

/-- A component of a colour. -/
def Component (s : Text) (b : UInt8) : Prop := ∃ v, Unsigned s v ∧ v ≤ 255 ∧ v.toUInt8 = b

inductive Colour : Text → LedAction → Prop
  | off {s : Text} (h : AnyCase "off".toList s) : Colour s .off
  | auto {s : Text} (h : AnyCase "auto".toList s) : Colour s .auto
  | hash {r₁ r₀ g₁ g₀ b₁ b₀ : Char} {r g b : ℕ} (hr : Denotes toDigit16 16 [r₁, r₀] r)
      (hg : Denotes toDigit16 16 [g₁, g₀] g) (hb : Denotes toDigit16 16 [b₁, b₀] b) :
      Colour ['#', r₁, r₀, g₁, g₀, b₁, b₀] (.rgb r.toUInt8 g.toUInt8 b.toUInt8)
  | triple {r g b : Text} {x y z : UInt8} (hr : Component r x) (hg : Component g y)
      (hb : Component b z) : Colour (r ++ ',' :: (g ++ ',' :: b)) (.rgb x y z)

/-- A component with or without a plus sign. -/
def Lenient (s : Text) : Prop := ∃ v, (Unsigned s v ∨ Signed s v) ∧ v ≤ 255

/-- A text with a plus sign that would be a colour if numbers could have one: five digits behind a
hash and a plus sign, or three components. -/
def Plussed (s : Text) : Prop :=
  '+' ∈ s ∧ ((∃ h v, s = '#' :: '+' :: h ∧ h.length = 5 ∧ Denotes toDigit16 16 h v) ∨
    ∃ r g b, s = r ++ ',' :: (g ++ ',' :: b) ∧ Lenient r ∧ Lenient g ∧ Lenient b)

def letters : Text := ['o', 'f', 'a', 'u', 't']

theorem off_toList : "off".toList = ['o', 'f', 'f'] := by decide +kernel

theorem auto_toList : "auto".toList = ['a', 'u', 't', 'o'] := by decide +kernel

theorem mem_letters_of_off : ∀ l ∈ "off".toList, l ∈ letters := by
  rw [off_toList]
  simp [letters]

theorem mem_letters_of_auto : ∀ l ∈ "auto".toList, l ∈ letters := by
  rw [auto_toList]
  simp [letters]

theorem toUpper_of_letter {l : Char} (hl : l ∈ letters) :
    97 ≤ l.toNat ∧ l.toNat ≤ 122 ∧ l.toUpper.toNat + 32 = l.toNat := by
  simp only [letters, List.mem_cons, List.not_mem_nil, or_false] at hl
  rcases hl with rfl | rfl | rfl | rfl | rfl <;> decide

theorem toAsciiLower_eq_iff {l : Char} (hl : l ∈ letters) :
    toAsciiLower c = l ↔ c = l ∨ c = l.toUpper := by
  obtain ⟨hlow, hhigh, hupper⟩ := toUpper_of_letter hl
  simp only [toAsciiLower, Char.le_def, UInt32.le_iff_toNat_le, ← Char.toNat_inj]
  change (if 65 ≤ c.toNat ∧ c.toNat ≤ 90 then _ else c).toNat = _ ↔ _
  split_ifs with hc
  · have hvalid : (c.toNat + 32).isValidChar := Or.inl (by omega)
    have hnat : (Char.ofNat (c.toNat + 32)).toNat = c.toNat + 32 := by
      rw [Char.ofNat, dif_pos hvalid]
      rfl
    omega
  · omega

theorem anyCase_iff {word : Text} (hword : ∀ l ∈ word, l ∈ letters) (s : Text) :
    s.map toAsciiLower = word ↔ AnyCase word s := by
  induction word generalizing s with
  | nil =>
    cases s with
    | nil => exact iff_of_true rfl .nil
    | cons c s => exact iff_of_false (List.cons_ne_nil _ _) fun h => nomatch h
  | cons l word ih =>
    obtain ⟨hl, hword⟩ := List.forall_mem_cons.mp hword
    cases s with
    | nil => exact iff_of_false (List.cons_ne_nil _ _ ∘ Eq.symm) fun h => nomatch h
    | cons c s =>
      rw [List.map_cons, List.cons.injEq, toAsciiLower_eq_iff hl, ih hword, AnyCase, AnyCase,
        List.forall₂_cons]

theorem eqIgnoreAsciiCase_off : eqIgnoreAsciiCase s "off".toList = true ↔ AnyCase "off".toList s := by
  rw [← anyCase_iff mem_letters_of_off, eqIgnoreAsciiCase, decide_eq_true_iff, off_toList]
  exact Iff.rfl

theorem eqIgnoreAsciiCase_auto :
    eqIgnoreAsciiCase s "auto".toList = true ↔ AnyCase "auto".toList s := by
  rw [← anyCase_iff mem_letters_of_auto, eqIgnoreAsciiCase, decide_eq_true_iff, auto_toList]
  exact Iff.rfl

/-- The signs that stand in colours of the other two kinds, and in no word. -/
theorem not_anyCase_of_mem {word : Text} (hword : ∀ l ∈ word, l ∈ letters)
    (hc : c = '#' ∨ c = ',' ∨ c = '+') (hmem : c ∈ s) : ¬ AnyCase word s := by
  rw [← anyCase_iff hword]
  rintro rfl
  have hletter := hword _ (List.mem_map_of_mem hmem)
  rcases hc with rfl | rfl | rfl <;> exact absurd hletter (by decide)

/-- What the parser makes of a text that is no word and begins with no hash. -/
def triple (s : Text) : Option LedAction :=
  match s.splitOn ',' with
  | [r, g, b] =>
    match toU8 r, toU8 g, toU8 b with
    | some r, some g, some b => some (.rgb r g b)
    | _, _, _ => none
  | _ => none

theorem parseColor_off (h : AnyCase "off".toList s) : parseColor s = some .off := by
  unfold parseColor
  rw [if_pos (eqIgnoreAsciiCase_off.mpr h)]

theorem not_off_of_auto (h : AnyCase "auto".toList s) : ¬ AnyCase "off".toList s := by
  intro hoff
  rw [← anyCase_iff mem_letters_of_auto, auto_toList] at h
  rw [← anyCase_iff mem_letters_of_off, h, off_toList] at hoff
  cases hoff

theorem parseColor_auto (h : AnyCase "auto".toList s) : parseColor s = some .auto := by
  unfold parseColor
  rw [if_neg (not_off_of_auto h ∘ eqIgnoreAsciiCase_off.mp), if_pos (eqIgnoreAsciiCase_auto.mpr h)]

theorem parseColor_hash (h : Text) : parseColor ('#' :: h) =
    if byteLen h ≠ 6 then none
    else (parseHex u32Max h).map fun v => .rgb (v >>> 16).toUInt8 (v >>> 8).toUInt8 v.toUInt8 := by
  have hno {word : Text} (hword : ∀ l ∈ word, l ∈ letters) : ¬ AnyCase word ('#' :: h) :=
    not_anyCase_of_mem hword (Or.inl rfl) List.mem_cons_self
  unfold parseColor
  rw [if_neg (hno mem_letters_of_off ∘ eqIgnoreAsciiCase_off.mp),
    if_neg (hno mem_letters_of_auto ∘ eqIgnoreAsciiCase_auto.mp)]
  rfl

theorem parseColor_triple (hoff : ¬ AnyCase "off".toList s) (hauto : ¬ AnyCase "auto".toList s)
    (hhash : ∀ h, s ≠ '#' :: h) : parseColor s = triple s := by
  unfold parseColor
  rw [if_neg (hoff ∘ eqIgnoreAsciiCase_off.mp), if_neg (hauto ∘ eqIgnoreAsciiCase_auto.mp)]
  split
  · exact absurd rfl (hhash _)
  · rfl

theorem toDigit16_lt (c : Char) (d : ℕ) (h : toDigit16 c = some d) : d < 16 := by
  unfold toDigit16 at h
  split_ifs at h with h9 hf hF
  · have := Char.le_def.mp h9.2
    cases h
    exact Nat.lt_of_le_of_lt (Nat.sub_le_sub_right this 48) (by decide)
  · have := Char.le_def.mp hf.2
    cases h
    exact Nat.lt_of_le_of_lt (Nat.add_le_add_right (Nat.sub_le_sub_right this 97) 10) (by decide)
  · have := Char.le_def.mp hF.2
    cases h
    exact Nat.lt_of_le_of_lt (Nat.add_le_add_right (Nat.sub_le_sub_right this 65) 10) (by decide)

theorem byteLen_of_denotes (h : Denotes toDigit16 16 s v) : byteLen s = s.length :=
  byteLen_of_utf8Size_one fun c hc => utf8Size_of_toDigit16 (h.digit_of_mem c hc)

/-- The three bytes of a number of six digits are its three pairs. -/
theorem denotes_six_iff {r₁ r₀ g₁ g₀ b₁ b₀ : Char} :
    Denotes toDigit16 16 [r₁, r₀, g₁, g₀, b₁, b₀] v ↔ ∃ r g b,
      Denotes toDigit16 16 [r₁, r₀] r ∧ Denotes toDigit16 16 [g₁, g₀] g ∧
      Denotes toDigit16 16 [b₁, b₀] b ∧ v = 256 * (256 * r + g) + b := by
  have hsplit : [r₁, r₀, g₁, g₀, b₁, b₀] = ([r₁, r₀] ++ [g₁, g₀]) ++ [b₁, b₀] := rfl
  have hne (x y : Char) : [x, y] ≠ [] := List.cons_ne_nil _ _
  rw [hsplit, denotes_append_iff (List.append_ne_nil_of_left_ne_nil (hne _ _) _) (hne _ _)]
  simp only [denotes_append_iff (hne _ _) (hne _ _), List.length_cons, List.length_nil]
  constructor
  · rintro ⟨w, b, ⟨r, g, hr, hg, rfl⟩, hb, rfl⟩
    exact ⟨r, g, b, hr, hg, hb, rfl⟩
  · rintro ⟨r, g, b, hr, hg, hb, rfl⟩
    exact ⟨_, b, ⟨r, g, hr, hg, rfl⟩, hb, rfl⟩

theorem rgb_of_bytes {r g b : ℕ} (hg : g < 256) (hb : b < 256) :
    LedAction.rgb ((256 * (256 * r + g) + b) >>> 16).toUInt8 ((256 * (256 * r + g) + b) >>> 8).toUInt8
      (256 * (256 * r + g) + b).toUInt8 = .rgb r.toUInt8 g.toUInt8 b.toUInt8 := by
  simp only [LedAction.rgb.injEq, ← UInt8.toNat_inj, Nat.toUInt8_eq, UInt8.toNat_ofNat',
    Nat.shiftRight_eq_div_pow]
  omega

theorem colour_hash_of_parse (hlen : byteLen h = 6) (hd : Denotes toDigit16 16 h v) :
    Colour ('#' :: h) (.rgb (v >>> 16).toUInt8 (v >>> 8).toUInt8 v.toUInt8) := by
  rw [byteLen_of_denotes hd] at hlen
  match h, hlen with
  | [r₁, r₀, g₁, g₀, b₁, b₀], _ =>
    obtain ⟨r, g, b, hr, hg, hb, rfl⟩ := denotes_six_iff.mp hd
    have hlt {x y : Char} {w : ℕ} (hw : Denotes toDigit16 16 [x, y] w) : w < 256 :=
      hw.lt_pow toDigit16_lt
    rw [rgb_of_bytes (hlt hg) (hlt hb)]
    exact .hash hr hg hb

end Grammar

section Acceptance

variable {s r g b h : Text} {v : ℕ} {a : LedAction} {c : Char}

theorem not_mem_of_denotes {digit : Char → Option ℕ} {base : ℕ} (hd : Denotes digit base s v)
    (hc : digit c = none) : c ∉ s := by
  intro hmem
  have hdigit := hd.digit_of_mem c hmem
  rw [hc] at hdigit
  cases hdigit

theorem not_mem_of_unsigned (hp : Unsigned s v) (hc : c = '#' ∨ c = ',' ∨ c = '+') : c ∉ s := by
  have hten : toDigit10 c = none := by rcases hc with rfl | rfl | rfl <;> decide
  have hsixteen : toDigit16 c = none := by rcases hc with rfl | rfl | rfl <;> decide
  have hzero : c ≠ '0' := by rcases hc with rfl | rfl | rfl <;> decide
  have hx : ¬ Prefix16 c := by rcases hc with rfl | rfl | rfl <;> rintro (h | h) <;> cases h
  cases hp with
  | dec hd => exact not_mem_of_denotes hd hten
  | hex hpre hd =>
    rintro (_ | ⟨_, _ | ⟨_, hmem⟩⟩)
    · exact hzero rfl
    · exact hx hpre
    · exact not_mem_of_denotes hd hsixteen hmem

/-- Without its plus sign the number is unsigned. -/
theorem not_mem_of_signed (hp : Signed s v) (hc : c = '#' ∨ c = ',') : c ∉ s := by
  have hc' : c = '#' ∨ c = ',' ∨ c = '+' := hc.imp_right Or.inl
  have hplus : c ≠ '+' := by rcases hc with rfl | rfl <;> decide
  cases hp with
  | dec hd => exact fun hmem =>
      (List.mem_cons.mp hmem).elim hplus (not_mem_of_unsigned (.dec hd) hc')
  | @hex x t v hpre hd =>
    have hunsigned := not_mem_of_unsigned (.hex hpre hd) hc'
    simp only [List.mem_cons, not_or] at hunsigned ⊢
    exact ⟨hunsigned.1, hunsigned.2.1, hplus, hunsigned.2.2⟩

theorem not_mem_of_number (hp : Unsigned s v ∨ Signed s v) (hc : c = '#' ∨ c = ',') : c ∉ s :=
  hp.elim (fun hp => not_mem_of_unsigned hp (hc.imp_right Or.inl)) fun hp => not_mem_of_signed hp hc

theorem plus_mem_of_signed (hp : Signed s v) : '+' ∈ s := by
  cases hp <;> simp

theorem ne_nil_of_number (hp : Unsigned s v ∨ Signed s v) : s ≠ [] := by
  rcases hp with hp | hp
  · cases hp with
    | dec hd => exact hd.ne_nil
    | hex => exact List.cons_ne_nil _ _
  · cases hp <;> exact List.cons_ne_nil _ _

theorem triple_eq_some_iff : triple s = some a ↔ ∃ r g b x y z, s = r ++ ',' :: (g ++ ',' :: b) ∧
    toU8 r = some x ∧ toU8 g = some y ∧ toU8 b = some z ∧ a = .rgb x y z := by
  constructor
  · intro h
    unfold triple at h
    split at h
    · rename_i r g b hsplit
      have hjoin : [','].intercalate (s.splitOn ',') = s := List.intercalate_splitOn ','
      rw [hsplit] at hjoin
      split at h
      · rename_i x y z hr hg hb
        refine ⟨r, g, b, x, y, z, ?_, hr, hg, hb, (Option.some.inj h).symm⟩
        rw [← hjoin]
        simp [List.intercalate]
      · cases h
    · cases h
  · rintro ⟨r, g, b, x, y, z, rfl, hr, hg, hb, rfl⟩
    have hcomma {t : Text} {w : UInt8} (ht : toU8 t = some w) : ',' ∉ t := by
      obtain ⟨v, hv, -⟩ := toU8_eq_some_iff.mp ht
      exact not_mem_of_number hv (Or.inr rfl)
    have hsplit : (r ++ ',' :: (g ++ ',' :: b)).splitOn ',' = [r, g, b] := by
      rw [List.splitOn_append_cons_self_of_not_mem (hcomma hr),
        List.splitOn_append_cons_self_of_not_mem (hcomma hg), List.splitOn_eq_singleton (hcomma hb)]
    rw [triple, hsplit]
    simp only [hr, hg, hb]

theorem parseColor_components {x y z : UInt8} (hr : toU8 r = some x) (hg : toU8 g = some y)
    (hb : toU8 b = some z) : parseColor (r ++ ',' :: (g ++ ',' :: b)) = some (.rgb x y z) := by
  have hcomma : ',' ∈ r ++ ',' :: (g ++ ',' :: b) := by simp
  obtain ⟨v, hv, -⟩ := toU8_eq_some_iff.mp hr
  rw [parseColor_triple (not_anyCase_of_mem mem_letters_of_off (Or.inr (Or.inl rfl)) hcomma)
    (not_anyCase_of_mem mem_letters_of_auto (Or.inr (Or.inl rfl)) hcomma)]
  · exact triple_eq_some_iff.mpr ⟨r, g, b, x, y, z, rfl, hr, hg, hb, rfl⟩
  · intro t ht
    obtain ⟨c, r', rfl⟩ := List.exists_cons_of_ne_nil (ne_nil_of_number hv)
    rw [List.cons_append] at ht
    exact not_mem_of_number hv (Or.inl rfl) ((List.cons.inj ht).1 ▸ List.mem_cons_self)

theorem toU8_of_component {x : UInt8} (h : Component s x) : toU8 s = some x := by
  obtain ⟨v, hv, hle, rfl⟩ := h
  exact toU8_eq_some_iff.mpr ⟨v, Or.inl hv, hle, rfl⟩

theorem toU8_of_lenient (h : Lenient s) : ∃ x, toU8 s = some x := by
  obtain ⟨v, hv, hle⟩ := h
  exact ⟨_, toU8_eq_some_iff.mpr ⟨v, hv, hle, rfl⟩⟩

theorem parseHex_of_length (hd : Denotes toDigit16 16 h v) (hlen : h.length ≤ 6) : v ≤ u32Max := by
  have hlt := hd.lt_pow toDigit16_lt
  have hpow : 16 ^ h.length ≤ 16 ^ 6 := Nat.pow_le_pow_right (by decide) hlen
  exact Nat.le_trans (Nat.le_of_lt (Nat.lt_of_lt_of_le hlt hpow)) (by decide)

/-- Every colour is accepted, and as the colour it is. -/
theorem parseColor_of_colour (hs : Colour s a) : parseColor s = some a := by
  cases hs with
  | off hw => exact parseColor_off hw
  | auto hw => exact parseColor_auto hw
  | @hash r₁ r₀ g₁ g₀ b₁ b₀ r g b hr hg hb =>
    have hlt {x y : Char} {w : ℕ} (hw : Denotes toDigit16 16 [x, y] w) : w < 256 :=
      hw.lt_pow toDigit16_lt
    have hsix := denotes_six_iff.mpr ⟨r, g, b, hr, hg, hb, rfl⟩
    have hlen : byteLen [r₁, r₀, g₁, g₀, b₁, b₀] = 6 := byteLen_of_denotes hsix
    have hparse := parseHex_eq_some_iff.mpr ⟨(denotes_unsigned_iff toDigit16_plus).mpr (Or.inl hsix),
      parseHex_of_length hsix (by simp)⟩
    rw [parseColor_hash, if_neg (not_not.mpr hlen), hparse, Option.map_some,
      rgb_of_bytes (hlt hg) (hlt hb)]
  | triple hr hg hb =>
    exact parseColor_components (toU8_of_component hr) (toU8_of_component hg) (toU8_of_component hb)

theorem not_plus_mem_of_colour (hs : Colour s a) : '+' ∉ s := by
  cases hs with
  | off hw => exact fun hmem =>
      not_anyCase_of_mem mem_letters_of_off (Or.inr (Or.inr rfl)) hmem hw
  | auto hw => exact fun hmem =>
      not_anyCase_of_mem mem_letters_of_auto (Or.inr (Or.inr rfl)) hmem hw
  | hash hr hg hb =>
    have hsix := denotes_six_iff.mpr ⟨_, _, _, hr, hg, hb, rfl⟩
    exact List.not_mem_cons_of_ne_of_not_mem (by decide) (not_mem_of_denotes hsix toDigit16_plus)
  | triple hr hg hb =>
    have hno {t : Text} {x : UInt8} (ht : Component t x) : '+' ∉ t := by
      obtain ⟨v, hv, -⟩ := ht
      exact not_mem_of_unsigned hv (Or.inr (Or.inr rfl))
    simp [hno hr, hno hg, hno hb]

/-- What is accepted is a colour, or would be one but for its plus signs. -/
theorem colour_or_plussed (hp : parseColor s = some a) : Colour s a ∨ Plussed s := by
  by_cases hoff : AnyCase "off".toList s
  · rw [parseColor_off hoff] at hp
    cases hp
    exact Or.inl (.off hoff)
  by_cases hauto : AnyCase "auto".toList s
  · rw [parseColor_auto hauto] at hp
    cases hp
    exact Or.inl (.auto hauto)
  by_cases hhash : ∃ h, s = '#' :: h
  · obtain ⟨h, rfl⟩ := hhash
    rw [parseColor_hash] at hp
    split_ifs at hp with hlen
    obtain ⟨v, hv, rfl⟩ := Option.map_eq_some_iff.mp hp
    have hlen' : byteLen h = 6 := not_not.mp hlen
    rcases (denotes_unsigned_iff toDigit16_plus).mp (parseHex_eq_some_iff.mp hv).1 with hd | ⟨t, rfl, hd⟩
    · exact Or.inl (colour_hash_of_parse hlen' hd)
    · have hplus : Char.utf8Size '+' = 1 := rfl
      rw [byteLen_cons, byteLen_of_denotes hd, hplus] at hlen'
      exact Or.inr ⟨by simp, Or.inl ⟨t, v, rfl, by omega, hd⟩⟩
  · rw [parseColor_triple hoff hauto fun h hs => hhash ⟨h, hs⟩, triple_eq_some_iff] at hp
    obtain ⟨r, g, b, x, y, z, rfl, hr, hg, hb, rfl⟩ := hp
    have hlenient {t : Text} {w : UInt8} (ht : toU8 t = some w) : Lenient t := by
      obtain ⟨v, hv, hle, -⟩ := toU8_eq_some_iff.mp ht
      exact ⟨v, hv, hle⟩
    have hcomponent {t : Text} {w : UInt8} (ht : toU8 t = some w) (hno : '+' ∉ t) : Component t w := by
      obtain ⟨v, hv, hle, hw⟩ := toU8_eq_some_iff.mp ht
      exact ⟨v, hv.resolve_right fun hs => hno (plus_mem_of_signed hs), hle, hw⟩
    by_cases hplus : '+' ∈ r ++ ',' :: (g ++ ',' :: b)
    · exact Or.inr ⟨hplus, Or.inr ⟨r, g, b, rfl, hlenient hr, hlenient hg, hlenient hb⟩⟩
    · simp only [List.mem_append, List.mem_cons, not_or] at hplus
      exact Or.inl (.triple (hcomponent hr hplus.1) (hcomponent hg hplus.2.2.1)
        (hcomponent hb hplus.2.2.2.2))

theorem parseColor_of_plussed (hs : Plussed s) : ∃ a, parseColor s = some a := by
  rcases hs with ⟨-, ⟨h, v, rfl, hlen, hd⟩ | ⟨r, g, b, rfl, hr, hg, hb⟩⟩
  · have hplus : Char.utf8Size '+' = 1 := rfl
    have hbytes : byteLen ('+' :: h) = 6 := by rw [byteLen_cons, byteLen_of_denotes hd, hplus, hlen]
    have hparse := parseHex_eq_some_iff.mpr ⟨(denotes_unsigned_iff toDigit16_plus).mpr
      (Or.inr ⟨h, rfl, hd⟩), parseHex_of_length hd (by omega)⟩
    exact ⟨_, by rw [parseColor_hash, if_neg (not_not.mpr hbytes), hparse, Option.map_some]⟩
  · obtain ⟨x, hx⟩ := toU8_of_lenient hr
    obtain ⟨y, hy⟩ := toU8_of_lenient hg
    obtain ⟨z, hz⟩ := toU8_of_lenient hb
    exact ⟨_, parseColor_components hx hy hz⟩

/-- The parser accepts the colours, each as what it is, and nothing else, unless the text is a colour
but for plus signs in front of digits. -/
theorem led_grammar_iff (s : Text) :
    (∀ a, parseColor s = some a ↔ Colour s a) ↔ ¬ Plussed s := by
  constructor
  · intro hexact hplussed
    obtain ⟨a, ha⟩ := parseColor_of_plussed hplussed
    exact not_plus_mem_of_colour ((hexact a).mp ha) hplussed.1
  · exact fun hno a => ⟨fun hp => (colour_or_plussed hp).resolve_right hno, parseColor_of_colour⟩

theorem plus_sign_accepted : parseColor "+1,2,3".toList = some (.rgb 1 2 3) ∧
    ¬ ∀ a, parseColor "+1,2,3".toList = some a ↔ Colour "+1,2,3".toList a := by
  have hparse : parseColor "+1,2,3".toList = some (.rgb 1 2 3) := by decide
  exact ⟨hparse, fun h => not_plus_mem_of_colour ((h _).mp hparse) (by decide)⟩

end Acceptance

end AtNode.Args
