import AtNode.Esp32.HttpHws
import AtNode.Esp32.MqttWhole

/-!
# Slices in requests from outside

The decoder of query strings cuts the two bytes behind a percent sign out of the text, and the
handler of I2C writes cuts a text into pairs of bytes. Both stop the firmware where a cut is inside a
character; the cuts of a command over MQTT are at blanks and never do.
-/

namespace AtNode.RemotePanic

open Config Query Utf8

section Escapes

/-- What is behind each percent sign is too short for an escape or can be cut behind two bytes. -/
def EscapesWhole (v : Text) : Prop :=
  ∀ p s, v = p ++ '%' :: s → (encode s).length < 2 ∨ Boundary s 2

variable {c d : Char} {s v : Text} {bs : List UInt8} {out : Text} {cap : ℕ}

theorem escapesWhole_nil : EscapesWhole [] := by
  intro p s h
  exact absurd h (by simp)

theorem escapesWhole_cons (h : c ≠ '%') : EscapesWhole (c :: s) ↔ EscapesWhole s := by
  constructor
  · intro hw p t heq
    exact hw (c :: p) t (by rw [heq, List.cons_append])
  · intro hw p t heq
    cases p with
    | nil => exact absurd (List.cons.inj heq).1 h
    | cons e p => exact hw p t (List.cons.inj heq).2

theorem escapesWhole_percent :
    EscapesWhole ('%' :: s) ↔ ((encode s).length < 2 ∨ Boundary s 2) ∧ EscapesWhole s := by
  constructor
  · exact fun hw => ⟨hw [] s rfl, fun p t heq => hw ('%' :: p) t (by rw [heq, List.cons_append])⟩
  · rintro ⟨hs, hw⟩ p t heq
    cases p with
    | nil =>
      obtain rfl := (List.cons.inj heq).2
      exact hs
    | cons e p => exact hw p t (List.cons.inj heq).2

theorem encodeChar_bytes (c : Char) : ∃ b l, String.utf8EncodeChar c = b :: l ∧
    isContinuation b = false ∧ ∀ d ∈ l, isContinuation d = true := by
  have hmax : c.val.toNat < 1114112 := by
    rcases c.valid with h | h
    · exact Nat.lt_trans h (by decide)
    · exact h.2
  unfold String.utf8EncodeChar
  dsimp only
  split_ifs <;>
    · refine ⟨_, _, rfl, ?_, ?_⟩
      · simp only [isContinuation, Bool.and_eq_false_iff, decide_eq_false_iff_not, UInt8.le_iff_toNat_le,
          UInt8.toNat_ofNat', UInt8.reduceToNat]
        omega
      · simp only [List.mem_cons, List.not_mem_nil, or_false, isContinuation, Bool.and_eq_true,
          decide_eq_true_eq, UInt8.le_iff_toNat_le, UInt8.reduceToNat]
        intro d hd
        rcases hd with rfl | rfl | rfl <;> simp only [UInt8.toNat_ofNat'] <;> omega

/-- Bytes above those of the decoder are passed over. -/
theorem urlDecodeLoop_high {l : List UInt8} (h : ∀ b ∈ l, 128 ≤ b.toNat) (bs : List UInt8) (out : Text) :
    ∃ out', urlDecodeLoop cap (l ++ bs) out = urlDecodeLoop cap bs out' := by
  induction l generalizing out with
  | nil => exact ⟨out, rfl⟩
  | cons b l ih =>
    have hb := h b List.mem_cons_self
    have hpct : b ≠ percent := by
      rintro rfl
      exact absurd hb (by decide)
    have hplus : b ≠ plus := by
      rintro rfl
      exact absurd hb (by decide)
    rw [List.cons_append, urlDecodeLoop_byte hpct hplus]
    exact ih (fun d hd => h d (List.mem_cons_of_mem _ hd)) _

theorem urlDecodeLoop_char (cap : ℕ) (h : c ≠ '%') (bs : List UInt8) (out : Text) :
    ∃ out', urlDecodeLoop cap (String.utf8EncodeChar c ++ bs) out = urlDecodeLoop cap bs out' := by
  by_cases hc : c.toNat < 128
  · rw [encodeChar_of_lt hc, List.singleton_append]
    have hpct : UInt8.ofNat c.toNat ≠ percent := by
      intro heq
      apply h
      rw [← asChar_toNat hc, heq]
      rfl
    by_cases hplus : UInt8.ofNat c.toNat = plus
    · rw [hplus]
      exact ⟨_, urlDecodeLoop_plus⟩
    · exact ⟨_, urlDecodeLoop_byte hpct hplus⟩
  · exact urlDecodeLoop_high (fun b hb => le_of_mem_encodeChar (Nat.le_of_not_lt hc) hb) bs out

theorem head_encode (s : Text) : (encode s).head?.any isContinuation = false := by
  cases s with
  | nil => rfl
  | cons c s =>
    obtain ⟨b, l, heq, hb, -⟩ := encodeChar_bytes c
    rw [encode_cons, heq]
    exact hb

theorem isSome_fromStrRadix16 {a b : UInt8} (h : (fromStrRadix16 a b).isSome) :
    a.toNat < 128 ∧ b.toNat < 128 ∧ a ≠ percent ∧ b ≠ percent := by
  have hdigit : ∀ d : UInt8, (hexDigit d).isSome → d.toNat < 128 ∧ d ≠ percent := by
    intro d hd
    refine ⟨?_, ?_⟩
    · by_contra hge
      rw [FullArgs.hexDigit_high (UInt8.le_iff_toNat_le.mpr (Nat.le_of_not_lt hge))] at hd
      cases hd
    · rintro rfl
      exact absurd hd (by decide)
  unfold fromStrRadix16 at h
  split at h
  · rename_i ha
    subst ha
    exact ⟨by decide, (hdigit b h).1, by decide, (hdigit b h).2⟩
  · cases ha : hexDigit a with
    | none =>
      rw [ha] at h
      cases h
    | some n =>
      rw [ha, Option.bind_some, Option.isSome_map] at h
      have hsome : (hexDigit a).isSome := by rw [ha]; rfl
      exact ⟨(hdigit a hsome).1, (hdigit b h).1, (hdigit a hsome).2, (hdigit b h).2⟩

theorem boundary_two_iff {a b : UInt8} {rest : List UInt8} (h : encode s = a :: b :: rest) :
    Boundary s 2 ↔ (isContinuation a || rest.head?.any isContinuation) = false := by
  constructor
  · rintro ⟨t, u, rfl, hlen⟩
    have hhead := head_encode (t ++ u)
    have hu := head_encode u
    have hcut : encode u = rest := by
      have hdrop := congrArg (List.drop 2) h
      rw [encode_append, List.drop_append, List.drop_of_length_le (Nat.le_of_eq hlen), hlen,
        Nat.sub_self, List.drop_zero, List.nil_append] at hdrop
      exact hdrop
    rw [h] at hhead
    rw [hcut] at hu
    exact Bool.or_eq_false_iff.mpr ⟨hhead, hu⟩
  · intro hb
    have hrest := (Bool.or_eq_false_iff.mp hb).2
    cases s with
    | nil => cases h
    | cons c s =>
      obtain ⟨b0, l, hc, -, hl⟩ := encodeChar_bytes c
      rw [encode_cons, hc] at h
      match l, h with
      | [], h =>
        cases s with
        | nil => cases h
        | cons d s =>
          obtain ⟨b1, l', hd, -, hl'⟩ := encodeChar_bytes d
          rw [encode_cons, hd] at h
          cases l' with
          | nil => exact ⟨[c, d], s, rfl, by rw [encode_cons, encode_cons, hc, hd]; rfl⟩
          | cons e l' =>
            obtain rfl : e :: l' ++ encode s = rest := (List.cons.inj (List.cons.inj h).2).2
            have he := hl' e List.mem_cons_self
            rw [List.cons_append, List.head?_cons, Option.any_some, he] at hrest
            cases hrest
      | [e], h => exact ⟨[c], s, rfl, by rw [encode_cons, hc]; rfl⟩
      | e :: e' :: l, h =>
        obtain rfl : e' :: l ++ encode s = rest := (List.cons.inj (List.cons.inj h).2).2
        have he := hl e' (List.mem_cons_of_mem _ List.mem_cons_self)
        rw [List.cons_append, List.head?_cons, Option.any_some, he] at hrest
        cases hrest

theorem encode_eq_cons_low {a : UInt8} {rest : List UInt8} (h : encode s = a :: rest)
    (hrest : rest.head?.any isContinuation = false) :
    ∃ c t, s = c :: t ∧ String.utf8EncodeChar c = [a] ∧ encode t = rest := by
  cases s with
  | nil => cases h
  | cons c t =>
    obtain ⟨b, l, hc, -, hl⟩ := encodeChar_bytes c
    rw [encode_cons, hc] at h
    cases l with
    | nil =>
      obtain ⟨rfl, hrest⟩ := List.cons.inj h
      exact ⟨c, t, rfl, hc, hrest⟩
    | cons e l =>
      obtain rfl : e :: l ++ encode t = rest := (List.cons.inj h).2
      have he := hl e List.mem_cons_self
      rw [List.cons_append, List.head?_cons, Option.any_some, he] at hrest
      cases hrest

theorem ne_percent_of_encodeChar {a : UInt8} (h : String.utf8EncodeChar c = [a]) (ha : a ≠ percent) :
    c ≠ '%' := by
  rintro rfl
  exact ha (List.cons.inj h).1.symm

theorem isSome_urlDecodeLoop_iff (cap : ℕ) (v out : Text) :
    (urlDecodeLoop cap (encode v) out).isSome ↔ EscapesWhole v := by
  induction hn : v.length using Nat.strong_induction_on generalizing v out with
  | _ n ih =>
    cases v with
    | nil => exact ⟨fun _ => escapesWhole_nil, fun _ => rfl⟩
    | cons c s =>
      rw [List.length_cons] at hn
      by_cases hc : c = '%'
      · subst hc
        have hpct : encode ('%' :: s) = percent :: encode s := rfl
        rw [hpct, escapesWhole_percent]
        have ihs := fun out => ih s.length (by omega) s out rfl
        match hs : encode s with
        | [] =>
          have hnext : (urlDecodeLoop cap (percent :: []) out) =
              urlDecodeLoop cap (encode s) (Heapless.push cap out (asChar percent)) := by
            rw [hs]
            rfl
          rw [hnext, ihs]
          exact ⟨fun h => ⟨Or.inl (by decide), h⟩, fun h => h.2⟩
        | [a] =>
          have hnext : (urlDecodeLoop cap (percent :: [a]) out) =
              urlDecodeLoop cap (encode s) (Heapless.push cap out (asChar percent)) := by
            rw [hs]
            rfl
          rw [hnext, ihs]
          exact ⟨fun h => ⟨Or.inl (Nat.lt_succ_self 1), h⟩, fun h => h.2⟩
        | a :: b :: rest =>
          have hlong : ¬ (a :: b :: rest).length < 2 := by
            rw [List.length_cons, List.length_cons]
            omega
          rw [boundary_two_iff hs, or_iff_right hlong]
          rw [urlDecodeLoop.eq_def]
          dsimp only
          rw [if_pos rfl]
          cases hcut : isContinuation a || rest.head?.any isContinuation with
          | true =>
            rw [if_pos rfl]
            exact ⟨fun h => absurd h Bool.false_ne_true, fun h => absurd h.1 Bool.noConfusion⟩
          | false =>
            rw [if_neg Bool.false_ne_true]
            cases hv : fromStrRadix16 a b with
            | none =>
              dsimp only
              rw [← hs, ihs]
              exact ⟨fun h => ⟨rfl, h⟩, fun h => h.2⟩
            | some n =>
              -- the digits are characters of their own, and none is a percent sign
              obtain ⟨ha, hb, hap, hbp⟩ := isSome_fromStrRadix16 (by rw [hv]; rfl)
              have hblow := FullArgs.isContinuation_low (UInt8.lt_iff_toNat_lt.mpr hb)
              obtain ⟨c₁, s₁, rfl, hc₁, hs₁⟩ := encode_eq_cons_low hs hblow
              obtain ⟨c₂, s₂, rfl, hc₂, hs₂⟩ :=
                encode_eq_cons_low hs₁ (Bool.or_eq_false_iff.mp hcut).2
              dsimp only
              rw [← hs₂, ih s₂.length (by rw [← hn, List.length_cons, List.length_cons]; omega) s₂ _ rfl,
                escapesWhole_cons (ne_percent_of_encodeChar hc₁ hap),
                escapesWhole_cons (ne_percent_of_encodeChar hc₂ hbp)]
              exact ⟨fun h => ⟨rfl, h⟩, fun h => h.2⟩
      · obtain ⟨out', hnext⟩ := urlDecodeLoop_char cap hc (encode s) out
        rw [encode_cons, hnext, escapesWhole_cons hc]
        exact ih s.length (by omega) s out' rfl

end Escapes

section Arguments

open FullArgs (rawArg)

def ArgWhole (query key : Text) : Prop := ∀ v, rawArg query key = some v → EscapesWhole v

theorem isSome_queryGet_iff (query key : Text) : (queryGet query key).isSome ↔ ArgWhole query key := by
  unfold queryGet ArgWhole rawArg
  cases Pairs.lookup '&' '=' key query with
  | none => exact ⟨fun _ v h => (by cases h), fun _ => rfl⟩
  | some v =>
    simp only [Option.some.injEq, forall_eq']
    exact isSome_urlDecodeLoop_iff scratchCap v []

def source (a : Http.Args) (key : Text) : Text := if Http.hasIn a.body key then a.body else a.query

theorem isSome_get_iff (a : Http.Args) (key : Text) :
    (a.get key).isSome ↔ ArgWhole (source a key) key := by
  unfold Http.Args.get source
  split
  · exact isSome_queryGet_iff a.body key
  · exact isSome_queryGet_iff a.query key

end Arguments

section Pairs

open Args (parseHex)
open Http (hexPairs pairStarts)

/-- A text of pairs that are numbers. -/
inductive HexPairs : Text → Prop where
  | nil : HexPairs []
  | cons {c d : Char} {s : Text} (h : (parseHex u8Max [c, d]).isSome) (hs : HexPairs s) :
      HexPairs (c :: d :: s)

/-- Behind the pairs that are numbers the text can be cut behind two bytes. -/
def PairsWhole (hex : Text) : Prop := ∀ t u, hex = t ++ u → HexPairs t → u ≠ [] → Boundary u 2

variable {hex t u s : Text} {c d : Char}

theorem foldl_hex_none (ds : Text) :
    ds.foldl (fun n c => n.bind fun n => (toDigit16 c).map (16 * n + ·)) none = none := by
  induction ds with
  | nil => rfl
  | cons c ds ih => exact ih

theorem isSome_toDigit16_of_foldl {ds : Text} {o : Option ℕ}
    (h : (ds.foldl (fun n c => n.bind fun n => (toDigit16 c).map (16 * n + ·)) o).isSome) :
    ∀ c ∈ ds, (toDigit16 c).isSome := by
  induction ds generalizing o with
  | nil => exact fun c hc => absurd hc List.not_mem_nil
  | cons c ds ih =>
    rw [List.foldl_cons] at h
    intro d hd
    rcases List.mem_cons.mp hd with rfl | hd
    · cases hc : toDigit16 d with
      | none =>
        have hnone : (o.bind fun n => (toDigit16 d).map (16 * n + ·)) = none := by
          rw [hc]
          cases o <;> rfl
        rw [hnone, foldl_hex_none] at h
        cases h
      | some n => rfl
    · exact ih h d hd

theorem utf8Size_of_parseHex {max : ℕ} (h : (parseHex max t).isSome) : ∀ c ∈ t, c.utf8Size = 1 := by
  have hdigits : ∀ ds : Text, (if ds = [] then none else
      (ds.foldl (fun n c => n.bind fun n => (toDigit16 c).map (16 * n + ·)) (some 0)).bind fun v =>
        if v ≤ max then some v else none).isSome → ∀ c ∈ ds, c.utf8Size = 1 := by
    intro ds hds c hc
    split at hds
    · cases hds
    · exact utf8Size_of_toDigit16 (isSome_toDigit16_of_foldl (Option.isSome_of_isSome_bind hds) c hc)
  unfold parseHex at h
  dsimp only at h
  split at h
  · intro c hc
    rcases List.mem_cons.mp hc with rfl | hc
    · rfl
    · exact hdigits _ h c hc
  · exact hdigits _ h

theorem pair_of_parseHex (hlen : (encode t).length = 2) (h : (parseHex u8Max t).isSome) :
    ∃ c d, t = [c, d] := by
  have hsize : t.length = 2 := by
    rw [← hlen, length_encode, byteLen_of_utf8Size_one (utf8Size_of_parseHex h)]
  obtain ⟨c, d, rfl⟩ := List.length_eq_two.mp hsize
  exact ⟨c, d, rfl⟩

theorem pairsWhole_cons (h : (parseHex u8Max [c, d]).isSome) :
    PairsWhole (c :: d :: s) ↔ PairsWhole s := by
  constructor
  · intro hw t u heq ht hu
    exact hw (c :: d :: t) u (by rw [heq]; rfl) (.cons h ht) hu
  · intro hw t u heq ht hu
    cases ht with
    | nil =>
      rw [List.nil_append] at heq
      have hsize := utf8Size_of_parseHex h
      refine ⟨[c, d], s, heq.symm, ?_⟩
      rw [length_encode, byteLen_of_utf8Size_one hsize]
      rfl
    | cons hp ht =>
      obtain ⟨rfl, htail⟩ := List.cons.inj heq
      obtain ⟨rfl, hs⟩ := List.cons.inj htail
      exact hw _ u hs ht hu

theorem pairsWhole_bad (h : ∀ c d u, s = c :: d :: u → parseHex u8Max [c, d] = none) (hne : s ≠ []) :
    PairsWhole s ↔ Boundary s 2 := by
  constructor
  · exact fun hw => hw [] s rfl .nil hne
  · intro hb t u heq ht hu
    cases ht with
    | nil =>
      rw [List.nil_append] at heq
      exact heq ▸ hb
    | cons hp ht =>
      rw [List.cons_append, List.cons_append] at heq
      rw [h _ _ _ heq] at hp
      cases hp

theorem hexPairs_cons (t u : Text) (is : List ℕ) :
    hexPairs (t ++ u) ((encode t).length :: is) =
      (sliceTo u 2).bind fun pair =>
        match parseHex u8Max pair with
        | none => some none
        | some v => (hexPairs (t ++ u) is).map (Option.map (v.toUInt8 :: ·)) := by
  rw [← slice_append t u 2]
  rfl

theorem starts_succ (k n : ℕ) :
    (List.range (n + 1)).map (fun i => k + 2 * i) = k :: (List.range n).map fun i => k + 2 + 2 * i := by
  rw [List.range_succ_eq_map, List.map_cons, List.map_map]
  congr 1
  apply List.map_congr_left
  intro i _
  simp only [Function.comp_apply]
  omega

theorem hexPairs_uncons (h : HexPairs (c :: d :: s)) :
    (parseHex u8Max [c, d]).isSome ∧ HexPairs s := by
  cases h with
  | cons hp hs => exact ⟨hp, hs⟩

theorem boundary_of_hexPairs (h : HexPairs s) (hne : s ≠ []) : Boundary s 2 := by
  cases h with
  | nil => exact absurd rfl hne
  | @cons c d s hp hs =>
    refine ⟨[c, d], s, rfl, ?_⟩
    rw [length_encode, byteLen_of_utf8Size_one (utf8Size_of_parseHex hp)]
    rfl

/-- Where the first two bytes are no pair, no pair of characters stands in front. -/
theorem parseHex_front {p w : Text} (hp : (encode p).length = 2) (hv : parseHex u8Max p = none)
    (c d : Char) (u : Text) (heq : p ++ w = c :: d :: u) : parseHex u8Max [c, d] = none := by
  by_contra hsome
  -- then the pair in front is this one
  have hsize := utf8Size_of_parseHex (Option.ne_none_iff_isSome.mp hsome)
  have hcd : (encode [c, d]).length = 2 := by
    rw [length_encode, byteLen_of_utf8Size_one hsize]
    rfl
  have hcut := cut_append p w
  have hpair : cut (encode [c, d]).length (c :: d :: u) = some ([c, d], u) :=
    cut_append [c, d] u
  rw [heq, hp, ← hcd, hpair] at hcut
  obtain rfl : [c, d] = p := (Prod.mk.inj (Option.some.inj hcut)).1
  exact hsome hv

theorem not_hexPairs_of_front (hbad : ∀ c d u, s = c :: d :: u → parseHex u8Max [c, d] = none)
    (hne : s ≠ []) : ¬ HexPairs s := by
  intro h
  cases h with
  | nil => exact hne rfl
  | @cons c d s hp hs =>
    rw [hbad c d s rfl] at hp
    cases hp

/-- The loop gets through exactly where the cuts are whole, and gives numbers exactly where all pairs
are. -/
theorem hexPairs_spec (t u : Text) (n : ℕ) (hn : (encode u).length = 2 * n) :
    ((hexPairs (t ++ u) ((List.range n).map fun i => (encode t).length + 2 * i)).isSome ↔
        PairsWhole u) ∧
      ((∃ bs, hexPairs (t ++ u) ((List.range n).map fun i => (encode t).length + 2 * i) =
        some (some bs)) ↔ HexPairs u) := by
  induction n generalizing t u with
  | zero =>
    have hu : u = [] := by
      cases u with
      | nil => rfl
      | cons c u =>
        have hpos := c.utf8Size_pos
        rw [length_encode_cons] at hn
        omega
    subst hu
    refine ⟨⟨fun _ t u heq _ hu => ?_, fun _ => rfl⟩, ⟨fun _ => .nil, fun _ => ⟨[], rfl⟩⟩⟩
    exact absurd (List.append_eq_nil_iff.mp heq.symm).2 hu
  | succ n ih =>
    have hne : u ≠ [] := by
      rintro rfl
      rw [encode_nil, List.length_nil] at hn
      omega
    rw [starts_succ, hexPairs_cons]
    by_cases hb : Boundary u 2
    · obtain ⟨p, w, rfl, hp⟩ := hb
      have hslice : sliceTo (p ++ w) 2 = some p := by rw [← hp, sliceTo_append]
      rw [hslice, Option.bind_some]
      cases hv : parseHex u8Max p with
      | none =>
        have hbad := parseHex_front (w := w) hp hv
        have hno := not_hexPairs_of_front hbad hne
        rw [pairsWhole_bad hbad hne]
        refine ⟨⟨fun _ => ⟨p, w, rfl, hp⟩, fun _ => rfl⟩, ⟨?_, fun h => absurd h hno⟩⟩
        rintro ⟨bs, hbs⟩
        cases hbs
      | some v =>
        obtain ⟨c, d, rfl⟩ := pair_of_parseHex hp (by rw [hv]; rfl)
        have hw : (encode w).length = 2 * n := by
          rw [encode_append, List.length_append, hp] at hn
          omega
        have hlen : (encode (t ++ [c, d])).length = (encode t).length + 2 := by
          rw [encode_append, List.length_append, hp]
        have hrec := ih (t ++ [c, d]) w hw
        rw [hlen, List.append_assoc] at hrec
        have hsome : (parseHex u8Max [c, d]).isSome := by
          rw [hv]
          rfl
        dsimp only
        refine ⟨?_, ?_⟩
        · rw [Option.isSome_map, hrec.1]
          exact (pairsWhole_cons hsome).symm
        · constructor
          · rintro ⟨bs, hbs⟩
            obtain ⟨r, hr, hmap⟩ := Option.map_eq_some_iff.mp hbs
            obtain ⟨bs', rfl, -⟩ := Option.map_eq_some_iff.mp hmap
            exact .cons hsome (hrec.2.mp ⟨bs', hr⟩)
          · intro h
            obtain ⟨bs, hbs⟩ := hrec.2.mpr (hexPairs_uncons h).2
            rw [hbs]
            exact ⟨_, rfl⟩
    · have hslice : sliceTo u 2 = none := by
        rw [sliceTo, Option.map_eq_none_iff, ← Option.not_isSome_iff_eq_none, cut_isSome_iff]
        exact hb
      rw [hslice]
      refine ⟨⟨fun h => (by cases h), fun hw => absurd (hw [] u rfl .nil hne) hb⟩, ⟨?_, ?_⟩⟩
      · rintro ⟨bs, hbs⟩
        cases hbs
      · exact fun h => absurd (boundary_of_hexPairs h hne) hb

end Pairs

section Handler

open Http (pairStarts hexPairs hI2cWrite Node)

/-- The text of the pairs is taken up by the handler. -/
def Paired (hex : Text) : Prop := hex ≠ [] ∧ byteLen hex % 2 = 0 ∧ byteLen hex / 2 ≤ Hws.i2cIoMax

def I2cWriteWhole (a : Http.Args) : Prop :=
  ArgWhole (source a "data".toList) "data".toList ∧
    ∀ data, a.get "data".toList = some data → Paired (data.filter (· ≠ ' ')) →
      PairsWhole (data.filter (· ≠ ' ')) ∧
        (HexPairs (data.filter (· ≠ ' ')) →
          ArgWhole (source a "addr".toList) "addr".toList ∧
            ArgWhole (source a "reg".toList) "reg".toList)

theorem pairs_spec {hex : Text} (h : byteLen hex % 2 = 0) :
    ((hexPairs hex (pairStarts (byteLen hex))).isSome ↔ PairsWhole hex) ∧
      ((∃ bs, hexPairs hex (pairStarts (byteLen hex)) = some (some bs)) ↔ HexPairs hex) := by
  have hlen : (encode hex).length = 2 * ((byteLen hex + 1) / 2) := by
    rw [length_encode]
    omega
  have hspec := hexPairs_spec [] hex _ hlen
  rw [encode_nil, List.length_nil, List.nil_append] at hspec
  simp only [Nat.zero_add] at hspec
  exact hspec

theorem isSome_toU32_iff (a : Http.Args) (key : Text) :
    (a.toU32 key).isSome ↔ ArgWhole (source a key) key := by
  rw [Http.Args.toU32, Option.isSome_map, isSome_get_iff]

theorem isSome_bind_iff {α β : Type} {o : Option α} {f : α → Option β} {p : Prop}
    (h : ∀ v, (f v).isSome ↔ p) : (o.bind f).isSome ↔ o.isSome ∧ p := by
  cases o with
  | none => exact ⟨fun h => absurd h Bool.false_ne_true, fun h => h.1⟩
  | some v => exact ⟨fun hf => ⟨rfl, (h v).mp hf⟩, fun hp => (h v).mpr hp.2⟩

theorem isSome_hI2cWrite_iff (n : Node) (a : Http.Args) :
    (hI2cWrite n a).isSome ↔ n.hws = false ∨ I2cWriteWhole a := by
  unfold hI2cWrite
  cases hhws : n.hws with
  | false => exact ⟨fun _ => Or.inl rfl, fun _ => rfl⟩
  | true =>
    rw [Bool.not_true, if_neg Bool.false_ne_true, or_iff_right Bool.noConfusion]
    unfold I2cWriteWhole
    rw [← isSome_get_iff]
    cases hdata : a.get "data".toList with
    | none => exact ⟨fun h => absurd h Bool.false_ne_true, fun h => h.1⟩
    | some data =>
      simp only [Option.bind_some, Option.isSome_some, true_and, Option.some.injEq, forall_eq']
      by_cases hpaired : Paired (data.filter (· ≠ ' '))
      · obtain ⟨hne, heven, hle⟩ := hpaired
        have hguard : ¬ (data.filter (· ≠ ' ') = [] ∨ byteLen (data.filter (· ≠ ' ')) % 2 ≠ 0 ∨
            Hws.i2cIoMax < byteLen (data.filter (· ≠ ' ')) / 2) := by
          rintro (h | h | h)
          · exact hne h
          · exact h heven
          · exact Nat.not_lt_of_le hle h
        obtain ⟨hwhole, hpairs⟩ := pairs_spec heven
        rw [if_neg hguard]
        refine Iff.trans ?_ ⟨fun h _ => h, fun h => h ⟨hne, heven, hle⟩⟩
        rw [← hwhole, ← hpairs]
        cases hexPairs (data.filter (· ≠ ' ')) (pairStarts (byteLen (data.filter (· ≠ ' ')))) with
        | none => exact ⟨fun h => absurd h Bool.false_ne_true, fun h => h.1⟩
        | some r =>
          cases r with
          | none => exact ⟨fun _ => ⟨rfl, fun ⟨bs, hbs⟩ => by cases hbs⟩, fun _ => rfl⟩
          | some bs =>
            rw [Option.bind_some]
            dsimp only
            rw [isSome_bind_iff fun addr => iff_of_eq (congrArg (· = true) Option.isSome_map),
              isSome_toU32_iff, isSome_toU32_iff]
            exact ⟨fun h => ⟨rfl, fun _ => h⟩, fun h => h.2 ⟨bs, rfl⟩⟩
      · have hguard : data.filter (· ≠ ' ') = [] ∨ byteLen (data.filter (· ≠ ' ')) % 2 ≠ 0 ∨
            Hws.i2cIoMax < byteLen (data.filter (· ≠ ' ')) / 2 := by
          by_contra hno
          obtain ⟨h1, hno⟩ := not_or.mp hno
          obtain ⟨h2, h3⟩ := not_or.mp hno
          exact hpaired ⟨h1, not_not.mp h2, Nat.le_of_not_lt h3⟩
        rw [if_pos hguard]
        exact ⟨fun _ h => absurd h hpaired, fun _ => rfl⟩

end Handler

end AtNode.RemotePanic
