import Mathlib.Data.List.Basic
import Mathlib.Data.List.TakeWhile

/-!
# JSON texts

`parse` reads a text that is exactly one JSON value. `render` lays a value out without blanks and
puts its strings between quotation marks as they are, as a program does that assembles JSON from
pieces. Such a text is read back as the value exactly when no string of it needs an escape.
-/

namespace AtNode.Json

abbrev Text := List Char

section Grammar

def isBlank (c : Char) : Bool := c = ' ' || c = '\t' || c = '\n' || c = '\r'

def skip (s : Text) : Text := s.dropWhile isBlank

def hexValue (c : Char) : Option ℕ :=
  if '0' ≤ c ∧ c ≤ '9' then some (c.toNat - '0'.toNat)
  else if 'A' ≤ c ∧ c ≤ 'F' then some (c.toNat - 'A'.toNat + 10)
  else if 'a' ≤ c ∧ c ≤ 'f' then some (c.toNat - 'a'.toNat + 10)
  else none

def readHex : Text → Option (ℕ × Text)
  | a :: b :: c :: d :: s => do
    let a ← hexValue a
    let b ← hexValue b
    let c ← hexValue c
    let d ← hexValue d
    some (((a * 16 + b) * 16 + c) * 16 + d, s)
  | _ => none

/-- The character behind `\u`; one above the first plane is a pair of surrogates. -/
def readUnicode (s : Text) : Option (Char × Text) := do
  let (n, s) ← readHex s
  if 0xD800 ≤ n ∧ n < 0xDC00 then
    match s with
    | a :: b :: s => do
      let (m, s) ← readHex s
      if a = '\\' ∧ b = 'u' ∧ 0xDC00 ≤ m ∧ m < 0xE000 then
        some (Char.ofNat (0x10000 + (n - 0xD800) * 0x400 + (m - 0xDC00)), s)
      else none
    | _ => none
  else if 0xDC00 ≤ n ∧ n < 0xE000 then none
  else some (Char.ofNat n, s)

/-- The character behind a backslash. -/
def readEscape : Text → Option (Char × Text)
  | [] => none
  | c :: s =>
    if c = 'u' then readUnicode s
    else if c = '"' ∨ c = '\\' ∨ c = '/' then some (c, s)
    else if c = 'b' then some ('\x08', s)
    else if c = 'f' then some ('\x0C', s)
    else if c = 'n' then some ('\n', s)
    else if c = 'r' then some ('\r', s)
    else if c = 't' then some ('\t', s)
    else none

def isControl (c : Char) : Bool := c.toNat < 0x20

/-- The characters of a string up to its closing quotation mark, and what is behind it. -/
def readStringLoop : ℕ → Text → Option (Text × Text)
  | 0, _ | _ + 1, [] => none
  | n + 1, c :: s =>
    if c = '"' then some ([], s)
    else if c = '\\' then
      match readEscape s with
      | some (d, s) => (readStringLoop n s).map fun p => (d :: p.1, p.2)
      | none => none
    else if isControl c then none
    else (readStringLoop n s).map fun p => (c :: p.1, p.2)

/-- Every character of a string takes one of the text. -/
def readString (s : Text) : Option (Text × Text) := readStringLoop s.length s

def isNumberChar (c : Char) : Bool := c.isDigit || c = '-' || c = '+' || c = '.' || c = 'e' || c = 'E'

def isExponent : Text → Bool
  | [] => true
  | c :: s =>
    let digits := match s with
      | [] => []
      | d :: t => if d = '+' ∨ d = '-' then t else s
    (c = 'e' || c = 'E') && !digits.isEmpty && digits.all Char.isDigit

def isFraction : Text → Bool
  | [] => true
  | c :: s =>
    if c = '.' then !(s.takeWhile Char.isDigit).isEmpty && isExponent (s.dropWhile Char.isDigit)
    else isExponent (c :: s)

def isUnsigned (s : Text) : Bool :=
  let int := s.takeWhile Char.isDigit
  (int = ['0'] || !int.isEmpty && int.head? != some '0') && isFraction (s.dropWhile Char.isDigit)

def isNumber : Text → Bool
  | [] => false
  | c :: s => (c :: s).all isNumberChar && if c = '-' then isUnsigned s else isUnsigned (c :: s)

/-- A number as it is written. -/
structure Number where
  text : Text
  ok : isNumber text

/-- The members of an object are in their order. -/
inductive Value where
  | null
  | bool (b : Bool)
  | num (n : Number)
  | str (s : Text)
  | arr (es : List Value)
  | obj (ms : List (Text × Value))

def readScalar (s : Text) : Option (Value × Text) :=
  if "null".toList <+: s then some (.null, s.drop 4)
  else if "true".toList <+: s then some (.bool true, s.drop 4)
  else if "false".toList <+: s then some (.bool false, s.drop 5)
  else if h : isNumber (s.takeWhile isNumberChar) then
    some (.num ⟨s.takeWhile isNumberChar, h⟩, s.dropWhile isNumberChar)
  else none

/-- The name of a member up to its value. -/
def readName (s : Text) : Option (Text × Text) :=
  if s.head? = some '"' then
    (readString s.tail).bind fun p =>
      if (skip p.2).head? = some ':' then some (p.1, skip (skip p.2).tail) else none
  else none

/-- Behind an item: a comma and more of them, or the end. -/
def readMore {α : Type} (close : Char) (more : Text → Option (List α × Text)) (s : Text) :
    Option (List α × Text) :=
  if (skip s).head? = some ',' then more (skip (skip s).tail)
  else if (skip s).head? = some close then some ([], (skip s).tail)
  else none

mutual

def readValue : ℕ → Text → Option (Value × Text)
  | 0, _ | _ + 1, [] => none
  | n + 1, c :: s =>
    if c = '"' then (readString s).map fun p => (.str p.1, p.2)
    else if c = '[' then
      if (skip s).head? = some ']' then some (.arr [], (skip s).tail)
      else (readElements n (skip s)).map fun p => (.arr p.1, p.2)
    else if c = '\x7b' then
      if (skip s).head? = some '\x7d' then some (.obj [], (skip s).tail)
      else (readMembers n (skip s)).map fun p => (.obj p.1, p.2)
    else readScalar (c :: s)

def readElements : ℕ → Text → Option (List Value × Text)
  | 0, _ => none
  | n + 1, s =>
    (readValue n s).bind fun v =>
      (readMore ']' (readElements n) v.2).map fun p => (v.1 :: p.1, p.2)

def readMembers : ℕ → Text → Option (List (Text × Value) × Text)
  | 0, _ => none
  | n + 1, s =>
    (readName s).bind fun k => (readValue n k.2).bind fun v =>
      (readMore '\x7d' (readMembers n) v.2).map fun p => ((k.1, v.1) :: p.1, p.2)

end

/-- The value of a text that is nothing else; no value is deeper than its text is long. -/
def parse (s : Text) : Option Value :=
  match readValue s.length (skip s) with
  | none => none
  | some (v, s) => if skip s = [] then some v else none

end Grammar

section Rendering

def quoted (s : Text) : Text := '"' :: (s ++ ['"'])

mutual

def render : Value → Text
  | .null => "null".toList
  | .bool true => "true".toList
  | .bool false => "false".toList
  | .num n => n.text
  | .str s => quoted s
  | .arr [] => "[]".toList
  | .arr (e :: es) => '[' :: (render e ++ renderElements es)
  | .obj [] => ['\x7b', '\x7d']
  | .obj ((k, v) :: ms) => '\x7b' :: (quoted k ++ ':' :: (render v ++ renderMembers ms))

/-- The elements behind the first. -/
def renderElements : List Value → Text
  | [] => [']']
  | e :: es => ',' :: (render e ++ renderElements es)

def renderMembers : List (Text × Value) → Text
  | [] => ['\x7d']
  | (k, v) :: ms => ',' :: (quoted k ++ ':' :: (render v ++ renderMembers ms))

end

/-- The text stands for itself between quotation marks. -/
def Verbatim (s : Text) : Prop := ∀ c ∈ s, c ≠ '"' ∧ c ≠ '\\' ∧ isControl c = false

instance : DecidablePred Verbatim :=
  List.decidableBAll fun (c : Char) => c ≠ '"' ∧ c ≠ '\\' ∧ isControl c = false

mutual

def Value.Verbatim : Value → Prop
  | .null | .bool _ | .num _ => True
  | .str s => Json.Verbatim s
  | .arr es => ElementsVerbatim es
  | .obj ms => MembersVerbatim ms

def ElementsVerbatim : List Value → Prop
  | [] => True
  | e :: es => e.Verbatim ∧ ElementsVerbatim es

def MembersVerbatim : List (Text × Value) → Prop
  | [] => True
  | (k, v) :: ms => Json.Verbatim k ∧ v.Verbatim ∧ MembersVerbatim ms

end

end Rendering

section Strings

variable {s t u v r rest : Text} {c d : Char} {n : ℕ}

theorem readHex_shape (h : readHex s = some (n, r)) : ∃ p, s = p ++ r ∧ '"' ∉ p := by
  have hquote : hexValue '"' = none := by decide
  match s, h with
  | a :: b :: c :: d :: s, h =>
    simp only [readHex, Option.bind_eq_bind, Option.bind_eq_some_iff, Option.some.injEq,
      Prod.mk.injEq] at h
    obtain ⟨_, ha, _, hb, _, hc, _, hd, -, rfl⟩ := h
    refine ⟨[a, b, c, d], rfl, ?_⟩
    intro hmem
    simp only [List.mem_cons, List.not_mem_nil, or_false] at hmem
    rcases hmem with rfl | rfl | rfl | rfl <;> simp_all

theorem readUnicode_shape (h : readUnicode s = some (d, r)) : ∃ p, s = p ++ r ∧ '"' ∉ p := by
  simp only [readUnicode, Option.bind_eq_bind, Option.bind_eq_some_iff] at h
  obtain ⟨⟨n, s'⟩, hhex, h⟩ := h
  obtain ⟨p, rfl, hp⟩ := readHex_shape hhex
  dsimp only at h
  split_ifs at h
  · split at h
    · rename_i a b s''
      simp only [Option.bind_eq_some_iff] at h
      obtain ⟨⟨m, s₃⟩, hlow, h⟩ := h
      obtain ⟨q, rfl, hq⟩ := readHex_shape hlow
      split_ifs at h with hpair
      rw [Option.some.injEq, Prod.mk.injEq] at h
      obtain ⟨-, rfl⟩ := h
      refine ⟨p ++ a :: b :: q, by simp, ?_⟩
      rw [hpair.1, hpair.2.1]
      simpa [hp] using hq
    · cases h
  · cases h
    exact ⟨p, rfl, hp⟩

/-- An escape takes characters, and a quotation mark only if it stands for one. -/
theorem readEscape_shape (h : readEscape s = some (d, r)) :
    ∃ p, s = p ++ r ∧ p ≠ [] ∧ ('"' ∈ p → p = ['"'] ∧ d = '"') := by
  cases s with
  | nil => cases h
  | cons c s =>
    rw [readEscape] at h
    by_cases hu : c = 'u'
    · rw [if_pos hu] at h
      obtain ⟨p, rfl, hp⟩ := readUnicode_shape h
      refine ⟨c :: p, rfl, List.cons_ne_nil _ _, fun hmem => ?_⟩
      rcases List.mem_cons.mp hmem with hc | hc
      · rw [hu] at hc
        exact absurd hc (by decide)
      · exact absurd hc hp
    · rw [if_neg hu] at h
      refine ⟨[c], ?_, List.cons_ne_nil _ _, fun hmem => ?_⟩
      · split_ifs at h <;> cases h <;> rfl
      · have hc := List.mem_singleton.mp hmem
        subst hc
        cases h
        exact ⟨rfl, rfl⟩

theorem verbatim_cons : Verbatim (c :: s) ↔
    (c ≠ '"' ∧ c ≠ '\\' ∧ isControl c = false) ∧ Verbatim s := List.forall_mem_cons

theorem readStringLoop_verbatim (h : Verbatim s) (hn : s.length < n) :
    readStringLoop n (s ++ '"' :: rest) = some (s, rest) := by
  induction s generalizing n with
  | nil =>
    cases n with
    | zero => exact absurd hn (Nat.not_lt_zero _)
    | succ n => rfl
  | cons c s ih =>
    obtain ⟨⟨hquote, hback, hcontrol⟩, hs⟩ := verbatim_cons.mp h
    cases n with
    | zero => exact absurd hn (Nat.not_lt_zero _)
    | succ n =>
      rw [List.cons_append, readStringLoop, if_neg hquote, if_neg hback, hcontrol,
        if_neg Bool.false_ne_true, ih hs (Nat.lt_of_succ_lt_succ hn)]
      rfl

theorem readString_verbatim (h : Verbatim s) (rest : Text) :
    readString (s ++ '"' :: rest) = some (s, rest) := by
  apply readStringLoop_verbatim h
  rw [List.length_append, List.length_cons]
  omega

/-- In front of the first quotation mark each character of the value takes one of the text or more;
where an escape takes the quotation mark, it stands too early in the value. -/
theorem readStringLoop_before_quote (hu : '"' ∉ u)
    (h : readStringLoop n (u ++ '"' :: rest) = some (t, r)) :
    (t.length ≤ u.length ∧ (t.length = u.length → t = u ∧ Verbatim u ∧ r = rest)) ∨
      ∃ t₁ t₂, t = t₁ ++ '"' :: t₂ ∧ t₁.length < u.length := by
  induction n generalizing u t with
  | zero => cases h
  | succ n ih =>
    cases u with
    | nil =>
      cases h
      exact Or.inl ⟨Nat.le_refl _, fun _ => ⟨rfl, fun c hc => absurd hc List.not_mem_nil, rfl⟩⟩
    | cons c u =>
      have hc : c ≠ '"' := fun hc => hu (hc ▸ List.mem_cons_self)
      have hu' : '"' ∉ u := fun hmem => hu (List.mem_cons_of_mem _ hmem)
      rw [List.cons_append, readStringLoop, if_neg hc] at h
      by_cases hback : c = '\\'
      · rw [if_pos hback] at h
        cases hesc : readEscape (u ++ '"' :: rest) with
        | none =>
          rw [hesc] at h
          cases h
        | some dr =>
          obtain ⟨d, s⟩ := dr
          obtain ⟨p, hp, hne, hquote⟩ := readEscape_shape hesc
          rw [hesc] at h
          obtain ⟨⟨t', r'⟩, hloop, heq⟩ := Option.map_eq_some_iff.mp h
          cases heq
          by_cases hmem : '"' ∈ p
          · refine Or.inr ⟨[], t', ?_, Nat.succ_pos _⟩
            rw [(hquote hmem).2, List.nil_append]
          · -- what the escape takes ends in front of the quotation mark
            obtain ⟨u', hu₁, hu₂⟩ : ∃ u', u = p ++ u' ∧ s = u' ++ '"' :: rest := by
              rcases List.append_eq_append_iff.mp hp with ⟨q, hq, hs⟩ | ⟨q, hq, hs⟩
              · cases q with
                | nil => exact ⟨[], by simpa using hq.symm, by simpa using hs.symm⟩
                | cons e q =>
                  rw [List.cons_append] at hs
                  injection hs with he
                  refine absurd ?_ hmem
                  rw [hq, he]
                  exact List.mem_append_right _ List.mem_cons_self
              · exact ⟨q, hq, hs⟩
            rw [hu₂] at hloop
            have hpos := List.length_pos_iff.mpr hne
            have hlen : u.length = p.length + u'.length := by rw [hu₁, List.length_append]
            rcases ih (fun hm => hu' (hu₁ ▸ List.mem_append_right _ hm)) hloop with
              ⟨hle, -⟩ | ⟨t₁, t₂, rfl, hlt⟩
            · left
              simp only [List.length_cons]
              exact ⟨by omega, fun hcontra => by omega⟩
            · refine Or.inr ⟨d :: t₁, t₂, rfl, ?_⟩
              simp only [List.length_cons]
              omega
      · rw [if_neg hback] at h
        split_ifs at h with hcontrol
        obtain ⟨⟨t', r'⟩, hloop, heq⟩ := Option.map_eq_some_iff.mp h
        cases heq
        rcases ih hu' hloop with ⟨hle, heq⟩ | ⟨t₁, t₂, rfl, hlt⟩
        · refine Or.inl ⟨Nat.succ_le_succ hle, fun hlen => ?_⟩
          obtain ⟨rfl, hverb, hr⟩ := heq (Nat.succ.inj hlen)
          exact ⟨rfl, verbatim_cons.mpr ⟨⟨hc, hback, Bool.eq_false_iff.mpr hcontrol⟩, hverb⟩, hr⟩
        · exact Or.inr ⟨c :: t₁, t₂, rfl, Nat.succ_lt_succ hlt⟩

/-- A string that is read as itself needs no escape. -/
theorem verbatim_of_readString (h : readString (v ++ '"' :: rest) = some (v, r)) :
    Verbatim v ∧ r = rest := by
  by_cases hquote : '"' ∈ v
  · obtain ⟨u, v', rfl, hu⟩ := List.eq_append_cons_of_mem hquote
    rw [readString, List.append_assoc, List.cons_append] at h
    rcases readStringLoop_before_quote hu h with ⟨hle, -⟩ | ⟨t₁, t₂, heq, hlt⟩
    · rw [List.length_append, List.length_cons] at hle
      omega
    · -- the value has a quotation mark in front of its first
      refine absurd ?_ hu
      have hget : u[t₁.length] = '"' := by
        have hleft := congrArg (fun l : Text => l[t₁.length]?) heq
        simp only [List.getElem?_append_left hlt, List.getElem?_append_right (Nat.le_refl _),
          Nat.sub_self, List.getElem?_cons_zero] at hleft
        exact (List.getElem?_eq_some_iff.mp hleft).2
      exact hget ▸ List.getElem_mem hlt
  · rcases readStringLoop_before_quote hquote h with ⟨-, heq⟩ | ⟨t₁, t₂, rfl, -⟩
    · exact (heq rfl).2
    · exact absurd (List.mem_append_right _ List.mem_cons_self) hquote

end Strings

section Values

variable {s r rest k : Text} {c : Char} {n : ℕ} {v : Value} {es : List Value}
  {ms : List (Text × Value)}

theorem skip_cons (h : isBlank c = false) : skip (c :: s) = c :: s :=
  List.dropWhile_cons_of_neg (by rw [h]; exact Bool.false_ne_true)

theorem head_tail (h : s.head? = some c) : s = c :: s.tail := by
  cases s with
  | nil => cases h
  | cons d s =>
    cases h
    rfl

theorem readMore_iff {α : Type} {close : Char} {more : Text → Option (List α × Text)} {xs : List α}
    (hclose : close ≠ ',') : readMore close more s = some (xs, r) ↔
      (xs = [] ∧ skip s = close :: r) ∨
        ∃ s', skip s = ',' :: s' ∧ more (skip s') = some (xs, r) := by
  rw [readMore]
  constructor
  · intro h
    split_ifs at h with hcomma hend
    · exact Or.inr ⟨_, head_tail hcomma, h⟩
    · cases h
      exact Or.inl ⟨rfl, head_tail hend⟩
  · rintro (⟨rfl, hend⟩ | ⟨s', hcomma, hmore⟩)
    · rw [hend, List.head?_cons, if_neg (by simpa using hclose), if_pos rfl, List.tail_cons]
    · rw [hcomma, List.head?_cons, if_pos rfl, List.tail_cons, hmore]

theorem readName_iff : readName s = some (k, r) ↔
    ∃ s₁ s₂ s₃, s = '"' :: s₁ ∧ readString s₁ = some (k, s₂) ∧ skip s₂ = ':' :: s₃ ∧ skip s₃ = r := by
  rw [readName]
  constructor
  · intro h
    split_ifs at h with hquote
    obtain ⟨⟨k', s₂⟩, hk, h⟩ := Option.bind_eq_some_iff.mp h
    split_ifs at h with hcolon
    cases h
    exact ⟨_, s₂, _, head_tail hquote, hk, head_tail hcolon, rfl⟩
  · rintro ⟨s₁, s₂, s₃, rfl, hk, hcolon, rfl⟩
    rw [List.head?_cons, if_pos rfl, List.tail_cons, hk, Option.bind_some, hcolon, List.head?_cons,
      if_pos rfl, List.tail_cons]

theorem readElements_succ_iff : readElements (n + 1) s = some (v :: es, r) ↔
    ∃ s', readValue n s = some (v, s') ∧ readMore ']' (readElements n) s' = some (es, r) := by
  rw [readElements]
  constructor
  · intro h
    obtain ⟨⟨w, s'⟩, hv, h⟩ := Option.bind_eq_some_iff.mp h
    obtain ⟨⟨es', r'⟩, hes, heq⟩ := Option.map_eq_some_iff.mp h
    cases heq
    exact ⟨s', hv, hes⟩
  · rintro ⟨s', hv, hes⟩
    rw [hv, Option.bind_some, hes]
    rfl

theorem readMembers_succ_iff : readMembers (n + 1) s = some ((k, v) :: ms, r) ↔
    ∃ s₁ s₂, readName s = some (k, s₁) ∧ readValue n s₁ = some (v, s₂) ∧
      readMore '\x7d' (readMembers n) s₂ = some (ms, r) := by
  rw [readMembers]
  constructor
  · intro h
    obtain ⟨⟨l, s₁⟩, hk, h⟩ := Option.bind_eq_some_iff.mp h
    obtain ⟨⟨w, s₂⟩, hv, h⟩ := Option.bind_eq_some_iff.mp h
    obtain ⟨⟨ms', r'⟩, hms, heq⟩ := Option.map_eq_some_iff.mp h
    cases heq
    exact ⟨s₁, s₂, hk, hv, hms⟩
  · rintro ⟨s₁, s₂, hk, hv, hms⟩
    rw [hk, Option.bind_some, hv, Option.bind_some, hms]
    rfl

theorem number_head (n : Number) : ∃ c s, n.text = c :: s ∧ (c.isDigit = true ∨ c = '-') := by
  obtain ⟨s, hs⟩ := n
  cases s with
  | nil => cases hs
  | cons c s =>
    refine ⟨c, s, rfl, ?_⟩
    by_cases hminus : c = '-'
    · exact Or.inr hminus
    · left
      rw [isNumber, if_neg hminus, Bool.and_eq_true] at hs
      by_contra hdigit
      have hint : (c :: s).takeWhile Char.isDigit = [] := List.takeWhile_cons_of_neg hdigit
      have hunsigned := hs.2
      rw [isUnsigned, hint] at hunsigned
      cases hunsigned

theorem numberChars (n : Number) : ∀ c ∈ n.text, isNumberChar c = true := by
  obtain ⟨s, hs⟩ := n
  cases s with
  | nil => cases hs
  | cons c s =>
    rw [isNumber, Bool.and_eq_true] at hs
    exact List.all_eq_true.mp hs.1

/-- What the reader looks at to tell the kinds of values apart. -/
theorem render_head (v : Value) : ∃ c s, render v = c :: s ∧ isBlank c = false ∧ c ≠ ']' := by
  match v with
  | .null => exact ⟨'n', _, rfl, rfl, by decide⟩
  | .bool true => exact ⟨'t', _, rfl, rfl, by decide⟩
  | .bool false => exact ⟨'f', _, rfl, rfl, by decide⟩
  | .str s => exact ⟨'"', _, rfl, rfl, by decide⟩
  | .arr [] => exact ⟨'[', _, rfl, rfl, by decide⟩
  | .arr (e :: es) => exact ⟨'[', _, rfl, rfl, by decide⟩
  | .obj [] => exact ⟨'\x7b', _, rfl, rfl, by decide⟩
  | .obj ((k, v) :: ms) => exact ⟨'\x7b', _, rfl, rfl, by decide⟩
  | .num n =>
    obtain ⟨c, s, hs, hc⟩ := number_head n
    refine ⟨c, s, hs, ?_, ?_⟩
    · by_contra hblank
      rw [Bool.not_eq_false, isBlank] at hblank
      simp only [Bool.or_eq_true, decide_eq_true_eq] at hblank
      rcases hblank with ((rfl | rfl) | rfl) | rfl <;> revert hc <;> decide
    · rintro rfl
      revert hc
      decide

theorem skip_render (v : Value) (s : Text) : skip (render v ++ s) = render v ++ s := by
  obtain ⟨c, t, hv, hblank, -⟩ := render_head v
  rw [hv, List.cons_append, skip_cons hblank]

theorem head_render_ne (v : Value) (s : Text) : (render v ++ s).head? ≠ some ']' := by
  obtain ⟨c, t, hv, -, hc⟩ := render_head v
  rw [hv, List.cons_append, List.head?_cons]
  exact fun h => hc (Option.some.inj h)

/-- No number goes on there. -/
def Ends (rest : Text) : Prop := ∀ c, rest.head? = some c → isNumberChar c = false

theorem ends_cons (h : isNumberChar c = false) : Ends (c :: s) := by
  intro d hd
  cases hd
  exact h

theorem readValue_num (m : Number) (rest : Text) :
    readValue (n + 1) (m.text ++ rest) = readScalar (m.text ++ rest) ∧
      readScalar (m.text ++ rest) =
        if h : isNumber ((m.text ++ rest).takeWhile isNumberChar) then
          some (.num ⟨_, h⟩, (m.text ++ rest).dropWhile isNumberChar)
        else none := by
  obtain ⟨c, s, hs, hc⟩ := number_head m
  have hne : ∀ d ∈ ['"', '[', '\x7b', 'n', 't', 'f'], c ≠ d := by
    have hnot : ['"', '[', '\x7b', 'n', 't', 'f'].all (fun d => !(d.isDigit || d = '-')) = true := rfl
    rintro d hd rfl
    have hd' := List.all_eq_true.mp hnot c hd
    rcases hc with hc | hc <;> simp [hc] at hd'
  have hfront : ∀ (d : Char) (t : Text), d ∈ ['n', 't', 'f'] → ¬ d :: t <+: c :: (s ++ rest) := by
    intro d t hd hpre
    rw [List.cons_prefix_cons] at hpre
    exact hne d (List.mem_append_right ['"', '[', '\x7b'] hd) hpre.1.symm
  rw [hs, List.cons_append]
  constructor
  · rw [readValue, if_neg (hne _ (by decide)), if_neg (hne _ (by decide)),
      if_neg (hne _ (by decide))]
  · have hnull : ¬ "null".toList <+: c :: (s ++ rest) := hfront 'n' _ (by decide)
    have htrue : ¬ "true".toList <+: c :: (s ++ rest) := hfront 't' _ (by decide)
    have hfalse : ¬ "false".toList <+: c :: (s ++ rest) := hfront 'f' _ (by decide)
    rw [readScalar, if_neg hnull, if_neg htrue, if_neg hfalse]

theorem length_render_pos (v : Value) : 0 < (render v).length := by
  obtain ⟨c, s, hv, -, -⟩ := render_head v
  rw [hv]
  exact Nat.succ_pos _

theorem length_renderElements_pos (es : List Value) : 0 < (renderElements es).length := by
  cases es with
  | nil => exact Nat.succ_pos _
  | cons e es => exact Nat.succ_pos _

theorem length_renderMembers_pos (ms : List (Text × Value)) : 0 < (renderMembers ms).length := by
  cases ms with
  | nil => exact Nat.succ_pos _
  | cons m ms => exact Nat.succ_pos _

theorem ends_renderElements (es : List Value) (rest : Text) : Ends (renderElements es ++ rest) := by
  cases es with
  | nil => exact ends_cons rfl
  | cons e es => exact ends_cons rfl

theorem ends_renderMembers (ms : List (Text × Value)) (rest : Text) :
    Ends (renderMembers ms ++ rest) := by
  cases ms with
  | nil => exact ends_cons rfl
  | cons m ms => exact ends_cons rfl

theorem readName_render (k : Text) (v : Value) (s r : Text) :
    readName (quoted k ++ ':' :: (render v ++ s)) = some (k, r) ↔
      Verbatim k ∧ r = render v ++ s := by
  have hquoted : quoted k ++ ':' :: (render v ++ s) = '"' :: (k ++ '"' :: ':' :: (render v ++ s)) := by
    rw [quoted, List.cons_append, List.append_assoc, List.singleton_append]
  have hcolon : skip (':' :: (render v ++ s)) = ':' :: (render v ++ s) := skip_cons rfl
  rw [hquoted, readName_iff]
  constructor
  · rintro ⟨s₁, s₂, s₃, hs, hk, hc, rfl⟩
    cases hs
    obtain ⟨hverb, rfl⟩ := verbatim_of_readString hk
    rw [hcolon] at hc
    cases hc
    exact ⟨hverb, skip_render v s⟩
  · rintro ⟨hverb, rfl⟩
    exact ⟨_, _, _, rfl, readString_verbatim hverb _, hcolon, skip_render v s⟩

mutual

/-- What needs no escape is read back. -/
theorem readValue_render : ∀ (v : Value) (n : ℕ) (rest : Text), v.Verbatim →
    (render v).length ≤ n → Ends rest → readValue n (render v ++ rest) = some (v, rest)
  | v, 0, rest, _, hn, _ => by
    obtain ⟨c, t, hv, -, -⟩ := render_head v
    rw [hv] at hn
    exact absurd hn (Nat.not_succ_le_zero _)
  | .null, n + 1, rest, _, _, _ => rfl
  | .bool true, n + 1, rest, _, _, _ => rfl
  | .bool false, n + 1, rest, _, _, _ => rfl
  | .num m, n + 1, rest, _, _, hrest => by
    have htake : (m.text ++ rest).takeWhile isNumberChar = m.text := by
      rw [List.takeWhile_append_of_pos (numberChars m)]
      cases rest with
      | nil => exact List.append_nil _
      | cons c rest =>
        rw [List.takeWhile_cons_of_neg (by rw [hrest c rfl]; exact Bool.false_ne_true),
          List.append_nil]
    have hdrop : (m.text ++ rest).dropWhile isNumberChar = rest := by
      rw [List.dropWhile_append_of_pos (numberChars m)]
      cases rest with
      | nil => rfl
      | cons c rest =>
        exact List.dropWhile_cons_of_neg (by rw [hrest c rfl]; exact Bool.false_ne_true)
    obtain ⟨hvalue, hscalar⟩ := readValue_num (n := n) m rest
    rw [render, hvalue, hscalar]
    simp only [htake, hdrop, m.ok, dif_pos]
  | .str s, n + 1, rest, h, _, _ => by
    rw [render, quoted, List.cons_append, List.append_assoc, readValue, if_pos rfl]
    rw [List.singleton_append, readString_verbatim h]
    rfl
  | .arr [], n + 1, rest, _, _, _ => rfl
  | .arr (e :: es), n + 1, rest, h, hn, _ => by
    have hrender : render (.arr (e :: es)) = '[' :: (render e ++ renderElements es) := rfl
    have he := length_render_pos e
    have hes := length_renderElements_pos es
    rw [hrender] at hn ⊢
    rw [List.length_cons, List.length_append] at hn
    obtain ⟨m, rfl⟩ : ∃ m, n = m + 1 := ⟨n - 1, by omega⟩
    have hread := readElements_succ_iff.mpr ⟨_,
      readValue_render e m (renderElements es ++ rest) h.1 (by omega) (ends_renderElements es rest),
      readMore_elements es m rest h.2 (by omega)⟩
    rw [List.cons_append, List.append_assoc, readValue, if_neg (by decide), if_pos rfl,
      skip_render, if_neg (head_render_ne e _), hread]
    rfl
  | .obj [], n + 1, rest, _, _, _ => rfl
  | .obj ((k, v) :: ms), n + 1, rest, h, hn, _ => by
    have hrender : render (.obj ((k, v) :: ms)) =
        '\x7b' :: (quoted k ++ ':' :: (render v ++ renderMembers ms)) := rfl
    have hv := length_render_pos v
    have hms := length_renderMembers_pos ms
    rw [hrender] at hn ⊢
    rw [List.length_cons, List.length_append, List.length_cons, List.length_append] at hn
    obtain ⟨m, rfl⟩ : ∃ m, n = m + 1 := ⟨n - 1, by omega⟩
    have hread := readMembers_succ_iff.mpr ⟨_, _, (readName_render k v _ _).mpr ⟨h.1, rfl⟩,
      readValue_render v m (renderMembers ms ++ rest) h.2.1 (by omega) (ends_renderMembers ms rest),
      readMore_members ms m rest h.2.2 (by omega)⟩
    have hskip : ∀ s, skip (quoted k ++ s) = quoted k ++ s := fun s => skip_cons rfl
    have hhead : ∀ s, (quoted k ++ s).head? ≠ some '\x7d' := fun s hs => by cases hs
    rw [List.cons_append, List.append_assoc, List.cons_append, List.append_assoc, readValue,
      if_neg (by decide), if_neg (by decide), if_pos rfl, hskip, if_neg (hhead _), hread]
    rfl

theorem readMore_elements : ∀ (es : List Value) (n : ℕ) (rest : Text), ElementsVerbatim es →
    (renderElements es).length ≤ n →
      readMore ']' (readElements n) (renderElements es ++ rest) = some (es, rest)
  | [], _, _, _, _ => (readMore_iff (by decide)).mpr (Or.inl ⟨rfl, skip_cons rfl⟩)
  | e :: es, n, rest, h, hn => by
    have hrender : renderElements (e :: es) = ',' :: (render e ++ renderElements es) := rfl
    have he := length_render_pos e
    have hes := length_renderElements_pos es
    rw [hrender] at hn ⊢
    rw [List.length_cons, List.length_append] at hn
    obtain ⟨m, rfl⟩ : ∃ m, n = m + 1 := ⟨n - 1, by omega⟩
    have hread := readElements_succ_iff.mpr ⟨_,
      readValue_render e m (renderElements es ++ rest) h.1 (by omega) (ends_renderElements es rest),
      readMore_elements es m rest h.2 (by omega)⟩
    rw [List.cons_append, List.append_assoc]
    exact (readMore_iff (by decide)).mpr (Or.inr ⟨_, skip_cons rfl, by rw [skip_render, hread]⟩)

theorem readMore_members : ∀ (ms : List (Text × Value)) (n : ℕ) (rest : Text),
    MembersVerbatim ms → (renderMembers ms).length ≤ n →
      readMore '\x7d' (readMembers n) (renderMembers ms ++ rest) = some (ms, rest)
  | [], _, _, _, _ => (readMore_iff (by decide)).mpr (Or.inl ⟨rfl, skip_cons rfl⟩)
  | (k, v) :: ms, n, rest, h, hn => by
    have hrender : renderMembers ((k, v) :: ms) =
        ',' :: (quoted k ++ ':' :: (render v ++ renderMembers ms)) := rfl
    have hv := length_render_pos v
    have hms := length_renderMembers_pos ms
    rw [hrender] at hn ⊢
    rw [List.length_cons, List.length_append, List.length_cons, List.length_append] at hn
    obtain ⟨m, rfl⟩ : ∃ m, n = m + 1 := ⟨n - 1, by omega⟩
    have hread := readMembers_succ_iff.mpr ⟨_, _, (readName_render k v _ _).mpr ⟨h.1, rfl⟩,
      readValue_render v m (renderMembers ms ++ rest) h.2.1 (by omega) (ends_renderMembers ms rest),
      readMore_members ms m rest h.2.2 (by omega)⟩
    have hskip : ∀ s, skip (quoted k ++ s) = quoted k ++ s := fun s => skip_cons rfl
    rw [List.cons_append, List.append_assoc, List.cons_append, List.append_assoc]
    exact (readMore_iff (by decide)).mpr (Or.inr ⟨_, skip_cons rfl, by rw [hskip, hread]⟩)

end

mutual

/-- A value that is read as itself needs no escape, and nothing more is taken. -/
theorem verbatim_of_readValue : ∀ (v : Value) (n : ℕ) (rest r : Text),
    readValue n (render v ++ rest) = some (v, r) → v.Verbatim ∧ r = rest
  | v, 0, rest, r, h => by
    rw [readValue] at h
    cases h
  | .null, n + 1, rest, r, h => by
    cases h
    exact ⟨trivial, rfl⟩
  | .bool true, n + 1, rest, r, h => by
    cases h
    exact ⟨trivial, rfl⟩
  | .bool false, n + 1, rest, r, h => by
    cases h
    exact ⟨trivial, rfl⟩
  | .num m, n + 1, rest, r, h => by
    obtain ⟨hvalue, hscalar⟩ := readValue_num (n := n) m rest
    rw [render, hvalue, hscalar] at h
    split_ifs at h
    injection h with h
    injection h with hnum hrest
    injection hnum with hnum
    have htake : (m.text ++ rest).takeWhile isNumberChar = m.text := congrArg Number.text hnum
    have hsplit := List.takeWhile_append_dropWhile (p := isNumberChar) (l := m.text ++ rest)
    rw [htake, hrest] at hsplit
    exact ⟨trivial, List.append_cancel_left hsplit⟩
  | .str s, n + 1, rest, r, h => by
    rw [render, quoted, List.cons_append, List.append_assoc, readValue, if_pos rfl,
      List.singleton_append] at h
    obtain ⟨⟨t, r'⟩, hread, heq⟩ := Option.map_eq_some_iff.mp h
    cases heq
    exact verbatim_of_readString hread
  | .arr [], n + 1, rest, r, h => by
    cases h
    exact ⟨trivial, rfl⟩
  | .arr (e :: es), n + 1, rest, r, h => by
    have hrender : render (.arr (e :: es)) = '[' :: (render e ++ renderElements es) := rfl
    rw [hrender, List.cons_append, List.append_assoc, readValue, if_neg (by decide), if_pos rfl,
      skip_render, if_neg (head_render_ne e _)] at h
    obtain ⟨⟨es', r'⟩, hread, heq⟩ := Option.map_eq_some_iff.mp h
    cases heq
    cases n with
    | zero => cases hread
    | succ n =>
      obtain ⟨s', he, hes⟩ := readElements_succ_iff.mp hread
      obtain ⟨hverb, rfl⟩ := verbatim_of_readValue e n _ _ he
      obtain ⟨hverbs, hr⟩ := verbatim_of_readMore_elements es n _ _ hes
      exact ⟨⟨hverb, hverbs⟩, hr⟩
  | .obj [], n + 1, rest, r, h => by
    cases h
    exact ⟨trivial, rfl⟩
  | .obj ((k, v) :: ms), n + 1, rest, r, h => by
    have hrender : render (.obj ((k, v) :: ms)) =
        '\x7b' :: (quoted k ++ ':' :: (render v ++ renderMembers ms)) := rfl
    have hskip : ∀ s, skip (quoted k ++ s) = quoted k ++ s := fun s => skip_cons rfl
    have hhead : ∀ s, (quoted k ++ s).head? ≠ some '\x7d' := fun s hs => by cases hs
    rw [hrender, List.cons_append, List.append_assoc, List.cons_append, List.append_assoc, readValue,
      if_neg (by decide), if_neg (by decide), if_pos rfl, hskip, if_neg (hhead _)] at h
    obtain ⟨⟨ms', r'⟩, hread, heq⟩ := Option.map_eq_some_iff.mp h
    cases heq
    cases n with
    | zero => cases hread
    | succ n =>
      obtain ⟨s₁, s₂, hk, hv, hms⟩ := readMembers_succ_iff.mp hread
      obtain ⟨hverbk, rfl⟩ := (readName_render k v _ _).mp hk
      obtain ⟨hverb, rfl⟩ := verbatim_of_readValue v n _ _ hv
      obtain ⟨hverbs, hr⟩ := verbatim_of_readMore_members ms n _ _ hms
      exact ⟨⟨hverbk, hverb, hverbs⟩, hr⟩

theorem verbatim_of_readMore_elements : ∀ (es : List Value) (n : ℕ) (rest r : Text),
    readMore ']' (readElements n) (renderElements es ++ rest) = some (es, r) →
      ElementsVerbatim es ∧ r = rest
  | [], n, rest, r, h => by
    have hskip : skip (renderElements [] ++ rest) = ']' :: rest := skip_cons rfl
    rcases (readMore_iff (by decide)).mp h with ⟨-, hend⟩ | ⟨s', hcomma, -⟩
    · rw [hskip] at hend
      cases hend
      exact ⟨trivial, rfl⟩
    · rw [hskip] at hcomma
      cases hcomma
  | e :: es, n, rest, r, h => by
    have hskip : skip (renderElements (e :: es) ++ rest) =
        ',' :: (render e ++ (renderElements es ++ rest)) := by
      rw [← List.append_assoc]
      exact skip_cons rfl
    rcases (readMore_iff (by decide)).mp h with ⟨hnil, -⟩ | ⟨s', hcomma, hread⟩
    · cases hnil
    · rw [hskip] at hcomma
      injection hcomma with _ hs'
      rw [← hs', skip_render] at hread
      cases n with
      | zero => cases hread
      | succ n =>
        obtain ⟨s', he, hes⟩ := readElements_succ_iff.mp hread
        obtain ⟨hverb, rfl⟩ := verbatim_of_readValue e n _ _ he
        obtain ⟨hverbs, hr⟩ := verbatim_of_readMore_elements es n _ _ hes
        exact ⟨⟨hverb, hverbs⟩, hr⟩

theorem verbatim_of_readMore_members : ∀ (ms : List (Text × Value)) (n : ℕ) (rest r : Text),
    readMore '\x7d' (readMembers n) (renderMembers ms ++ rest) = some (ms, r) →
      MembersVerbatim ms ∧ r = rest
  | [], n, rest, r, h => by
    have hskip : skip (renderMembers [] ++ rest) = '\x7d' :: rest := skip_cons rfl
    rcases (readMore_iff (by decide)).mp h with ⟨-, hend⟩ | ⟨s', hcomma, -⟩
    · rw [hskip] at hend
      cases hend
      exact ⟨trivial, rfl⟩
    · rw [hskip] at hcomma
      cases hcomma
  | (k, v) :: ms, n, rest, r, h => by
    have hskip : skip (renderMembers ((k, v) :: ms) ++ rest) =
        ',' :: (quoted k ++ ':' :: (render v ++ (renderMembers ms ++ rest))) := by
      have hcomma : skip (renderMembers ((k, v) :: ms) ++ rest) =
          ',' :: (quoted k ++ ':' :: (render v ++ renderMembers ms) ++ rest) := skip_cons rfl
      rw [hcomma, List.append_assoc, List.cons_append, List.append_assoc]
    have hname : ∀ s, skip (quoted k ++ s) = quoted k ++ s := fun s => skip_cons rfl
    rcases (readMore_iff (by decide)).mp h with ⟨hnil, -⟩ | ⟨s', hcomma, hread⟩
    · cases hnil
    · rw [hskip] at hcomma
      injection hcomma with _ hs'
      rw [← hs', hname] at hread
      cases n with
      | zero => cases hread
      | succ n =>
        obtain ⟨s₁, s₂, hk, hv, hms⟩ := readMembers_succ_iff.mp hread
        obtain ⟨hverbk, rfl⟩ := (readName_render k v _ _).mp hk
        obtain ⟨hverb, rfl⟩ := verbatim_of_readValue v n _ _ hv
        obtain ⟨hverbs, hr⟩ := verbatim_of_readMore_members ms n _ _ hms
        exact ⟨⟨hverbk, hverb, hverbs⟩, hr⟩

end

theorem elementsVerbatim_iff : ElementsVerbatim es ↔ ∀ e ∈ es, e.Verbatim := by
  induction es with
  | nil => exact ⟨fun _ e he => absurd he List.not_mem_nil, fun _ => trivial⟩
  | cons e es ih => rw [ElementsVerbatim, ih, List.forall_mem_cons]

/-- A text laid out without escapes is read back exactly when it needs none. -/
theorem parse_render_iff (v : Value) : parse (render v) = some v ↔ v.Verbatim := by
  have hskip : skip (render v) = render v := by
    have h := skip_render v []
    rwa [List.append_nil] at h
  rw [parse, hskip]
  constructor
  · intro h
    cases hread : readValue (render v).length (render v) with
    | none =>
      rw [hread] at h
      cases h
    | some p =>
      obtain ⟨w, r⟩ := p
      rw [hread] at h
      dsimp only at h
      split_ifs at h
      cases h
      rw [← List.append_nil (render v)] at hread
      exact (verbatim_of_readValue v _ [] r (by simpa using hread)).1
  · intro h
    have hread := readValue_render v (render v).length [] h (Nat.le_refl _) fun c hc => by cases hc
    rw [List.append_nil] at hread
    rw [hread]
    rfl

end Values

section Numbers

theorem head_toDigits {n : ℕ} (h : 0 < n) : (Nat.toDigits 10 n).head? ≠ some '0' := by
  induction n using Nat.strongRecOn with
  | ind n ih =>
    by_cases hn : n < 10
    · rw [Nat.toDigits_of_lt_base hn]
      have hdigit : ∀ m < 10, 0 < m → [Nat.digitChar m].head? ≠ some '0' := by decide
      exact hdigit n hn h
    · have hdiv : 0 < n / 10 := by omega
      obtain ⟨c, s, hc⟩ := List.exists_cons_of_ne_nil (Nat.toDigits_ne_nil (n := n / 10) (b := 10))
      have hhead := ih (n / 10) (by omega) hdiv
      rw [Nat.toDigits_of_base_le (by decide) (by omega), hc, List.cons_append, List.head?_cons]
      rwa [hc, List.head?_cons] at hhead

theorem isNumber_toDigits (n : ℕ) : isNumber (Nat.toDigits 10 n) = true := by
  have hdigit : ∀ c ∈ Nat.toDigits 10 n, c.isDigit = true := fun c hc =>
    Nat.isDigit_of_mem_toDigits (by decide) (by decide) hc
  have htake : (Nat.toDigits 10 n).takeWhile Char.isDigit = Nat.toDigits 10 n :=
    List.takeWhile_eq_self_iff.mpr hdigit
  have hdrop : (Nat.toDigits 10 n).dropWhile Char.isDigit = [] :=
    List.dropWhile_eq_nil_iff.mpr hdigit
  have hunsigned : isUnsigned (Nat.toDigits 10 n) = true := by
    rw [isUnsigned, htake, hdrop]
    rcases Nat.eq_zero_or_pos n with rfl | hpos
    · rfl
    · have hhead := head_toDigits hpos
      obtain ⟨c, s, hc⟩ := List.exists_cons_of_ne_nil (Nat.toDigits_ne_nil (n := n) (b := 10))
      rw [hc] at hhead ⊢
      simpa [isFraction] using Or.inr hhead
  obtain ⟨c, s, hc⟩ := List.exists_cons_of_ne_nil (Nat.toDigits_ne_nil (n := n) (b := 10))
  have hall : (c :: s).all isNumberChar = true := by
    rw [List.all_eq_true]
    intro d hd
    rw [isNumberChar, hdigit d (hc ▸ hd)]
    rfl
  have hminus : c ≠ '-' := by
    rintro rfl
    exact absurd (hdigit '-' (hc ▸ List.mem_cons_self)) (by decide)
  rw [hc] at hunsigned ⊢
  rw [isNumber, hall, if_neg hminus, hunsigned]
  rfl

def Number.ofNat (n : ℕ) : Number := ⟨Nat.toDigits 10 n, isNumber_toDigits n⟩

@[simp] theorem Number.text_ofNat (n : ℕ) : (Number.ofNat n).text = Nat.toDigits 10 n := rfl

end Numbers

section Members

variable {s t r k k' : Text} {n : ℕ} {v w : Value} {b b' : Bool} {ms ms' : List (Text × Value)}

def member (m : Text × Value) : Text := quoted m.1 ++ ':' :: render m.2

/-- Items with commas between them. -/
def joined : List Text → Text
  | [] => []
  | t :: ts => t ++ ts.flatMap (',' :: ·)

theorem renderMembers_eq (ms : List (Text × Value)) :
    renderMembers ms = (ms.map member).flatMap (',' :: ·) ++ ['\x7d'] := by
  induction ms with
  | nil => rfl
  | cons m ms ih =>
    rw [renderMembers, ih, List.map_cons, List.flatMap_cons, member]
    simp

theorem render_obj (ms : List (Text × Value)) :
    render (.obj ms) = '\x7b' :: (joined (ms.map member) ++ ['\x7d']) := by
  cases ms with
  | nil => rfl
  | cons m ms =>
    rw [render, renderMembers_eq, List.map_cons, joined, member]
    simp

theorem readMembers_head
    (h : readMembers n (quoted k ++ ':' :: (render v ++ t)) = some ((k, w) :: ms, r)) :
    ∃ m s, readValue m (render v ++ t) = some (w, s) ∧
      readMore '\x7d' (readMembers m) s = some (ms, r) := by
  cases n with
  | zero => cases h
  | succ m =>
    obtain ⟨s₁, s₂, hname, hvalue, hmore⟩ := readMembers_succ_iff.mp h
    obtain ⟨-, rfl⟩ := (readName_render k v t s₁).mp hname
    exact ⟨m, s₂, hvalue, hmore⟩

theorem readValue_bool (h : readValue n (render (.bool b) ++ t) = some (.bool b', r)) : b' = b := by
  cases n with
  | zero => cases h
  | succ n =>
    cases b with
    | true =>
      cases h
      rfl
    | false =>
      cases h
      rfl

theorem skip_quoted (k u : Text) : skip (quoted k ++ u) = quoted k ++ u := skip_cons rfl

/-- The first member of an object is read where it stands. -/
theorem head_of_parse (h : parse (render (.obj ((k, v) :: ms))) = some (.obj ((k, w) :: ms'))) :
    ∃ m s r, readValue m (render v ++ renderMembers ms) = some (w, s) ∧
      readMore '\x7d' (readMembers m) s = some (ms', r) := by
  have hskip := skip_render (.obj ((k, v) :: ms)) []
  rw [List.append_nil] at hskip
  rw [parse, hskip] at h
  cases hread : readValue (render (.obj ((k, v) :: ms))).length (render (.obj ((k, v) :: ms))) with
  | none =>
    rw [hread] at h
    cases h
  | some p =>
    obtain ⟨w', r⟩ := p
    rw [hread] at h
    dsimp only at h
    split_ifs at h
    cases h
    obtain ⟨n, hn⟩ : ∃ n, (render (.obj ((k, v) :: ms))).length = n + 1 :=
      ⟨_, (Nat.succ_pred_eq_of_pos (length_render_pos _)).symm⟩
    have hhead : (quoted k ++ ':' :: (render v ++ renderMembers ms)).head? ≠ some '\x7d' :=
      fun hu => by cases hu
    rw [hn, render, readValue, if_neg (by decide), if_neg (by decide), if_pos rfl, skip_quoted,
      if_neg hhead] at hread
    obtain ⟨⟨ms'', r'⟩, hmembers, heq⟩ := Option.map_eq_some_iff.mp hread
    cases heq
    obtain ⟨m, s, hvalue, hmore⟩ := readMembers_head hmembers
    exact ⟨m, s, r', hvalue, hmore⟩

/-- A first member that is read as itself needs no escape. -/
theorem verbatim_of_parse_head (h : parse (render (.obj ((k, v) :: ms))) = some (.obj ((k, v) :: ms'))) :
    v.Verbatim := by
  obtain ⟨m, s, r, hvalue, -⟩ := head_of_parse h
  exact (verbatim_of_readValue v m _ _ hvalue).1

/-- What is read behind a string that is read as itself. -/
theorem bool_of_parse (h : parse (render (.obj ((k, .str s) :: (k', .bool b) :: ms))) =
    some (.obj ((k, .str s) :: (k', .bool b') :: ms'))) : b' = b := by
  obtain ⟨m, s', r, hvalue, hmore⟩ := head_of_parse h
  obtain ⟨-, rfl⟩ := verbatim_of_readValue (.str s) m _ _ hvalue
  rw [renderMembers] at hmore
  rcases (readMore_iff (by decide)).mp hmore with ⟨hnil, -⟩ | ⟨u, hu, hrest⟩
  · cases hnil
  · rw [skip_cons rfl] at hu
    cases hu
    rw [skip_quoted] at hrest
    obtain ⟨m', s'', hbool, -⟩ := readMembers_head hrest
    exact readValue_bool hbool

end Members

end AtNode.Json
