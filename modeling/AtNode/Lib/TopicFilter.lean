import Mathlib.Data.List.Basic

/-!
# Topic filters

A topic name is a path of levels, a topic filter a pattern of such paths: a level of the filter is a
name or `+`, which stands for any one level, and a `#` at its end stands for the level before it and
all that is below. A filter that begins with a wildcard does not match names that begin with `$`.

`Filter` holds the filters that are well formed; `parse` reads one from its text. The law about
subtrees says which filters reach below a level.
-/

namespace AtNode.TopicFilter

section Patterns

variable {α : Type*}

inductive Level (α : Type*) where
  | name (a : α)
  | any
  deriving DecidableEq

/-- The levels of a filter, and whether `#` ends it. -/
structure Filter (α : Type*) where
  levels : List (Level α)
  below : Bool
  deriving DecidableEq

def Filter.cons (l : Level α) (f : Filter α) : Filter α := ⟨l :: f.levels, f.below⟩

variable [DecidableEq α]

def Level.matches : Level α → α → Bool
  | .name a, b => a = b
  | .any, _ => true

def matchLevels (below : Bool) : List (Level α) → List α → Bool
  | [], [] => true
  | [], _ :: _ => below
  | _ :: _, [] => false
  | l :: ls, a :: as => l.matches a && matchLevels below ls as

def Filter.matches (f : Filter α) (topic : List α) : Bool := matchLevels f.below f.levels topic

def Level.fill (a : α) : Level α → α
  | .name b => b
  | .any => a

variable {below : Bool} {ls : List (Level α)} {a : α} {as : List α} {f : Filter α}

theorem Level.matches_fill (a : α) (l : Level α) : l.matches (l.fill a) = true := by
  cases l with
  | name b => exact decide_eq_true rfl
  | any => rfl

theorem matchLevels_fill (below : Bool) (a : α) (ls : List (Level α)) :
    matchLevels below ls (ls.map (Level.fill a)) = true := by
  induction ls with
  | nil => rfl
  | cons l ls ih =>
    rw [List.map_cons, matchLevels, Level.matches_fill, ih]
    rfl

/-- A filter reaches below a level if its first level matches it and more comes behind, or if it is
`#` alone. -/
def Filter.reaches (f : Filter α) (a : α) : Bool :=
  match f.levels with
  | [] => f.below
  | l :: ls => l.matches a && (!ls.isEmpty || f.below)

theorem reaches_of_matches {b : α} {bs : List α} (h : f.matches (a :: b :: bs) = true) :
    f.reaches a = true := by
  unfold Filter.matches at h
  unfold Filter.reaches
  cases hl : f.levels with
  | nil =>
    rw [hl] at h
    exact h
  | cons l ls =>
    rw [hl, matchLevels, Bool.and_eq_true] at h
    dsimp only
    rw [h.1, Bool.true_and]
    cases ls with
    | nil => exact h.2
    | cons l' ls => rfl

/-- A filter that reaches below a level matches a topic there, made of names of the filter and any
one name besides. -/
theorem matches_of_reaches (b : α) (h : f.reaches a = true) :
    ∃ c cs, f.matches (a :: c :: cs) = true ∧
      ∀ x ∈ c :: cs, x = b ∨ ∃ l ∈ f.levels, l = Level.name x := by
  have hfill : ∀ (ls : List (Level α)), ∀ x ∈ ls.map (Level.fill b),
      x = b ∨ ∃ l ∈ ls, l = Level.name x := by
    intro ls x hx
    obtain ⟨l, hl, rfl⟩ := List.mem_map.mp hx
    cases l with
    | name c => exact Or.inr ⟨.name c, hl, rfl⟩
    | any => exact Or.inl rfl
  unfold Filter.reaches at h
  unfold Filter.matches
  cases hl : f.levels with
  | nil =>
    rw [hl] at h
    refine ⟨b, [], h, fun x hx => Or.inl (List.mem_singleton.mp hx)⟩
  | cons l ls =>
    rw [hl] at h
    obtain ⟨hfirst, hmore⟩ := Bool.and_eq_true_iff.mp h
    cases ls with
    | nil =>
      refine ⟨b, [], ?_, fun x hx => Or.inl (List.mem_singleton.mp hx)⟩
      rw [matchLevels, hfirst]
      exact hmore
    | cons l' ls =>
      refine ⟨l'.fill b, ls.map (Level.fill b), ?_, ?_⟩
      · rw [matchLevels, hfirst, Bool.true_and]
        exact matchLevels_fill f.below b (l' :: ls)
      · intro x hx
        rcases hfill (l' :: ls) x hx with rfl | ⟨k, hk, heq⟩
        · exact Or.inl rfl
        · exact Or.inr ⟨k, List.mem_cons_of_mem l hk, heq⟩

end Patterns

section Texts

abbrev Text := List Char

def levels (t : Text) : List Text := t.splitOn '/'

/-- A topic name: it is not empty and has no wildcard. -/
def IsName (t : Text) : Prop := t ≠ [] ∧ '+' ∉ t ∧ '#' ∉ t

instance (t : Text) : Decidable (IsName t) := inferInstanceAs (Decidable (_ ∧ _))

/-- A wildcard stands alone on its level, and `#` at the end. -/
def parseLevels : List Text → Option (Filter Text)
  | [] => some ⟨[], false⟩
  | l :: ls =>
    if l = ['#'] then if ls = [] then some ⟨[], true⟩ else none
    else if l = ['+'] then (parseLevels ls).map (Filter.cons .any)
    else if '+' ∈ l ∨ '#' ∈ l then none
    else (parseLevels ls).map (Filter.cons (.name l))

def parse (t : Text) : Option (Filter Text) := if t = [] then none else parseLevels (levels t)

/-- The rule about names that begin with `$`. -/
def hidden (filter topic : Text) : Bool :=
  topic.head? = some '$' && (filter.head? = some '#' || filter.head? = some '+')

/-- The topic names a filter is sent. -/
def delivers (filter topic : Text) : Bool :=
  match parse filter with
  | some f => f.matches (levels topic) && !hidden filter topic
  | none => false

end Texts

section TextLaws

variable {filter t a : Text} {ls : List Text} {f : Filter Text}

theorem levels_below (ha : '/' ∉ a) (t : Text) : levels (a ++ '/' :: t) = a :: levels t :=
  List.splitOn_append_cons_self_of_not_mem ha t

theorem join_levels (t : Text) : ['/'].intercalate (levels t) = t := List.intercalate_splitOn '/'

/-- The levels below `a` are those of the texts that begin with `a` and a slash. -/
theorem prefix_iff_levels (ha : '/' ∉ a) :
    (a ++ ['/']) <+: t ↔ ∃ l ls, levels t = a :: l :: ls := by
  constructor
  · rintro ⟨rest, rfl⟩
    rw [List.append_assoc, List.singleton_append, levels_below ha]
    cases hl : levels rest with
    | nil => exact absurd hl (List.splitOn_ne_nil '/' rest)
    | cons l ls => exact ⟨l, ls, rfl⟩
  · rintro ⟨l, ls, hl⟩
    have ht := join_levels t
    rw [hl, List.intercalate_cons_cons, List.append_assoc] at ht
    exact ⟨['/'].intercalate (l :: ls), by rw [← ht, List.append_assoc]⟩

/-- The names of a filter are levels of its text and have no wildcard. -/
theorem names_of_parseLevels (h : parseLevels ls = some f) {x : Text}
    (hx : Level.name x ∈ f.levels) : x ∈ ls ∧ '+' ∉ x ∧ '#' ∉ x := by
  induction ls generalizing f with
  | nil =>
    cases h
    cases hx
  | cons l ls ih =>
    have hcons : ∀ {k : Level Text}, (parseLevels ls).map (Filter.cons k) = some f →
        Level.name x = k ∨ x ∈ ls ∧ '+' ∉ x ∧ '#' ∉ x := by
      intro k hk
      obtain ⟨f', hf', rfl⟩ := Option.map_eq_some_iff.mp hk
      rcases List.mem_cons.mp hx with heq | hmem
      · exact Or.inl heq
      · exact Or.inr (ih hf' hmem)
    unfold parseLevels at h
    split at h
    · split at h
      · cases h
        cases hx
      · cases h
    · split at h
      · rcases hcons h with heq | hmem
        · cases heq
        · exact ⟨List.mem_cons_of_mem l hmem.1, hmem.2⟩
      · split at h
        · cases h
        · rename_i hwild
          rcases hcons h with heq | hmem
          · cases heq
            exact ⟨List.mem_cons_self, not_or.mp hwild⟩
          · exact ⟨List.mem_cons_of_mem l hmem.1, hmem.2⟩

theorem parse_levels (h : parse filter = some f) : parseLevels (levels filter) = some f := by
  unfold parse at h
  split at h
  · cases h
  · exact h

/-- A path of names is the path of a topic name. -/
theorem isName_join {c : Text} {cs : List Text} (ha : a ≠ [])
    (hx : ∀ x ∈ a :: c :: cs, '/' ∉ x ∧ '+' ∉ x ∧ '#' ∉ x) :
    IsName (['/'].intercalate (a :: c :: cs)) ∧
      levels (['/'].intercalate (a :: c :: cs)) = a :: c :: cs := by
  have hmem : ∀ (ch : Char), ch ≠ '/' → ∀ ls : List Text, (∀ x ∈ ls, ch ∉ x) →
      ch ∉ ['/'].intercalate ls := by
    intro ch hch ls hls
    induction ls with
    | nil => exact List.not_mem_nil
    | cons x ls ih =>
      have hrest := ih fun y hy => hls y (List.mem_cons_of_mem x hy)
      cases ls with
      | nil =>
        rw [List.intercalate_singleton]
        exact hls x List.mem_cons_self
      | cons y ls =>
        rw [List.intercalate_cons_cons, List.mem_append, List.mem_append, List.mem_singleton]
        rintro ((h | h) | h)
        · exact hls x List.mem_cons_self h
        · exact hch h
        · exact hrest h
  refine ⟨⟨?_, ?_, ?_⟩, List.splitOn_intercalate '/' (fun x h => (hx x h).1) (List.cons_ne_nil _ _)⟩
  · rw [List.intercalate_cons_cons, List.append_assoc]
    exact List.append_ne_nil_of_left_ne_nil ha _
  · exact hmem '+' (by decide) _ fun x h => (hx x h).2.1
  · exact hmem '#' (by decide) _ fun x h => (hx x h).2.2

theorem not_mem_levels (t : Text) : ∀ l ∈ levels t, '/' ∉ l := by
  induction t with
  | nil =>
    intro l hl
    rw [levels, List.splitOn_nil, List.mem_singleton] at hl
    rw [hl]
    exact List.not_mem_nil
  | cons c t ih =>
    intro l hl
    rw [levels, List.splitOn_cons_eq_if_modifyHead] at hl
    split at hl
    · rcases List.mem_cons.mp hl with rfl | hmem
      · exact List.not_mem_nil
      · exact ih l hmem
    · rename_i hc
      rw [beq_iff_eq] at hc
      cases hs : t.splitOn '/' with
      | nil => exact absurd hs (List.splitOn_ne_nil '/' t)
      | cons k ks =>
        rw [hs, List.modifyHead_cons] at hl
        have hks : ∀ x ∈ k :: ks, '/' ∉ x := by
          rw [← hs]
          exact ih
        rcases List.mem_cons.mp hl with rfl | hmem
        · intro h
          rcases List.mem_cons.mp h with heq | hk
          · exact hc heq.symm
          · exact hks k List.mem_cons_self hk
        · exact hks l (List.mem_cons_of_mem k hmem)

/-- What a filter is sent below `a`: something if and only if it reaches there. -/
theorem delivers_below_iff (hf : parse filter = some f) (hname : IsName a) (hslash : '/' ∉ a)
    (hplain : a.head? ≠ some '$') :
    (∃ t, IsName t ∧ (a ++ ['/']) <+: t ∧ delivers filter t = true) ↔ f.reaches a = true := by
  have hhead : ∀ t, (a ++ ['/']) <+: t → hidden filter t = false := by
    rintro t ⟨rest, rfl⟩
    unfold hidden
    cases a with
    | nil => exact absurd rfl hname.1
    | cons c a =>
      have hc : c ≠ '$' := fun h => hplain (congrArg some h)
      have hd : decide (some c = some '$') = false :=
        decide_eq_false fun h => hc (Option.some.inj h)
      exact Bool.and_eq_false_iff.mpr (Or.inl hd)
  constructor
  · rintro ⟨t, -, hbelow, hd⟩
    obtain ⟨l, ls, hl⟩ := (prefix_iff_levels hslash).mp hbelow
    unfold delivers at hd
    rw [hf, hl] at hd
    exact reaches_of_matches (Bool.and_eq_true_iff.mp hd).1
  · intro h
    obtain ⟨c, cs, hmatch, hnames⟩ := matches_of_reaches ['x'] h
    have hx : ∀ x ∈ a :: c :: cs, '/' ∉ x ∧ '+' ∉ x ∧ '#' ∉ x := by
      intro x hx
      rcases List.mem_cons.mp hx with rfl | hx
      · exact ⟨hslash, hname.2⟩
      · rcases hnames x hx with rfl | ⟨l, hl, rfl⟩
        · decide
        · obtain ⟨hmem, hplain⟩ := names_of_parseLevels (parse_levels hf) hl
          exact ⟨not_mem_levels filter x hmem, hplain⟩
    obtain ⟨htopic, hlevels⟩ := isName_join hname.1 hx
    have hbelow := (prefix_iff_levels hslash).mpr ⟨c, cs, hlevels⟩
    refine ⟨_, htopic, hbelow, ?_⟩
    unfold delivers
    rw [hf]
    dsimp only
    rw [hlevels, hmatch, hhead _ hbelow]
    rfl

/-- A filter with no level left has no level in its text either. -/
theorem parseLevels_isEmpty (h : parseLevels ls = some f) :
    (!f.levels.isEmpty || f.below) = !ls.isEmpty := by
  cases ls with
  | nil =>
    cases h
    rfl
  | cons l ls =>
    unfold parseLevels at h
    split at h
    · split at h
      · cases h
        rfl
      · cases h
    · split at h
      · obtain ⟨f', -, rfl⟩ := Option.map_eq_some_iff.mp h
        rfl
      · split at h
        · cases h
        · obtain ⟨f', -, rfl⟩ := Option.map_eq_some_iff.mp h
          rfl

theorem reaches_cons (k : Level Text) (h : parseLevels ls = some f) :
    (f.cons k).reaches a = true ↔ k.matches a = true ∧ ∃ l ls', ls = l :: ls' := by
  have hreach : (f.cons k).reaches a = (k.matches a && !ls.isEmpty) := by
    rw [← parseLevels_isEmpty h]
    rfl
  rw [hreach, Bool.and_eq_true]
  refine and_congr_right fun _ => ?_
  cases ls with
  | nil => exact iff_of_false Bool.false_ne_true fun ⟨l, ls', heq⟩ => List.cons_ne_nil l ls' heq.symm
  | cons l ls => exact iff_of_true rfl ⟨l, ls, rfl⟩

/-- The filters that reach below `a`, by their levels. -/
theorem reaches_iff_levels (hf : parse filter = some f) :
    f.reaches a = true ↔ levels filter = [['#']] ∨
      ∃ k l ls, (k = ['+'] ∨ k = a) ∧ levels filter = k :: l :: ls := by
  have hp := parse_levels hf
  cases hl : levels filter with
  | nil => exact absurd hl (List.splitOn_ne_nil '/' filter)
  | cons k ks =>
    rw [hl] at hp
    unfold parseLevels at hp
    split at hp
    · rename_i hk
      split at hp
      · rename_i hks
        cases hp
        subst hk hks
        exact iff_of_true rfl (Or.inl rfl)
      · cases hp
    · rename_i hk
      have hne : k :: ks ≠ [['#']] := fun h => hk (List.cons.inj h).1
      have hright : (k :: ks = [['#']] ∨
          ∃ k' l ls, (k' = ['+'] ∨ k' = a) ∧ k :: ks = k' :: l :: ls) ↔
            (k = ['+'] ∨ k = a) ∧ ∃ l ls, ks = l :: ls := by
        constructor
        · rintro (h | ⟨k', l, ls, hk', heq⟩)
          · exact absurd h hne
          · obtain ⟨rfl, rfl⟩ := List.cons.inj heq
            exact ⟨hk', l, ls, rfl⟩
        · rintro ⟨hk', l, ls, rfl⟩
          exact Or.inr ⟨k, l, ls, hk', rfl⟩
      rw [hright]
      split at hp
      · rename_i hplus
        obtain ⟨f', hf', rfl⟩ := Option.map_eq_some_iff.mp hp
        rw [reaches_cons .any hf']
        exact and_congr_left fun _ => iff_of_true rfl (Or.inl hplus)
      · rename_i hplus
        split at hp
        · cases hp
        · obtain ⟨f', hf', rfl⟩ := Option.map_eq_some_iff.mp hp
          rw [reaches_cons (.name k) hf']
          exact and_congr_left fun _ => decide_eq_true_iff.trans (or_iff_right hplus).symm

section Names

variable {ch : Char} {l : Text}

theorem mem_of_mem_level (hl : l ∈ levels t) (hc : ch ∈ l) : ch ∈ t := by
  rw [← join_levels t]
  generalize levels t = ks at hl
  induction ks with
  | nil => exact absurd hl List.not_mem_nil
  | cons k ks ih =>
    cases ks with
    | nil =>
      rw [List.intercalate_singleton]
      rwa [List.mem_singleton.mp hl] at hc
    | cons k' ks =>
      rw [List.intercalate_cons_cons, List.mem_append, List.mem_append]
      rcases List.mem_cons.mp hl with rfl | hmem
      · exact Or.inl (Or.inl hc)
      · exact Or.inr (ih hmem)

theorem parseLevels_names (h : ∀ l ∈ ls, '+' ∉ l ∧ '#' ∉ l) :
    parseLevels ls = some ⟨ls.map Level.name, false⟩ := by
  induction ls with
  | nil => rfl
  | cons l ls ih =>
    obtain ⟨hplus, hhash⟩ := h l List.mem_cons_self
    have hne : ∀ c, c ∉ l → l ≠ [c] := by
      rintro c hc rfl
      exact hc List.mem_cons_self
    unfold parseLevels
    rw [if_neg (hne '#' hhash), if_neg (hne '+' hplus), if_neg (not_or.mpr ⟨hplus, hhash⟩),
      ih fun k hk => h k (List.mem_cons_of_mem l hk)]
    rfl

/-- A topic name is a filter. -/
theorem parse_name (h : IsName t) : parse t = some ⟨(levels t).map Level.name, false⟩ := by
  unfold parse
  rw [if_neg h.1]
  refine parseLevels_names fun l hl => ⟨fun hc => h.2.1 ?_, fun hc => h.2.2 ?_⟩
  · exact mem_of_mem_level hl hc
  · exact mem_of_mem_level hl hc

end Names

end TextLaws

example : delivers "sport/+/player1/#".toList "sport/tennis/player1".toList = true ∧
    delivers "#".toList "$SYS/load".toList = false := by decide

end AtNode.TopicFilter
