import AtNode.Lib.Occurs
import Mathlib.Data.List.TakeWhile

/-!
# Key-value pairs in one text

A text is split at every `amp` into pairs and each pair at its first `eq`; `lookup` gives the value
of the first pair with a key. `keyAt` finds the same pair by searching the text: the key with `eq`
behind it stands at the head, or somewhere with `amp` in front.
-/

namespace AtNode.Pairs

open Occurs

variable {α : Type*} {amp eq c : α} {key text pair v rest k : List α} {i : ℕ}

/-- A text without `amp` that begins a list of pairs begins the first of them. -/
theorem prefix_append_iff (hk : amp ∉ k) : k <+: pair ++ amp :: rest ↔ k <+: pair := by
  constructor
  · intro h
    rcases Nat.le_total k.length pair.length with hlen | hlen
    · exact List.prefix_of_prefix_length_le h (List.prefix_append _ _) hlen
    · obtain ⟨t, rfl⟩ := List.prefix_of_prefix_length_le (List.prefix_append _ _) h hlen
      cases t with
      | nil => simp
      | cons x t =>
        rw [List.prefix_append_right_inj, List.cons_prefix_cons] at h
        exact absurd (h.1 ▸ List.mem_append_right pair List.mem_cons_self) hk
  · exact fun h => h.trans (List.prefix_append _ _)

variable [DecidableEq α]

/-- A pair split at its first `eq`. -/
def splitOnce (eq : α) (pair : List α) : Option (List α × List α) :=
  match pair.dropWhile (· ≠ eq) with
  | [] => none
  | _ :: v => some (pair.takeWhile (· ≠ eq), v)

def valueOf (eq : α) (key pair : List α) : Option (List α) :=
  match splitOnce eq pair with
  | some (k, v) => if k = key then some v else none
  | none => none

def lookup (amp eq : α) (key text : List α) : Option (List α) :=
  (text.splitOn amp).findSome? (valueOf eq key)

section Values

theorem splitOnce_append (hkey : eq ∉ key) : splitOnce eq (key ++ eq :: v) = some (key, v) := by
  have hkeep : ∀ x ∈ key, decide (x ≠ eq) = true :=
    fun x hx => decide_eq_true fun h => hkey (h ▸ hx)
  rw [splitOnce, List.dropWhile_append_of_pos hkeep, List.takeWhile_append_of_pos hkeep,
    List.dropWhile_cons_of_neg (by simp), List.takeWhile_cons_of_neg (by simp), List.append_nil]

theorem eq_of_splitOnce (h : splitOnce eq pair = some (key, v)) : pair = key ++ eq :: v := by
  have hpair := List.takeWhile_append_dropWhile (p := (· ≠ eq)) (l := pair)
  unfold splitOnce at h
  cases hd : pair.dropWhile (· ≠ eq) with
  | nil =>
    rw [hd] at h
    cases h
  | cons d w =>
    rw [hd] at h hpair
    cases h
    have hhead := List.head?_dropWhile_not (· ≠ eq) pair
    rw [hd] at hhead
    have hde : d = eq := by simpa using hhead
    rw [← hde] at hpair ⊢
    exact hpair.symm

theorem valueOf_eq_some_iff (hkey : eq ∉ key) : valueOf eq key pair = some v ↔ pair = key ++ eq :: v := by
  constructor
  · intro h
    unfold valueOf at h
    cases hs : splitOnce eq pair with
    | none =>
      rw [hs] at h
      cases h
    | some kv =>
      rw [hs] at h
      dsimp only at h
      split_ifs at h with hk
      rw [← hk, ← Option.some.inj h]
      exact eq_of_splitOnce hs
  · rintro rfl
    rw [valueOf, splitOnce_append hkey]
    exact if_pos rfl

end Values

section Search

/-- The text up to the next `amp`. -/
def valueAt (amp : α) (text : List α) (i : ℕ) : List α := (text.drop i).takeWhile (· ≠ amp)

/-- The text is one pair, or a pair with more pairs behind `amp`. -/
theorem single_or_cons (amp : α) (text : List α) :
    amp ∉ text ∨ ∃ pair rest, text = pair ++ amp :: rest ∧ amp ∉ pair := by
  by_cases h : amp ∈ text
  · exact Or.inr (List.eq_append_cons_of_mem h)
  · exact Or.inl h

theorem lookup_single (h : amp ∉ text) : lookup amp eq key text = valueOf eq key text := by
  rw [lookup, List.splitOn_eq_singleton h, List.findSome?_cons, List.findSome?_nil]
  cases valueOf eq key text <;> rfl

theorem lookup_append (h : amp ∉ pair) :
    lookup amp eq key (pair ++ amp :: rest) =
      (valueOf eq key pair).or (lookup amp eq key rest) := by
  rw [lookup, List.splitOn_append_cons_self_of_not_mem h, List.findSome?_cons]
  cases valueOf eq key pair <;> rfl

theorem valueOf_of_prefix (hkey : eq ∉ key) (h : key ++ [eq] <+: pair) :
    valueOf eq key pair = some (pair.drop (key.length + 1)) := by
  obtain ⟨v, rfl⟩ := h
  rw [(valueOf_eq_some_iff hkey).mpr (List.append_assoc key [eq] v)]
  simp

theorem valueOf_of_not_prefix (hkey : eq ∉ key) (h : ¬ key ++ [eq] <+: pair) :
    valueOf eq key pair = none := by
  cases hv : valueOf eq key pair with
  | none => rfl
  | some v =>
    refine absurd ?_ h
    rw [(valueOf_eq_some_iff hkey).mp hv]
    exact ⟨v, List.append_assoc key [eq] v⟩

theorem valueAt_single (h : amp ∉ text) : valueAt amp text i = text.drop i :=
  List.takeWhile_eq_self_iff.mpr fun _ hx =>
    decide_eq_true fun hxa => h (hxa ▸ List.mem_of_mem_drop hx)

theorem valueAt_append (h : amp ∉ pair) (hi : i ≤ pair.length) :
    valueAt amp (pair ++ amp :: rest) i = pair.drop i := by
  rw [valueAt, List.drop_append_of_le_length hi, List.takeWhile_append_of_pos,
    List.takeWhile_cons_of_neg (by simp), List.append_nil]
  exact fun x hx => decide_eq_true fun hxa => h (hxa ▸ List.mem_of_mem_drop hx)

theorem valueAt_behind (pair : List α) :
    valueAt amp (pair ++ amp :: rest) (pair.length + 1 + i) = valueAt amp rest i := by
  rw [valueAt, valueAt, Nat.add_assoc, List.drop_length_add_append, Nat.add_comm 1 i,
    List.drop_succ_cons]

/-- Where the first pair with the key begins: at the head, or behind the first `amp` that has the key
behind it. -/
def keyAt (amp eq : α) (key text : List α) : Option ℕ :=
  if key ++ [eq] <+: text then some 0
  else (indexOf (amp :: (key ++ [eq])) text).map (· + 1)

theorem lookup_eq_keyAt (hamp : amp ∉ key) (hkey : eq ∉ key) (hne : amp ≠ eq) (text : List α) :
    lookup amp eq key text =
      (keyAt amp eq key text).map fun i => valueAt amp text (i + (key.length + 1)) := by
  have hk : amp ∉ key ++ [eq] := by simp [hamp, hne]
  induction hn : text.length using Nat.strongRecOn generalizing text with
  | ind n ih =>
    rcases single_or_cons amp text with hsingle | ⟨pair, rest, rfl, hpair⟩
    · rw [lookup_single hsingle, keyAt, indexOf_single hsingle]
      split_ifs with hp
      · rw [Option.map_some, valueAt_single hsingle, Nat.zero_add]
        exact valueOf_of_prefix hkey hp
      · exact valueOf_of_not_prefix hkey hp
    · rw [lookup_append hpair]
      by_cases hp : key ++ [eq] <+: pair
      · rw [keyAt, if_pos ((prefix_append_iff hk).mpr hp), valueOf_of_prefix hkey hp, Option.some_or,
          Option.map_some, Nat.zero_add, valueAt_append hpair (by simpa using hp.length_le)]
      · have hlen : rest.length < n := by
          rw [← hn, List.length_append, List.length_cons]
          omega
        rw [keyAt, if_neg fun h => hp ((prefix_append_iff hk).mp h), valueOf_of_not_prefix hkey hp,
          Option.none_or, ih _ hlen rest rfl, keyAt, indexOf_append hpair]
        split_ifs with hr
        · rw [Option.map_some, Option.map_some, Option.map_some, ← valueAt_behind pair,
            Nat.zero_add]
        · simp only [Option.map_map]
          congr 1
          funext i
          dsimp only [Function.comp]
          rw [← valueAt_behind pair]
          congr 1
          omega

theorem keyAt_length_le (h : keyAt amp eq key text = some i) : i + (key.length + 1) ≤ text.length := by
  unfold keyAt at h
  split_ifs at h with hp
  · cases h
    have hlen := hp.length_le
    rw [List.length_append, List.length_singleton] at hlen
    omega
  · obtain ⟨p, hp, rfl⟩ := Option.map_eq_some_iff.mp h
    have hlen := (indexOf_eq_some_iff.mp hp).1.length_le
    rw [List.length_cons, List.length_append, List.length_singleton] at hlen
    omega

theorem keyAt_of_prefix {front : List α} (h : front <+: text) :
    keyAt amp eq key front =
      (keyAt amp eq key text).filter fun i => i + (key.length + 1) ≤ front.length := by
  have hlen : (key ++ [eq]).length = key.length + 1 := by rw [List.length_append, List.length_singleton]
  rw [keyAt, keyAt, indexOf_of_prefix h]
  by_cases htext : key ++ [eq] <+: text
  · rw [if_pos htext]
    by_cases hroom : key.length + 1 ≤ front.length
    · rw [if_pos (List.prefix_of_prefix_length_le htext h (hlen.trans_le hroom)),
        Option.filter_some_pos (by simpa using hroom)]
    · rw [if_neg fun hp => hroom (hlen ▸ hp.length_le), Option.filter_some_neg (by simpa using hroom),
        Option.map_eq_none_iff, Option.filter_eq_none_iff]
      intro p _
      rw [decide_eq_true_eq, List.length_cons, hlen]
      omega
  · rw [if_neg htext, if_neg fun hp => htext (hp.trans h)]
    cases indexOf (amp :: (key ++ [eq])) text with
    | none => rfl
    | some p =>
      rw [Option.map_some, Option.filter_some, Option.filter_some, List.length_cons, hlen,
        show p + (key.length + 1 + 1) = p + 1 + (key.length + 1) by omega]
      split_ifs <;> rfl

end Search

end AtNode.Pairs
