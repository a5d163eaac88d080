import Mathlib.Data.List.Basic
import Mathlib.Data.Nat.Find

/-!
# Occurrences of one list in another

`OccursAt f needle hay p` says that the needle stands in the haystack from position `p` on when
elements are compared through `f`. `FirstAt` adds that it stands nowhere before; `indexOf` finds it.
-/

namespace AtNode.Occurs

variable {α β γ : Type*} {f : α → β} {g : α → γ} {needle hay : List α} {p : ℕ}

def OccursAt (f : α → β) (needle hay : List α) (p : ℕ) : Prop :=
  p ≤ hay.length ∧ needle.map f <+: (hay.drop p).map f

def FirstAt (f : α → β) (needle hay : List α) (p : ℕ) : Prop :=
  OccursAt f needle hay p ∧ ∀ q < p, ¬ OccursAt f needle hay q

theorem occursAt_id : OccursAt id needle hay p ↔ p ≤ hay.length ∧ needle <+: hay.drop p := by
  rw [OccursAt, List.map_id, List.map_id]

theorem OccursAt.length_le (h : OccursAt f needle hay p) : p + needle.length ≤ hay.length := by
  have hlen := h.2.length_le
  have hp := h.1
  rw [List.length_map, List.length_map, List.length_drop] at hlen
  omega

@[simp] theorem occursAt_succ {c : α} :
    OccursAt f needle (c :: hay) (p + 1) ↔ OccursAt f needle hay p := by
  simp [OccursAt]

theorem occursAt_nil_right : OccursAt f needle [] p ↔ p = 0 ∧ needle = [] := by
  constructor
  · intro h
    have hlen := h.length_le
    simp only [List.length_nil] at hlen
    exact ⟨by omega, List.length_eq_zero_iff.mp (by omega)⟩
  · rintro ⟨rfl, rfl⟩
    exact ⟨Nat.le_refl _, List.nil_prefix⟩

theorem occursAt_iff_getElem : OccursAt f needle hay p ↔
    p + needle.length ≤ hay.length ∧
      ∀ i (hi : i < needle.length) (hj : p + i < hay.length), f needle[i] = f hay[p + i] := by
  constructor
  · intro h
    refine ⟨h.length_le, fun i hi hj => ?_⟩
    have hget := h.2.getElem (i := i) (by simpa using hi)
    simpa using hget
  · rintro ⟨hlen, hget⟩
    refine ⟨by omega, List.prefix_iff_getElem.mpr ⟨by simp; omega, fun i hi => ?_⟩⟩
    have hi' : i < needle.length := by simpa using hi
    simpa using hget i hi' (by omega)

theorem OccursAt.mono (h : OccursAt f needle hay p) (hfg : ∀ a b, f a = f b → g a = g b) :
    OccursAt g needle hay p := by
  rw [occursAt_iff_getElem] at h ⊢
  exact ⟨h.1, fun i hi hj => hfg _ _ (h.2 i hi hj)⟩

section Search

variable [DecidableEq α] {c : α} {k front rest : List α}

/-- The first position from which the needle stands in a list. -/
def indexOf (needle : List α) : List α → Option ℕ
  | [] => if needle = [] then some 0 else none
  | c :: s => if needle <+: c :: s then some 0 else (indexOf needle s).map (· + 1)

theorem indexOf_eq_zero (h : needle <+: hay) : indexOf needle hay = some 0 := by
  cases hay with
  | nil => rw [indexOf, if_pos (List.prefix_nil.mp h)]
  | cons c s => rw [indexOf, if_pos h]

theorem indexOf_cons (h : ¬ needle <+: c :: hay) :
    indexOf needle (c :: hay) = (indexOf needle hay).map (· + 1) := by
  rw [indexOf, if_neg h]

theorem indexOf_eq_some_iff : indexOf needle hay = some p ↔ FirstAt id needle hay p := by
  induction hay generalizing p with
  | nil =>
    by_cases hn : needle = []
    · subst hn
      constructor
      · intro h
        cases h
        exact ⟨occursAt_nil_right.mpr ⟨rfl, rfl⟩, fun q hq => absurd hq (Nat.not_lt_zero q)⟩
      · intro h
        rw [(occursAt_nil_right.mp h.1).1]
        rfl
    · rw [indexOf, if_neg hn]
      exact iff_of_false (Option.some_ne_none p ∘ Eq.symm) fun h => hn (occursAt_nil_right.mp h.1).2
  | cons c s ih =>
    by_cases hc : needle <+: c :: s
    · have hzero : OccursAt id needle (c :: s) 0 := occursAt_id.mpr ⟨Nat.zero_le _, hc⟩
      rw [indexOf_eq_zero hc, Option.some_inj]
      constructor
      · rintro rfl
        exact ⟨hzero, fun q hq => absurd hq (Nat.not_lt_zero q)⟩
      · intro h
        by_contra hp
        exact h.2 0 (Nat.pos_of_ne_zero (Ne.symm hp)) hzero
    · have hzero : ¬ OccursAt id needle (c :: s) 0 := fun h => hc (occursAt_id.mp h).2
      rw [indexOf_cons hc, Option.map_eq_some_iff]
      constructor
      · rintro ⟨q, hq, rfl⟩
        obtain ⟨hat, hbefore⟩ := ih.mp hq
        refine ⟨occursAt_succ.mpr hat, fun r hr => ?_⟩
        cases r with
        | zero => exact hzero
        | succ r => exact fun h => hbefore r (Nat.lt_of_succ_lt_succ hr) (occursAt_succ.mp h)
      · intro h
        cases p with
        | zero => exact absurd h.1 hzero
        | succ p =>
          exact ⟨p, ih.mpr ⟨occursAt_succ.mp h.1,
            fun q hq hat => h.2 (q + 1) (Nat.succ_lt_succ hq) (occursAt_succ.mpr hat)⟩, rfl⟩

theorem indexOf_eq_none_iff : indexOf needle hay = none ↔ ∀ p, ¬ OccursAt id needle hay p := by
  constructor
  · intro hnone p hp
    classical
    have hex : ∃ q, OccursAt id needle hay q := ⟨p, hp⟩
    have hfirst : FirstAt id needle hay (Nat.find hex) :=
      ⟨Nat.find_spec hex, fun q hq => Nat.find_min hex hq⟩
    exact absurd (indexOf_eq_some_iff.mpr hfirst) (by rw [hnone]; exact Option.some_ne_none _ ∘ Eq.symm)
  · intro h
    cases hi : indexOf needle hay with
    | none => rfl
    | some p => exact absurd (indexOf_eq_some_iff.mp hi).1 (h p)

/-- In a list that begins another one, what ends in it is found. -/
theorem indexOf_of_prefix (h : front <+: hay) :
    indexOf needle front = (indexOf needle hay).filter fun p => p + needle.length ≤ front.length := by
  have hat (p : ℕ) : OccursAt id needle front p ↔
      OccursAt id needle hay p ∧ p + needle.length ≤ front.length := by
    obtain ⟨t, rfl⟩ := h
    constructor
    · intro hp
      obtain ⟨hle, hpre⟩ := occursAt_id.mp hp
      refine ⟨occursAt_id.mpr ⟨by rw [List.length_append]; omega, ?_⟩, hp.length_le⟩
      rw [List.drop_append_of_le_length hle]
      exact hpre.trans (List.prefix_append _ _)
    · rintro ⟨hp, hlen⟩
      have hpre := (occursAt_id.mp hp).2
      rw [List.drop_append_of_le_length (by omega)] at hpre
      refine occursAt_id.mpr ⟨by omega, List.prefix_of_prefix_length_le hpre
        (List.prefix_append _ _) ?_⟩
      rw [List.length_drop]
      omega
  apply Option.ext
  intro p
  rw [Option.filter_eq_some_iff, indexOf_eq_some_iff, indexOf_eq_some_iff, decide_eq_true_eq,
    FirstAt, FirstAt, hat]
  constructor
  · rintro ⟨⟨hp, hlen⟩, hbefore⟩
    exact ⟨⟨hp, fun q hq hq' => hbefore q hq ((hat q).mpr ⟨hq', by omega⟩)⟩, hlen⟩
  · rintro ⟨⟨hp, hbefore⟩, hlen⟩
    exact ⟨⟨hp, hlen⟩, fun q hq hq' => hbefore q hq ((hat q).mp hq').1⟩

/-- Where the first occurrence has `c` in front, it is the first that has. -/
theorem indexOf_cons_of_firstAt (h : FirstAt id needle hay (p + 1)) (hc : hay[p]? = some c) :
    indexOf (c :: needle) hay = some p := by
  obtain ⟨hat, hbefore⟩ := h
  obtain ⟨hlt, hget⟩ := List.getElem?_eq_some_iff.mp hc
  have hdrop : hay.drop p = c :: hay.drop (p + 1) := by
    rw [List.drop_eq_getElem_cons hlt, hget]
  refine indexOf_eq_some_iff.mpr ⟨occursAt_id.mpr ⟨Nat.le_of_lt hlt, ?_⟩, fun r hr hr' => ?_⟩
  · rw [hdrop]
    exact List.cons_prefix_cons.mpr ⟨rfl, (occursAt_id.mp hat).2⟩
  · obtain ⟨t, ht⟩ := (occursAt_id.mp hr').2
    have hlen := hr'.length_le
    rw [List.length_cons] at hlen
    refine hbefore (r + 1) (Nat.succ_lt_succ hr) (occursAt_id.mpr ⟨by omega, t, ?_⟩)
    rw [← List.drop_drop, ← ht]
    rfl

theorem indexOf_single (h : c ∉ hay) : indexOf (c :: k) hay = none := by
  refine indexOf_eq_none_iff.mpr fun p hp => h ?_
  exact List.mem_of_mem_drop ((occursAt_id.mp hp).2.subset List.mem_cons_self)

theorem indexOf_append (h : c ∉ front) :
    indexOf (c :: k) (front ++ c :: rest) =
      if k <+: rest then some front.length
      else (indexOf (c :: k) rest).map (front.length + 1 + ·) := by
  induction front with
  | nil =>
    rw [List.nil_append]
    by_cases hk : k <+: rest
    · rw [indexOf_eq_zero (List.cons_prefix_cons.mpr ⟨rfl, hk⟩), if_pos hk]
      rfl
    · rw [indexOf_cons fun hp => hk (List.cons_prefix_cons.mp hp).2, if_neg hk]
      congr 1
      funext i
      exact Nat.add_comm i 1
  | cons a front ih =>
    obtain ⟨hca, hfront⟩ := not_or.mp (List.mem_cons.not.mp h)
    rw [List.cons_append, indexOf_cons fun hp => hca (List.cons_prefix_cons.mp hp).1, ih hfront]
    split_ifs
    · rfl
    · rw [Option.map_map]
      congr 1
      funext i
      simp only [Function.comp, List.length_cons]
      omega

end Search

end AtNode.Occurs
