import AtNode.Ch582.AtCmds
import AtNode.Lib.Strtok

/-!
# Setting a slot label

`kb_ble_slot_set_name` checks a character and copies it in the same turn of its loop, and the loop
ends after 11 characters. A label that is refused has been copied up to its first bad character, and
a label that is too long is cut.

It is proved when the call is atomic: the whole label is stored, or nothing is.
-/

namespace AtNode.AtCmds

open Ble Memory Router

variable {n : ℕ}

def flashLabel (page : ℕ → UInt8) (s : Fin n) : Label := row page (4 + 6 * n) 12 s

/-- The call stored the label, or refused it and left both copies as they were. -/
def AtomicLabel (b : Board) (k : Keyboard n) (slot : UInt8) (name : Text) : Prop :=
  let r := kbBleSlotSetName b k slot name
  (r.2 = 0 ∧ ∃ s, slotAt n slot = some s ∧ labelText (r.1.slotname s) = name ∧
      flashLabel r.1.page s = r.1.slotname s ∧ ∀ t ≠ s, r.1.slotname t = k.slotname t) ∨
    (r.2 = -1 ∧ r.1.slotname = k.slotname ∧ r.1.page = k.page)

/-- The characters before the first bad one. -/
def goodHead (name : Text) : Text := name.takeWhile fun c => labelChar c

/-- There is no such slot, or the label is good, or it has a bad character among the first 11 and
starts like the label of the slot up to there. -/
def LabelCondition (k : Keyboard n) (slot : UInt8) (name : Text) : Prop :=
  match slotAt n slot with
  | none => True
  | some s =>
    (goodHead name = name ∧ name.length ≤ 11) ∨
      (goodHead name ≠ name ∧ (goodHead name).length < 11 ∧
        goodHead name <+: List.ofFn (k.slotname s))

section Copy

/-- A label with some of its characters overwritten. -/
def putAt (l : Label) (i : ℕ) : Text → Label
  | [] => l
  | c :: cs => putAt (setAt l i c) (i + 1) cs

theorem putAt_apply (l : Label) (i : ℕ) (cs : Text) (j : Fin 12) :
    putAt l i cs j = if i ≤ j ∧ j < i + cs.length then cs.getD (j - i) 0 else l j := by
  induction cs generalizing l i with
  | nil =>
    rw [if_neg (by simp only [List.length_nil]; omega)]
    rfl
  | cons c cs ih =>
    rw [putAt, ih, setAt]
    rcases lt_trichotomy (j : ℕ) i with h | h | h
    · rw [if_neg (by omega), if_neg (by omega), if_neg (by omega)]
    · rw [if_neg (by omega), if_pos h, if_pos (by simp only [List.length_cons]; omega), h,
        Nat.sub_self, List.getD_cons_zero]
    · have hsub : (j : ℕ) - i = j - (i + 1) + 1 := by omega
      rw [hsub, List.getD_cons_succ, List.length_cons]
      by_cases hj : (j : ℕ) < i + 1 + cs.length
      · rw [if_pos ⟨h, hj⟩, if_pos ⟨by omega, by omega⟩]
      · rw [if_neg (by omega), if_neg (by omega), if_neg (by omega)]

theorem goodHead_cons_pos {c : UInt8} {cs : Text} (h : labelChar c) :
    goodHead (c :: cs) = c :: goodHead cs := List.takeWhile_cons_of_pos (by simpa using h)

theorem goodHead_cons_neg {c : UInt8} {cs : Text} (h : ¬ labelChar c) : goodHead (c :: cs) = [] :=
  List.takeWhile_cons_of_neg (by simpa using h)

theorem copyLabel_bad {name : Text} {i : ℕ} {l : Label} (h : goodHead name ≠ name)
    (hi : i + (goodHead name).length < 11) :
    copyLabel name i l = (putAt l i (goodHead name), false) := by
  induction name generalizing i l with
  | nil => exact absurd rfl h
  | cons c cs ih =>
    rw [copyLabel, if_neg (by omega)]
    by_cases hc : labelChar c
    · rw [goodHead_cons_pos hc] at h hi ⊢
      rw [if_pos hc, putAt]
      exact ih (fun he => h (by rw [he])) (by simp only [List.length_cons] at hi; omega)
    · rw [goodHead_cons_neg hc, if_neg hc, putAt]

theorem copyLabel_good {name : Text} {i : ℕ} {l : Label} (hi : i ≤ 11)
    (h : goodHead name = name ∨ 11 ≤ i + (goodHead name).length) :
    copyLabel name i l =
      (setAt (putAt l i (name.take (11 - i))) (i + (name.take (11 - i)).length) 0, true) := by
  induction name generalizing i l with
  | nil =>
    rw [List.take_nil, copyLabel]
    rfl
  | cons c cs ih =>
    rw [copyLabel]
    by_cases hfull : 11 ≤ i
    · have h0 : 11 - i = 0 := by omega
      rw [if_pos hfull, h0]
      rfl
    · have hs : 11 - i = 11 - (i + 1) + 1 := by omega
      by_cases hc : labelChar c
      · rw [if_neg hfull, if_pos hc, ih (by omega), hs, List.take_succ_cons, putAt,
          List.length_cons]
        · congr 2
          omega
        · rw [goodHead_cons_pos hc, List.cons.injEq, List.length_cons] at h
          rcases h with h | h
          · exact Or.inl h.2
          · exact Or.inr (by omega)
      · rw [goodHead_cons_neg hc] at h
        rcases h with h | h
        · exact absurd h.symm (List.cons_ne_nil c cs)
        · exact absurd h hfull

theorem ne_zero_of_labelChar {c : UInt8} (h : labelChar c) : c ≠ 0 := by
  rintro rfl
  revert h
  decide

theorem labelText_put {l : Label} {cs : Text} (h0 : ∀ c ∈ cs, c ≠ 0) (hlen : cs.length ≤ 11) :
    labelText (setAt (putAt l 0 cs) cs.length 0) = cs := by
  have htake : (cs ++ [0]).take (cs.length + 1) =
      (List.ofFn (setAt (putAt l 0 cs) cs.length 0)).take (cs.length + 1) := by
    apply List.ext_getElem
    · simp only [List.length_take, List.length_append, List.length_ofFn, List.length_singleton]
      omega
    · intro i hi hi'
      simp only [List.length_take, List.length_append, List.length_singleton] at hi
      rw [List.getElem_take, List.getElem_take, List.getElem_ofFn, setAt, putAt_apply]
      by_cases hic : i = cs.length
      · subst hic
        simp
      · have hlt : i < cs.length := by omega
        simp [hic, hlt, List.getElem_append_left]
  have hcs : (cs ++ [0]).takeWhile (· != 0) = cs := by
    rw [List.takeWhile_append_of_pos (by simpa using h0)]
    simp
  have h := Strtok.takeWhile_eq_of_take_eq (P := (· != 0)) htake (by rw [hcs]; omega)
  rw [labelText, h, hcs]

theorem putAt_eq_self {l : Label} {cs : Text} (hlen : cs.length ≤ 12) :
    putAt l 0 cs = l ↔ cs <+: List.ofFn l := by
  rw [List.prefix_iff_eq_take]
  constructor
  · intro h
    apply List.ext_getElem
    · simp only [List.length_take, List.length_ofFn]
      omega
    · intro i hi hi'
      have hj := congrFun h ⟨i, by omega⟩
      rw [putAt_apply, if_pos ⟨Nat.zero_le i, by simpa using hi⟩] at hj
      rw [List.getElem_take, List.getElem_ofFn, ← hj]
      simp [hi]
  · intro h
    funext j
    rw [putAt_apply]
    by_cases hj : (j : ℕ) < cs.length
    · have hgetD : cs.getD (j : ℕ) 0 = cs[(j : ℕ)] := by simp [hj]
      rw [if_pos ⟨Nat.zero_le _, by simpa using hj⟩, Nat.sub_zero, hgetD]
      have hget : cs[(j : ℕ)]? = (List.ofFn l)[(j : ℕ)]? := by
        rw [h, List.getElem?_take, if_pos (by simpa using hj)]
      rw [List.getElem?_eq_getElem hj, List.getElem?_ofFn, dif_pos j.isLt] at hget
      exact Option.some.inj hget
    · rw [if_neg (by omega)]

end Copy

section Setter

variable {b : Board} {k : Keyboard n} {slot : UInt8} {name : Text} {s : Fin n}

theorem goodHead_good : ∀ c ∈ goodHead name, labelChar c := fun c hc => by
  simpa using List.mem_takeWhile_imp hc

theorem flashLabel_slotmapSave (hn : n ≤ 3) (k : Keyboard n) (s : Fin n) :
    flashLabel (slotmapSave b k).page s = k.slotname s := by
  obtain ⟨a, ha⟩ := slotmapSave_eq b k
  rw [ha]
  exact savedPage_slotname b.stack k.toTables hn s

theorem slotname_slotmapSave (k : Keyboard n) : (slotmapSave b k).slotname = k.slotname := by
  obtain ⟨a, ha⟩ := slotmapSave_eq b k
  rw [ha]

/-- The call on a label the loop accepts: its first 11 characters are stored. -/
theorem setName_good (hs : slotAt n slot = some s)
    (h : goodHead name = name ∨ 11 ≤ (goodHead name).length) :
    kbBleSlotSetName b k slot name =
      (slotmapSave b { k with
        slotname := Function.update k.slotname s
          (setAt (putAt (k.slotname s) 0 (name.take 11)) (name.take 11).length 0) }, 0) := by
  have hcopy := copyLabel_good (l := k.slotname s) (Nat.zero_le 11) (by rwa [Nat.zero_add])
  simp only [kbBleSlotSetName, hs, hcopy, Nat.sub_zero, Nat.zero_add, if_true]

/-- The call on a label the loop refuses: what stood before the bad character is in RAM. -/
theorem setName_bad (hs : slotAt n slot = some s) (h : goodHead name ≠ name)
    (hlen : (goodHead name).length < 11) :
    kbBleSlotSetName b k slot name =
      ({ k with
        slotname := Function.update k.slotname s (putAt (k.slotname s) 0 (goodHead name)) },
        -1) := by
  have hcopy := copyLabel_bad (l := k.slotname s) h (by rwa [Nat.zero_add])
  simp only [kbBleSlotSetName, hs, hcopy, Bool.false_eq_true, if_false]

theorem atomic_good (hn : n ≤ 3) (hs : slotAt n slot = some s)
    (h : goodHead name = name ∨ 11 ≤ (goodHead name).length) :
    AtomicLabel b k slot name ↔ goodHead name = name ∧ name.length ≤ 11 := by
  have hset := setName_good (b := b) (k := k) hs h
  have hgood : ∀ c ∈ name.take 11, labelChar c := by
    intro c hc
    rcases h with h | h
    · rw [← h] at hc
      exact goodHead_good c (List.mem_of_mem_take hc)
    · have hpre : name.take 11 <+: goodHead name :=
        List.prefix_of_prefix_length_le (List.take_prefix 11 name) (List.takeWhile_prefix _)
          ((List.length_take_le 11 name).trans h)
      exact goodHead_good c (hpre.subset hc)
  have htext : labelText ((kbBleSlotSetName b k slot name).1.slotname s) = name.take 11 := by
    rw [hset, slotname_slotmapSave]
    simp only [Function.update_self]
    exact labelText_put (fun c hc => ne_zero_of_labelChar (hgood c hc)) (List.length_take_le 11 name)
  have hret : (kbBleSlotSetName b k slot name).2 = 0 := by rw [hset]
  constructor
  · rintro (⟨-, t, ht, hlabel, -⟩ | ⟨hr, -⟩)
    · obtain rfl : s = t := Option.some.inj (hs.symm.trans ht)
      have htake : name.take 11 = name := htext.symm.trans hlabel
      refine ⟨?_, ?_⟩
      · rw [htake] at hgood
        exact List.takeWhile_eq_self_iff.mpr (by simpa using hgood)
      · rw [← htake]
        exact List.length_take_le 11 name
    · rw [hret] at hr
      exact absurd hr (by decide)
  · rintro ⟨-, hlen⟩
    refine Or.inl ⟨hret, s, hs, ?_, ?_, ?_⟩
    · rw [htext, List.take_of_length_le hlen]
    · rw [hset, flashLabel_slotmapSave hn, slotname_slotmapSave]
    · intro t ht
      rw [hset, slotname_slotmapSave]
      exact Function.update_of_ne ht _ _

theorem atomic_bad (hs : slotAt n slot = some s) (h : goodHead name ≠ name)
    (hlen : (goodHead name).length < 11) :
    AtomicLabel b k slot name ↔ goodHead name <+: List.ofFn (k.slotname s) := by
  have hset := setName_bad (b := b) (k := k) hs h hlen
  rw [← putAt_eq_self (by omega)]
  constructor
  · rintro (⟨hr, -⟩ | ⟨-, hname, -⟩)
    · rw [hset] at hr
      simp at hr
    · rw [hset] at hname
      have hat := congrFun hname s
      simpa using hat
  · intro heq
    refine Or.inr ⟨by rw [hset], ?_, by rw [hset]⟩
    rw [hset, heq]
    exact Function.update_eq_self s _

end Setter

/-- The label is stored as a whole or not at all exactly under the condition. -/
theorem label_atomic_iff (b : Board) (k : Keyboard n) (hn : n ≤ 3) (slot : UInt8) (name : Text) :
    AtomicLabel b k slot name ↔ LabelCondition k slot name := by
  unfold LabelCondition
  cases hs : slotAt n slot with
  | none =>
    refine ⟨fun _ => trivial, fun _ => Or.inr ?_⟩
    simp only [kbBleSlotSetName, hs, and_self]
  | some s =>
    by_cases h : goodHead name = name
    · rw [atomic_good hn hs (Or.inl h)]
      simp [h]
    · by_cases hlen : (goodHead name).length < 11
      · rw [atomic_bad hs h hlen]
        simp [h, hlen]
      · rw [atomic_good hn hs (Or.inr (by omega))]
        simp [h, hlen]

theorem label_atomic_pc :
    1 ≤ 3 ∧ (AtomicLabel board (bss erasedPage : Keyboard 1) 0 (ascii ['p', 'c']) ↔
      LabelCondition (bss erasedPage : Keyboard 1) 0 (ascii ['p', 'c'])) :=
  ⟨by decide, label_atomic_iff board (bss erasedPage) (by decide) 0 (ascii ['p', 'c'])⟩

/-- A refused label has changed the one in RAM. -/
theorem refused_label_is_kept :
    (kbBleSlotSetName board (bss erasedPage : Keyboard 1) 0 (ascii ['A', 'B', '!'])).2 = -1 ∧
      labelText ((kbBleSlotSetName board (bss erasedPage : Keyboard 1) 0
        (ascii ['A', 'B', '!'])).1.slotname 0) = ascii ['A', 'B'] ∧
      labelText ((bss erasedPage : Keyboard 1).slotname 0) = [] ∧
      ¬ AtomicLabel board (bss erasedPage : Keyboard 1) 0 (ascii ['A', 'B', '!']) := by
  refine ⟨by decide, by decide, by decide, ?_⟩
  rintro (⟨hr, -⟩ | ⟨-, hname, -⟩)
  · exact absurd hr (by decide)
  · have hat := congrArg (fun f => labelText (f 0)) hname
    exact absurd hat (by decide)

end AtNode.AtCmds
