import Mathlib.Data.List.Basic
import Mathlib.Data.List.TakeWhile

/-!
# C strings in a memory, and cutting them in place

A memory is a list of bytes, an address an index into it. `strtokR` is the C library's `strtok_r`
with one delimiter: it skips delimiters, overwrites the delimiter after the token with a null byte
and moves the saved pointer behind it; at the end of the string the saved pointer becomes null.
`cutString` is the same on a string that is not in a memory.

A call writes nothing before the end of the token it returns, so the tokens it returned earlier stay
what they were.
-/

namespace AtNode.Strtok

abbrev Bytes := List UInt8

/-- The C string at an address. -/
def strAt (m : Bytes) (p : ℕ) : Bytes := (m.drop p).takeWhile (· != 0)

def strtokR (d : UInt8) (m : Bytes) : Option ℕ → Option ℕ × Option ℕ × Bytes
  | none => (none, none, m)
  | some s =>
    let p := s + ((strAt m s).takeWhile (· == d)).length
    let tok := (strAt m p).takeWhile (· != d)
    if tok = [] then (none, none, m)
    else if m[p + tok.length]? = some d then
      (some p, some (p + tok.length + 1), m.set (p + tok.length) 0)
    else (some p, none, m)

/-- The token at the head of a string, and what is left behind its delimiter. -/
def cutString (d : UInt8) (u : Bytes) : Option (Bytes × Bytes) :=
  match u.dropWhile (· == d) with
  | [] => none
  | t => some (t.takeWhile (· != d), (t.dropWhile (· != d)).tail)

section Strings

theorem takeWhile_eq_of_take_eq {α : Type} {P : α → Bool} {l l' : List α} {k : ℕ}
    (h : l.take k = l'.take k) (hk : (l.takeWhile P).length < k) :
    l'.takeWhile P = l.takeWhile P := by
  induction l generalizing l' k with
  | nil =>
    cases l' with
    | nil => rfl
    | cons b l' =>
      cases k with
      | zero => simp at hk
      | succ k => simp at h
  | cons a l ih =>
    cases k with
    | zero => simp at hk
    | succ k =>
      cases l' with
      | nil => simp at h
      | cons b l' =>
        obtain ⟨rfl, htake⟩ : a = b ∧ l.take k = l'.take k := by simpa using h
        cases hP : P a with
        | false => simp [hP]
        | true =>
          rw [List.takeWhile_cons_of_pos hP] at hk ⊢
          rw [List.takeWhile_cons_of_pos hP, ih htake (by simpa using hk)]

/-- A string that ends before `k` is the same in each memory with the same first `k` bytes. -/
theorem strAt_of_take_eq {m m' : Bytes} {p k : ℕ} (h : m.take k = m'.take k)
    (hk : p + (strAt m p).length < k) : strAt m' p = strAt m p := by
  apply takeWhile_eq_of_take_eq (k := k - p)
  · rw [← List.drop_take, ← List.drop_take, h]
  · change (strAt m p).length < k - p
    omega

theorem mem_strAt_ne_zero {m : Bytes} {p : ℕ} {c : UInt8} (h : c ∈ strAt m p) : c ≠ 0 := by
  simpa using List.mem_takeWhile_imp h

/-- A string in a memory: its bytes, then the null byte or the end. -/
theorem strAt_split (m : Bytes) {p : ℕ} (hp : p ≤ m.length) :
    ∃ a v, a.length = p ∧ m = a ++ strAt m p ++ v ∧ (v = [] ∨ ∃ v', v = 0 :: v') := by
  refine ⟨m.take p, (m.drop p).dropWhile (· != 0), by simp [hp], ?_, ?_⟩
  · rw [strAt, List.append_assoc, List.takeWhile_append_dropWhile, List.take_append_drop]
  · cases hv : (m.drop p).dropWhile (· != 0) with
    | nil => exact Or.inl rfl
    | cons c v' =>
      have hc := List.head?_dropWhile_not (· != 0) (m.drop p)
      rw [hv] at hc
      have hc0 : c = 0 := by simpa using hc
      exact Or.inr ⟨v', by rw [hc0]⟩

theorem strAt_append {a u v : Bytes} (hu : ∀ c ∈ u, c ≠ 0) (hv : v = [] ∨ ∃ v', v = 0 :: v') :
    strAt (a ++ u ++ v) a.length = u := by
  have hdrop : (a ++ u ++ v).drop a.length = u ++ v := by
    rw [List.append_assoc, List.drop_left]
  rw [strAt, hdrop, List.takeWhile_append_of_pos (by simpa using hu)]
  rcases hv with rfl | ⟨v', rfl⟩ <;> simp

theorem strAt_eq_nil_iff {m : Bytes} {p : ℕ} : strAt m p = [] ↔ m.getD p 0 = 0 := by
  rw [strAt, List.getD_eq_getElem?_getD, ← List.head?_drop]
  cases m.drop p with
  | nil => simp
  | cons c v =>
    by_cases hc : c = 0
    · simp [hc]
    · simp [hc]

end Strings

section Cutting

variable {d : UInt8} {m : Bytes}

/-- What a call finds and leaves, when the string at `s` has a token. -/
structure Cut (d : UInt8) (m : Bytes) (s : ℕ) (tok rest : Bytes) (p : ℕ) (save : Option ℕ)
    (m' : Bytes) : Prop where
  le : s ≤ p
  length_eq : m'.length = m.length
  take_eq : m'.take (p + tok.length) = m.take (p + tok.length)
  token : strAt m' p = tok
  behind : ∀ s', save = some s' → s' = p + tok.length + 1 ∧ s' ≤ m.length ∧ strAt m' s' = rest
  ended : save = none → rest = []

theorem Cut.take_start {s : ℕ} {tok rest : Bytes} {p : ℕ} {save : Option ℕ} {m' : Bytes}
    (h : Cut d m s tok rest p save m') : m'.take s = m.take s := by
  have htake := congrArg (List.take s) h.take_eq
  rwa [List.take_take, List.take_take, min_eq_left (h.le.trans (Nat.le_add_right p _))] at htake

theorem strtokR_none {s : ℕ} (hs : s ≤ m.length) (h : cutString d (strAt m s) = none) :
    strtokR d m (some s) = (none, none, m) := by
  obtain ⟨a, v, ha, hm, hv⟩ := strAt_split m hs
  have hw : (strAt m s).dropWhile (· == d) = [] := by
    unfold cutString at h
    cases hw : (strAt m s).dropWhile (· == d) with
    | nil => rfl
    | cons c w => simp [hw] at h
  have hall : (strAt m s).takeWhile (· == d) = strAt m s := by
    have happ := List.takeWhile_append_dropWhile (p := (· == d)) (l := strAt m s)
    rwa [hw, List.append_nil] at happ
  have hp : strAt m (s + ((strAt m s).takeWhile (· == d)).length) = [] := by
    have hend := strAt_append (a := a ++ strAt m s) (u := []) (by simp) hv
    rw [List.append_nil, ← hm, List.length_append, ha] at hend
    rwa [hall]
  simp only [strtokR, hp, List.takeWhile_nil, if_true]

theorem strtokR_some {s : ℕ} {tok rest : Bytes} (hd : d ≠ 0) (hs : s ≤ m.length)
    (h : cutString d (strAt m s) = some (tok, rest)) :
    ∃ p save m', strtokR d m (some s) = (some p, save, m') ∧ Cut d m s tok rest p save m' := by
  obtain ⟨a, v, ha, hm, hv⟩ := strAt_split m hs
  have hu : ∀ c ∈ strAt m s, c ≠ 0 := fun c hc => mem_strAt_ne_zero hc
  set ds := (strAt m s).takeWhile (· == d) with hds
  set w := (strAt m s).dropWhile (· == d) with hw
  have hdw : strAt m s = ds ++ w := (List.takeWhile_append_dropWhile ..).symm
  have hne : w ≠ [] := by
    intro hnil
    simp [cutString, ← hw, hnil] at h
  obtain ⟨rfl, rfl⟩ : w.takeWhile (· != d) = tok ∧ (w.dropWhile (· != d)).tail = rest := by
    unfold cutString at h
    rw [← hw] at h
    cases hcw : w with
    | nil => exact absurd hcw hne
    | cons c w' => simpa [hcw] using h
  have hwz : ∀ c ∈ w, c ≠ 0 := fun c hc => hu c (hdw ▸ List.mem_append_right ds hc)
  have hmw : m = (a ++ ds) ++ w ++ v := by rw [hm, hdw]; simp
  have hlen : (a ++ ds).length = s + ds.length := by rw [List.length_append, ha]
  have hstr : strAt m (s + ds.length) = w := by
    have hat := strAt_append (a := a ++ ds) hwz hv
    rwa [← hmw, hlen] at hat
  set tok := w.takeWhile (· != d) with htok
  have htr : w = tok ++ w.dropWhile (· != d) := (List.takeWhile_append_dropWhile ..).symm
  have htne : tok ≠ [] := by
    have hhead := List.head?_dropWhile_not (· == d) (strAt m s)
    rw [← hw] at hhead
    cases hcw : w with
    | nil => exact absurd hcw hne
    | cons c w' =>
      have hc : c ≠ d := by simpa [hcw] using hhead
      simp [htok, hcw, hc]
  have htz : ∀ c ∈ tok, c ≠ 0 := fun c hc => hwz c ((List.takeWhile_subset _) hc)
  have hpl : (a ++ ds ++ tok).length = s + ds.length + tok.length := by
    rw [List.length_append, hlen]
  cases hr : w.dropWhile (· != d) with
  | nil =>
    -- the token reaches the end of the string
    have hwt : w = tok := by rw [htr, hr, List.append_nil]
    have hget : m[s + ds.length + tok.length]? ≠ some d := by
      rw [hmw, hwt, ← hpl, List.getElem?_append_right (le_refl _), Nat.sub_self]
      rcases hv with rfl | ⟨v', rfl⟩
      · simp
      · simpa using Ne.symm hd
    refine ⟨s + ds.length, none, m, ?_, ?_⟩
    · simp only [strtokR, ← hds, hstr, ← htok, if_neg htne, if_neg hget]
    · exact ⟨Nat.le_add_right s _, rfl, rfl, by rw [hstr, hwt], by simp, fun _ => rfl⟩
  | cons c r =>
    have hc : c = d := by
      have hhead := List.head?_dropWhile_not (· != d) w
      rw [hr] at hhead
      simpa using hhead
    subst hc
    have hmt : m = (a ++ ds ++ tok) ++ c :: (r ++ v) := by
      rw [hmw, htr, hr]
      simp
    have hget : m[s + ds.length + tok.length]? = some c := by
      rw [hmt, ← hpl, List.getElem?_append_right (le_refl _), Nat.sub_self]
      rfl
    have hset : m.set (s + ds.length + tok.length) 0 = (a ++ ds) ++ tok ++ 0 :: (r ++ v) := by
      rw [hmt, ← hpl, List.set_append_right _ _ (le_refl _), Nat.sub_self]
      rfl
    refine ⟨s + ds.length, some (s + ds.length + tok.length + 1),
      m.set (s + ds.length + tok.length) 0, ?_, ?_⟩
    · simp only [strtokR, ← hds, hstr, ← htok, if_neg htne, if_pos hget]
    · constructor
      case le => exact Nat.le_add_right s _
      case length_eq => rw [List.length_set]
      case take_eq => rw [hset, hmt, ← hpl, List.take_left, List.take_left]
      case token =>
        rw [hset, ← hlen]
        exact strAt_append htz (Or.inr ⟨_, rfl⟩)
      case behind =>
        intro s' hs'
        obtain rfl : s + ds.length + tok.length + 1 = s' := by simpa using hs'
        refine ⟨rfl, ?_, ?_⟩
        · rw [hmt, List.length_append, hpl, List.length_cons]
          omega
        · have hrz : ∀ b ∈ r, b ≠ 0 := by
            intro b hb
            apply hwz b
            rw [htr, hr]
            exact List.mem_append_right _ (List.mem_cons_of_mem _ hb)
          have hat := strAt_append (a := a ++ ds ++ tok ++ [0]) hrz hv
          rw [List.length_append, hpl] at hat
          rw [hset]
          simpa using hat
      case ended => simp

end Cutting

section Loop

variable {d : UInt8} {m : Bytes}

/-- The tokens of a string, up to `k` of them. -/
def cutMany (d : UInt8) : ℕ → Bytes → List Bytes
  | 0, _ => []
  | k + 1, u =>
    match cutString d u with
    | none => []
    | some (tok, rest) => tok :: cutMany d k rest

/-- The loop that stores up to `k` token addresses; when it is full it has cut one more. -/
def strtokMany (d : UInt8) : ℕ → Bytes → Option ℕ → List ℕ × Bytes
  | 0, m, save => ([], (strtokR d m save).2.2)
  | k + 1, m, save =>
    match strtokR d m save with
    | (none, _, m') => ([], m')
    | (some p, save', m') => (p :: (strtokMany d k m' save').1, (strtokMany d k m' save').2)

@[simp] theorem strtokMany_null (k : ℕ) (m : Bytes) : strtokMany d k m none = ([], m) := by
  cases k <;> rfl

@[simp] theorem cutMany_nil (k : ℕ) : cutMany d k [] = [] := by
  cases k <;> rfl

/-- The loop writes nothing before the address it starts from. -/
theorem strtokMany_take (hd : d ≠ 0) (k : ℕ) {s : ℕ} (hs : s ≤ m.length) :
    (strtokMany d k m (some s)).2.length = m.length ∧
      (strtokMany d k m (some s)).2.take s = m.take s := by
  induction k generalizing m s with
  | zero =>
    cases hc : cutString d (strAt m s) with
    | none => simp [strtokMany, strtokR_none hs hc]
    | some c =>
      obtain ⟨p, save, m', hr, hcut⟩ := strtokR_some hd hs hc
      simpa only [strtokMany, hr] using ⟨hcut.length_eq, hcut.take_start⟩
  | succ k ih =>
    cases hc : cutString d (strAt m s) with
    | none => simp [strtokMany, strtokR_none hs hc]
    | some c =>
      obtain ⟨p, save, m', hr, hcut⟩ := strtokR_some hd hs hc
      simp only [strtokMany, hr]
      cases save with
      | none =>
        rw [strtokMany_null]
        exact ⟨hcut.length_eq, hcut.take_start⟩
      | some s' =>
        obtain ⟨hs', hle', -⟩ := hcut.behind s' rfl
        obtain ⟨hlen, hrest⟩ := ih (m := m') (s := s') (by rw [hcut.length_eq]; exact hle')
        have hle := hcut.le
        have hrest' := congrArg (List.take s) hrest
        rw [List.take_take, List.take_take, min_eq_left (by omega)] at hrest'
        exact ⟨hlen.trans hcut.length_eq, hrest'.trans hcut.take_start⟩

/-- The addresses the loop stores hold the tokens of the string, in the memory it leaves. -/
theorem strtokMany_tokens (hd : d ≠ 0) (k : ℕ) {s : ℕ} (hs : s ≤ m.length) :
    List.Forall₂ (fun p t => strAt (strtokMany d k m (some s)).2 p = t)
      (strtokMany d k m (some s)).1 (cutMany d k (strAt m s)) := by
  induction k generalizing m s with
  | zero => exact List.Forall₂.nil
  | succ k ih =>
    cases hc : cutString d (strAt m s) with
    | none => simp [strtokMany, cutMany, strtokR_none hs hc, hc]
    | some c =>
      obtain ⟨p, save, m', hr, hcut⟩ := strtokR_some hd hs hc
      simp only [strtokMany, cutMany, hr, hc]
      cases save with
      | none =>
        have hrest : c.2 = [] := hcut.ended rfl
        rw [strtokMany_null, hrest, cutMany_nil]
        exact List.Forall₂.cons hcut.token List.Forall₂.nil
      | some s' =>
        obtain ⟨hs', hle, hstr⟩ := hcut.behind s' rfl
        have hle' : s' ≤ m'.length := by
          rw [hcut.length_eq]
          exact hle
        apply List.Forall₂.cons
        · rw [strAt_of_take_eq (strtokMany_take hd k hle').2.symm, hcut.token]
          rw [hcut.token]
          omega
        · rw [← hstr]
          exact ih hle'

end Loop

end AtNode.Strtok
