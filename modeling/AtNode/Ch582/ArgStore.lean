import AtNode.Ch582.AtLine
import AtNode.Ch582.Node

/-!
# Where the CH582 firmware cuts an AT line

`at_process_line` cuts the line in place and stores the addresses of its tokens in `at_argv`. Both
arrays are static: behind the line and behind its `argc` entries they keep what earlier lines left.
An entry is an address in `at_line`, or null.
-/

namespace AtNode.AtCmds

open AtParser CString Strtok

section Cutting

/-- The characters of a line that fit. -/
def received (buf : List UInt8) : List UInt8 := buf.take (atLineMax - 1)

/-- `AT_Poll` has put the line and its null byte over the head of `at_line`. -/
def lineOver (old buf : List UInt8) : List UInt8 :=
  received buf ++ 0 :: old.drop ((received buf).length + 1)

/-- A carriage return at the end of the string becomes its null byte. -/
def stripCr (m : List UInt8) : List UInt8 :=
  let len := (strAt m 0).length
  if 0 < len ∧ m[len - 1]? = some cr then m.set (len - 1) 0 else m

def cutLine (m : List UInt8) : List ℕ × List UInt8 :=
  match strtokR 0x3D m (some 0) with
  | (none, _, m) => ([], m)
  | (some p, none, m) => ([p], m)
  | (some p, some s, m) =>
    if m.getD s 0 ≠ 0 then
      let r := strtokMany 0x2C (atArgvMax - 1) m (some s)
      (p :: r.1, r.2)
    else ([p], m)

/-- `at_process_line` up to the table: the addresses to store, unless the line is empty. -/
def processHead (m : List UInt8) : Option (List ℕ) × List UInt8 :=
  let m := stripCr m
  if strAt m 0 = [] then (none, m) else (some (cutLine m).1, (cutLine m).2)

theorem length_lineOver {old : List UInt8} (h : old.length = atLineMax) (buf : List UInt8) :
    (lineOver old buf).length = atLineMax := by
  have hlen : (received buf).length ≤ atLineMax - 1 := List.length_take_le _ _
  have hmax : atLineMax = 1024 := rfl
  rw [lineOver, List.length_append, List.length_cons, List.length_drop, h]
  omega

theorem length_stripCr (m : List UInt8) : (stripCr m).length = m.length := by
  unfold stripCr
  dsimp only
  split_ifs
  · exact List.length_set
  · rfl

theorem length_cutMany_le (d : UInt8) (k : ℕ) (u : List UInt8) : (cutMany d k u).length ≤ k := by
  induction k generalizing u with
  | zero => exact le_rfl
  | succ k ih =>
    rw [cutMany]
    cases cutString d u with
    | none => exact Nat.zero_le _
    | some c => exact Nat.succ_le_succ (ih c.2)

theorem length_tokenize_le (line : List UInt8) : (tokenize line).length ≤ atArgvMax := by
  unfold tokenize
  cases cutString 0x3D line with
  | none => exact Nat.zero_le _
  | some c => exact Nat.succ_le_succ (length_cutMany_le _ _ _)

theorem cutLine_spec (m : List UInt8) :
    (cutLine m).2.length = m.length ∧
      List.Forall₂ (fun p t => strAt (cutLine m).2 p = t) (cutLine m).1 (tokenize (strAt m 0)) := by
  unfold cutLine tokenize
  cases hc : cutString 0x3D (strAt m 0) with
  | none =>
    rw [strtokR_none (Nat.zero_le _) hc]
    exact ⟨rfl, .nil⟩
  | some c =>
    obtain ⟨p, save, m', hr, hcut⟩ := strtokR_some (by decide) (Nat.zero_le _) hc
    rw [hr]
    dsimp only
    cases save with
    | none =>
      rw [hcut.ended rfl, cutMany_nil]
      exact ⟨hcut.length_eq, .cons hcut.token .nil⟩
    | some s =>
      obtain ⟨hs, hle, hrest⟩ := hcut.behind s rfl
      have hle' : s ≤ m'.length := by
        rw [hcut.length_eq]
        exact hle
      dsimp only
      split_ifs with hend
      · obtain ⟨hlen, htake⟩ := strtokMany_take (d := 0x2C) (by decide) (atArgvMax - 1) hle'
        refine ⟨hlen.trans hcut.length_eq, .cons ?_ ?_⟩
        · rw [strAt_of_take_eq htake.symm, hcut.token]
          rw [hcut.token]
          omega
        · rw [← hrest]
          exact strtokMany_tokens (by decide) (atArgvMax - 1) hle'
      · have hnil : c.2 = [] := by
          rw [← hrest, strAt_eq_nil_iff]
          exact not_not.mp hend
        rw [hnil, cutMany_nil]
        exact ⟨hcut.length_eq, .cons hcut.token .nil⟩

end Cutting

section Line

variable (buf : List UInt8)

theorem strAt_lineOver (old : List UInt8) : strAt (lineOver old buf) 0 = cString (received buf) := by
  rw [strAt, List.drop_zero, lineOver, List.takeWhile_append, cString]
  split_ifs with hlen
  · have hall := (List.takeWhile_prefix (· != 0)).eq_of_length hlen
    simp [hall]
  · rfl

theorem strAt_stripCr (m : List UInt8) :
    strAt (stripCr m) 0 =
      if (strAt m 0).getLast? = some cr then (strAt m 0).dropLast else strAt m 0 := by
  obtain ⟨a, v, ha, hm, hv⟩ := strAt_split m (Nat.zero_le _)
  obtain rfl := List.eq_nil_of_length_eq_zero ha
  set u := strAt m 0 with hu
  have hz : ∀ c ∈ u.dropLast, c ≠ 0 := fun c hc => mem_strAt_ne_zero (List.dropLast_subset _ hc)
  unfold stripCr
  dsimp only
  rw [← hu]
  by_cases hnil : u = []
  · simp [hnil, ← hu]
  have hpos := List.length_pos_of_ne_nil hnil
  have hlast : m[u.length - 1]? = u.getLast? := by
    rw [hm, List.nil_append, List.getElem?_append_left (by omega), List.getLast?_eq_getElem?]
  simp only [hpos, true_and, hlast]
  split_ifs with hcr
  · have hset : m.set (u.length - 1) 0 = [] ++ u.dropLast ++ 0 :: v := by
      have hsplit : m = u.dropLast ++ u.getLast hnil :: v := by
        rw [List.append_cons, List.dropLast_append_getLast hnil]
        simpa using hm
      rw [← List.length_dropLast, hsplit, List.set_append_right _ _ le_rfl, Nat.sub_self]
      rfl
    rw [hset]
    exact strAt_append hz (Or.inr ⟨v, rfl⟩)
  · exact hu.symm

theorem strAt_prepared (old : List UInt8) :
    strAt (stripCr (lineOver old buf)) 0 = (commandLine (received buf)).getD [] := by
  rw [strAt_stripCr, strAt_lineOver, commandLine]
  split_ifs with hcr hnil hnil
  · exact hnil
  · rfl
  · exact hnil
  · rfl

theorem commandLine_ne_nil {buf line : List UInt8} (h : commandLine buf = some line) :
    line ≠ [] := by
  unfold commandLine at h
  dsimp only at h
  generalize (if (cString buf).getLast? = some cr then (cString buf).dropLast else cString buf) = s at h
  split_ifs at h with hs
  obtain rfl := Option.some.inj h
  exact hs

end Line

section Store

/-- `at_line` and `at_argv`. -/
structure ArgStore where
  line : List UInt8
  argv : List (Option ℕ)
  line_length : line.length = atLineMax
  argv_length : argv.length = atArgvMax

def ArgStore.boot : ArgStore where
  line := List.replicate atLineMax 0
  argv := List.replicate atArgvMax none
  line_length := List.length_replicate
  argv_length := List.length_replicate

def ArgStore.arg (s : ArgStore) (i : ℕ) : Option Text := (s.argv.getD i none).map (strAt s.line)

theorem length_processHead (m : List UInt8) : (processHead m).2.length = m.length := by
  unfold processHead
  dsimp only
  split_ifs
  · exact length_stripCr m
  · exact (cutLine_spec _).1.trans (length_stripCr m)

theorem processHead_eq (old buf : List UInt8) :
    (commandLine (received buf) = none ∧ (processHead (lineOver old buf)).1 = none) ∨
      ∃ line ps, commandLine (received buf) = some line ∧
        (processHead (lineOver old buf)).1 = some ps ∧
        List.Forall₂ (fun p t => strAt (processHead (lineOver old buf)).2 p = t) ps
          (tokenize line) := by
  have hstr := strAt_prepared buf old
  unfold processHead
  dsimp only
  cases hline : commandLine (received buf) with
  | none =>
    rw [hline, Option.getD_none] at hstr
    exact Or.inl ⟨rfl, by rw [if_pos hstr]⟩
  | some line =>
    rw [hline, Option.getD_some] at hstr
    have hne : strAt (stripCr (lineOver old buf)) 0 ≠ [] := by
      rw [hstr]
      exact commandLine_ne_nil hline
    refine Or.inr ⟨line, (cutLine (stripCr (lineOver old buf))).1, rfl, by rw [if_neg hne], ?_⟩
    rw [if_neg hne, ← hstr]
    exact (cutLine_spec _).2

/-- The store when the line has been cut. -/
def ArgStore.after (s : ArgStore) (buf : List UInt8) : ArgStore where
  line := (processHead (lineOver s.line buf)).2
  argv := match (processHead (lineOver s.line buf)).1 with
    | none => s.argv
    | some ps => ps.map some ++ s.argv.drop ps.length
  line_length := (length_processHead _).trans (length_lineOver s.line_length buf)
  argv_length := by
    rcases processHead_eq s.line buf with ⟨-, hnone⟩ | ⟨line, ps, -, hsome, htokens⟩
    · simp only [hnone, s.argv_length]
    · have hle := length_tokenize_le line
      rw [← htokens.length_eq] at hle
      simp only [hsome, List.length_append, List.length_map, List.length_drop, s.argv_length]
      omega

theorem arg_after {s : ArgStore} {buf line : List UInt8} {ps : List ℕ}
    (hps : (processHead (lineOver s.line buf)).1 = some ps)
    (htokens : List.Forall₂ (fun p t => strAt (processHead (lineOver s.line buf)).2 p = t) ps
      (tokenize line)) {i : ℕ} (hi : i < ps.length) :
    (s.after buf).arg i = (tokenize line)[i]? := by
  have hmap : ps.map (strAt (processHead (lineOver s.line buf)).2) = tokenize line := by
    rw [← List.forall₂_eq_eq_eq]
    exact List.forall₂_map_left_iff.mpr htokens
  have hargv : (s.after buf).argv = ps.map some ++ s.argv.drop ps.length := by
    simp only [ArgStore.after, hps]
  have hline : (s.after buf).line = (processHead (lineOver s.line buf)).2 := rfl
  rw [ArgStore.arg, hargv, hline, ← hmap]
  simp [List.getD_eq_getElem?_getD, List.getElem?_append_left, hi]

end Store

end AtNode.AtCmds
