import AtNode.Arduino.ArduinoString
import AtNode.Lib.BootKeyboard
import AtNode.Lib.CString

/-!
# Key reports of the Arduino firmware

The state of the keys is one report of the boot keyboard, and `send_report` sends it as it is. A tap
presses one key and puts the state back. `AT+KEY` fills the state from its argument: the modifiers are
read from the whole list, and then six times the text up to the first comma, which is dropped if the
comma is not the first character.
-/

namespace AtNode.ArduinoKeys

open CString Hid
open ArduinoString

section Source

structure Board where
  keyState : Report
  /-- The reports that were sent, the oldest first. -/
  sent : List Report

def Board.sendReport (b : Board) : Board := { b with sent := b.sent ++ [b.keyState] }

/-- The first slot takes the key and the others are cleared, whatever was held before. -/
def Board.keyTap (b : Board) (mods k : UInt8) : Board :=
  let pressed := { b with keyState := .press (b.keyState.mods ||| mods) k }.sendReport
  { pressed with keyState := b.keyState }.sendReport

def parseUint8 (s : Str) : UInt8 := if s.length = 0 then 0 else (strtoul s).toUInt8

abbrev comma : UInt8 := 0x2C

def keyLoop : ℕ → Str → List UInt8
  | 0, _ => []
  | n + 1, args =>
    match indexOfChar args comma 0 with
    | some i =>
      if 0 < i then parseUint8 (substring args 0 i) :: keyLoop n (args.drop (i + 1))
      else parseUint8 args :: keyLoop n args
    | none => parseUint8 args :: keyLoop n args

theorem length_keyLoop (n : ℕ) (args : Str) : (keyLoop n args).length = n := by
  induction n generalizing args with
  | zero => rfl
  | succ n ih =>
    rw [keyLoop]
    cases indexOfChar args comma 0 with
    | none => exact congrArg (· + 1) (ih args)
    | some i =>
      dsimp only
      split_ifs
      · exact congrArg (· + 1) (ih _)
      · exact congrArg (· + 1) (ih args)

def atKey (args : Str) (b : Board) : Board :=
  { b with keyState := ⟨parseUint8 args, ⟨(keyLoop 6 args).toArray, by simp [length_keyLoop]⟩⟩ }.sendReport

end Source

section Lists

/-- An argument of `AT+KEY`: the modifiers and up to six key codes, each a text without a comma. -/
structure KeyArgs where
  mods : Str
  codes : List Str
  mods_plain : comma ∉ mods
  codes_plain : ∀ c ∈ codes, comma ∉ c
  atMostSix : codes.length ≤ 6

def join : Str → List Str → Str
  | f, [] => f
  | f, g :: fs => f ++ comma :: join g fs

def KeyArgs.text (a : KeyArgs) : Str := join a.mods a.codes

/-- The given key codes in order, followed by zeros. -/
def KeyArgs.positions (a : KeyArgs) : List UInt8 :=
  a.codes.map parseUint8 ++ List.replicate (6 - a.codes.length) 0

variable {f g : Str} {fs : List Str} {n : ℕ}

theorem parseUint8_append (f t : Str) : parseUint8 (f ++ comma :: t) = parseUint8 f := by
  rw [parseUint8, if_neg (by simp), strtoul_append separator_comma, parseUint8]
  split_ifs with h
  · rw [List.length_eq_zero_iff.mp h]
    rfl
  · rfl

theorem parseUint8_join (f : Str) (fs : List Str) : parseUint8 (join f fs) = parseUint8 f := by
  cases fs with
  | nil => rfl
  | cons g fs => exact parseUint8_append f (join g fs)

/-- The last field is read for every position that is left. -/
theorem keyLoop_last (hf : comma ∉ f) (n : ℕ) : keyLoop n f = List.replicate n (parseUint8 f) := by
  have hindex : indexOfChar f comma 0 = none :=
    indexOfChar_hidden fun h => hf ((cStr_prefix_self f).subset h)
  induction n with
  | zero => rfl
  | succ n ih =>
    rw [keyLoop, hindex, List.replicate_succ]
    exact congrArg _ ih

/-- An empty field is never left, and neither is one with a zero byte, which hides the comma. -/
theorem keyLoop_stuck (hf : comma ∉ f) (hstuck : f = [] ∨ 0 ∈ f) (t : Str) (n : ℕ) :
    keyLoop n (f ++ comma :: t) = List.replicate n (parseUint8 f) := by
  have hindex : indexOfChar (f ++ comma :: t) comma 0 = none ∨
      indexOfChar (f ++ comma :: t) comma 0 = some 0 := by
    rcases hstuck with rfl | hzero
    · exact Or.inr (indexOfChar_append hf List.not_mem_nil (by decide) t)
    · refine Or.inl (indexOfChar_hidden ?_)
      rw [cStr_append_of_mem hzero]
      exact fun h => hf ((cStr_prefix_self f).subset h)
  induction n with
  | zero => rfl
  | succ n ih =>
    rw [keyLoop, List.replicate_succ, ← ih, ← parseUint8_append f t]
    rcases hindex with h | h
    · rw [h]
    · rw [h]
      rfl

theorem keyLoop_append (hf : comma ∉ f) (hne : f ≠ []) (hzero : 0 ∉ f) (t : Str) (n : ℕ) :
    keyLoop (n + 1) (f ++ comma :: t) = parseUint8 f :: keyLoop n t := by
  rw [keyLoop, indexOfChar_append hf hzero (by decide)]
  dsimp only
  rw [if_pos (List.length_pos_iff.mpr hne), substring, List.drop_zero, List.take_left,
    List.drop_length_add_append]
  rfl

theorem replicate_eq_codes_iff {v : UInt8} (hn : fs.length ≤ n) :
    List.replicate n v = fs.map parseUint8 ++ List.replicate (n - fs.length) 0 ↔
      (∀ g ∈ fs, parseUint8 g = v) ∧ (fs.length = n ∨ v = 0) := by
  have hlen : (fs.map parseUint8 ++ List.replicate (n - fs.length) 0).length = n := by
    rw [List.length_append, List.length_map, List.length_replicate, Nat.add_sub_cancel' hn]
  rw [eq_comm, List.eq_replicate_iff, and_iff_right hlen, List.forall_mem_append,
    List.forall_mem_map]
  refine and_congr_right fun _ => ?_
  constructor
  · intro hzero
    rcases Nat.eq_or_lt_of_le hn with heq | hlt
    · exact Or.inl heq
    · exact Or.inr (hzero 0 (List.mem_replicate.mpr ⟨by omega, rfl⟩)).symm
  · rintro (heq | rfl) b hb
    · rw [heq, Nat.sub_self] at hb
      exact absurd hb List.not_mem_nil
    · exact List.eq_of_mem_replicate hb

/-- The walk begins with the modifiers, so the positions are right only where this is not seen. -/
theorem keyLoop_join_iff (hf : comma ∉ f) (hfs : ∀ g ∈ fs, comma ∉ g) (hn : fs.length ≤ n) :
    keyLoop n (join f fs) = fs.map parseUint8 ++ List.replicate (n - fs.length) 0 ↔
      (∀ g ∈ fs, parseUint8 g = parseUint8 f) ∧ (fs.length = n ∨ parseUint8 f = 0) := by
  induction fs generalizing f n with
  | nil =>
    rw [join, keyLoop_last hf]
    exact replicate_eq_codes_iff hn
  | cons g fs ih =>
    obtain ⟨hg, hfs⟩ := List.forall_mem_cons.mp hfs
    cases n with
    | zero => exact absurd hn (by simp)
    | succ n =>
      by_cases hstuck : f = [] ∨ 0 ∈ f
      · rw [join, keyLoop_stuck hf hstuck]
        exact replicate_eq_codes_iff hn
      · obtain ⟨hne, hzero⟩ := not_or.mp hstuck
        rw [List.length_cons] at hn
        rw [join, List.map_cons, List.cons_append, List.length_cons, Nat.add_sub_add_right,
          keyLoop_append hf hne hzero, List.cons.injEq, ih hg hfs (Nat.le_of_succ_le_succ hn),
          List.forall_mem_cons, Nat.add_right_cancel_iff]
        constructor
        · rintro ⟨hfg, hall, hend⟩
          rw [hfg]
          exact ⟨⟨rfl, hall⟩, hend⟩
        · rintro ⟨⟨hgf, hall⟩, hend⟩
          rw [hgf]
          exact ⟨rfl, hall, hend⟩

end Lists

section Reports

variable (a : KeyArgs)

def KeyArgs.report : Report :=
  ⟨parseUint8 a.mods, ⟨a.positions.toArray, by
    have := a.atMostSix
    simp [KeyArgs.positions]
    omega⟩⟩

theorem atKey_sent (args : Str) (b : Board) :
    (atKey args b).sent = b.sent ++
      [⟨parseUint8 args, ⟨(keyLoop 6 args).toArray, by simp [length_keyLoop]⟩⟩] := rfl

/-- The report carries the argument exactly when all codes are the modifiers again, and these are
zero unless six codes are given. -/
theorem key_report_iff (b : Board) :
    (atKey a.text b).sent = b.sent ++ [a.report] ↔
      (∀ c ∈ a.codes, parseUint8 c = parseUint8 a.mods) ∧
        (a.codes.length = 6 ∨ parseUint8 a.mods = 0) := by
  have hwalk := keyLoop_join_iff a.mods_plain a.codes_plain a.atMostSix
  rw [atKey_sent, List.append_cancel_left_eq, ← hwalk, KeyArgs.text, KeyArgs.report]
  simp only [parseUint8_join, List.cons.injEq, and_true, Report.mk.injEq, true_and,
    Vector.mk.injEq, List.toArray_eq_toArray_eq, KeyArgs.positions]

def keyA : KeyArgs :=
  ⟨ascii "0", [ascii "4"], by decide, by decide, by decide⟩

theorem one_key_repeated :
    (atKey keyA.text ⟨.rest, []⟩).sent = [⟨0, #v[0, 4, 4, 4, 4, 4]⟩] ∧
      keyA.report = ⟨0, #v[4, 0, 0, 0, 0, 0]⟩ ∧
      (atKey keyA.text ⟨.rest, []⟩).sent ≠ (⟨.rest, []⟩ : Board).sent ++ [keyA.report] := by
  decide

end Reports

end AtNode.ArduinoKeys
