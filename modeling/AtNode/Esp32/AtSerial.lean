import Mathlib.Data.List.DropRight
import Mathlib.Data.List.Infix
import AtNode.Lib.Lines
import AtNode.Lib.Run
import AtNode.Lib.Utf8

/-!
# The serial AT console of the ESP32 firmware

`serial_task` reads the port byte by byte. It edits a line in a buffer of 300 bytes and hands it to
the command interpreter at a carriage return or a line feed. A byte that finds the buffer full
empties it, so what follows on the same line is taken for a line of its own.

The text of a line is what editing leaves of the bytes between two terminators; a Ctrl-C starts it
over. A line fits when its text is never longer than the buffer. The lines that should be executed
are the texts of those that fit, without the blanks at their end, where that is a text at all.
-/

namespace AtNode.AtSerial

abbrev lineMax : ℕ := 300

abbrev ctrlC : UInt8 := 0x03

abbrev backspace : UInt8 := 0x08

abbrev delete : UInt8 := 0x7F

abbrev lf : UInt8 := 0x0A

abbrev cr : UInt8 := 0x0D

abbrev blank : UInt8 := 0x20

abbrev tab : UInt8 := 0x09

section Task

/-- What the task does to the outside: it writes to the port, or it calls `handle_line`. -/
inductive Action where
  | write (out : List UInt8)
  | handleLine (line : List Char)
  deriving DecidableEq

structure Console where
  line : List UInt8
  skipLf : Bool
  actions : List Action

def banner : List UInt8 := "AT-Node rust-s3 ready, AT+HELP for cmds".toList.map Char.toUInt8

def init : Console := ⟨[], false, [.write banner, .write [cr, lf]]⟩

def trim (line : List UInt8) : List UInt8 := line.rdropWhile fun c => c = blank ∨ c = tab

/-- The line that is handed over: what is left of it, if anything is and it is UTF-8. -/
def command (line : List UInt8) : Option (List Char) :=
  if trim line = [] then none else Utf8.decode (trim line)

def execute (s : Console) : Console :=
  { s with
    line := []
    actions := s.actions ++ .write [cr, lf] :: ((command s.line).map Action.handleLine).toList }

/-- The part of the loop body behind the terminators. -/
def edit (s : Console) (c : UInt8) : Console :=
  if c = backspace ∨ c = delete then
    if s.line = [] then s
    else { s with line := s.line.dropLast, actions := s.actions ++ [.write [backspace, blank, backspace]] }
  else if c < 0x20 then s
  else if s.line.length < lineMax then
    { s with line := s.line ++ [c], actions := s.actions ++ [.write [c]] }
  else { s with line := [] }

def step (s : Console) (c : UInt8) : Console :=
  if c = ctrlC then
    { line := [], skipLf := false,
      actions := s.actions ++ [.write [0x5E, 0x43], .write [cr, lf]] }
  else if c = cr ∨ c = lf then
    if c = lf ∧ s.skipLf then { s with skipLf := false }
    else execute { s with skipLf := c = cr }
  else edit { s with skipLf := false } c

def handled : List Action → List (List Char) := List.filterMap fun
  | .handleLine line => some line
  | .write _ => none

/-- The lines handed to the command interpreter. -/
def executed (input : List UInt8) : List (List Char) := handled (Run.final step init input).actions

end Task

section Spec

/-- Editing without a limit. -/
def editByte (text : List UInt8) (c : UInt8) : List UInt8 :=
  if c = ctrlC then []
  else if c = backspace ∨ c = delete then text.dropLast
  else if c < 0x20 then text
  else text ++ [c]

def text (seg : List UInt8) : List UInt8 := seg.foldl editByte []

/-- The segments between terminators; a carriage return ends a line as a line feed does. -/
def endLine (c : UInt8) : UInt8 := if c = cr then lf else c

def segments (input : List UInt8) : List (List UInt8) := lines lf (input.map endLine)

/-- What is typed behind the last Ctrl-C. -/
def typed (seg : List UInt8) : List UInt8 := seg.rtakeWhile (· ≠ ctrlC)

/-- The text is never longer than the buffer. -/
def Fits (seg : List UInt8) : Prop := ∀ p ∈ (typed seg).inits, (text p).length ≤ lineMax

instance (seg : List UInt8) : Decidable (Fits seg) := inferInstanceAs (Decidable (∀ p ∈ _, _))

/-- A piece of a segment ends behind a byte that takes its text over the size of the buffer. -/
def pieceByte (piece : List UInt8) (c : UInt8) : List UInt8 :=
  if lineMax < (text (piece ++ [c])).length then [] else piece ++ [c]

/-- The last piece of a segment. -/
def lastPiece (seg : List UInt8) : List UInt8 := seg.foldl pieceByte []

/-- The lines that should be executed. -/
def intended (input : List UInt8) : List (List Char) :=
  ((segments input).filter fun seg => Fits seg).filterMap fun seg => command (text seg)

end Spec

section Laws

variable {seg piece : List UInt8} {c : UInt8}

theorem text_snoc (seg : List UInt8) (c : UInt8) : text (seg ++ [c]) = editByte (text seg) c :=
  List.foldl_concat _ _ _ _

theorem lastPiece_snoc (seg : List UInt8) (c : UInt8) :
    lastPiece (seg ++ [c]) = pieceByte (lastPiece seg) c := List.foldl_concat _ _ _ _

theorem length_text_pieceByte (piece : List UInt8) (c : UInt8) :
    (text (pieceByte piece c)).length ≤ lineMax := by
  unfold pieceByte
  split
  · exact Nat.zero_le _
  · rename_i h
    exact Nat.le_of_not_lt h

theorem length_text_lastPiece (seg : List UInt8) : (text (lastPiece seg)).length ≤ lineMax := by
  induction seg using List.reverseRecOn with
  | nil => exact Nat.zero_le _
  | append_singleton seg c _ =>
    rw [lastPiece_snoc]
    exact length_text_pieceByte _ _

theorem text_pieceByte_of_le (h : (editByte (text piece) c).length ≤ lineMax) :
    text (pieceByte piece c) = editByte (text piece) c := by
  rw [pieceByte, text_snoc, if_neg (Nat.not_lt.mpr h), text_snoc]

theorem typed_snoc_ctrlC (seg : List UInt8) : typed (seg ++ [ctrlC]) = [] :=
  List.rtakeWhile_concat_neg _ _ _ (by simp)

theorem typed_snoc (seg : List UInt8) (h : c ≠ ctrlC) : typed (seg ++ [c]) = typed seg ++ [c] :=
  List.rtakeWhile_concat_pos _ _ _ (by simpa using h)

theorem text_typed (seg : List UInt8) : text (typed seg) = text seg := by
  induction seg using List.reverseRecOn with
  | nil => rfl
  | append_singleton seg c ih =>
    by_cases hc : c = ctrlC
    · rw [hc, typed_snoc_ctrlC, text_snoc]
      rfl
    · rw [typed_snoc seg hc, text_snoc, text_snoc, ih]

theorem fits_of_snoc (hc : c ≠ ctrlC) (h : Fits (seg ++ [c])) :
    Fits seg ∧ (editByte (text seg) c).length ≤ lineMax := by
  unfold Fits at h
  rw [typed_snoc seg hc] at h
  constructor
  · intro p hp
    have hfront := (List.mem_inits p _).mp hp
    exact h p ((List.mem_inits _ _).mpr (hfront.trans (List.prefix_append _ _)))
  · have hall := h _ ((List.mem_inits _ _).mpr List.prefix_rfl)
    rwa [text_snoc, text_typed] at hall

theorem Fits.text_lastPiece (h : Fits seg) : text (lastPiece seg) = text seg := by
  induction seg using List.reverseRecOn with
  | nil => rfl
  | append_singleton seg c ih =>
    rw [lastPiece_snoc, text_snoc]
    by_cases hc : c = ctrlC
    · subst hc
      rw [text_pieceByte_of_le (Nat.zero_le _)]
      rfl
    · obtain ⟨hfits, hlen⟩ := fits_of_snoc hc h
      rw [text_pieceByte_of_le (by rwa [ih hfits]), ih hfits]

theorem text_pieceByte (piece : List UInt8) (c : UInt8) :
    text (pieceByte piece c) =
      if lineMax < (editByte (text piece) c).length then [] else editByte (text piece) c := by
  rw [pieceByte, text_snoc, apply_ite text, text_snoc]
  rfl

/-- What the loop body does with a byte that ends no line, on the text of a piece. -/
theorem line_edit (s : Console) (hc : c ≠ ctrlC) (hs : s.line = text piece)
    (hlen : (text piece).length ≤ lineMax) :
    (edit s c).line = text (pieceByte piece c) ∧ handled (edit s c).actions = handled s.actions := by
  rw [text_pieceByte, ← hs] at *
  unfold edit editByte
  rw [if_neg hc]
  by_cases hdel : c = backspace ∨ c = delete
  · have hle : ¬ lineMax < s.line.dropLast.length := by
      rw [List.length_dropLast]
      omega
    rw [if_pos hdel, if_pos hdel, if_neg hle]
    by_cases hnil : s.line = []
    · rw [if_pos hnil, hnil]
      exact ⟨rfl, rfl⟩
    · rw [if_neg hnil]
      exact ⟨rfl, by simp [handled]⟩
  · rw [if_neg hdel, if_neg hdel]
    by_cases hctl : c < 0x20
    · rw [if_pos hctl, if_pos hctl, if_neg (Nat.not_lt.mpr hlen)]
      exact ⟨rfl, rfl⟩
    · rw [if_neg hctl, if_neg hctl, List.length_append, List.length_singleton]
      by_cases hroom : s.line.length < lineMax
      · rw [if_pos hroom, if_neg (by omega)]
        exact ⟨rfl, by simp [handled]⟩
      · rw [if_neg hroom, if_pos (by omega)]
        exact ⟨rfl, rfl⟩

theorem skipLf_edit (s : Console) (c : UInt8) : (edit s c).skipLf = s.skipLf := by
  unfold edit
  split_ifs <;> rfl

/-- The console after some input: the buffer has the text of the last piece of the line that is not
finished, and the last pieces of the finished lines have been handed over. -/
structure Follows (input : List UInt8) (s : Console) : Prop where
  line_eq : s.line = text (lastPiece (unfinished lf (input.map endLine)))
  skip : s.skipLf → unfinished lf (input.map endLine) = []
  handled_eq : handled s.actions =
    (segments input).filterMap fun seg => command (text (lastPiece seg))

theorem follows_init : Follows [] init := ⟨rfl, fun _ => rfl, rfl⟩

theorem segments_snoc_end (input : List UInt8) (hc : endLine c = lf) :
    segments (input ++ [c]) = segments input ++ [unfinished lf (input.map endLine)] ∧
      unfinished lf ((input ++ [c]).map endLine) = [] := by
  unfold segments
  rw [List.map_append, List.map_singleton, hc]
  exact ⟨lines_snoc_nl _, unfinished_snoc_nl _⟩

theorem segments_snoc (input : List UInt8) (hc : ¬ (c = cr ∨ c = lf)) :
    segments (input ++ [c]) = segments input ∧
      unfinished lf ((input ++ [c]).map endLine) = unfinished lf (input.map endLine) ++ [c] := by
  have hcr : c ≠ cr := fun h => hc (Or.inl h)
  have hlf : c ≠ lf := fun h => hc (Or.inr h)
  unfold segments
  rw [List.map_append, List.map_singleton, endLine, if_neg hcr]
  exact ⟨lines_snoc_ne _ hlf, unfinished_snoc_ne _ hlf⟩

theorem follows_step {input : List UInt8} {s : Console} (h : Follows input s) (c : UInt8) :
    Follows (input ++ [c]) (step s c) := by
  unfold step
  by_cases hctl : c = ctrlC
  · subst hctl
    obtain ⟨hseg, hun⟩ := segments_snoc input (c := ctrlC) (by decide)
    rw [if_pos rfl]
    refine ⟨?_, nofun, ?_⟩
    · rw [hun, lastPiece_snoc, text_pieceByte_of_le (Nat.zero_le _)]
      rfl
    · rw [hseg, ← h.handled_eq]
      simp [handled]
  rw [if_neg hctl]
  by_cases hend : c = cr ∨ c = lf
  · have hlf : endLine c = lf := by
      rcases hend with rfl | rfl <;> rfl
    obtain ⟨hseg, hun⟩ := segments_snoc_end input hlf
    rw [if_pos hend]
    by_cases hskip : c = lf ∧ s.skipLf
    · -- the line feed behind a carriage return ends a line without text
      rw [if_pos hskip]
      have hnil := h.skip hskip.2
      refine ⟨?_, nofun, ?_⟩
      · rw [hun, h.line_eq, hnil]
      · rw [hseg, hnil, List.filterMap_append, ← h.handled_eq]
        exact (List.append_nil _).symm
    · rw [if_neg hskip]
      refine ⟨?_, fun _ => hun, ?_⟩
      · rw [hun]
        rfl
      · rw [hseg, List.filterMap_append, ← h.handled_eq]
        simp only [execute, h.line_eq]
        cases hcmd : command (text (lastPiece (unfinished lf (input.map endLine)))) with
        | none => simp [handled, hcmd]
        | some line => simp [handled, hcmd]
  · obtain ⟨hseg, hun⟩ := segments_snoc input hend
    rw [if_neg hend]
    obtain ⟨hline, hact⟩ := line_edit { s with skipLf := false } hctl h.line_eq
      (length_text_lastPiece _)
    refine ⟨?_, ?_, ?_⟩
    · rw [hun, lastPiece_snoc, hline]
    · rw [skipLf_edit]
      exact nofun
    · rw [hseg, ← h.handled_eq, hact]

theorem follows_final (input : List UInt8) : Follows input (Run.final step init input) := by
  induction input using List.reverseRecOn with
  | nil => exact follows_init
  | append_singleton input c ih =>
    rw [Run.final_append]
    exact follows_step ih c

/-- The console hands over the last pieces of the lines. -/
theorem executed_eq (input : List UInt8) :
    executed input = (segments input).filterMap fun seg => command (text (lastPiece seg)) :=
  (follows_final input).handled_eq

/-- Two ways to read a list, the second on a part of it where they agree, give the same result
exactly when the first finds nothing elsewhere. -/
theorem filterMap_eq_filter_iff {α β : Type*} {p : α → Prop} [DecidablePred p] {f g : α → Option β}
    (l : List α) (h : ∀ a ∈ l, p a → f a = g a) :
    l.filterMap f = (l.filter fun a => p a).filterMap g ↔ ∀ a ∈ l, p a ∨ f a = none := by
  have hsub : ∀ l : List α, (∀ a ∈ l, p a → f a = g a) →
      ((l.filter fun a => p a).filterMap g).Sublist (l.filterMap f) := by
    intro l hl
    have hg : (l.filter fun a => p a).filterMap g = (l.filter fun a => p a).filterMap f := by
      apply List.filterMap_congr
      intro a ha
      have hmem := List.mem_filter.mp ha
      exact (hl a hmem.1 (of_decide_eq_true hmem.2)).symm
    rw [hg]
    exact List.filter_sublist.filterMap f
  induction l with
  | nil => simp
  | cons a l ih =>
    have hl : ∀ b ∈ l, p b → f b = g b := fun b hb => h b (List.mem_cons_of_mem _ hb)
    rw [List.forall_mem_cons]
    refine Iff.trans ?_ (and_congr_right' (ih hl))
    by_cases ha : p a
    · have hfa := h a List.mem_cons_self ha
      rw [List.filter_cons_of_pos (by simpa using ha), List.filterMap_cons, List.filterMap_cons,
        ← hfa]
      cases f a with
      | none => simp [ha]
      | some b => simp [ha]
    · rw [List.filter_cons_of_neg (by simpa using ha), List.filterMap_cons]
      cases hf : f a with
      | none => simp
      | some b =>
        -- the first list is longer than the second can be
        have hlen := (hsub l hl).length_le
        simp only [ha, false_or, reduceCtorEq, false_and, iff_false]
        intro heq
        rw [← heq, List.length_cons] at hlen
        omega

/-- The lines that fit are executed as they were edited, each once and in order, and nothing else is
executed, exactly when no line that went over the size of the buffer ends in a piece that passes for
a command. -/
theorem executed_eq_intended_iff (input : List UInt8) : executed input = intended input ↔
    ∀ seg ∈ segments input, Fits seg ∨ command (text (lastPiece seg)) = none := by
  rw [executed_eq]
  apply filterMap_eq_filter_iff
  intro seg _ hfits
  rw [hfits.text_lastPiece]

/-- The 301st character of a line empties the buffer, and `AT` behind it is executed. -/
theorem tail_of_long_line_executed : ¬ ∀ input : List UInt8, executed input = intended input := by
  intro hall
  let seg : List UInt8 := List.replicate 301 0x78 ++ [0x41, 0x54]
  have hseg : segments (seg ++ [lf]) = [seg] := by decide +kernel
  have hlong : ¬ Fits seg := by
    intro hfits
    have hp : List.replicate 301 0x78 ∈ (typed seg).inits := by
      rw [show typed seg = seg by decide +kernel, List.mem_inits]
      exact List.prefix_append _ _
    have hlen := hfits _ hp
    revert hlen
    decide +kernel
  have h := hall (seg ++ [lf])
  rw [executed_eq, intended, hseg] at h
  rw [List.filter_cons_of_neg (by simpa using hlong)] at h
  revert h
  decide +kernel

end Laws

end AtNode.AtSerial
