import AtNode.Arduino.KeyReport
import AtNode.Ch582.KeyMap
import AtNode.Lib.Run

/-!
# The typing queue of the Arduino firmware

A text command stores a text, and `type_poll`, called over and over by the main loop, takes one
character of it at a time and taps a key for it. Letters, digits, blanks and line ends have their own
usage codes; any other byte is sent as if it were one.

The tap leaves the keys as they were, so a host that had no key down before reads each character by
itself. What it types is right exactly for the texts whose characters are all typed faithfully: a
wrong character cannot be made up for by another one.
-/

namespace AtNode.ArduinoKeys

open Hid Run
open Playback (charOfByte forall_byte)
open ArduinoString (Str ascii)

section Source

structure Typist where
  board : Board
  text : Str
  idx : ℕ
  ms : ℤ
  gap : ℤ
  next : UInt32
  busy : Bool

/-- The modifiers and the usage code that `type_poll` taps for a character. -/
def tapOf (c : UInt8) : UInt8 × UInt8 :=
  if 'a'.toUInt8 ≤ c ∧ c ≤ 'z'.toUInt8 then (0, 0x04 + (c - 'a'.toUInt8))
  else if 'A'.toUInt8 ≤ c ∧ c ≤ 'Z'.toUInt8 then (0x02, 0x04 + (c - 'A'.toUInt8))
  else if c = ' '.toUInt8 then (0, 0x2C)
  else if '1'.toUInt8 ≤ c ∧ c ≤ '9'.toUInt8 then (0, 0x1E + (c - '1'.toUInt8))
  else if c = '0'.toUInt8 then (0, 0x27)
  else if c = '\n'.toUInt8 then (0, 0x28)
  else (0, c)

def typePoll (t : Typist) (now : UInt32) : Typist :=
  if t.busy = false then t
  else if now < t.next then t
  else
    match t.text[t.idx]? with
    | none => { t with busy := false, text := [] }
    | some c =>
      { t with
        board := t.board.keyTap (tapOf c).1 (tapOf c).2
        idx := t.idx + 1
        next := now + UInt32.ofInt t.ms + UInt32.ofInt t.gap }

inductive TextCommand where
  /-- `AT+TEXT=` -/
  | at (text : Str)
  /-- `keyboard/text` over HTTP or MQTT; the times are 0 where none is given. -/
  | request (connected : Bool) (text : Str) (ms gap : ℤ)

def TextCommand.text : TextCommand → Str
  | .at text => text
  | .request _ text _ _ => text

/-- Without a result the command is refused. -/
def textCommand (t : Typist) : TextCommand → Option Typist
  | .at text => some { t with text := text, idx := 0, busy := true }
  | .request connected text ms gap =>
    if connected = false then none
    else if t.busy then none
    else if text.length = 0 then none
    else
      some { t with
        ms := if 0 < ms then ms else 40
        gap := if 0 < gap then gap else 30
        text := text
        idx := 0
        next := 0
        busy := true }

end Source

section Characters

variable {c d : UInt8} {text : Str}

def Printable (c : Char) : Prop := 0x20 ≤ c.toNat ∧ c.toNat ≤ 0x7E

instance (c : Char) : Decidable (Printable c) := inferInstanceAs (Decidable (_ ∧ _))

def printable (cs : List Char) : List Char := cs.filter fun c => Printable c

def strokes (c : UInt8) : List Report := [.press (tapOf c).1 (tapOf c).2, .rest]

/-- The printable characters that the host types for a byte of the text. -/
def typedFor (c : UInt8) : List Char := printable (typed .rest (strokes c))

def written (c : UInt8) : List Char := printable [charOfByte c]

/-- Letters, digits, the blank and the hyphen, and of the other bytes the line end and those that are
not printable and no usage code of a character. -/
def Faithful (c : UInt8) : Prop :=
  'a'.toUInt8 ≤ c ∧ c ≤ 'z'.toUInt8 ∨ 'A'.toUInt8 ≤ c ∧ c ≤ 'Z'.toUInt8 ∨
    '0'.toUInt8 ≤ c ∧ c ≤ '9'.toUInt8 ∨ c = ' '.toUInt8 ∨ c = '-'.toUInt8 ∨ c = '\n'.toUInt8 ∨
      c < 4 ∨ 0x7F ≤ c

instance (c : UInt8) : Decidable (Faithful c) := inferInstanceAs (Decidable (_ ∨ _))

theorem typedFor_eq_iff (c : UInt8) : typedFor c = written c ↔ Faithful c := by
  have hall : (List.range 256).all fun i =>
      decide (typedFor (UInt8.ofNat i) = written (UInt8.ofNat i) ↔ Faithful (UInt8.ofNat i)) := by
    decide +kernel
  exact of_decide_eq_true
    (forall_byte (P := fun c => decide (typedFor c = written c ↔ Faithful c)) hall c)

/-- Of the characters that are typed wrongly, only the equals sign and the opening bracket are ever
typed: for a dot and for a slash. -/
theorem faithful_or_of_mem_typedFor (h : charOfByte c ∈ typedFor d) :
    Faithful c ∨ d = '.'.toUInt8 ∨ d = '/'.toUInt8 := by
  have hall : (List.range 256).all fun i => (typedFor (UInt8.ofNat i)).all fun x =>
      decide (Faithful x.toUInt8 ∨ UInt8.ofNat i = '.'.toUInt8 ∨ UInt8.ofNat i = '/'.toUInt8) := by
    decide +kernel
  have hd := forall_byte (P := fun d => (typedFor d).all fun x =>
    decide (Faithful x.toUInt8 ∨ d = '.'.toUInt8 ∨ d = '/'.toUInt8)) hall d
  have hx := of_decide_eq_true (List.all_eq_true.mp hd _ h)
  rwa [Playback.toUInt8_charOfByte] at hx

theorem not_mem_typedFor_dot (hc : c = '.'.toUInt8 ∨ c = '/'.toUInt8) (d : UInt8) :
    charOfByte c ∉ typedFor d := by
  intro h
  rcases faithful_or_of_mem_typedFor h with hf | rfl | rfl
  · rcases hc with rfl | rfl <;> exact absurd hf (by decide)
  · rcases hc with rfl | rfl <;> exact absurd h (by decide +kernel)
  · rcases hc with rfl | rfl <;> exact absurd h (by decide +kernel)

theorem written_eq_nil_or (c : UInt8) : written c = [] ∨ written c = [charOfByte c] := by
  unfold written printable
  rw [List.filter_singleton]
  cases decide (Printable (charOfByte c))
  · exact Or.inl rfl
  · exact Or.inr rfl

theorem length_written_le (h : Faithful c ∨ written c = []) :
    (written c).length ≤ (typedFor c).length := by
  rcases h with hf | hw
  · rw [(typedFor_eq_iff c).mpr hf]
  · rw [hw]
    exact Nat.zero_le _

theorem length_text_le (h : ∀ c ∈ text, Faithful c ∨ written c = []) :
    (text.flatMap written).length ≤ (text.flatMap typedFor).length := by
  induction text with
  | nil => exact Nat.le_refl _
  | cons c text ih =>
    obtain ⟨hc, htext⟩ := List.forall_mem_cons.mp h
    rw [List.flatMap_cons, List.flatMap_cons, List.length_append, List.length_append]
    exact Nat.add_le_add (length_written_le hc) (ih htext)

/-- With no more typed than written, no character is typed for a byte that is not printable. -/
theorem faithful_of_length (h : ∀ c ∈ text, Faithful c ∨ written c = [])
    (hlen : (text.flatMap typedFor).length ≤ (text.flatMap written).length) :
    ∀ c ∈ text, Faithful c := by
  induction text with
  | nil => exact fun c hc => absurd hc List.not_mem_nil
  | cons c text ih =>
    obtain ⟨hc, htext⟩ := List.forall_mem_cons.mp h
    have hhead := length_written_le hc
    have htail := length_text_le htext
    rw [List.flatMap_cons, List.flatMap_cons, List.length_append, List.length_append] at hlen
    refine List.forall_mem_cons.mpr ⟨?_, ih htext (by omega)⟩
    rcases hc with hf | hw
    · exact hf
    · have hnone : typedFor c = [] := by
        rw [hw, List.length_nil] at hlen hhead
        exact List.length_eq_zero_iff.mp (by omega)
      exact (typedFor_eq_iff c).mp (hnone.trans hw.symm)

/-- A text is typed as written only if every character of it is: nothing types a dot or a slash, so
they do not occur, so no wrong character stands for a right one, and there are as many of both. -/
theorem typedFor_text_iff (text : Str) :
    text.flatMap typedFor = text.flatMap written ↔ ∀ c ∈ text, Faithful c := by
  constructor
  · intro heq
    have htyped {c : UInt8} (hc : c ∈ text) (hw : written c = [charOfByte c]) :
        ∃ d ∈ text, charOfByte c ∈ typedFor d := by
      apply List.mem_flatMap.mp
      rw [heq]
      exact List.mem_flatMap.mpr ⟨c, hc, by rw [hw]; exact List.mem_singleton_self _⟩
    have hdot {c : UInt8} (hc : c = '.'.toUInt8 ∨ c = '/'.toUInt8) : c ∉ text := by
      intro hmem
      obtain ⟨d, -, hd⟩ := htyped hmem (by rcases hc with rfl | rfl <;> decide +kernel)
      exact not_mem_typedFor_dot hc d hd
    have hright : ∀ c ∈ text, Faithful c ∨ written c = [] := by
      intro c hc
      rcases written_eq_nil_or c with hw | hw
      · exact Or.inr hw
      · obtain ⟨d, hd, hmem⟩ := htyped hc hw
        rcases faithful_or_of_mem_typedFor hmem with hf | hd'
        · exact Or.inl hf
        · exact absurd hd (hdot hd')
    exact faithful_of_length hright (congrArg List.length heq).le
  · intro h
    exact List.flatMap_congr fun c hc => (typedFor_eq_iff c).mpr (h c hc)

end Characters

section Playing

variable {c : UInt8} {text : Str} {log : List Report} {t : Typist}

/-- The reports of a text. -/
def reports (text : Str) : List Report := text.flatMap strokes

theorem typed_reports (text : Str) :
    typed .rest (reports text) = text.flatMap fun c => typed .rest (strokes c) := by
  induction text with
  | nil => rfl
  | cons c text ih =>
    have hsplit : typed .rest (strokes c ++ reports text) =
        typed .rest (strokes c) ++ typed .rest (reports text) := by
      rw [strokes, List.cons_append, List.cons_append, List.nil_append, typed_cons, typed_rest,
        typed_cons, typed_rest, typed_nil, List.append_nil]
    rw [reports, List.flatMap_cons, ← reports, hsplit, ih, List.flatMap_cons]

theorem printable_reports (text : Str) :
    printable (typed .rest (reports text)) = text.flatMap typedFor := by
  rw [typed_reports, printable, List.filter_flatMap]
  rfl

theorem printable_text (text : Str) :
    printable (text.map charOfByte) = text.flatMap written := by
  rw [printable, ← List.flatMap_pure_eq_map, List.filter_flatMap]
  rfl

/-- The host types the printable characters of the text, with a release behind every report. -/
structure Played (text : Str) (sent : List Report) : Prop where
  typed : printable (Hid.typed .rest sent) = printable (text.map charOfByte)
  released : ∃ presses : List Report, sent = presses.flatMap fun r => [r, .rest]
  atRest : ∀ r ∈ sent.getLast?, r = .rest

theorem released_reports (text : Str) :
    reports text = (text.map fun c => Report.press (tapOf c).1 (tapOf c).2).flatMap
      fun r => [r, .rest] := by
  rw [List.flatMap_map]
  rfl

theorem getLast_flatMap_rest (presses : List Report) :
    ∀ r ∈ (presses.flatMap fun r => [r, Report.rest]).getLast?, r = .rest := by
  induction presses with
  | nil => exact fun r hr => nomatch hr
  | cons p presses ih =>
    intro r hr
    rw [List.flatMap_cons, List.getLast?_append] at hr
    cases hl : (presses.flatMap fun r => [r, Report.rest]).getLast? with
    | none =>
      rw [hl] at hr
      exact (Option.some.inj hr).symm
    | some x =>
      rw [hl, Option.some_or] at hr
      exact ih r (hl ▸ hr)

theorem played_reports_iff (text : Str) : Played text (reports text) ↔ ∀ c ∈ text, Faithful c := by
  rw [← typedFor_text_iff, ← printable_reports, ← printable_text]
  constructor
  · exact Played.typed
  · intro h
    refine ⟨h, ⟨_, released_reports text⟩, ?_⟩
    rw [released_reports]
    exact getLast_flatMap_rest _

end Playing

section Runs

variable {text : Str} {log : List Report} {t t' : Typist}

/-- No key is held, and what was sent belongs to the characters that were taken. -/
structure Typing (text : Str) (log : List Report) (t : Typist) : Prop where
  held : t.board.keyState = .rest
  progress : t.busy = true ∧ t.text = text ∧ t.idx ≤ text.length ∧
      t.board.sent = log ++ reports (text.take t.idx) ∨
    t.busy = false ∧ t.board.sent = log ++ reports text

theorem keyTap_rest {b : Board} (h : b.keyState = .rest) (mods k : UInt8) :
    b.keyTap mods k = ⟨.rest, b.sent ++ [.press mods k, .rest]⟩ := by
  rw [Board.keyTap, Board.sendReport, Board.sendReport, h]
  simp [Report.rest, Report.press]

theorem typing_step (h : Typing text log t) (now : UInt32) : Typing text log (typePoll t now) := by
  unfold typePoll
  split_ifs with hidle hearly
  · exact h
  · exact h
  · rcases h.progress with ⟨hbusy, htext, hidx, hsent⟩ | ⟨hbusy, -⟩
    · cases hc : t.text[t.idx]? with
      | none =>
        have hend : text.take t.idx = text := by
          rw [htext] at hc
          exact List.take_of_length_le (List.getElem?_eq_none_iff.mp hc)
        exact ⟨h.held, Or.inr ⟨rfl, hend ▸ hsent⟩⟩
      | some c =>
        rw [htext] at hc
        obtain ⟨hlt, hget⟩ := List.getElem?_eq_some_iff.mp hc
        have hnext : reports (text.take (t.idx + 1)) = reports (text.take t.idx) ++ strokes c := by
          rw [List.take_succ_eq_append_getElem hlt, hget, reports, List.flatMap_append]
          simp [reports]
        dsimp only
        rw [keyTap_rest h.held]
        refine ⟨rfl, Or.inl ⟨hbusy, htext, hlt, ?_⟩⟩
        rw [hsent, hnext, List.append_assoc]
        rfl
    · exact absurd hbusy hidle

theorem typing_run (h : Typing text log t) (ts : List UInt32) :
    Typing text log (final typePoll t ts) :=
  have hstep (t : Typist) (now : UInt32) (h : Typing text log t) : Typing text log (typePoll t now) :=
    typing_step h now
  (always_of_step hstep h).final

theorem typing_ends (h : Typing text log t) : ∃ us, (final typePoll t us).busy = false := by
  induction hn : text.length - t.idx generalizing t with
  | zero =>
    rcases h.progress with ⟨hbusy, htext, hidx, -⟩ | ⟨hbusy, -⟩
    · refine ⟨[t.next], ?_⟩
      have hnone : t.text[t.idx]? = none := List.getElem?_eq_none (by rw [htext]; omega)
      rw [final_cons, final_nil, typePoll, if_neg (by simp [hbusy]), if_neg (UInt32.lt_irrefl _), hnone]
    · exact ⟨[], hbusy⟩
  | succ n ih =>
    rcases h.progress with ⟨hbusy, htext, hidx, -⟩ | ⟨hbusy, -⟩
    · have hlt : t.idx < t.text.length := by rw [htext]; omega
      have hstep : (typePoll t t.next).idx = t.idx + 1 := by
        rw [typePoll, if_neg (by simp [hbusy]), if_neg (UInt32.lt_irrefl _),
          List.getElem?_eq_getElem hlt]
      obtain ⟨us, hus⟩ := ih (typing_step h t.next) (by rw [hstep]; omega)
      exact ⟨t.next :: us, hus⟩
    · exact ⟨[], hbusy⟩

theorem typing_of_accepted {cmd : TextCommand} (hheld : t.board.keyState = .rest)
    (h : textCommand t cmd = some t') : Typing cmd.text t.board.sent t' := by
  cases cmd with
  | «at» text =>
    cases h
    exact ⟨hheld, Or.inl ⟨rfl, rfl, Nat.zero_le _, (List.append_nil _).symm⟩⟩
  | request connected text ms gap =>
    rw [textCommand] at h
    split_ifs at h
    all_goals
      rw [← Option.some.inj h]
      exact ⟨hheld, Or.inl ⟨rfl, rfl, Nat.zero_le _, (List.append_nil _).symm⟩⟩

/-- From an accepted text on, polls come to its end, and there all of it has been played. -/
def TypesText (text : Str) (log : List Report) (t : Typist) : Prop :=
  (∀ ts, ∃ us, (final typePoll t (ts ++ us)).busy = false) ∧
    ∀ ts, (final typePoll t ts).busy = false →
      ∃ sent, (final typePoll t ts).board.sent = log ++ sent ∧ Played text sent

/-- A text is typed as it is exactly when all its characters are. -/
theorem text_typing_iff {cmd : TextCommand} (hheld : t.board.keyState = .rest)
    (h : textCommand t cmd = some t') :
    TypesText cmd.text t.board.sent t' ↔ ∀ c ∈ cmd.text, Faithful c := by
  have hstart := typing_of_accepted hheld h
  have hsent {ts : List UInt32} (hend : (final typePoll t' ts).busy = false) :
      (final typePoll t' ts).board.sent = t.board.sent ++ reports cmd.text := by
    rcases (typing_run hstart ts).progress with ⟨hbusy, -⟩ | ⟨-, hsent⟩
    · rw [hend] at hbusy
      cases hbusy
    · exact hsent
  rw [← played_reports_iff]
  constructor
  · rintro ⟨-, hplayed⟩
    obtain ⟨us, hend⟩ := typing_ends hstart
    obtain ⟨sent, heq, hp⟩ := hplayed us hend
    rwa [List.append_cancel_left ((hsent hend).symm.trans heq)]
  · refine fun hp => ⟨fun ts => ?_, fun ts hend => ⟨_, hsent hend, hp⟩⟩
    obtain ⟨us, hend⟩ := typing_ends (typing_run hstart ts)
    exact ⟨us, by rwa [final_append]⟩

def idle : Typist := ⟨⟨.rest, []⟩, [], 0, 40, 30, 0, false⟩

theorem plain_text_is_typed : ∃ t', textCommand idle (.at (ascii "Wi-Fi 7")) = some t' ∧
    TypesText (ascii "Wi-Fi 7") [] t' :=
  have haccepted : textCommand idle (.at (ascii "Wi-Fi 7")) =
      some { idle with text := ascii "Wi-Fi 7", idx := 0, busy := true } := rfl
  ⟨_, haccepted, (text_typing_iff rfl haccepted).mpr (by decide +kernel)⟩

theorem exclamation_typed_as_four : ∃ t', textCommand idle (.at (ascii "Hi!")) = some t' ∧
    (final typePoll t' [0, 70, 140, 210]).busy = false ∧
    typed .rest (final typePoll t' [0, 70, 140, 210]).board.sent = "Hi4".toList ∧
    ¬ TypesText (ascii "Hi!") [] t' := by
  refine ⟨_, rfl, by decide +kernel, by decide +kernel, fun h => ?_⟩
  obtain ⟨sent, hsent, hplayed⟩ := h.2 [0, 70, 140, 210] (by decide +kernel)
  rw [List.nil_append] at hsent
  have htyped := hplayed.typed
  rw [← hsent] at htyped
  exact absurd htyped (by decide +kernel)

end Runs

end AtNode.ArduinoKeys
