import AtNode.Ch582.KeyMap
import AtNode.Lib.CString
import AtNode.Lib.Run

/-!
# Key playback of the CH582 firmware

`AT+TAP` and `AT+KEY_SEQ` queue reports in `seq_buf`, `AT+KEY_STR` a text in `keystr_buf`, and one
timer event, `SEQ_EVENT`, plays either of them a report at a time. A tick is the handler's call; it
happens only while the event is scheduled, and scheduling it again restarts it.

The history keeps, for each of the two queues, what the last accepted command has to play and what
was played of it.
-/

namespace AtNode.Playback

open CString Hid

abbrev seqMaxReports : ℕ := 8

abbrev keystrMax : ℕ := 96

structure State where
  /-- `seq_buf` up to `seq_count`. -/
  seqBuf : List Report
  seqIdx : ℕ
  seqDelayMs : ℕ
  /-- `keystr_buf` up to `keystr_len`. -/
  keystrBuf : List UInt8
  keystrIdx : ℕ
  keystrActive : Bool
  registered : Bool
  /-- `SEQ_EVENT`, with the delay it was started with. -/
  timer : Option ℕ

/-- What a handler sends: `AT_Response` lines, then `OK` or an error. -/
structure Reply where
  lines : List String
  ok : Bool
  deriving DecidableEq

inductive Out where
  | flush (r : Report)
  | keyDone
  deriving DecidableEq

/-- The press report of a character that has a key. -/
def pressOf (c : UInt8) : List Report :=
  match keystrMap c with
  | some (mods, key) => [.press mods key]
  | none => []

/-- `kb_seq_process_event`; `pace` is what `keystr_cur_pace` gives at this moment. -/
def kbSeqProcessEvent (pace : ℕ) (s : State) : State × List Out :=
  if s.keystrActive then
    match s.keystrBuf[s.keystrIdx / 2]? with
    | none => ({ s with keystrActive := false, timer := none }, [.keyDone])
    | some c =>
      ({ s with keystrIdx := s.keystrIdx + 1, timer := some pace },
        if s.keystrIdx % 2 = 1 then [.flush .rest] else (pressOf c).map .flush)
  else
    match s.seqBuf[s.seqIdx]? with
    | none => ({ s with timer := none }, [])
    | some r =>
      if s.seqIdx + 1 < s.seqBuf.length then
        ({ s with seqIdx := s.seqIdx + 1, timer := some s.seqDelayMs }, [.flush r])
      else ({ s with seqIdx := s.seqIdx + 1, timer := none }, [.flush r, .keyDone])

/-- Seven values of a command line: modifiers and six keys, missing ones 0. -/
def reportOf (args : List (List UInt8)) : Report :=
  let v (i : ℕ) : UInt8 := toU8 (atoi (args.getD i []))
  ⟨v 0, #v[v 1, v 2, v 3, v 4, v 5, v 6]⟩

def holdMs (arg : List UInt8) : ℕ :=
  let ms := if atoi arg = 0 then 50 else atoi arg
  (min (max ms 10) 1000).toNat

def atCmdTap (s : State) (argv : List (List UInt8)) : State × Reply :=
  if argv.length < 3 then (s, ⟨["usage: AT+TAP=<ms>,<mods>,<k1>,..,<k6>"], false⟩)
  else
    ({ s with
        seqBuf := [reportOf ((argv.drop 2).take 7), .rest]
        seqIdx := 0
        seqDelayMs := holdMs (argv.getD 1 [])
        registered := true
        timer := some 0 }, ⟨[], true⟩)

def seqReports : ℕ → List (List UInt8) → List Report
  | 0, _ => []
  | n + 1, args => reportOf (args.take 7) :: seqReports n (args.drop 7)

def atCmdKeySeq (s : State) (argv : List (List UInt8)) : State × Reply :=
  let nvals := argv.length - 2
  if nvals < 7 ∨ nvals % 7 ≠ 0 then
    (s, ⟨["usage: AT+KEY_SEQ=<delay_ms>,<mods>,<k1>..<k6>,..."], false⟩)
  else if seqMaxReports < nvals / 7 then
    (s, ⟨["ERROR: max " ++ toString seqMaxReports ++ " reports per command"], false⟩)
  else
    ({ s with
        seqBuf := seqReports (nvals / 7) (argv.drop 2)
        seqIdx := 0
        seqDelayMs := (min (max (atoi (argv.getD 1 [])) 1) 200).toNat
        registered := true
        timer := some 0 }, ⟨[toString (nvals / 7) ++ " reports queued"], true⟩)

def unescapeChar : List UInt8 → Option (UInt8 × List UInt8)
  | [] => none
  | [c] => some (c, [])
  | c :: d :: p =>
    if c = '\x5C'.toUInt8 then
      if d = 'n'.toUInt8 then some ('\n'.toUInt8, p)
      else if d = 't'.toUInt8 then some ('\t'.toUInt8, p)
      else if d = '\x5C'.toUInt8 then some ('\x5C'.toUInt8, p)
      else some (c, d :: p)
    else some (c, d :: p)

/-- The copy loop with room for `n` characters: what it stores and where it stops reading. -/
def keystrCopy : ℕ → List UInt8 → List UInt8 × List UInt8
  | 0, p => ([], p)
  | n + 1, p =>
    match unescapeChar p with
    | none => ([], p)
    | some (c, p') => (c :: (keystrCopy n p').1, (keystrCopy n p').2)

def atCmdKeyStr (s : State) (argv : List (List UInt8)) : State × Reply :=
  match argv with
  | _ :: arg :: _ =>
    let q := keystrCopy keystrMax arg
    ({ s with
        keystrBuf := q.1
        keystrIdx := 0
        keystrActive := true
        registered := true
        timer := some 0 },
      ⟨if q.2 ≠ [] then ["truncated to " ++ toString keystrMax ++ " chars"] else [], true⟩)
  | _ =>
    (s, ⟨["usage: AT+KEY_STR=<text> (no ',' or '='; \\n=Enter \\t=Tab \\\\=backslash)"], false⟩)

/-- The report of `AT+KEY`: the key codes that are not 0, from the left. -/
def keyReport (argv : List (List UInt8)) : Report :=
  let keys := (((argv.drop 2).take 6).map fun a => toU8 (atoi a)).filter (· ≠ 0)
  ⟨toU8 (atoi (argv.getD 1 [])), Vector.ofFn fun i => keys.getD i 0⟩

def modReport (argv : List (List UInt8)) : Report :=
  ⟨toU8 (atoi (argv.getD 1 [])), Report.rest.keys⟩

inductive Kind where
  | seq | str
  deriving DecidableEq

/-- What a command has to play and what was played of it. -/
structure Job where
  script : List Out
  played : List Out

structure History where
  st : State
  job : Kind → Job
  flushed : List Report

inductive Event where
  | tap (argv : List (List UInt8))
  | keySeq (argv : List (List UInt8))
  | keyStr (argv : List (List UInt8))
  | key (argv : List (List UInt8))
  | mod (argv : List (List UInt8))
  | tick (pace : ℕ)

def boot : History where
  st :=
    { seqBuf := [], seqIdx := 0, seqDelayMs := 0, keystrBuf := [], keystrIdx := 0
      keystrActive := false, registered := false, timer := none }
  job := fun _ => ⟨[], []⟩
  flushed := []

/-- A tap plays the chord and the release, a sequence the listed reports. -/
def seqScript (reports : List Report) : List Out := reports.map .flush ++ [.keyDone]

def strokeOf (c : UInt8) : List Report := pressOf c ++ [.rest]

def strScript (text : List UInt8) : List Out := (text.flatMap strokeOf).map .flush ++ [.keyDone]

def reportsOf (outs : List Out) : List Report :=
  outs.filterMap fun
    | .flush r => some r
    | .keyDone => none

def playing (s : State) : Kind := if s.keystrActive then .str else .seq

def accept (h : History) (k : Kind) (script : List Out) (q : State × Reply) : History :=
  { h with
    st := q.1
    job := if q.2.ok then Function.update h.job k ⟨script, []⟩ else h.job }

def play (h : History) (q : State × List Out) : History :=
  { h with
    st := q.1
    job := Function.update h.job (playing h.st)
      { h.job (playing h.st) with played := (h.job (playing h.st)).played ++ q.2 }
    flushed := h.flushed ++ reportsOf q.2 }

def step (h : History) : Event → History
  | .tap argv =>
      accept h .seq (seqScript [reportOf ((argv.drop 2).take 7), .rest]) (atCmdTap h.st argv)
  | .keySeq argv =>
      accept h .seq (seqScript (seqReports ((argv.length - 2) / 7) (argv.drop 2)))
        (atCmdKeySeq h.st argv)
  | .keyStr argv =>
      accept h .str (strScript (keystrCopy keystrMax (argv.getD 1 [])).1) (atCmdKeyStr h.st argv)
  | .key argv => if argv.length < 2 then h else { h with flushed := h.flushed ++ [keyReport argv] }
  | .mod argv => if argv.length < 2 then h else { h with flushed := h.flushed ++ [modReport argv] }
  | .tick pace => if h.st.timer = none then h else play h (kbSeqProcessEvent pace h.st)

theorem reportsOf_append (outs outs' : List Out) :
    reportsOf (outs ++ outs') = reportsOf outs ++ reportsOf outs' := List.filterMap_append

theorem reportsOf_flush (reports : List Report) : reportsOf (reports.map .flush) = reports := by
  simp [reportsOf, List.filterMap_map]

section Tick

variable (pace : ℕ) {s : State}

theorem tick_end (ha : s.keystrActive = true) (hlen : s.keystrBuf.length ≤ s.keystrIdx / 2) :
    kbSeqProcessEvent pace s = ({ s with keystrActive := false, timer := none }, [.keyDone]) := by
  rw [kbSeqProcessEvent, if_pos ha, List.getElem?_eq_none hlen]

theorem tick_press (ha : s.keystrActive = true) (hlt : s.keystrIdx / 2 < s.keystrBuf.length)
    (he : s.keystrIdx % 2 = 0) :
    kbSeqProcessEvent pace s = ({ s with keystrIdx := s.keystrIdx + 1, timer := some pace },
      (pressOf (s.keystrBuf.get ⟨s.keystrIdx / 2, hlt⟩)).map .flush) := by
  have hodd : ¬ s.keystrIdx % 2 = 1 := by omega
  rw [kbSeqProcessEvent, if_pos ha, List.getElem?_eq_getElem hlt]
  simp only [if_neg hodd, List.get_eq_getElem]

theorem tick_release (ha : s.keystrActive = true) (hlt : s.keystrIdx / 2 < s.keystrBuf.length)
    (ho : s.keystrIdx % 2 = 1) :
    kbSeqProcessEvent pace s =
      ({ s with keystrIdx := s.keystrIdx + 1, timer := some pace }, [.flush .rest]) := by
  rw [kbSeqProcessEvent, if_pos ha, List.getElem?_eq_getElem hlt]
  simp only [if_pos ho]

theorem tick_idle (ha : s.keystrActive = false) (hlen : s.seqBuf.length ≤ s.seqIdx) :
    kbSeqProcessEvent pace s = ({ s with timer := none }, []) := by
  rw [kbSeqProcessEvent, if_neg (by simp [ha]), List.getElem?_eq_none hlen]

theorem tick_more (ha : s.keystrActive = false) (hlt : s.seqIdx < s.seqBuf.length)
    (hmore : s.seqIdx + 1 < s.seqBuf.length) :
    kbSeqProcessEvent pace s = ({ s with seqIdx := s.seqIdx + 1, timer := some s.seqDelayMs },
      [.flush (s.seqBuf.get ⟨s.seqIdx, hlt⟩)]) := by
  rw [kbSeqProcessEvent, if_neg (by simp [ha]), List.getElem?_eq_getElem hlt]
  simp only [if_pos hmore, List.get_eq_getElem]

theorem tick_last (ha : s.keystrActive = false) (hlt : s.seqIdx < s.seqBuf.length)
    (hlast : ¬ s.seqIdx + 1 < s.seqBuf.length) :
    kbSeqProcessEvent pace s = ({ s with seqIdx := s.seqIdx + 1, timer := none },
      [.flush (s.seqBuf.get ⟨s.seqIdx, hlt⟩), .keyDone]) := by
  rw [kbSeqProcessEvent, if_neg (by simp [ha]), List.getElem?_eq_getElem hlt]
  simp only [if_neg hlast, List.get_eq_getElem]

end Tick

end AtNode.Playback
