import AtNode.Esp32.Args
import AtNode.Lib.PulseCode
import AtNode.Lib.Run
import Mathlib.Data.Nat.Bitwise
import Mathlib.Tactic.IntervalCases

/-!
# The status LED

Every front end posts commands to a channel of four places and forgets those that find no room. One task
takes them out, sends the colour to the LED as a train of pulses, and records what it was told, for the
status queries. While the network is being joined and no custom colour is held, the task waits for a command
no longer than half a second at a time and toggles the LED in between.

The laws say what the LED shows and what a query answers, in terms of the turns that the task has taken:
the commands it has taken out of the channel and the times the timer ran out.
-/

namespace AtNode.StatusLed

open Args (LedMode)
open PulseCode Run

abbrev Rgb := UInt8 × UInt8 × UInt8

section Wire

/-- The ticks of a pulse at the high level and those at the low level behind it. -/
structure Pulse where
  high : ℕ
  low : ℕ
  deriving DecidableEq

def pulse0 : Pulse := ⟨32, 68⟩

def pulse1 : Pulse := ⟨64, 56⟩

def endMarker : Pulse := ⟨0, 0⟩

/-- The eight places of a byte. -/
def codes (byte : UInt8) : List Pulse :=
  (List.range 8).map fun bit => if byte &&& ((0x80 : UInt8) >>> bit.toUInt8) ≠ 0 then pulse1 else pulse0

/-- The buffer of `apply`. The loops fill all its places but the last in their order. -/
def frame : Rgb → List Pulse
  | (r, g, b) => [g, r, b].flatMap codes ++ [endMarker]

def readBit (p : Pulse) : Option Bool :=
  if p = pulse1 then some true else if p = pulse0 then some false else none

/-- A byte on the wire, its highest bit first. -/
def readByte (ps : List Pulse) : Option UInt8 :=
  (ps.mapM readBit).map fun bits => (wordOf bits.reverse).toUInt8

/-- The colour that the LED takes from the wire: green, red and blue, and no pulse behind them. -/
def latch (ps : List Pulse) : Option Rgb :=
  if ps.drop 24 = [endMarker] then do
    let g ← readByte (ps.take 8)
    let r ← readByte ((ps.drop 8).take 8)
    let b ← readByte ((ps.drop 16).take 8)
    pure (r, g, b)
  else none

variable {byte : UInt8} {bit : ℕ}

theorem mask_eq (hbit : bit < 8) : ((0x80 : UInt8) >>> bit.toUInt8).toNat = 2 ^ (7 - bit) := by
  interval_cases bit <;> rfl

theorem and_mask_ne_zero (hbit : bit < 8) :
    byte &&& ((0x80 : UInt8) >>> bit.toUInt8) ≠ 0 ↔ byte.toNat.testBit (7 - bit) = true := by
  rw [ne_eq, ← UInt8.toNat_inj, UInt8.toNat_and, mask_eq hbit, Nat.and_two_pow]
  cases byte.toNat.testBit (7 - bit) <;> simp

theorem length_codes : (codes byte).length = 8 := by
  rw [codes, List.length_map, List.length_range]

theorem mapM_readBit_codes : (codes byte).mapM readBit = some (bitsOf byte.toNat 8).reverse := by
  have hcodes : codes byte =
      (bitsOf byte.toNat 8).reverse.map fun x => if x then pulse1 else pulse0 := by
    have hrange : (List.range 8).reverse = (List.range 8).map fun bit => 7 - bit := rfl
    rw [bitsOf, ← List.map_reverse, hrange, List.map_map, List.map_map, codes]
    refine List.map_congr_left fun bit hbit => ?_
    simp only [and_mask_ne_zero (List.mem_range.mp hbit), Function.comp_apply]
  have hread (bits : List Bool) :
      (bits.map fun x => if x then pulse1 else pulse0).mapM readBit = some bits := by
    induction bits with
    | nil => rfl
    | cons x bits ih =>
      rw [List.map_cons, List.mapM_cons, ih]
      cases x <;> rfl
  rw [hcodes, hread]

theorem readByte_codes (byte : UInt8) : readByte (codes byte) = some byte := by
  rw [readByte, mapM_readBit_codes, Option.map_some, List.reverse_reverse, wordOf_bitsOf,
    Nat.mod_eq_of_lt (UInt8.toNat_lt byte)]
  exact congrArg some (UInt8.ofNat_toNat (x := byte))

theorem latch_frame (c : Rgb) : latch (frame c) = some c := by
  obtain ⟨r, g, b⟩ := c
  have hframe : frame (r, g, b) = codes g ++ (codes r ++ (codes b ++ [endMarker])) := by
    simp [frame]
  have h8 : (frame (r, g, b)).drop 8 = codes r ++ (codes b ++ [endMarker]) := by
    rw [hframe, List.drop_left' length_codes]
  have h16 : (frame (r, g, b)).drop 16 = codes b ++ [endMarker] := by
    rw [show 16 = 8 + 8 from rfl, ← List.drop_drop, h8, List.drop_left' length_codes]
  have h24 : (frame (r, g, b)).drop 24 = [endMarker] := by
    rw [show 24 = 16 + 8 from rfl, ← List.drop_drop, h16, List.drop_left' length_codes]
  rw [latch, if_pos h24, h8, h16, hframe, List.take_left' length_codes, List.take_left' length_codes,
    List.take_left' length_codes, readByte_codes, readByte_codes, readByte_codes]
  rfl

end Wire

section Driver

inductive Status where
  | boot
  | wifiConnecting
  | online
  | error
  deriving DecidableEq

inductive Cmd where
  | status (s : Status)
  | rgb (c : Rgb)
  | off
  | auto
  deriving DecidableEq

abbrev bright : UInt8 := 0x20

def preset (s : Status) (blinkOn : Bool) : Rgb :=
  match s with
  | .boot => (bright, bright, 0)
  | .wifiConnecting => (0, 0, if blinkOn then bright else 0)
  | .online => (0, bright, 0)
  | .error => (bright, 0, 0)

abbrev modeAuto : UInt32 := 0
abbrev modeCustom : UInt32 := 1
abbrev modeOff : UInt32 := 2

/-- The word that `record` stores. -/
def record (mode : UInt32) : Rgb → UInt32
  | (r, g, b) => (mode <<< 24) ||| (r.toUInt32 <<< 16) ||| (g.toUInt32 <<< 8) ||| b.toUInt32

/-- What `current` makes of the recorded word. -/
def decode (v : UInt32) : Rgb × LedMode :=
  (((v >>> 16).toUInt8, (v >>> 8).toUInt8, v.toUInt8),
    if v >>> 24 = modeCustom then .custom else if v >>> 24 = modeOff then .off else .auto)

structure Channel where
  items : List Cmd
  length_le : items.length ≤ 4

def Channel.trySend (q : Channel) (c : Cmd) : Channel :=
  if h : q.items.length < 4 then ⟨q.items ++ [c], by rw [List.length_append]; exact h⟩ else q

def Channel.tail (q : Channel) : Channel :=
  ⟨q.items.tail, by rw [List.length_tail]; exact (Nat.sub_le _ _).trans q.length_le⟩

/-- Where `led_task` is: in `apply`, with the word that is recorded behind it unless the LED only blinks,
or at the head of the loop. -/
inductive Phase where
  | sending (data : List Pulse) (word : Option UInt32)
  | waiting
  deriving DecidableEq

structure Led where
  cmd : Channel
  cur : Status
  custom : Bool
  blinkOn : Bool
  phase : Phase
  /-- `CUR`. -/
  word : UInt32
  /-- What the LED shows, once it has been told a colour. -/
  shown : Option Rgb

def init : Led where
  cmd := ⟨[], Nat.zero_le 4⟩
  cur := .boot
  custom := false
  blinkOn := false
  phase := .sending (frame (bright, bright, 0)) (some (record modeAuto (bright, bright, 0)))
  word := modeAuto <<< 24
  shown := none

def current (l : Led) : Rgb × LedMode := decode l.word

def Led.apply (l : Led) (c : Rgb) (mode : UInt32) : Led :=
  { l with phase := .sending (frame c) (some (record mode c)) }

/-- The arms of `match cmd`, up to the transmission. -/
def Led.serve (l : Led) : Cmd → Led
  | .status s => { l with cur := s, custom := false, blinkOn := false }.apply (preset s true) modeAuto
  | .auto => { l with custom := false }.apply (preset l.cur true) modeAuto
  | .rgb c => { l with custom := true }.apply c modeCustom
  | .off => { l with custom := true }.apply (0, 0, 0) modeOff

inductive Event where
  /-- A front end posts a command. -/
  | post (c : Cmd)
  /-- The task is polled. -/
  | poll
  /-- The task is polled and the timer has run out. -/
  | expire
  /-- The transmission is over. -/
  | sent (ok : Bool)
  deriving DecidableEq

def Led.blinking (l : Led) : Bool := !l.custom && l.cur = .wifiConnecting

/-- A command in the channel goes before the timer, as the first of the two futures. -/
def step (l : Led) : Event → Led
  | .post c => { l with cmd := l.cmd.trySend c }
  | .poll =>
    match l.phase, l.cmd.items with
    | .waiting, c :: _ => { l with cmd := l.cmd.tail }.serve c
    | _, _ => l
  | .expire =>
    match l.phase, l.cmd.items with
    | .waiting, c :: _ => { l with cmd := l.cmd.tail }.serve c
    | .waiting, [] =>
      if l.blinking then
        { l with blinkOn := !l.blinkOn, phase := .sending (frame (preset l.cur !l.blinkOn)) none }
      else l
    | _, _ => l
  | .sent ok =>
    match l.phase with
    | .sending data word =>
      -- the task ignores the outcome; the LED keeps its colour if it is not told one
      { l with
        phase := .waiting
        word := word.getD l.word
        shown := if ok then latch data <|> l.shown else l.shown }
    | .waiting => l

end Driver

section Word

variable {mode : UInt32}

theorem place_toNat {i : ℕ} (hi : i < 32) : i.toUInt32.toNat = i :=
  UInt32.toNat_ofNat_of_lt (hi.trans (by decide))

theorem record_toNat (hmode : mode.toNat < 256) (r g b : UInt8) : (record mode (r, g, b)).toNat =
    ((mode.toNat * 2 ^ 8 + r.toNat) * 2 ^ 8 + g.toNat) * 2 ^ 8 + b.toNat := by
  have hr := r.toNat_lt
  have hg := g.toNat_lt
  have hb := b.toNat_lt
  have hand (a n i : ℕ) (hn : n < 2 ^ 8) : (a <<< (i + 8)) ||| (n <<< i) = (a * 2 ^ 8 + n) <<< i := by
    have hlt : n <<< i < 2 ^ (i + 8) := by
      rw [Nat.shiftLeft_eq, Nat.mul_comm, Nat.pow_add]
      exact Nat.mul_lt_mul_of_pos_left hn (Nat.two_pow_pos i)
    rw [← Nat.shiftLeft_add_eq_or_of_lt hlt]
    rw [Nat.shiftLeft_eq, Nat.shiftLeft_eq, Nat.shiftLeft_eq, Nat.add_mul, Nat.mul_assoc, Nat.pow_add,
      Nat.mul_comm (2 ^ i)]
  have hshift {x : UInt32} {i : ℕ} (hx : x.toNat < 2 ^ 8) (hi : i ≤ 24) :
      (x <<< i.toUInt32).toNat = x.toNat <<< i := by
    have hi32 : i < 32 := by omega
    rw [UInt32.toNat_shiftLeft, place_toNat hi32, Nat.mod_eq_of_lt hi32, Nat.shiftLeft_eq]
    refine Nat.mod_eq_of_lt ((Nat.mul_lt_mul_of_pos_right hx (Nat.two_pow_pos i)).trans_le ?_)
    rw [← Nat.pow_add]
    exact Nat.pow_le_pow_right (by decide) (by omega)
  have h32 (x : UInt8) : x.toUInt32.toNat < 2 ^ 8 := by
    rw [UInt8.toNat_toUInt32]
    exact x.toNat_lt
  rw [record, UInt32.toNat_or, UInt32.toNat_or, UInt32.toNat_or, UInt8.toNat_toUInt32]
  rw [show (24 : UInt32) = (24 : ℕ).toUInt32 from rfl, show (16 : UInt32) = (16 : ℕ).toUInt32 from rfl,
    show (8 : UInt32) = (8 : ℕ).toUInt32 from rfl, hshift hmode (by omega), hshift (h32 r) (by omega),
    hshift (h32 g) (by omega), UInt8.toNat_toUInt32, UInt8.toNat_toUInt32, hand _ _ 16 hr, hand _ _ 8 hg]
  exact hand _ _ 0 hb

def modeOf (mode : UInt32) : LedMode :=
  if mode = modeCustom then .custom else if mode = modeOff then .off else .auto

theorem decode_record (hmode : mode.toNat < 256) (c : Rgb) : decode (record mode c) = (c, modeOf mode) := by
  obtain ⟨r, g, b⟩ := c
  have hword := record_toNat hmode r g b
  have hr := r.toNat_lt
  have hg := g.toNat_lt
  have hb := b.toNat_lt
  generalize record mode (r, g, b) = v at hword
  have hbyte (i : ℕ) (hi : i < 32) : (v >>> i.toUInt32).toUInt8.toNat = v.toNat / 2 ^ i % 2 ^ 8 := by
    rw [UInt32.toNat_toUInt8, UInt32.toNat_shiftRight, place_toNat hi, Nat.mod_eq_of_lt hi,
      Nat.shiftRight_eq_div_pow]
  have hred : (v >>> 16).toUInt8 = r := by
    rw [← UInt8.toNat_inj, show (16 : UInt32) = (16 : ℕ).toUInt32 from rfl, hbyte 16 (by omega)]
    omega
  have hgreen : (v >>> 8).toUInt8 = g := by
    rw [← UInt8.toNat_inj, show (8 : UInt32) = (8 : ℕ).toUInt32 from rfl, hbyte 8 (by omega)]
    omega
  have hblue : v.toUInt8 = b := by
    rw [← UInt8.toNat_inj, UInt32.toNat_toUInt8]
    omega
  have htop : v >>> 24 = mode := by
    rw [← UInt32.toNat_inj, UInt32.toNat_shiftRight, Nat.shiftRight_eq_div_pow]
    change v.toNat / 2 ^ 24 = mode.toNat
    omega
  rw [decode, hred, hgreen, hblue, htop]
  rfl

end Word

section Turns

inductive Turn where
  | start
  | cmd (c : Cmd)
  /-- The timer has run out. -/
  | tick
  deriving DecidableEq

def Turn.command : Turn → Option Cmd
  | .cmd c => some c
  | _ => none

/-- The turn that an event begins. -/
def begins (l : Led) : Event → Option Turn
  | .poll =>
    match l.phase, l.cmd.items with
    | .waiting, c :: _ => some (.cmd c)
    | _, _ => none
  | .expire =>
    match l.phase, l.cmd.items with
    | .waiting, c :: _ => some (.cmd c)
    | .waiting, [] => if l.blinking then some .tick else none
    | _, _ => none
  | _ => none

/-- The turn whose transmission is under way, those that are over with the outcomes of their transmissions,
the last one first, and the commands that found room in the channel. -/
structure History where
  begun : Option Turn
  done : List (Turn × Bool)
  accepted : List Cmd

def History.step (h : History) (l : Led) : Event → History
  | .post c => if l.cmd.items.length < 4 then { h with accepted := h.accepted ++ [c] } else h
  | .sent ok =>
    match h.begun with
    | some t => { h with begun := none, done := (t, ok) :: h.done }
    | none => h
  | e =>
    match begins l e with
    | some t => { h with begun := some t }
    | none => h

def watch (s : Led × History) (e : Event) : Led × History := (step s.1 e, s.2.step s.1 e)

/-- The driver after a run, and what has happened in it. -/
def history (es : List Event) : Led × History := final watch (init, ⟨some .start, [], []⟩) es

def History.over (h : History) : List Turn := h.done.map Prod.fst

def History.turns (h : History) : List Turn := h.begun.toList ++ h.over

/-- The status that is tracked. -/
def statusOf : List Turn → Status
  | .cmd (.status s) :: _ => s
  | _ :: ts => statusOf ts
  | [] => .boot

/-- What a query answers after these turns. -/
def reported : List Turn → Rgb × LedMode
  | .cmd (.status s) :: _ => (preset s true, .auto)
  | .cmd .auto :: ts => (preset (statusOf ts) true, .auto)
  | .cmd (.rgb c) :: _ => (c, .custom)
  | .cmd .off :: _ => ((0, 0, 0), .off)
  | .start :: _ => (preset .boot true, .auto)
  | .tick :: ts => reported ts
  | [] => ((0, 0, 0), .auto)

/-- How often the timer has run out since the last status. The commands `auto`, `off` and those for a
colour go on counting. -/
def ticks : List Turn → ℕ
  | .cmd (.status _) :: _ => 0
  | .tick :: ts => ticks ts + 1
  | _ :: ts => ticks ts
  | [] => 0

/-- The colour that the last turn sends. -/
def asked : List Turn → Rgb
  | .tick :: ts => preset (statusOf ts) (ticks (.tick :: ts) % 2 = 1)
  | ts => (reported ts).1

/-- What the LED shows: what the last successful transmission sent. -/
def latched : List (Turn × Bool) → Option Rgb
  | (t, true) :: ts => some (asked (t :: ts.map Prod.fst))
  | (_, false) :: ts => latched ts
  | [] => none

structure Follows (l : Led) (h : History) : Prop where
  cur : l.cur = statusOf h.turns
  blinkOn : l.blinkOn = decide (ticks h.turns % 2 = 1)
  waiting : h.begun = none → l.phase = .waiting
  sending : ∀ t, h.begun = some t → ∃ word, l.phase = .sending (frame (asked h.turns)) word ∧
    word.map decode = if t = .tick then none else some (reported h.turns)
  current : current l = reported h.over
  shown : l.shown = latched h.done
  accepted : h.accepted = h.turns.reverse.filterMap Turn.command ++ l.cmd.items

variable {l : Led} {h : History} {c : Cmd} {cs : List Cmd}

theorem follows_init : Follows init ⟨some .start, [], []⟩ where
  cur := rfl
  blinkOn := rfl
  waiting h := nomatch h
  sending t ht := by
    obtain rfl : Turn.start = t := Option.some.inj ht
    exact ⟨_, rfl, congrArg some (decode_record (by decide) _)⟩
  current := rfl
  shown := rfl
  accepted := rfl

theorem begun_eq_none (hf : Follows l h) (hphase : l.phase = .waiting) : h.begun = none := by
  rcases hb : h.begun with _ | t
  · rfl
  · obtain ⟨word, hword, -⟩ := hf.sending t hb
    rw [hphase] at hword
    cases hword

theorem turns_of_none (hb : h.begun = none) : h.turns = h.over := by
  rw [History.turns, hb]
  rfl

theorem follows_serve (hf : Follows l h) (hphase : l.phase = .waiting) (hitems : l.cmd.items = c :: cs) :
    Follows ({ l with cmd := l.cmd.tail }.serve c) { h with begun := some (.cmd c) } := by
  have hb := begun_eq_none hf hphase
  have hcur := hf.cur
  have hblink := hf.blinkOn
  have haccepted := hf.accepted
  rw [turns_of_none hb] at hcur hblink haccepted
  have hrest : h.accepted =
      (Turn.cmd c :: h.over).reverse.filterMap Turn.command ++ l.cmd.tail.items := by
    have htail : l.cmd.tail.items = cs := congrArg List.tail hitems
    rw [haccepted, hitems, htail, List.reverse_cons, List.filterMap_append, List.append_assoc]
    rfl
  have hmode (mode : UInt32) (hmode : mode.toNat < 256) (color : Rgb) :
      (some (record mode color)).map decode = some (color, modeOf mode) :=
    congrArg some (decode_record hmode color)
  cases c with
  | status s =>
    refine ⟨rfl, rfl, nofun, ?_, hf.current, hf.shown, hrest⟩
    rintro _ ⟨⟩
    exact ⟨_, rfl, hmode modeAuto (by decide) _⟩
  | auto =>
    refine ⟨hcur, hblink, nofun, ?_, hf.current, hf.shown, hrest⟩
    rintro _ ⟨⟩
    refine ⟨some (record modeAuto (preset l.cur true)), ?_, ?_⟩
    · rw [hcur]
      rfl
    · rw [hmode modeAuto (by decide), hcur]
      rfl
  | rgb color =>
    refine ⟨hcur, hblink, nofun, ?_, hf.current, hf.shown, hrest⟩
    rintro _ ⟨⟩
    exact ⟨_, rfl, hmode modeCustom (by decide) _⟩
  | off =>
    refine ⟨hcur, hblink, nofun, ?_, hf.current, hf.shown, hrest⟩
    rintro _ ⟨⟩
    exact ⟨_, rfl, hmode modeOff (by decide) _⟩

theorem follows_tick (hf : Follows l h) (hphase : l.phase = .waiting) :
    Follows { l with blinkOn := !l.blinkOn, phase := .sending (frame (preset l.cur !l.blinkOn)) none }
      { h with begun := some .tick } := by
  have hb := begun_eq_none hf hphase
  have hcur := hf.cur
  have hblink := hf.blinkOn
  have haccepted := hf.accepted
  rw [turns_of_none hb] at hcur hblink haccepted
  have htoggle : (!l.blinkOn) = decide (ticks (.tick :: h.over) % 2 = 1) := by
    rw [hblink, ticks]
    rcases Nat.mod_two_eq_zero_or_one (ticks h.over) with h0 | h0 <;> simp [Nat.add_mod, h0]
  refine ⟨hcur, htoggle, nofun, ?_, hf.current, hf.shown, ?_⟩
  · rintro _ ⟨⟩
    refine ⟨none, ?_, rfl⟩
    rw [htoggle, hcur]
    rfl
  · change h.accepted = (Turn.tick :: h.over).reverse.filterMap Turn.command ++ l.cmd.items
    rw [haccepted, List.reverse_cons, List.filterMap_append]
    simp [Turn.command]

theorem step_sent {data : List Pulse} {word : Option UInt32} (hphase : l.phase = .sending data word)
    (ok : Bool) : step l (.sent ok) =
      { l with
        phase := .waiting
        word := word.getD l.word
        shown := if ok then latch data <|> l.shown else l.shown } := by
  simp only [step, hphase]

theorem follows_sent (hf : Follows l h) (ok : Bool) : Follows (step l (.sent ok)) (h.step l (.sent ok)) := by
  rcases hb : h.begun with _ | t
  · have hstep : h.step l (.sent ok) = h := by
      simp only [History.step, hb]
    have hled : step l (.sent ok) = l := by
      simp only [step, hf.waiting hb]
    rwa [hstep, hled]
  · obtain ⟨word, hphase, hword⟩ := hf.sending t hb
    have hturns : h.turns = t :: h.over := by
      rw [History.turns, hb]
      rfl
    have hstep : h.step l (.sent ok) = { h with begun := none, done := (t, ok) :: h.done } := by
      simp only [History.step, hb]
    have hled : step l (.sent ok) =
        { l with
          phase := .waiting
          word := word.getD l.word
          shown := if ok then some (asked h.turns) else l.shown } := by
      rw [step_sent hphase, latch_frame]
      cases ok <;> rfl
    rw [hstep, hled]
    refine ⟨hf.cur.trans (congrArg statusOf hturns), ?_, fun _ => rfl, nofun, ?_, ?_, ?_⟩
    · rw [hf.blinkOn, hturns]
      rfl
    · change decode (word.getD l.word) = reported (t :: h.over)
      rw [hturns] at hword
      by_cases htick : t = .tick
      · rw [if_pos htick, Option.map_eq_none_iff] at hword
        rw [hword, htick]
        exact hf.current
      · rw [if_neg htick] at hword
        obtain ⟨w, rfl, hw⟩ := Option.map_eq_some_iff.mp hword
        exact hw
    · cases ok with
      | true =>
        rw [hturns]
        rfl
      | false => exact hf.shown
    · rw [hf.accepted, hturns]
      rfl

theorem follows_step (hf : Follows l h) (e : Event) : Follows (step l e) (h.step l e) := by
  cases e with
  | post c =>
    by_cases hroom : l.cmd.items.length < 4
    · have hstep : h.step l (.post c) = { h with accepted := h.accepted ++ [c] } := if_pos hroom
      have hled : step l (.post c) = { l with cmd := l.cmd.trySend c } := rfl
      rw [hstep, hled]
      refine ⟨hf.cur, hf.blinkOn, hf.waiting, hf.sending, hf.current, hf.shown, ?_⟩
      rw [Channel.trySend, dif_pos hroom]
      change h.accepted ++ [c] = _ ++ (l.cmd.items ++ [c])
      rw [hf.accepted, List.append_assoc]
      rfl
    · have hstep : h.step l (.post c) = h := if_neg hroom
      have hled : step l (.post c) = l := by
        rw [step, Channel.trySend, dif_neg hroom]
      rwa [hstep, hled]
  | poll =>
    rcases hphase : l.phase with ⟨data, word⟩ | _
    · simpa [step, History.step, begins, hphase] using hf
    · rcases hitems : l.cmd.items with _ | ⟨c, cs⟩
      · simpa [step, History.step, begins, hphase, hitems] using hf
      · simpa [step, History.step, begins, hphase, hitems] using follows_serve hf hphase hitems
  | expire =>
    rcases hphase : l.phase with ⟨data, word⟩ | _
    · simpa [step, History.step, begins, hphase] using hf
    · rcases hitems : l.cmd.items with _ | ⟨c, cs⟩
      · by_cases hblinking : l.blinking = true
        · simpa [step, History.step, begins, hphase, hitems, hblinking] using follows_tick hf hphase
        · simpa [step, History.step, begins, hphase, hitems, hblinking] using hf
      · simpa [step, History.step, begins, hphase, hitems] using follows_serve hf hphase hitems
  | sent ok => exact follows_sent hf ok

theorem follows_history (es : List Event) : Follows (history es).1 (history es).2 := by
  have hstep (s : Led × History) (e : Event) (hs : Follows s.1 s.2) :
      Follows (watch s e).1 (watch s e).2 := follows_step hs e
  have hrun : Always watch (fun s => Follows s.1 s.2) (init, ⟨some .start, [], []⟩) es :=
    always_of_step hstep follows_init
  exact hrun.final

theorem history_fst (es : List Event) : (history es).1 = final step init es := by
  have hrun (s : Led × History) : (final watch s es).1 = final step s.1 es := by
    induction es generalizing s with
    | nil => rfl
    | cons e es ih => exact ih (watch s e)
  exact hrun _

/-- After every run, whatever the order in which front ends post, the timer runs out and transmissions
end: the commands that found room have been taken out in their order or still wait, a query answers what
the turns that are over say, and the LED shows what the last successful transmission sent. -/
theorem led_follows_turns (es : List Event) :
    let l := final step init es
    let h := (history es).2
    h.accepted = h.turns.reverse.filterMap Turn.command ++ l.cmd.items ∧
      current l = reported h.over ∧ l.shown = latched h.done := by
  have hf := follows_history es
  rw [history_fst] at hf
  exact ⟨hf.accepted, hf.current, hf.shown⟩

end Turns

section Truthful

abbrev connecting : Rgb × LedMode := (preset .wifiConnecting true, .auto)

/-- The LED shows the colour of the answer, or is dark between two flashes. -/
def Shows (shown : Option Rgb) (answer : Rgb × LedMode) : Prop :=
  shown = some answer.1 ∨ answer = connecting ∧ shown = some (preset .wifiConnecting false)

/-- A transmission for a command does not fail while the LED shows something else. -/
def Delivered (l : Led) : Event → Prop
  | .sent false =>
    match l.phase with
    | .sending _ (some word) => Shows l.shown (decode word)
    | _ => True
  | _ => True

/-- What a transmission under way will show, and what a query will answer behind it. -/
structure Steady (l : Led) : Prop where
  waiting : l.phase = .waiting →
    Shows l.shown (current l) ∧ (l.blinking = true → current l = connecting)
  toggles : ∀ data, l.phase = .sending data none → Shows l.shown (current l) ∧
    current l = connecting ∧ ∃ on, data = frame (preset .wifiConnecting on)
  commands : ∀ data word, l.phase = .sending data (some word) →
    data = frame (decode word).1 ∧ (l.blinking = true → decode word = connecting)

variable {l : Led} {e : Event}

theorem steady_init : Steady init where
  waiting h := nomatch h
  toggles _ h := nomatch h
  commands _ _ h := by
    obtain ⟨rfl, hword⟩ := Phase.sending.inj h
    obtain rfl := Option.some.inj hword
    exact ⟨congrArg frame (congrArg Prod.fst (decode_record (by decide) _)).symm, nofun⟩

/-- A command's transmission carries the colour that a query answers behind it. -/
theorem steady_apply (c : Rgb) {mode : UInt32} (hmode : mode.toNat < 256)
    (hblink : l.blinking = true → (c, modeOf mode) = connecting) : Steady (l.apply c mode) where
  waiting h := nomatch h
  toggles _ h := nomatch h
  commands _ _ h := by
    obtain ⟨rfl, hword⟩ := Phase.sending.inj h
    obtain rfl := Option.some.inj hword
    rw [decode_record hmode]
    exact ⟨rfl, hblink⟩

theorem cur_of_blinking (h : l.blinking = true) : l.cur = .wifiConnecting := by
  rw [Led.blinking, Bool.and_eq_true] at h
  exact of_decide_eq_true h.2

theorem steady_serve (l : Led) (c : Cmd) : Steady (l.serve c) := by
  cases c with
  | status s =>
    refine steady_apply _ (by decide) fun h => ?_
    obtain rfl : s = .wifiConnecting := cur_of_blinking h
    rfl
  | auto =>
    refine steady_apply _ (by decide) fun h => ?_
    rw [show l.cur = .wifiConnecting from cur_of_blinking (l := { l with custom := false }) h]
    rfl
  | rgb c => exact steady_apply _ (by decide) nofun
  | off => exact steady_apply _ (by decide) nofun

theorem steady_tick (hs : Steady l) (hphase : l.phase = .waiting) (hblink : l.blinking = true) :
    Steady { l with blinkOn := !l.blinkOn, phase := .sending (frame (preset l.cur !l.blinkOn)) none } := by
  obtain ⟨hshows, hanswer⟩ := hs.waiting hphase
  refine ⟨nofun, fun data h => ?_, nofun⟩
  obtain ⟨rfl, -⟩ := Phase.sending.inj h
  exact ⟨hshows, hanswer hblink, !l.blinkOn, by rw [cur_of_blinking hblink]⟩

theorem steady_poll (hs : Steady l) : Steady (step l .poll) := by
  simp only [step]
  split
  · exact steady_serve _ _
  · exact hs

theorem steady_expire (hs : Steady l) : Steady (step l .expire) := by
  simp only [step]
  split
  · exact steady_serve _ _
  next hphase hitems =>
    split_ifs with hblink
    · exact steady_tick hs hphase hblink
    · exact hs
  · exact hs

theorem shows_flash (on : Bool) : Shows (some (preset .wifiConnecting on)) connecting := by
  cases on with
  | true => exact Or.inl rfl
  | false => exact Or.inr ⟨rfl, rfl⟩

/-- Once a transmission is over, the LED shows the answer exactly if it was delivered. -/
theorem steady_sent (hs : Steady l) (ok : Bool) (hd : Delivered l (.sent ok)) :
    Steady (step l (.sent ok)) := by
  rcases hphase : l.phase with ⟨data, _ | word⟩ | _
  · obtain ⟨hshows, hanswer, on, rfl⟩ := hs.toggles data hphase
    rw [step_sent hphase]
    refine ⟨fun _ => ⟨?_, fun _ => hanswer⟩, nofun, nofun⟩
    cases ok with
    | true =>
      change Shows (latch _ <|> l.shown) (current l)
      rw [latch_frame, hanswer]
      exact shows_flash on
    | false => exact hshows
  · obtain ⟨rfl, hblink⟩ := hs.commands data word hphase
    rw [step_sent hphase]
    refine ⟨fun _ => ⟨?_, hblink⟩, nofun, nofun⟩
    cases ok with
    | true =>
      change Shows (latch _ <|> l.shown) (decode word)
      rw [latch_frame]
      exact Or.inl rfl
    | false =>
      simp only [Delivered, hphase] at hd
      exact hd
  · simpa only [step, hphase] using hs

theorem steady_step (hs : Steady l) (hd : Delivered l e) : Steady (step l e) := by
  cases e with
  | post c => exact ⟨hs.waiting, hs.toggles, hs.commands⟩
  | poll => exact steady_poll hs
  | expire => exact steady_expire hs
  | sent ok => exact steady_sent hs ok hd

/-- Whenever the task waits, the LED shows what a status query answers, or is dark between two flashes, if
and only if no transmission for a command fails while the LED shows something else. -/
theorem led_truthful_iff (es : List Event) :
    Always step (fun l => l.phase = .waiting → Shows l.shown (current l)) init es ↔
      Along step Delivered init es := by
  refine always_iff_along (fun l hs h => (hs.waiting h).1) (fun l e => steady_step)
    (fun l e hs hd h => hd ?_) steady_init
  cases e with
  | sent ok =>
    rcases hphase : l.phase with ⟨data, _ | word⟩ | _
    · cases ok <;> simp only [Delivered, hphase]
    · cases ok with
      | true => trivial
      | false =>
        have hshows := h (by rw [step_sent hphase])
        rw [step_sent hphase] at hshows
        simp only [Delivered, hphase]
        exact hshows
    · cases ok <;> simp only [Delivered, hphase]
  | _ => trivial

end Truthful

end AtNode.StatusLed
