import AtNode.Ch582.Node
import AtNode.Lib.Run
import Mathlib.Data.Nat.Bitwise

/-!
# The LED service of the CH582 firmware

Four LEDs are named by the bits of a mask, and every function runs through the bits that are set, from
LED 1 up. A blinking LED has its phase in its mode, and `hws_led_update` moves on every blinking LED whose
time has come and says when the next one is due. Only LED 1 has a pin.

`hws_led_state` and `hws_led_pre_blink` are masks of their own beside the table: what `hws_led_on_off` was
last told, and what was on when a blink began. The abstract view is four blinkers that know nothing of each other.
-/

namespace AtNode.HwsLed

open AtCmds (Led ledModeOff ledModeOn ledModeBlink ledModeFlash ledModeToggle)

section Source

def led : Fin 4 → UInt8
  | 0 => 0x01
  | 1 => 0x02
  | 2 => 0x04
  | 3 => 0x08

abbrev defaultDutyCycle : UInt8 := 5

abbrev defaultFlashCount : UInt8 := 50

abbrev defaultFlashTime : UInt16 := 1000

structure Leds where
  ctrl : Fin 4 → Led
  sleepActive : Bool
  state : UInt8
  preBlink : UInt8
  /-- The macro that ran last is the one that turns the LED on; on this board only those of LED 1 reach a
  pin. -/
  lit : Fin 4 → Bool

def Leds.setCtrl (s : Leds) (i : Fin 4) (c : Led) : Leds :=
  { s with ctrl := Function.update s.ctrl i c }

/-- The LEDs of a mask, as the loops meet them. -/
def ledsOf (leds : UInt8) : List (Fin 4) := (List.finRange 4).filter fun i => leds &&& led i ≠ 0

def hwsLedOnOff (s : Leds) (leds mode : UInt8) : Leds :=
  { s with
    lit := fun i => if leds &&& led i ≠ 0 then mode = ledModeOn else s.lit i
    state := if mode ≠ 0 then s.state ||| leds else s.state &&& (leds ^^^ 0xFF) }

/-- The body of the loop of `hws_led_set`. -/
def setOne (mode : UInt8) (s : Leds) (i : Fin 4) : Leds :=
  let m := if mode ≠ ledModeToggle then mode else (s.ctrl i).mode ^^^ ledModeOn
  hwsLedOnOff (s.setCtrl i { s.ctrl i with mode := m }) (led i) m

/-- `hws_led_set` with ON, OFF or TOGGLE. -/
def setPlain (s : Leds) (leds mode : UInt8) : Leds := (ledsOf leds).foldl (setOne mode) s

/-- The body of the loop of `hws_led_blink`; `now` is what the clock says then. -/
def blinkOne (count percent : UInt8) (period : UInt16) (now : Fin 4 → UInt32) (s : Leds) (i : Fin 4) :
    Leds :=
  { s with preBlink := s.preBlink ||| (led i &&& s.state) }.setCtrl i
    { mode := (if count = 0 then ledModeOff ||| ledModeFlash else ledModeOff) ||| ledModeBlink
      todo := count
      onPct := percent
      time := period
      next := now i }

def hwsLedBlink (s : Leds) (leds count percent : UInt8) (period : UInt16) (now : Fin 4 → UInt32) :
    Leds × Option UInt16 :=
  if leds ≠ 0 ∧ percent ≠ 0 ∧ period ≠ 0 then
    if percent < 100 then ((ledsOf leds).foldl (blinkOne count percent period now) s, some 0)
    else (setPlain s leds ledModeOn, none)
  else (setPlain s leds ledModeOff, none)

def hwsLedSet (s : Leds) (leds mode : UInt8) (now : Fin 4 → UInt32) : Leds × Option UInt16 :=
  if mode = ledModeBlink then hwsLedBlink s leds 1 defaultDutyCycle defaultFlashTime now
  else if mode = ledModeFlash then
    hwsLedBlink s leds defaultFlashCount defaultDutyCycle defaultFlashTime now
  else if mode = ledModeOn ∨ mode = ledModeOff ∨ mode = ledModeToggle then (setPlain s leds mode, none)
  else (s, none)

def phase (pct : UInt8) (time : UInt16) : UInt16 := (pct.toUInt32 * time.toUInt32 / 100).toUInt16

/-- An LED whose on phase ends: a blink that is not endless counts down, and the last one ends. -/
def ended (c : Led) : Led :=
  let mode := c.mode &&& ~~~ledModeOn
  if mode &&& ledModeFlash ≠ 0 then { c with mode }
  else
    let todo := if c.todo ≠ 0xFF then c.todo - 1 else c.todo
    { c with todo, mode := if todo = 0 then mode ^^^ ledModeBlink else mode }

/-- The end of an on phase. -/
def turnOff (now : UInt32) (s : Leds) (i : Fin 4) : Leds × UInt16 :=
  let c := ended (s.ctrl i)
  let s := hwsLedOnOff s (led i) ledModeOff
  if c.mode &&& ledModeBlink ≠ 0 then
    let wait := phase (100 - c.onPct) c.time
    (s.setCtrl i { c with next := now + wait.toUInt32 }, wait)
  else
    let s := setPlain (s.setCtrl i c) (led i)
      (if s.preBlink &&& led i ≠ 0 then ledModeOn else ledModeOff)
    ({ s with preBlink := s.preBlink &&& (led i ^^^ 0xFF) }, 0)

/-- The end of an off phase. -/
def turnOn (now : UInt32) (s : Leds) (i : Fin 4) : Leds × UInt16 :=
  let c := s.ctrl i
  let wait := phase c.onPct c.time
  let s := hwsLedOnOff s (led i) ledModeOn
  (s.setCtrl i { c with mode := c.mode ||| ledModeOn, next := now + wait.toUInt32 }, wait)

def move (now : UInt32) (s : Leds) (i : Fin 4) : Leds × UInt16 :=
  if (s.ctrl i).next ≤ now then
    if (s.ctrl i).mode &&& ledModeOn ≠ 0 then turnOff now s i else turnOn now s i
  else (s, ((s.ctrl i).next - now).toUInt16)

def updateOne (now : Fin 4 → UInt32) (acc : Leds × UInt16) (i : Fin 4) : Leds × UInt16 :=
  if (acc.1.ctrl i).mode &&& ledModeBlink ≠ 0 then
    let r := move (now i) acc.1 i
    (r.1, if acc.2 = 0 ∨ r.2 ≠ 0 ∧ r.2 < acc.2 then r.2 else acc.2)
  else acc

def hwsLedUpdate (s : Leds) (now : Fin 4 → UInt32) : Leds × Option UInt16 :=
  if s.sleepActive then (s, none)
  else
    let r := (List.finRange 4).foldl (updateOne now) (s, 0)
    (r.1, if r.2 ≠ 0 then some r.2 else none)

def hwsLedInit (lit : Fin 4 → Bool) : Leds :=
  { setPlain ⟨fun _ => ⟨0, 0, 0, 0, 0⟩, false, 0, 0, lit⟩ 0x0F ledModeOff with sleepActive := false }

inductive Event where
  | set (leds mode : UInt8) (now : Fin 4 → UInt32)
  | blink (leds count percent : UInt8) (period : UInt16) (now : Fin 4 → UInt32)
  | update (now : Fin 4 → UInt32)

def serve (s : Leds) : Event → Leds × Option UInt16
  | .set leds mode now => hwsLedSet s leds mode now
  | .blink leds count percent period now => hwsLedBlink s leds count percent period now
  | .update now => hwsLedUpdate s now

def step (s : Leds) (e : Event) : Leds := (serve s e).1

end Source

section Masks

def Has (leds : UInt8) (i : Fin 4) : Prop := leds &&& led i ≠ 0

instance (leds : UInt8) (i : Fin 4) : Decidable (Has leds i) := inferInstanceAs (Decidable (_ ≠ _))

variable (x y : UInt8) (i j : Fin 4)

theorem toNat_led : (led i).toNat = 2 ^ (i : ℕ) := by
  revert i
  decide

theorem has_iff_testBit : Has x i ↔ x.toNat.testBit i = true := by
  rw [Has, ne_eq, ← UInt8.toNat_inj, UInt8.toNat_and, toNat_led, Nat.and_two_pow]
  cases x.toNat.testBit i <;> simp

@[simp] theorem has_or : Has (x ||| y) i ↔ Has x i ∨ Has y i := by
  simp [has_iff_testBit]

@[simp] theorem has_and : Has (x &&& y) i ↔ Has x i ∧ Has y i := by
  simp [has_iff_testBit]

@[simp] theorem has_led : Has (led i) j ↔ i = j := by
  rw [has_iff_testBit, toNat_led, Nat.testBit_two_pow]
  simp [Fin.ext_iff]

theorem has_xor_led (h : i ≠ j) : Has (x ^^^ led i) j ↔ Has x j := by
  rw [has_iff_testBit, has_iff_testBit, UInt8.toNat_xor, toNat_led, Nat.testBit_xor,
    Nat.testBit_two_pow_of_ne (by omega), Bool.xor_false]

theorem has_xor_self : Has (x ^^^ led i) i ↔ ¬ Has x i := by
  rw [has_iff_testBit, has_iff_testBit, UInt8.toNat_xor, toNat_led, Nat.testBit_xor,
    Nat.testBit_two_pow_self]
  simp

@[simp] theorem has_others : Has (led i ^^^ 0xFF) j ↔ i ≠ j := by
  revert i j
  decide

theorem mem_ledsOf : i ∈ ledsOf x ↔ Has x i := by
  simp [ledsOf, Has]

theorem nodup_ledsOf : (ledsOf x).Nodup := (List.nodup_finRange 4).filter _

end Masks

section Blinker

/-- One LED. -/
structure Blinker where
  ctrl : Led
  shown : Bool
  saved : Bool
  lit : Bool

namespace Blinker

variable (b : Blinker)

def onOff (mode : UInt8) : Blinker := { b with shown := mode ≠ 0, lit := mode = ledModeOn }

def setMode (mode : UInt8) : Blinker :=
  let m := if mode ≠ ledModeToggle then mode else b.ctrl.mode ^^^ ledModeOn
  { b with ctrl := { b.ctrl with mode := m } }.onOff m

def start (count percent : UInt8) (period : UInt16) (now : UInt32) : Blinker :=
  { b with
    ctrl :=
      { mode := (if count = 0 then ledModeOff ||| ledModeFlash else ledModeOff) ||| ledModeBlink
        todo := count
        onPct := percent
        time := period
        next := now }
    saved := b.saved || b.shown }

def flip (now : UInt32) : Blinker × UInt16 :=
  if b.ctrl.mode &&& ledModeOn ≠ 0 then
    let c := ended b.ctrl
    if c.mode &&& ledModeBlink ≠ 0 then
      let wait := phase (100 - c.onPct) c.time
      ({ b with ctrl := { c with next := now + wait.toUInt32 } }.onOff ledModeOff, wait)
    else ({ { b with ctrl := c }.setMode (if b.saved then ledModeOn else ledModeOff) with
      saved := false }, 0)
  else
    let wait := phase b.ctrl.onPct b.ctrl.time
    ({ b with ctrl := { b.ctrl with mode := b.ctrl.mode ||| ledModeOn, next := now + wait.toUInt32 } }.onOff
      ledModeOn, wait)

def Blinking : Prop := b.ctrl.mode &&& ledModeBlink ≠ 0

instance : Decidable b.Blinking := inferInstanceAs (Decidable (_ ≠ _))

def Due (now : UInt32) : Prop := b.Blinking ∧ b.ctrl.next ≤ now

instance (now : UInt32) : Decidable (b.Due now) := inferInstanceAs (Decidable (_ ∧ _))

/-- The LED at an update, and the time it asks for. -/
def tick (now : UInt32) : Blinker × UInt16 :=
  if b.Due now then b.flip now else (b, if b.Blinking then (b.ctrl.next - now).toUInt16 else 0)

end Blinker

def view (s : Leds) (i : Fin 4) : Blinker := ⟨s.ctrl i, Has s.state i, Has s.preBlink i, s.lit i⟩

variable (s : Leds) (i j : Fin 4)

theorem view_setCtrl (c : Led) : view (s.setCtrl i c) j =
    if i = j then { view s j with ctrl := c } else view s j := by
  unfold view Leds.setCtrl
  by_cases h : i = j
  · subst h
    simp
  · simp [h, Function.update_of_ne (Ne.symm h)]

theorem view_onOff (mode : UInt8) : view (hwsLedOnOff s (led i) mode) j =
    if i = j then (view s j).onOff mode else view s j := by
  have hbit : (led i &&& led j ≠ 0) ↔ i = j := has_led i j
  unfold view hwsLedOnOff Blinker.onOff
  by_cases h : i = j
  · subst h
    have hne : led i ≠ 0 := by
      revert i
      decide
    by_cases hm : mode = 0 <;> simp [hm, hne]
  · by_cases hm : mode = 0 <;> simp [hm, h, hbit]

theorem view_setOne (mode : UInt8) (s : Leds) (i j : Fin 4) : view (setOne mode s i) j =
    if i = j then (view s j).setMode mode else view s j := by
  unfold setOne
  dsimp only
  rw [view_onOff, view_setCtrl]
  by_cases h : i = j
  · subst h
    simp only [↓reduceIte, Blinker.setMode]
    rfl
  · simp only [h, ↓reduceIte]

theorem view_blinkOne (count percent : UInt8) (period : UInt16) (now : Fin 4 → UInt32) (s : Leds)
    (i j : Fin 4) : view (blinkOne count percent period now s i) j =
      if i = j then (view s j).start count percent period (now j) else view s j := by
  unfold blinkOne
  rw [view_setCtrl]
  by_cases h : i = j
  · subst h
    simp [view, Blinker.start]
  · simp [h, view]

/-- A loop that treats one LED after the other treats each LED of the mask once. -/
theorem view_foldl {f : Leds → Fin 4 → Leds} {g : Fin 4 → Blinker → Blinker}
    (hf : ∀ s i j, view (f s i) j = if i = j then g j (view s j) else view s j) {l : List (Fin 4)}
    (hl : l.Nodup) : view (l.foldl f s) j = if j ∈ l then g j (view s j) else view s j := by
  induction l generalizing s with
  | nil => rfl
  | cons i l ih =>
    obtain ⟨hi, hl⟩ := List.nodup_cons.mp hl
    rw [List.foldl_cons, ih (f s i) hl, hf]
    by_cases h : i = j
    · subst h
      simp [hi]
    · simp [h, Ne.symm h]

theorem view_setPlain (leds mode : UInt8) : view (setPlain s leds mode) j =
    if Has leds j then (view s j).setMode mode else view s j := by
  rw [setPlain, view_foldl (g := fun _ b => b.setMode mode) s j (view_setOne mode) (nodup_ledsOf leds)]
  simp only [mem_ledsOf]

theorem view_blink (leds count percent : UInt8) (period : UInt16) (now : Fin 4 → UInt32) :
    view ((ledsOf leds).foldl (blinkOne count percent period now) s) j =
      if Has leds j then (view s j).start count percent period (now j) else view s j := by
  rw [view_foldl (g := fun j b => b.start count percent period (now j)) s j
    (view_blinkOne count percent period now) (nodup_ledsOf leds)]
  simp only [mem_ledsOf]

theorem view_turnOn (now : UInt32) : view (turnOn now s i).1 j =
    if i = j then
      { view s i with
        ctrl :=
          { s.ctrl i with
            mode := (s.ctrl i).mode ||| ledModeOn
            next := now + (phase (s.ctrl i).onPct (s.ctrl i).time).toUInt32 } }.onOff ledModeOn
    else view s j := by
  unfold turnOn
  dsimp only
  rw [view_setCtrl, view_onOff]
  by_cases hij : i = j
  · subst hij
    simp only [↓reduceIte]
    rfl
  · simp only [hij, ↓reduceIte]

theorem view_forget : view { s with preBlink := s.preBlink &&& (led i ^^^ 0xFF) } j =
    if i = j then { view s j with saved := false } else view s j := by
  unfold view
  by_cases h : i = j
  · subst h
    simp
  · simp [h]

theorem view_turnOff (now : UInt32) (h : (s.ctrl i).mode &&& ledModeOn ≠ 0) :
    view (turnOff now s i).1 j = (if i = j then ((view s i).flip now).1 else view s j) ∧
      (turnOff now s i).2 = ((view s i).flip now).2 := by
  have hon : (view s i).ctrl.mode &&& ledModeOn ≠ 0 := h
  unfold turnOff Blinker.flip
  rw [if_pos hon]
  dsimp only
  by_cases hb : (ended (s.ctrl i)).mode &&& ledModeBlink ≠ 0
  · have hb' : (ended (view s i).ctrl).mode &&& ledModeBlink ≠ 0 := hb
    rw [if_pos hb, if_pos hb']
    dsimp only
    rw [view_setCtrl, view_onOff]
    by_cases hij : i = j
    · subst hij
      simp only [↓reduceIte]
      exact ⟨rfl, rfl⟩
    · simp only [hij, ↓reduceIte]
      exact ⟨trivial, rfl⟩
  · have hb' : ¬ (ended (view s i).ctrl).mode &&& ledModeBlink ≠ 0 := hb
    have hsaved : (view s i).saved = true ↔ s.preBlink &&& led i ≠ 0 := decide_eq_true_iff
    rw [if_neg hb, if_neg hb']
    dsimp only
    rw [view_forget, view_setPlain, view_setCtrl, view_onOff]
    by_cases hij : i = j
    · subst hij
      simp only [has_led, ↓reduceIte, hsaved, and_true]
      rfl
    · simp only [has_led, hij, ↓reduceIte, and_true]

theorem view_move (now : UInt32) (hb : (view s i).Blinking) :
    view (move now s i).1 j = (if i = j then ((view s i).tick now).1 else view s j) ∧
      (move now s i).2 = ((view s i).tick now).2 := by
  unfold move Blinker.tick
  by_cases hdue : (s.ctrl i).next ≤ now
  · have hdue' : (view s i).Due now := ⟨hb, hdue⟩
    rw [if_pos hdue, if_pos hdue']
    by_cases hon : (s.ctrl i).mode &&& ledModeOn ≠ 0
    · rw [if_pos hon]
      exact view_turnOff s i j now hon
    · have hon' : ¬ (view s i).ctrl.mode &&& ledModeOn ≠ 0 := hon
      rw [if_neg hon, view_turnOn, Blinker.flip, if_neg hon']
      exact ⟨rfl, rfl⟩
  · have hdue' : ¬ (view s i).Due now := fun h => hdue h.2
    rw [if_neg hdue, if_neg hdue', if_pos hb]
    refine ⟨?_, rfl⟩
    split_ifs with h
    · rw [h]
    · rfl

/-- The smaller of two times, where zero stands for no time at all. -/
def sooner (a w : UInt16) : UInt16 := if a = 0 ∨ w ≠ 0 ∧ w < a then w else a

theorem updateOne_eq (now : Fin 4 → UInt32) (acc : Leds × UInt16) :
    view (updateOne now acc i).1 j =
        (if i = j then ((view acc.1 i).tick (now i)).1 else view acc.1 j) ∧
      (updateOne now acc i).2 = sooner acc.2 ((view acc.1 i).tick (now i)).2 := by
  unfold updateOne
  by_cases hb : (view acc.1 i).Blinking
  · obtain ⟨hview, hwait⟩ := view_move acc.1 i j (now i) hb
    have hmode : (acc.1.ctrl i).mode &&& ledModeBlink ≠ 0 := hb
    rw [if_pos hmode]
    exact ⟨hview, by rw [sooner, ← hwait]⟩
  · have hmode : ¬ (acc.1.ctrl i).mode &&& ledModeBlink ≠ 0 := hb
    have htick : (view acc.1 i).tick (now i) = (view acc.1 i, 0) := by
      rw [Blinker.tick, if_neg fun h => hb h.1, if_neg hb]
    rw [if_neg hmode, htick, sooner]
    constructor
    · split_ifs with h
      · rw [h]
      · rfl
    · split_ifs with h
      · exact h.resolve_right fun h => h.1 rfl
      · rfl

theorem foldl_updateOne (now : Fin 4 → UInt32) {l : List (Fin 4)} (hl : l.Nodup)
    (acc : Leds × UInt16) :
    view (l.foldl (updateOne now) acc).1 j =
        (if j ∈ l then ((view acc.1 j).tick (now j)).1 else view acc.1 j) ∧
      (l.foldl (updateOne now) acc).2 =
        (l.map fun i => ((view acc.1 i).tick (now i)).2).foldl sooner acc.2 := by
  induction l generalizing acc with
  | nil => exact ⟨rfl, rfl⟩
  | cons i l ih =>
    obtain ⟨hi, hl⟩ := List.nodup_cons.mp hl
    obtain ⟨hview, hnext⟩ := ih hl (updateOne now acc i)
    have hother : ∀ k ∈ l, view (updateOne now acc i).1 k = view acc.1 k := by
      intro k hk
      rw [(updateOne_eq i k now acc).1, if_neg (ne_of_mem_of_not_mem hk hi).symm]
    rw [List.foldl_cons, hview, hnext, (updateOne_eq i j now acc).1, (updateOne_eq i j now acc).2]
    constructor
    · by_cases h : i = j
      · subst h
        simp [hi]
      · simp [h, Ne.symm h]
    · rw [List.map_cons, List.foldl_cons]
      congr 1
      apply List.map_congr_left
      intro k hk
      rw [hother k hk]

/-- An update moves every LED on by itself, and its event comes when the first of them is due. -/
theorem hwsLedUpdate_eq (now : Fin 4 → UInt32) (hs : s.sleepActive = false) :
    view (hwsLedUpdate s now).1 j = ((view s j).tick (now j)).1 ∧
      (hwsLedUpdate s now).2 =
        let next := ((List.finRange 4).map fun i => ((view s i).tick (now i)).2).foldl sooner 0
        if next ≠ 0 then some next else none := by
  obtain ⟨hview, hnext⟩ := foldl_updateOne j now (List.nodup_finRange 4) (s, 0)
  unfold hwsLedUpdate
  rw [if_neg (by simp [hs])]
  dsimp only
  rw [hview, hnext, if_pos (List.mem_finRange j)]
  exact ⟨rfl, rfl⟩

end Blinker

section Runs

/-- What a call or an event is to one LED. -/
inductive Action where
  | mode (m : UInt8)
  | start (count percent : UInt8) (period : UInt16) (now : UInt32)
  | tick (now : UInt32)

def Blinker.act (b : Blinker) : Action → Blinker
  | .mode m => b.setMode m
  | .start count percent period now => b.start count percent period now
  | .tick now => (b.tick now).1

def blinkAction (count percent : UInt8) (period : UInt16) (now : UInt32) : Action :=
  if percent ≠ 0 ∧ period ≠ 0 then
    if percent < 100 then .start count percent period now else .mode ledModeOn
  else .mode ledModeOff

def setAction (mode : UInt8) (now : UInt32) : Option Action :=
  if mode = ledModeBlink then some (.start 1 defaultDutyCycle defaultFlashTime now)
  else if mode = ledModeFlash then
    some (.start defaultFlashCount defaultDutyCycle defaultFlashTime now)
  else if mode = ledModeOn ∨ mode = ledModeOff ∨ mode = ledModeToggle then some (.mode mode)
  else none

def Event.on (e : Event) (j : Fin 4) : Option Action :=
  match e with
  | .set leds mode now => if Has leds j then setAction mode (now j) else none
  | .blink leds count percent period now =>
    if Has leds j then some (blinkAction count percent period (now j)) else none
  | .update now => some (.tick (now j))

def Blinker.step (j : Fin 4) (b : Blinker) (e : Event) : Blinker := (e.on j).elim b b.act

variable {s : Leds} (j : Fin 4)

theorem hwsLedBlink_view (leds count percent : UInt8) (period : UInt16) (now : Fin 4 → UInt32) :
    view (hwsLedBlink s leds count percent period now).1 j =
      if Has leds j then (view s j).act (blinkAction count percent period (now j)) else view s j := by
  have hleds : Has leds j → leds ≠ 0 := by
    rintro h rfl
    exact h (by simp)
  unfold hwsLedBlink blinkAction
  by_cases hj : Has leds j
  · simp only [hleds hj, ne_eq, not_false_eq_true, true_and, hj, ↓reduceIte]
    split_ifs
    · rw [view_blink, if_pos hj]
      rfl
    · rw [view_setPlain, if_pos hj]
      rfl
    · rw [view_setPlain, if_pos hj]
      rfl
  · rw [if_neg hj]
    split_ifs
    · rw [view_blink, if_neg hj]
    · rw [view_setPlain, if_neg hj]
    · rw [view_setPlain, if_neg hj]

theorem hwsLedSet_view (leds mode : UInt8) (now : Fin 4 → UInt32) :
    view (hwsLedSet s leds mode now).1 j =
      if Has leds j then (setAction mode (now j)).elim (view s j) (view s j).act else view s j := by
  have hstart (count : UInt8) : blinkAction count defaultDutyCycle defaultFlashTime (now j) =
      .start count defaultDutyCycle defaultFlashTime (now j) := rfl
  unfold hwsLedSet setAction
  by_cases hblink : mode = ledModeBlink
  · rw [if_pos hblink, if_pos hblink, hwsLedBlink_view, hstart]
    rfl
  by_cases hflash : mode = ledModeFlash
  · rw [if_neg hblink, if_neg hblink, if_pos hflash, if_pos hflash, hwsLedBlink_view, hstart]
    rfl
  rw [if_neg hblink, if_neg hblink, if_neg hflash, if_neg hflash]
  split_ifs with hplain hj hj
  · rw [view_setPlain, if_pos hj]
    rfl
  · rw [view_setPlain, if_neg hj]
  · rfl
  · rfl

/-- No LED knows of the others. -/
theorem view_step (hs : s.sleepActive = false) (e : Event) :
    view (step s e) j = (view s j).step j e := by
  unfold step serve Blinker.step Event.on
  cases e with
  | set leds mode now =>
    dsimp only
    rw [hwsLedSet_view]
    split_ifs <;> rfl
  | blink leds count percent period now =>
    dsimp only
    rw [hwsLedBlink_view]
    split_ifs <;> rfl
  | update now => exact (hwsLedUpdate_eq s j now hs).1

theorem sleepActive_foldl {σ : Type} {f : σ → Fin 4 → σ} (p : σ → Leds)
    (hf : ∀ a i, (p (f a i)).sleepActive = (p a).sleepActive) (l : List (Fin 4)) (a : σ) :
    (p (l.foldl f a)).sleepActive = (p a).sleepActive := by
  induction l generalizing a with
  | nil => rfl
  | cons i l ih => rw [List.foldl_cons, ih, hf]

theorem sleepActive_setPlain (s : Leds) (leds mode : UInt8) :
    (setPlain s leds mode).sleepActive = s.sleepActive :=
  sleepActive_foldl (f := setOne mode) id (fun _ _ => rfl) _ s

theorem sleepActive_hwsLedBlink (leds count percent : UInt8) (period : UInt16)
    (now : Fin 4 → UInt32) :
    (hwsLedBlink s leds count percent period now).1.sleepActive = s.sleepActive := by
  unfold hwsLedBlink
  split_ifs
  · exact sleepActive_foldl (f := blinkOne count percent period now) id (fun _ _ => rfl) _ s
  · exact sleepActive_setPlain s _ _
  · exact sleepActive_setPlain s _ _

theorem sleepActive_updateOne (now : Fin 4 → UInt32) (acc : Leds × UInt16) (i : Fin 4) :
    (updateOne now acc i).1.sleepActive = acc.1.sleepActive := by
  unfold updateOne move turnOff turnOn
  dsimp only
  split_ifs <;> first | rfl | exact sleepActive_setPlain _ _ _

theorem sleepActive_step (hs : s.sleepActive = false) (e : Event) :
    (step s e).sleepActive = false := by
  rw [← hs]
  cases e with
  | set leds mode now =>
    unfold step serve hwsLedSet
    dsimp only
    split_ifs
    · exact sleepActive_hwsLedBlink _ _ _ _ _
    · exact sleepActive_hwsLedBlink _ _ _ _ _
    · exact sleepActive_setPlain s _ _
    · rfl
  | blink leds count percent period now => exact sleepActive_hwsLedBlink _ _ _ _ _
  | update now =>
    unfold step serve hwsLedUpdate
    dsimp only
    split_ifs
    · rfl
    all_goals exact sleepActive_foldl Prod.fst (sleepActive_updateOne now) _ (s, 0)

/-- The service is four blinkers. -/
theorem view_final (hs : s.sleepActive = false) (es : List Event) :
    view (Run.final step s es) j = Run.final (Blinker.step j) (view s j) es ∧
      (Run.final step s es).sleepActive = false := by
  induction es generalizing s with
  | nil => exact ⟨rfl, hs⟩
  | cons e es ih =>
    rw [Run.final_cons, Run.final_cons, ← view_step j hs e]
    exact ih (sleepActive_step hs e)

end Runs

end AtNode.HwsLed
