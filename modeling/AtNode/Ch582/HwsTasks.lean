import AtNode.Ch582.LedLaws
import Mathlib.Data.List.Destutter

/-!
# The task of the hardware services

One TMOS task serves the LEDs, the keys, the watchdog and the calibration. Its events are the bits of a
mask. TMOS hands all that are pending to `hws_process_event`, which serves the first one and gives back the
others; a timer that runs out sets its bit again. The periodic tasks are started again after each turn, the
LEDs only when one of them still blinks.

The clock is what `TMOS_GetSystemClock` says, and `last` is its reading that was used last.
-/

namespace AtNode.HwsTasks

open AtCmds (ledModeOff ledModeOn ledModeBlink ledModeFlash ledModeToggle)
open HwsLed (Leds Blinker Has phase view)

section Source

inductive Task where
  | led | key | wdg | calib
  deriving DecidableEq

def Task.all : List Task := [.led, .key, .wdg, .calib]

def Task.place : Task → ℕ
  | .led => 0
  | .key => 1
  | .wdg => 2
  | .calib => 13

def Task.event : Task → UInt16
  | .led => 0x0001
  | .key => 0x0002
  | .wdg => 0x0004
  | .calib => 0x2000

def hwsTasks : List Task := [.key, .wdg, .calib]

structure Hws where
  leds : Leds
  keySaved : UInt8
  wdgArmed : Bool
  /-- The events of the task that are set, and those whose timers run. -/
  pending : UInt16
  running : UInt16
  /-- What the polls read, and what the callback was told, the latest last. -/
  polled : List UInt8
  told : List UInt8
  feeds : ℕ
  calibrations : ℕ
  last : UInt32

/-- What the hardware says in a turn. -/
structure Inputs where
  keys : UInt8
  now : Fin 4 → UInt32

def Hws.start (h : Hws) (t : Task) : Hws := { h with running := h.running ||| t.event }

def hwsKeyPoll (h : Hws) (x : Inputs) : Hws :=
  let h := { h with polled := h.polled ++ [x.keys] }
  if x.keys = h.keySaved then h else { h with keySaved := x.keys, told := h.told ++ [x.keys] }

def hwsWdgFeedTask (h : Hws) : Hws := if h.wdgArmed then { h with feeds := h.feeds + 1 } else h

/-- A call of the LED service, which may start the event. -/
def Hws.ledCall (h : Hws) (e : HwsLed.Event) (last : UInt32) : Hws :=
  let r := HwsLed.serve h.leds e
  let h := { h with leds := r.1, last }
  if r.2.isSome then h.start .led else h

def handler (h : Hws) (x : Inputs) : Task → Hws
  | .led => h.ledCall (.update x.now) (x.now 3)
  | .key => hwsKeyPoll h x
  | .wdg => hwsWdgFeedTask h
  | .calib => { h with calibrations := h.calibrations + 1 }

/-- The node and the events that are left. -/
def hwsProcessEvent (h : Hws) (events : UInt16) (x : Inputs) : Hws × UInt16 :=
  if events &&& Task.led.event ≠ 0 then (handler h x .led, events ^^^ Task.led.event)
  else
    match hwsTasks.find? fun t => events &&& t.event ≠ 0 with
    | some t => ((handler h x t).start t, events ^^^ t.event)
    | none => (h, 0)

def dispatch (h : Hws) (x : Inputs) : Hws :=
  if h.pending = 0 then h
  else
    let r := hwsProcessEvent { h with pending := 0 } h.pending x
    { r.1 with pending := r.1.pending ||| r.2 }

def expire (h : Hws) (t : Task) : Hws :=
  if h.running &&& t.event ≠ 0 then
    { h with running := h.running ^^^ t.event, pending := h.pending ||| t.event }
  else h

/-- `hws_init` with a callback for the keys. -/
def hwsInit (lit : Fin 4 → Bool) (clock : UInt32) : Hws :=
  (((Hws.mk (HwsLed.hwsLedInit lit) 0 false 0 0 [] [] 0 0 clock).start .key).start .calib).start .wdg

inductive Event where
  | dispatch (x : Inputs)
  | expire (t : Task)
  /-- Somebody sets events of the task. -/
  | post (events : UInt16)
  | ledSet (leds mode : UInt8) (now : Fin 4 → UInt32)
  | ledBlink (leds count percent : UInt8) (period : UInt16) (now : Fin 4 → UInt32)
  | wdg (armed : Bool)

def step (h : Hws) : Event → Hws
  | .dispatch x => dispatch h x
  | .expire t => expire h t
  | .post events => { h with pending := h.pending ||| events }
  | .ledSet leds mode now => h.ledCall (.set leds mode now) (now 3)
  | .ledBlink leds count percent period now => h.ledCall (.blink leds count percent period now) (now 3)
  | .wdg armed => hwsWdgFeedTask { h with wdgArmed := armed }

end Source

section Masks

def In (events : UInt16) (t : Task) : Prop := events &&& t.event ≠ 0

instance (events : UInt16) (t : Task) : Decidable (In events t) := inferInstanceAs (Decidable (_ ≠ _))

variable (x y : UInt16) (t u : Task)

theorem toNat_event : t.event.toNat = 2 ^ t.place := by
  cases t <;> rfl

theorem place_inj : t.place = u.place ↔ t = u := by
  cases t <;> cases u <;> decide

theorem in_iff_testBit : In x t ↔ x.toNat.testBit t.place = true := by
  rw [In, ne_eq, ← UInt16.toNat_inj, UInt16.toNat_and, toNat_event, Nat.and_two_pow]
  cases x.toNat.testBit t.place <;> simp

@[simp] theorem in_or : In (x ||| y) t ↔ In x t ∨ In y t := by
  simp [in_iff_testBit]

@[simp] theorem in_zero : ¬ In 0 t := by
  simp [In]

@[simp] theorem in_event : In t.event u ↔ t = u := by
  rw [in_iff_testBit, toNat_event, Nat.testBit_two_pow, decide_eq_true_iff, place_inj]

theorem in_xor (h : In x t) : In (x ^^^ t.event) u ↔ In x u ∧ t ≠ u := by
  rw [in_iff_testBit] at h
  rw [in_iff_testBit, in_iff_testBit, UInt16.toNat_xor, toNat_event, Nat.testBit_xor,
    Nat.testBit_two_pow]
  by_cases hu : t = u
  · subst hu
    simp [h]
  · have hplace : ¬ t.place = u.place := fun hp => hu ((place_inj t u).mp hp)
    simp [hu, hplace]

end Masks

section Turns

variable {h : Hws} {x : Inputs} {t u : Task}

theorem handler_pending (p : UInt16) :
    handler { h with pending := p } x t = { handler h x t with pending := p } := by
  cases t with
  | led =>
    unfold handler Hws.ledCall
    dsimp only
    split_ifs <;> rfl
  | key =>
    unfold handler hwsKeyPoll
    dsimp only
    split_ifs <;> rfl
  | wdg =>
    unfold handler hwsWdgFeedTask
    split_ifs <;> rfl
  | calib => rfl

theorem handler_running (hu : In h.running u) : In (handler h x t).running u := by
  cases t with
  | led =>
    unfold handler Hws.ledCall
    dsimp only
    split_ifs
    · exact (in_or _ _ u).mpr (Or.inl hu)
    · exact hu
  | key =>
    unfold handler hwsKeyPoll
    dsimp only
    split_ifs <;> exact hu
  | wdg =>
    unfold handler hwsWdgFeedTask
    split_ifs <;> exact hu
  | calib => exact hu

def turn (events : UInt16) : Option Task := Task.all.find? fun t => In events t

theorem in_of_turn {events : UInt16} (ht : turn events = some t) : In events t := by
  simpa using List.find?_some ht

theorem turn_of_led {events : UInt16} (hl : In events .led) : turn events = some .led :=
  List.find?_cons_of_pos (decide_eq_true hl)

theorem turn_of_not_led {events : UInt16} (hl : ¬ In events .led) :
    turn events = hwsTasks.find? fun t => events &&& t.event ≠ 0 :=
  List.find?_cons_of_neg (by simpa using hl)

def turned (h : Hws) (x : Inputs) : Task → Hws
  | .led => handler h x .led
  | t => (handler h x t).start t

/-- A turn serves one task and keeps the events of the others; events of nobody go when there are no
others. -/
theorem dispatch_eq : dispatch h x =
    match turn h.pending with
    | some t => { turned h x t with pending := h.pending ^^^ t.event }
    | none => { h with pending := 0 } := by
  unfold dispatch
  by_cases hz : h.pending = 0
  · rw [if_pos hz, hz]
    change h = { h with pending := 0 }
    rw [← hz]
  rw [if_neg hz]
  unfold hwsProcessEvent
  by_cases hl : In h.pending .led
  · rw [turn_of_led hl, if_pos (show h.pending &&& Task.led.event ≠ 0 from hl), handler_pending]
    dsimp only
    rw [UInt16.zero_or]
    rfl
  · rw [turn_of_not_led hl, if_neg (show ¬ h.pending &&& Task.led.event ≠ 0 from hl)]
    cases hfind : hwsTasks.find? fun t => h.pending &&& t.event ≠ 0 with
    | none =>
      dsimp only
      rw [UInt16.zero_or]
    | some t =>
      dsimp only
      rw [handler_pending]
      have hturned : turned h x t = (handler h x t).start t := by
        cases t with
        | led => exact absurd (show In h.pending .led by simpa [In] using List.find?_some hfind) hl
        | key | wdg | calib => rfl
      rw [hturned]
      dsimp only [Hws.start]
      rw [UInt16.zero_or]

def Hws.Armed (h : Hws) (t : Task) : Prop := In h.pending t ∨ In h.running t

theorem turned_running (hu : In h.running u) : In (turned h x t).running u := by
  have hrunning := handler_running (x := x) (t := t) hu
  cases t with
  | led => exact hrunning
  | key | wdg | calib => exact (in_or _ _ u).mpr (Or.inl hrunning)

theorem turned_self (ht : t ≠ .led) : In (turned h x t).running t := by
  cases t with
  | led => exact absurd rfl ht
  | key | wdg | calib => exact (in_or _ _ _).mpr (Or.inr ((in_event _ _).mpr rfl))

theorem armed_dispatch (hu : h.Armed u) (hled : u = .led → turn h.pending ≠ some .led) :
    (dispatch h x).Armed u := by
  rw [dispatch_eq]
  cases ht : turn h.pending with
  | none =>
    have hnot : ¬ In h.pending u := by
      have := List.find?_eq_none.mp ht u (by cases u <;> decide)
      simpa using this
    exact Or.inr (hu.resolve_left hnot)
  | some t =>
    by_cases htu : t = u
    · subst htu
      exact Or.inr (turned_self fun hl => hled hl (hl ▸ ht))
    · rcases hu with hp | hr
      · exact Or.inl ((in_xor _ t u (in_of_turn ht)).mpr ⟨hp, htu⟩)
      · exact Or.inr (turned_running hr)

theorem armed_expire (hu : h.Armed u) : (expire h t).Armed u := by
  unfold expire
  split_ifs with ht
  · by_cases htu : t = u
    · subst htu
      exact Or.inl ((in_or _ _ t).mpr (Or.inr ((in_event t t).mpr rfl)))
    · rcases hu with hp | hr
      · exact Or.inl ((in_or _ _ u).mpr (Or.inl hp))
      · exact Or.inr ((in_xor _ t u ht).mpr ⟨hr, htu⟩)
  · exact hu

theorem armed_ledCall (hu : h.Armed u) (e : HwsLed.Event) (last : UInt32) :
    (h.ledCall e last).Armed u := by
  unfold Hws.ledCall
  dsimp only
  split_ifs
  · exact hu.imp id fun hr => (in_or _ _ u).mpr (Or.inl hr)
  · exact hu

/-- The keys, the watchdog and the calibration. -/
def Periodic (h : Hws) : Prop := ∀ t, t ≠ .led → h.Armed t

theorem periodic_step (hp : Periodic h) (e : Event) : Periodic (step h e) := by
  intro t ht
  have harmed := hp t ht
  cases e with
  | dispatch x => exact armed_dispatch harmed fun hl => absurd hl ht
  | expire u => exact armed_expire harmed
  | post events => exact harmed.imp (fun hp => (in_or _ _ t).mpr (Or.inl hp)) id
  | ledSet leds mode now => exact armed_ledCall harmed _ _
  | ledBlink leds count percent period now => exact armed_ledCall harmed _ _
  | wdg armed =>
    unfold step hwsWdgFeedTask
    dsimp only
    split_ifs <;> exact harmed

/-- No periodic task is ever lost. -/
theorem periodic_hwsInit (lit : Fin 4 → Bool) (clock : UInt32) : Periodic (hwsInit lit clock) := by
  intro t ht
  refine Or.inr (show In (0 ||| Task.key.event ||| Task.calib.event ||| Task.wdg.event) t from ?_)
  cases t with
  | led => exact absurd rfl ht
  | key | wdg | calib => decide

/-- The tasks that are served in the next turns. -/
def turns : Hws → List Inputs → List Task
  | _, [] => []
  | h, x :: xs => (turn h.pending).toList ++ turns (dispatch h x) xs

theorem pending_dispatch : (dispatch h x).pending =
    match turn h.pending with
    | some t => h.pending ^^^ t.event
    | none => 0 := by
  rw [dispatch_eq]
  cases turn h.pending <;> rfl

theorem filter_of_find? {events : UInt16} {l : List Task} (hl : l.Nodup)
    (ht : l.find? (fun t => In events t) = some t) :
    l.filter (fun t => In events t) = t :: l.filter fun u => In (events ^^^ t.event) u := by
  have hin : In events t := by simpa using List.find?_some ht
  induction l with
  | nil => cases ht
  | cons u l ih =>
    obtain ⟨hu, hl⟩ := List.nodup_cons.mp hl
    by_cases hup : In events u
    · rw [List.find?_cons_of_pos (by simpa using hup)] at ht
      obtain rfl : u = t := by simpa using ht
      have hself : ¬ In (events ^^^ u.event) u := fun h => ((in_xor _ u u hin).mp h).2 rfl
      rw [List.filter_cons_of_pos (by simpa using hup), List.filter_cons_of_neg (by simpa using hself)]
      congr 1
      apply List.filter_congr
      intro v hv
      have huv : u ≠ v := fun h => hu (h ▸ hv)
      rw [decide_eq_decide, in_xor _ u v hin]
      exact ⟨fun h => ⟨h, huv⟩, fun h => h.1⟩
    · rw [List.find?_cons_of_neg (by simpa using hup)] at ht
      have hother : ¬ In (events ^^^ t.event) u := fun h => hup ((in_xor _ t u hin).mp h).1
      rw [List.filter_cons_of_neg (by simpa using hup),
        List.filter_cons_of_neg (by simpa using hother)]
      exact ih hl ht

theorem filter_of_find?_none {events : UInt16} (ht : turn events = none) :
    Task.all.filter (fun t => In events t) = [] := by
  rw [List.filter_eq_nil_iff]
  exact List.find?_eq_none.mp ht

theorem turns_eq_take (xs : List Inputs) :
    turns h xs = (Task.all.filter fun t => In h.pending t).take xs.length := by
  induction xs generalizing h with
  | nil => rfl
  | cons x xs ih =>
    rw [turns, ih, pending_dispatch]
    cases ht : turn h.pending with
    | none =>
      have hzero : Task.all.filter (fun t => In 0 t) = [] := by simp
      rw [filter_of_find?_none ht, hzero, List.take_nil, List.take_nil]
      rfl
    | some t =>
      rw [filter_of_find? (by decide) ht]
      rfl

theorem pending_foldl_zero (hz : h.pending = 0) (xs : List Inputs) :
    (xs.foldl dispatch h).pending = 0 := by
  induction xs generalizing h with
  | nil => exact hz
  | cons x xs ih =>
    apply ih
    rw [pending_dispatch, hz]
    rfl

theorem pending_foldl (xs : List Inputs)
    (hlen : (Task.all.filter fun t => In h.pending t).length < xs.length) :
    (xs.foldl dispatch h).pending = 0 := by
  induction xs generalizing h with
  | nil => exact absurd hlen (Nat.not_lt_zero _)
  | cons x xs ih =>
    have hpending := pending_dispatch (h := h) (x := x)
    rw [List.foldl_cons]
    cases ht : turn h.pending with
    | none =>
      rw [ht] at hpending
      exact pending_foldl_zero hpending xs
    | some t =>
      rw [ht] at hpending
      rw [filter_of_find? (by decide) ht] at hlen
      apply ih
      rw [hpending]
      exact Nat.lt_of_succ_lt_succ hlen

/-- Whatever is pending gets its turn, each event once and the first of the table first; after five turns
nothing is left, not even events of nobody. -/
theorem turns_eq (h : Hws) (xs : List Inputs) :
    turns h xs = (Task.all.filter fun t => In h.pending t).take xs.length ∧
      (5 ≤ xs.length → (xs.foldl dispatch h).pending = 0) := by
  refine ⟨turns_eq_take xs, fun hlen => pending_foldl xs ?_⟩
  have hfilter := List.length_filter_le (fun t => decide (In h.pending t)) Task.all
  have hall : Task.all.length = 4 := rfl
  omega

end Turns

section Keys

theorem destutter'_concat {a x : UInt8} (l : List UInt8) :
    (l ++ [x]).destutter' (· ≠ ·) a =
      if x = (a :: l).getLast (List.cons_ne_nil a l) then l.destutter' (· ≠ ·) a
      else l.destutter' (· ≠ ·) a ++ [x] := by
  induction l generalizing a with
  | nil =>
    rw [List.nil_append, List.destutter'_singleton, List.getLast_singleton, List.destutter'_nil]
    by_cases h : x = a
    · rw [if_pos h, if_neg fun hne => hne h.symm]
    · rw [if_neg h, if_pos fun he => h he.symm]
      rfl
  | cons y l ih =>
    rw [List.cons_append, List.getLast_cons (List.cons_ne_nil y l)]
    by_cases h : a = y
    · subst h
      rw [List.destutter'_cons_neg (l ++ [x]) (fun h => h rfl),
        List.destutter'_cons_neg l (fun h => h rfl), ih]
    · rw [List.destutter'_cons_pos (l ++ [x]) h, List.destutter'_cons_pos l h, ih]
      split_ifs <;> rfl

/-- The callback was told of every value the polls read that is not the one before. -/
structure KeysTold (h : Hws) : Prop where
  told : 0 :: h.told = h.polled.destutter' (· ≠ ·) 0
  saved : h.keySaved = (0 :: h.polled).getLast (List.cons_ne_nil 0 h.polled)

theorem keysTold_poll {h : Hws} (hk : KeysTold h) (x : Inputs) : KeysTold (hwsKeyPoll h x) := by
  have hlast : (0 :: (h.polled ++ [x.keys])).getLast (List.cons_ne_nil _ _) = x.keys := by
    change (0 :: h.polled ++ [x.keys]).getLast _ = x.keys
    simp
  unfold hwsKeyPoll
  dsimp only
  by_cases hsame : x.keys = h.keySaved
  · rw [if_pos hsame]
    constructor
    · change 0 :: h.told = (h.polled ++ [x.keys]).destutter' (· ≠ ·) 0
      rw [destutter'_concat, if_pos (hsame.trans hk.saved), hk.told]
    · exact hsame.symm.trans hlast.symm
  · rw [if_neg hsame]
    constructor
    · change 0 :: (h.told ++ [x.keys]) = (h.polled ++ [x.keys]).destutter' (· ≠ ·) 0
      rw [destutter'_concat, if_neg (fun he => hsame (he.trans hk.saved.symm)), ← hk.told,
        List.cons_append]
    · exact hlast.symm

theorem keysTold_ledCall {h : Hws} (hk : KeysTold h) (e : HwsLed.Event) (last : UInt32) :
    KeysTold (h.ledCall e last) := by
  unfold Hws.ledCall
  dsimp only
  split_ifs <;> exact ⟨hk.told, hk.saved⟩

theorem keysTold_feed {h : Hws} (hk : KeysTold h) : KeysTold (hwsWdgFeedTask h) := by
  unfold hwsWdgFeedTask
  split_ifs <;> exact ⟨hk.told, hk.saved⟩

theorem keysTold_turned {h : Hws} (hk : KeysTold h) (x : Inputs) (t : Task) :
    KeysTold (turned h x t) := by
  cases t with
  | led => exact keysTold_ledCall hk _ _
  | key => exact ⟨(keysTold_poll hk x).told, (keysTold_poll hk x).saved⟩
  | wdg => exact ⟨(keysTold_feed hk).told, (keysTold_feed hk).saved⟩
  | calib => exact ⟨hk.told, hk.saved⟩

theorem keysTold_step {h : Hws} (hk : KeysTold h) (e : Event) : KeysTold (step h e) := by
  cases e with
  | dispatch x =>
    change KeysTold (dispatch h x)
    rw [dispatch_eq]
    split
    · exact ⟨(keysTold_turned hk x _).told, (keysTold_turned hk x _).saved⟩
    · exact ⟨hk.told, hk.saved⟩
  | expire t =>
    change KeysTold (expire h t)
    unfold expire
    split_ifs <;> exact ⟨hk.told, hk.saved⟩
  | post events => exact ⟨hk.told, hk.saved⟩
  | ledSet leds mode now => exact keysTold_ledCall hk _ _
  | ledBlink leds count percent period now => exact keysTold_ledCall hk _ _
  | wdg armed => exact keysTold_feed ⟨hk.told, hk.saved⟩

/-- In every run the callback hears each change of the keys once, in order, and nothing else. -/
theorem keys_told (lit : Fin 4 → Bool) (clock : UInt32) (es : List Event) :
    Run.Always step KeysTold (hwsInit lit clock) es :=
  Run.always_of_step (fun _ e hk => keysTold_step hk e) ⟨rfl, rfl⟩

end Keys

section Alarm

variable {b : Blinker} {last now : UInt32}

/-- Both phases of a blink last, the second one unless the blink is over before it. -/
def Lasting (count percent : UInt8) (period : UInt16) : Prop :=
  phase percent period ≠ 0 ∧ (phase (100 - percent) period ≠ 0 ∨ count = 1)

instance (count percent : UInt8) (period : UInt16) : Decidable (Lasting count percent period) :=
  inferInstanceAs (Decidable (_ ∧ _))

/-- A blinking LED is due before long, and what it waits for lasts. -/
structure Sustained (last : UInt32) (b : Blinker) : Prop where
  near : b.ctrl.next.toNat ≤ last.toNat + 65535
  on : phase b.ctrl.onPct b.ctrl.time ≠ 0
  off : phase (100 - b.ctrl.onPct) b.ctrl.time ≠ 0 ∨ ¬ Has b.ctrl.mode 2 ∧ b.ctrl.todo = 1

theorem Sustained.mono (h : Sustained last b) (hle : last ≤ now) : Sustained now b :=
  ⟨h.near.trans (Nat.add_le_add_right (UInt32.le_iff_toNat_le.mp hle) _), h.on, h.off⟩

theorem near_add (now : UInt32) (w : UInt16) : (now + w.toUInt32).toNat ≤ now.toNat + 65535 := by
  have hw := w.toNat_lt
  have hadd := UInt32.toNat_add now w.toUInt32
  have htoNat : w.toUInt32.toNat = w.toNat := UInt16.toNat_toUInt32 w
  have hmod := Nat.mod_le (now.toNat + w.toUInt32.toNat) (2 ^ 32)
  omega

theorem ended_pct (c : AtCmds.Led) :
    (HwsLed.ended c).onPct = c.onPct ∧ (HwsLed.ended c).time = c.time := by
  unfold HwsLed.ended
  dsimp only
  split_ifs <;> exact ⟨rfl, rfl⟩

theorem ended_last {c : AtCmds.Led} (hflash : ¬ Has c.mode 2) (htodo : c.todo = 1)
    (hblink : Has c.mode 1) : ¬ Has (HwsLed.ended c).mode 1 := by
  have hkeep (i : Fin 4) (hi : 0 ≠ i) : Has (c.mode &&& ~~~ledModeOn) i ↔ Has c.mode i := by
    have hcomplement : ~~~ledModeOn = HwsLed.led 0 ^^^ 0xFF := by decide
    rw [hcomplement, HwsLed.has_and, HwsLed.has_others]
    exact ⟨fun h => h.1, fun h => ⟨h, hi⟩⟩
  have hplain : ¬ (c.mode &&& ~~~ledModeOn) &&& ledModeFlash ≠ 0 :=
    fun hf => hflash ((hkeep 2 (by decide)).mp hf)
  unfold HwsLed.ended
  rw [htodo, if_neg hplain]
  change ¬ Has ((c.mode &&& ~~~ledModeOn) ^^^ HwsLed.led 1) 1
  rw [HwsLed.has_xor_self]
  exact not_not.mpr ((hkeep 1 (by decide)).mpr hblink)

theorem sustained_flip (hs : Sustained last b) (hb : b.Blinking) (now : UInt32)
    (hblinking : (b.flip now).1.Blinking) :
    Sustained now (b.flip now).1 ∧ (b.flip now).2 ≠ 0 := by
  obtain ⟨hpct, htime⟩ := ended_pct b.ctrl
  by_cases hon : b.ctrl.mode &&& ledModeOn ≠ 0
  · by_cases hmore : (HwsLed.ended b.ctrl).mode &&& ledModeBlink ≠ 0
    · have hoff : phase (100 - b.ctrl.onPct) b.ctrl.time ≠ 0 :=
        hs.off.resolve_right fun h => ended_last h.1 h.2 hb hmore
      rw [Blinker.flip, if_pos hon, if_pos hmore, hpct, htime]
      exact ⟨⟨near_add _ _, hs.on, Or.inl hoff⟩, hoff⟩
    · rw [Blinker.flip, if_pos hon, if_neg hmore] at hblinking
      revert hblinking
      cases b.saved
      · exact fun h => absurd h (show ¬ (ledModeOff &&& ledModeBlink ≠ 0) by decide)
      · exact fun h => absurd h (show ¬ (ledModeOn &&& ledModeBlink ≠ 0) by decide)
  · rw [Blinker.flip, if_neg hon]
    refine ⟨⟨near_add _ _, hs.on, hs.off.imp id fun h => ⟨fun hf => h.1 ?_, h.2⟩⟩, hs.on⟩
    have hf : Has (b.ctrl.mode ||| HwsLed.led 0) 2 := hf
    rw [HwsLed.has_or, HwsLed.has_led] at hf
    exact hf.resolve_right (by decide)

theorem sustained_tick (hb : b.Blinking → Sustained last b) (hle : last ≤ now)
    (hblinking : (b.tick now).1.Blinking) : Sustained now (b.tick now).1 ∧ (b.tick now).2 ≠ 0 := by
  by_cases hdue : b.Due now
  · rw [Blinker.tick, if_pos hdue] at hblinking ⊢
    exact sustained_flip (hb hdue.1) hdue.1 now hblinking
  · rw [Blinker.tick, if_neg hdue] at hblinking ⊢
    have hs := hb hblinking
    refine ⟨hs.mono hle, ?_⟩
    have hlt : now < b.ctrl.next := UInt32.not_le.mp fun h => hdue ⟨hblinking, h⟩
    have hnear := hs.near
    have hle' := UInt32.le_iff_toNat_le.mp hle
    have hlt' := UInt32.lt_iff_toNat_lt.mp hlt
    have hsub := UInt32.toNat_sub_of_le _ _ (UInt32.le_of_lt hlt)
    rw [if_pos hblinking]
    intro hz
    have hz' : (b.ctrl.next - now).toNat % 65536 = 0 := congrArg UInt16.toNat hz
    omega

theorem blinking_setMode {m : UInt8} (hm : m = ledModeOn ∨ m = ledModeOff ∨ m = ledModeToggle)
    (h : (b.setMode m).Blinking) : m = ledModeToggle ∧ b.Blinking := by
  rcases hm with rfl | rfl | rfl
  · exact absurd h (show ¬ (ledModeOn &&& ledModeBlink ≠ 0) by decide)
  · exact absurd h (show ¬ (ledModeOff &&& ledModeBlink ≠ 0) by decide)
  · exact ⟨rfl, (HwsLed.has_xor_led b.ctrl.mode 0 1 (by decide)).mp h⟩

theorem sustained_setMode {m : UInt8} (hm : m = ledModeOn ∨ m = ledModeOff ∨ m = ledModeToggle)
    (hb : b.Blinking → Sustained last b) (h : (b.setMode m).Blinking) :
    Sustained last (b.setMode m) := by
  obtain ⟨rfl, hblinking⟩ := blinking_setMode hm h
  have hs := hb hblinking
  refine ⟨hs.near, hs.on, hs.off.imp id fun h => ⟨fun hf => h.1 ?_, h.2⟩⟩
  exact (HwsLed.has_xor_led b.ctrl.mode 0 2 (by decide)).mp hf

theorem sustained_start {count percent : UInt8} {period : UInt16} (hl : Lasting count percent period)
    (now : UInt32) : Sustained now (b.start count percent period now) := by
  refine ⟨Nat.le_add_right _ _, hl.1, hl.2.imp id fun hc => ⟨?_, hc⟩⟩
  subst hc
  exact (by decide : ¬ Has (ledModeOff ||| ledModeBlink) 2)

def Lasts : HwsLed.Event → Prop
  | .blink _ count percent period _ =>
    percent ≠ 0 ∧ period ≠ 0 ∧ percent < 100 → Lasting count percent period
  | _ => True

def clockOf : HwsLed.Event → Fin 4 → UInt32
  | .set _ _ now => now
  | .blink _ _ _ _ now => now
  | .update now => now

theorem start_of_on {e : HwsLed.Event} {j : Fin 4} {count percent : UInt8} {period : UInt16}
    (hl : Lasts e) (h : e.on j = some (.start count percent period now)) :
    clockOf e j = now ∧ Lasting count percent period := by
  unfold HwsLed.Event.on at h
  cases e with
  | set leds mode now =>
    unfold HwsLed.setAction at h
    dsimp only at h
    split_ifs at h
    · cases h
      exact ⟨rfl, by decide⟩
    · cases h
      exact ⟨rfl, by decide⟩
    · cases h
  | blink leds count percent period now =>
    unfold HwsLed.blinkAction at h
    dsimp only at h
    split_ifs at h with hj hz hlt
    · cases h
      exact ⟨rfl, hl ⟨hz.1, hz.2, hlt⟩⟩
    · cases h
    · cases h
  | update now => cases h

theorem tick_of_on {e : HwsLed.Event} {j : Fin 4} (h : e.on j = some (.tick now)) :
    clockOf e j = now := by
  unfold HwsLed.Event.on at h
  cases e with
  | set leds mode now =>
    unfold HwsLed.setAction at h
    dsimp only at h
    split_ifs at h <;> cases h
  | blink leds count percent period now =>
    unfold HwsLed.blinkAction at h
    dsimp only at h
    split_ifs at h <;> cases h
  | update now =>
    cases h
    rfl

theorem sustained_step {e : HwsLed.Event} {j : Fin 4} (hl : Lasts e)
    (hb : b.Blinking → Sustained last b) (hle : last ≤ clockOf e j) (h : (b.step j e).Blinking) :
    Sustained (clockOf e j) (b.step j e) := by
  have hb' (h : b.Blinking) : Sustained (clockOf e j) b := (hb h).mono hle
  unfold Blinker.step at h ⊢
  cases hon : e.on j with
  | none =>
    rw [hon] at h
    exact hb' h
  | some a =>
    rw [hon] at h
    cases a with
    | mode m => exact sustained_setMode (HwsLed.mode_of_on hon) hb' h
    | start count percent period now =>
      obtain ⟨rfl, hlasting⟩ := start_of_on hl hon
      exact sustained_start hlasting _
    | tick now =>
      obtain rfl := tick_of_on hon
      exact (sustained_tick hb hle h).1

theorem ne_zero_of_has {leds : UInt8} {j : Fin 4} (h : Has leds j) : leds ≠ 0 := by
  rintro rfl
  exact h (by simp)

theorem rings_of_start {s : Leds} {e : HwsLed.Event} {j : Fin 4} {count percent : UInt8}
    {period : UInt16} (h : e.on j = some (.start count percent period now)) :
    (HwsLed.serve s e).2 = some 0 := by
  unfold HwsLed.Event.on at h
  unfold HwsLed.serve
  cases e with
  | set leds mode now =>
    unfold HwsLed.setAction at h
    dsimp only at h ⊢
    unfold HwsLed.hwsLedSet HwsLed.hwsLedBlink
    split_ifs at h with hj hblink hflash
    · rw [if_pos hblink, if_pos ⟨ne_zero_of_has hj, by decide⟩]
      rfl
    · rw [if_neg hblink, if_pos hflash, if_pos ⟨ne_zero_of_has hj, by decide⟩]
      rfl
    · cases h
  | blink leds count percent period now =>
    unfold HwsLed.blinkAction at h
    dsimp only at h ⊢
    unfold HwsLed.hwsLedBlink
    split_ifs at h with hj hz hlt
    · rw [if_pos ⟨ne_zero_of_has hj, hz⟩, if_pos hlt]
    · cases h
    · cases h
  | update now => cases h

theorem blinking_of_quiet {s : Leds} {e : HwsLed.Event} {j : Fin 4} (he : ∀ now, e ≠ .update now)
    (hs : s.sleepActive = false) (hq : (HwsLed.serve s e).2 = none)
    (h : (view (HwsLed.step s e) j).Blinking) : (view s j).Blinking := by
  rw [HwsLed.view_step j hs] at h
  unfold Blinker.step at h
  cases hon : e.on j with
  | none =>
    rw [hon] at h
    exact h
  | some a =>
    rw [hon] at h
    cases a with
    | mode m => exact (blinking_setMode (HwsLed.mode_of_on hon) h).2
    | start count percent period now =>
      rw [rings_of_start hon] at hq
      cases hq
    | tick now =>
      cases e with
      | update now => exact absurd rfl (he now)
      | set leds mode now =>
        exact absurd hon (by unfold HwsLed.Event.on HwsLed.setAction; dsimp only; split_ifs <;> nofun)
      | blink leds count percent period now =>
        exact absurd hon (by unfold HwsLed.Event.on HwsLed.blinkAction; dsimp only; split_ifs <;> nofun)

/-- The next update is due unless no LED asks for one. -/
theorem foldl_sooner_ne_zero {l : List UInt16} (a : UInt16) (h : a ≠ 0 ∨ ∃ w ∈ l, w ≠ 0) :
    l.foldl HwsLed.sooner a ≠ 0 := by
  induction l generalizing a with
  | nil => exact h.resolve_right (by simp)
  | cons w l ih =>
    rw [List.foldl_cons]
    apply ih
    unfold HwsLed.sooner
    split_ifs with hw
    · by_cases hz : w = 0
      · have ha : a = 0 := hw.resolve_right fun h => h.1 hz
        obtain ⟨v, hv, hne⟩ := h.resolve_left (not_not.mpr ha)
        right
        refine ⟨v, (List.mem_cons.mp hv).resolve_left fun he => hne (he.trans hz), hne⟩
      · exact Or.inl hz
    · exact Or.inl fun ha => hw (Or.inl ha)

/-- The clock does not run back within a call and since the call before. -/
def Clocked (last : UInt32) (now : Fin 4 → UInt32) : Prop :=
  last ≤ now 0 ∧ now 0 ≤ now 1 ∧ now 1 ≤ now 2 ∧ now 2 ≤ now 3

instance (last : UInt32) (now : Fin 4 → UInt32) : Decidable (Clocked last now) :=
  inferInstanceAs (Decidable (_ ∧ _))

theorem Clocked.le {now : Fin 4 → UInt32} (h : Clocked last now) (j : Fin 4) :
    last ≤ now j ∧ now j ≤ now 3 := by
  obtain ⟨h0, h1, h2, h3⟩ := h
  have h12 := UInt32.le_trans h1 h2
  have h23 := UInt32.le_trans h2 h3
  have hl1 := UInt32.le_trans h0 h1
  have hl2 := UInt32.le_trans hl1 h2
  match j with
  | 0 => exact ⟨h0, UInt32.le_trans h1 h23⟩
  | 1 => exact ⟨hl1, h23⟩
  | 2 => exact ⟨hl2, h3⟩
  | 3 => exact ⟨UInt32.le_trans hl2 h3, UInt32.le_refl _⟩

/-- While an LED blinks its next update is on the way. -/
structure Alive (h : Hws) : Prop where
  awake : h.leds.sleepActive = false
  sustained : ∀ j, (view h.leds j).Blinking → Sustained h.last (view h.leds j)
  alarm : (∃ j, (view h.leds j).Blinking) → h.Armed .led

variable {h : Hws}

theorem alive_ledCall (ha : Alive h) {e : HwsLed.Event} (hl : Lasts e) (hc : Clocked h.last (clockOf e))
    (halarm : (HwsLed.serve h.leds e).2 = none → (∃ j, (view (HwsLed.step h.leds e) j).Blinking) →
      h.Armed .led) : Alive (h.ledCall e (clockOf e 3)) := by
  have hview (j : Fin 4) := HwsLed.view_step j ha.awake e
  have hsustained : ∀ j, (view (HwsLed.step h.leds e) j).Blinking →
      Sustained (clockOf e 3) (view (HwsLed.step h.leds e) j) := by
    intro j hj
    rw [hview j] at hj ⊢
    exact (sustained_step hl (ha.sustained j) (hc.le j).1 hj).mono (hc.le j).2
  unfold Hws.ledCall
  dsimp only
  split_ifs with hsome
  · exact ⟨HwsLed.sleepActive_step ha.awake e, hsustained,
      fun _ => Or.inr ((in_or _ _ _).mpr (Or.inr ((in_event _ _).mpr rfl)))⟩
  · exact ⟨HwsLed.sleepActive_step ha.awake e, hsustained, halarm (by simpa using hsome)⟩

theorem update_rings (ha : Alive h) {now : Fin 4 → UInt32} (hc : Clocked h.last now)
    (hb : ∃ j, (view (HwsLed.step h.leds (.update now)) j).Blinking) :
    (HwsLed.serve h.leds (.update now)).2.isSome = true := by
  obtain ⟨j, hj⟩ := hb
  obtain ⟨hview, hnext⟩ := HwsLed.hwsLedUpdate_eq h.leds j now ha.awake
  have hj' : ((view h.leds j).tick (now j)).1.Blinking := hview ▸ hj
  have hwait := (sustained_tick (ha.sustained j) (hc.le j).1 hj').2
  have hmem : ((view h.leds j).tick (now j)).2 ∈
      (List.finRange 4).map fun i => ((view h.leds i).tick (now i)).2 :=
    List.mem_map.mpr ⟨j, List.mem_finRange j, rfl⟩
  have hsooner := foldl_sooner_ne_zero 0 (Or.inr ⟨_, hmem, hwait⟩)
  change (HwsLed.hwsLedUpdate h.leds now).2.isSome = true
  rw [hnext]
  dsimp only
  rw [if_pos hsooner]
  rfl

/-- What the clock and the requests must be for the LEDs to go on blinking. -/
def Fair (h : Hws) : Event → Prop
  | .dispatch x => Clocked h.last x.now
  | .ledSet _ _ now => Clocked h.last now
  | .ledBlink leds count percent period now =>
    Clocked h.last now ∧ Lasts (.blink leds count percent period now)
  | _ => True

theorem alive_turned (ha : Alive h) {t : Task} (ht : t ≠ .led) (x : Inputs) (pending : UInt16)
    (harmed : (∃ j, (view h.leds j).Blinking) → In pending .led ∨ In (turned h x t).running .led) :
    Alive { turned h x t with pending } := by
  have hleds : (turned h x t).leds = h.leds ∧ (turned h x t).last = h.last := by
    cases t with
    | led => exact absurd rfl ht
    | key =>
      unfold turned handler hwsKeyPoll
      dsimp only
      split_ifs <;> exact ⟨rfl, rfl⟩
    | wdg =>
      unfold turned handler hwsWdgFeedTask
      dsimp only
      split_ifs <;> exact ⟨rfl, rfl⟩
    | calib => exact ⟨rfl, rfl⟩
  constructor
  · exact (congrArg Leds.sleepActive hleds.1).trans ha.awake
  · dsimp only
    rw [hleds.1, hleds.2]
    exact ha.sustained
  · dsimp only
    rw [hleds.1]
    exact harmed

theorem alive_dispatch (ha : Alive h) {x : Inputs} (hc : Clocked h.last x.now) :
    Alive (dispatch h x) := by
  have harmed (hb : ∃ j, (view h.leds j).Blinking) (hled : turn h.pending ≠ some .led) :
      (dispatch h x).Armed .led := armed_dispatch (ha.alarm hb) fun _ => hled
  rw [dispatch_eq] at harmed ⊢
  cases ht : turn h.pending with
  | none =>
    rw [ht] at harmed
    exact ⟨ha.awake, ha.sustained, fun hb => harmed hb nofun⟩
  | some t =>
    rw [ht] at harmed
    by_cases hled : t = .led
    · subst hled
      have hcall := alive_ledCall ha (e := .update x.now) trivial hc fun hnone hb =>
        absurd (update_rings ha hc hb) (by rw [hnone]; exact Bool.false_ne_true)
      refine ⟨hcall.awake, hcall.sustained, fun hb => Or.inr ?_⟩
      have hleds : (h.ledCall (.update x.now) (x.now 3)).leds = HwsLed.step h.leds (.update x.now) := by
        unfold Hws.ledCall
        dsimp only
        split_ifs <;> rfl
      have hrings := update_rings ha hc (hleds ▸ hb)
      change In (h.ledCall (.update x.now) (x.now 3)).running .led
      unfold Hws.ledCall
      dsimp only
      rw [if_pos hrings]
      exact (in_or _ _ _).mpr (Or.inr ((in_event _ _).mpr rfl))
    · exact alive_turned ha hled x _ fun hb => harmed hb fun h => hled (Option.some.inj h)

theorem alive_step (ha : Alive h) {e : Event} (hf : Fair h e) : Alive (step h e) := by
  cases e with
  | dispatch x => exact alive_dispatch ha hf
  | expire t =>
    have harmed (hb : ∃ j, (view h.leds j).Blinking) := armed_expire (t := t) (ha.alarm hb)
    change Alive (expire h t)
    unfold expire at harmed ⊢
    split_ifs at harmed ⊢
    · exact ⟨ha.awake, ha.sustained, harmed⟩
    · exact ha
  | post events =>
    exact ⟨ha.awake, ha.sustained,
      fun hb => (ha.alarm hb).imp (fun hp => (in_or _ _ _).mpr (Or.inl hp)) id⟩
  | ledSet leds mode now =>
    apply alive_ledCall ha (e := .set leds mode now) trivial hf
    exact fun hq ⟨j, hj⟩ =>
      ha.alarm ⟨j, blinking_of_quiet (e := .set leds mode now) nofun ha.awake hq hj⟩
  | ledBlink leds count percent period now =>
    apply alive_ledCall ha hf.2 hf.1
    exact fun hq ⟨j, hj⟩ => ha.alarm
      ⟨j, blinking_of_quiet (e := .blink leds count percent period now) nofun ha.awake hq hj⟩
  | wdg armed =>
    unfold step hwsWdgFeedTask
    dsimp only
    split_ifs <;> exact ⟨ha.awake, ha.sustained, ha.alarm⟩

theorem alive_hwsInit (lit : Fin 4 → Bool) (clock : UInt32) : Alive (hwsInit lit clock) := by
  have hstill (j : Fin 4) : ¬ (view (hwsInit lit clock).leds j).Blinking := by
    change ¬ (view (HwsLed.hwsLedInit lit) j).Blinking
    rw [HwsLed.view_hwsLedInit]
    exact (by decide : ¬ ((0 : UInt8) &&& ledModeBlink ≠ 0))
  exact ⟨rfl, fun j hj => absurd hj (hstill j), fun ⟨j, hj⟩ => absurd hj (hstill j)⟩

/-- Every task of the hardware services has its event or its timer, the LEDs as long as one of them
blinks. -/
def Scheduled (h : Hws) : Prop :=
  (∀ t, t ≠ .led → h.Armed t) ∧ ((∃ j, (view h.leds j).Blinking) → h.Armed .led)

/-- No periodic task is ever lost, and a blink goes on unless one of its phases is too short for the
clock. -/
theorem tasks_scheduled (lit : Fin 4 → Bool) (clock : UInt32) (es : List Event) :
    Run.Always step Periodic (hwsInit lit clock) es ∧
      (Run.Along step Fair (hwsInit lit clock) es → Run.Always step Scheduled (hwsInit lit clock) es) := by
  have hperiodic := periodic_hwsInit lit clock
  refine ⟨Run.always_of_step (fun _ e hp => periodic_step hp e) hperiodic, fun hf => ?_⟩
  have halive := Run.always_of_along (I := fun h => Periodic h ∧ Alive h)
    (fun _ e hi he => ⟨periodic_step hi.1 e, alive_step hi.2 he⟩)
    ⟨hperiodic, alive_hwsInit lit clock⟩ hf
  exact halive.mono fun _ hi => ⟨hi.1, hi.2.alarm⟩

theorem foldl_sooner_eq_zero {l : List UInt16} (hl : ∀ w ∈ l, w = 0) :
    l.foldl HwsLed.sooner 0 = 0 := by
  induction l with
  | nil => rfl
  | cons w l ih =>
    rw [List.foldl_cons, hl w List.mem_cons_self]
    exact ih fun v hv => hl v (List.mem_cons_of_mem w hv)

def round (now : UInt32) : List Event := [.expire .led, .dispatch ⟨0, fun _ => now⟩]

theorem round_eq (hs : h.leds.sleepActive = false) (hp : h.pending = 0) (hr : In h.running .led)
    (now : UInt32) :
    (∀ j, view (Run.final step h (round now)).leds j = ((view h.leds j).tick now).1) ∧
      (Run.final step h (round now)).leds.sleepActive = false ∧
      (Run.final step h (round now)).pending = 0 ∧ (Run.final step h (round now)).last = now ∧
      (In (Run.final step h (round now)).running .led ↔ ∃ j, ((view h.leds j).tick now).2 ≠ 0) := by
  have hexpire : expire h .led =
      { h with running := h.running ^^^ Task.led.event, pending := Task.led.event } := by
    rw [expire, if_pos (show h.running &&& Task.led.event ≠ 0 from hr), hp, UInt16.zero_or]
  have hfinal : Run.final step h (round now) = { (expire h .led).ledCall (.update fun _ => now) now with
      pending := 0 } := by
    change dispatch (expire h .led) _ = _
    have hturn : turn Task.led.event = some .led := rfl
    rw [dispatch_eq, hexpire]
    dsimp only
    rw [hturn]
    rfl
  have hnext := (HwsLed.hwsLedUpdate_eq h.leds 0 (fun _ => now) hs).2
  have hoff : ¬ In (h.running ^^^ Task.led.event) .led := fun h => ((in_xor _ _ _ hr).mp h).2 rfl
  have hleds : ((expire h .led).ledCall (.update fun _ => now) now).leds =
      HwsLed.step h.leds (.update fun _ => now) := by
    rw [hexpire]
    unfold Hws.ledCall
    dsimp only
    split_ifs <;> rfl
  have hlast : ((expire h .led).ledCall (.update fun _ => now) now).last = now := by
    unfold Hws.ledCall
    dsimp only
    split_ifs <;> rfl
  have hrunning : In ((expire h .led).ledCall (.update fun _ => now) now).running .led ↔
      (HwsLed.hwsLedUpdate h.leds fun _ => now).2.isSome = true := by
    rw [hexpire]
    unfold Hws.ledCall HwsLed.serve
    dsimp only
    split_ifs with hsome
    · exact iff_of_true ((in_or _ _ _).mpr (Or.inr ((in_event _ _).mpr rfl))) hsome
    · exact iff_of_false hoff hsome
  rw [hfinal]
  dsimp only
  rw [hleds, hrunning, hnext]
  refine ⟨fun j => HwsLed.view_step j hs _, HwsLed.sleepActive_step hs _, rfl, hlast, ?_⟩
  dsimp only
  by_cases hw : ∃ j, ((view h.leds j).tick now).2 ≠ 0
  · obtain ⟨j, hj⟩ := hw
    have hmem : ((view h.leds j).tick now).2 ∈ (List.finRange 4).map fun i => ((view h.leds i).tick now).2 :=
      List.mem_map.mpr ⟨j, List.mem_finRange j, rfl⟩
    rw [if_pos (foldl_sooner_ne_zero 0 (Or.inr ⟨_, hmem, hj⟩))]
    exact iff_of_true rfl ⟨j, hj⟩
  · have hzero : ∀ w ∈ (List.finRange 4).map (fun i => ((view h.leds i).tick now).2), w = 0 := by
      intro w hmem
      obtain ⟨j, -, rfl⟩ := List.mem_map.mp hmem
      by_contra hne
      exact hw ⟨j, hne⟩
    rw [foldl_sooner_eq_zero hzero]
    exact iff_of_false Bool.false_ne_true hw

def asked (lit : Fin 4 → Bool) (clock : UInt32) (leds count percent : UInt8) (period : UInt16)
    (now : Fin 4 → UInt32) : Hws :=
  step (hwsInit lit clock) (.ledBlink leds count percent period now)

/-- The LEDs are left to themselves. -/
def Undisturbed : Event → Prop
  | .dispatch _ => True
  | .expire _ => True
  | _ => False

section Asked

def fresh : Blinker := ⟨⟨0, 0, 0, 0, 0⟩, false, false, false⟩

variable {leds count percent : UInt8} {period : UInt16}

theorem asked_eq (lit : Fin 4 → Bool) (clock : UInt32) (count : UInt8) (start : Fin 4 → UInt32)
    (hleds : leds ≠ 0) (hpercent : percent ≠ 0 ∧ percent < 100) (hperiod : period ≠ 0) :
    (asked lit clock leds count percent period start).leds.sleepActive = false ∧
      (asked lit clock leds count percent period start).pending = 0 ∧
      In (asked lit clock leds count percent period start).running .led ∧
      (asked lit clock leds count percent period start).last = start 3 ∧
      ∀ j, view (asked lit clock leds count percent period start).leds j =
        if Has leds j then fresh.start count percent period (start j) else fresh := by
  have hcall : HwsLed.serve (hwsInit lit clock).leds (.blink leds count percent period start) =
      ((HwsLed.ledsOf leds).foldl (HwsLed.blinkOne count percent period start) (HwsLed.hwsLedInit lit),
        some 0) := by
    unfold HwsLed.serve HwsLed.hwsLedBlink
    dsimp only
    rw [if_pos ⟨hleds, hpercent.1, hperiod⟩, if_pos hpercent.2]
    rfl
  have hasked : asked lit clock leds count percent period start =
      { hwsInit lit clock with
        leds := (HwsLed.ledsOf leds).foldl (HwsLed.blinkOne count percent period start)
          (HwsLed.hwsLedInit lit)
        last := start 3
        running := (hwsInit lit clock).running ||| Task.led.event } := by
    change (hwsInit lit clock).ledCall _ _ = _
    unfold Hws.ledCall
    rw [hcall]
    rfl
  rw [hasked]
  refine ⟨HwsLed.sleepActive_foldl (f := HwsLed.blinkOne count percent period start) id
    (fun _ _ => rfl) _ _, rfl, (in_or _ _ _).mpr (Or.inr ((in_event _ _).mpr rfl)), rfl, fun j => ?_⟩
  rw [HwsLed.view_blink, HwsLed.view_hwsLedInit]
  rfl

theorem fresh_tick (now : UInt32) : fresh.tick now = (fresh, 0) := by
  have hstill : ¬ fresh.Blinking := (by decide : ¬ ((0 : UInt8) &&& ledModeBlink ≠ 0))
  rw [Blinker.tick, if_neg fun h => hstill h.1, if_neg hstill]

theorem first_tick (count percent : UInt8) (period : UInt16) {now c : UInt32} (hle : now ≤ c) :
    ((fresh.start count percent period now).tick c).2 = phase percent period ∧
      HwsLed.Playing count false 1 ((fresh.start count percent period now).tick c).1 ∧
      ((fresh.start count percent period now).tick c).1.ctrl.onPct = percent ∧
      ((fresh.start count percent period now).tick c).1.ctrl.time = period ∧
      ((fresh.start count percent period now).tick c).1.ctrl.next =
        c + (phase percent period).toUInt32 := by
  have hplaying := HwsLed.playing_start count percent period now fresh
  have hdue : (fresh.start count percent period now).Due c := ⟨hplaying.blinking, hle⟩
  have hoff : ¬ (fresh.start count percent period now).ctrl.mode &&& ledModeOn ≠ 0 :=
    fun h => absurd (hplaying.on_iff.mp h) (by decide)
  have hone := HwsLed.playing_turnOn hplaying (by decide) c
  rw [Blinker.tick, if_pos hdue]
  refine ⟨?_, hone, ?_⟩
  · rw [Blinker.flip, if_neg hoff]
    rfl
  · rw [Blinker.flip, if_neg hoff]
    exact ⟨rfl, rfl, rfl⟩

theorem second_tick {b : Blinker} {c : UInt32} (hb : HwsLed.Playing count false 1 b)
    (hnext : b.ctrl.next ≤ c) (hoff : phase (100 - b.ctrl.onPct) b.ctrl.time = 0) (hcount : count ≠ 1) :
    (b.tick c).2 = 0 ∧ (b.tick c).1.Blinking := by
  have hmore : HwsLed.Endless count ∨ 1 + 1 < 2 * count.toNat := by
    by_cases h0 : count = 0
    · exact Or.inl (Or.inl h0)
    · right
      have hne0 : count.toNat ≠ 0 := fun h => h0 (UInt8.toNat_inj.mp h)
      have hne1 : count.toNat ≠ 1 := fun h => hcount (UInt8.toNat_inj.mp h)
      omega
  have htwo := HwsLed.playing_turnOff hb (by decide) hmore c
  obtain ⟨hpct, htime⟩ := ended_pct b.ctrl
  rw [Blinker.tick, if_pos ⟨hb.blinking, hnext⟩]
  refine ⟨?_, htwo.blinking⟩
  rw [Blinker.flip, if_pos (hb.on_iff.mpr (by decide))]
  dsimp only
  rw [hpct, htime, hoff]
  split_ifs <;> rfl

theorem along_round {h : Hws} {now : UInt32} (hle : h.last ≤ now) : Run.Along step Fair h (round now) := by
  have hlast : (expire h .led).last = h.last := by
    unfold expire
    split_ifs <;> rfl
  refine ⟨trivial, ⟨?_, UInt32.le_refl _, UInt32.le_refl _, UInt32.le_refl _⟩, trivial⟩
  change (expire h .led).last ≤ now
  rwa [hlast]

theorem undisturbed_round (now : UInt32) : ∀ e ∈ round now, Undisturbed e := by
  simp [round, Undisturbed]

theorem not_scheduled {h : Hws} {j : Fin 4} (hj : (view h.leds j).Blinking) (hp : h.pending = 0)
    (hr : ¬ In h.running .led) : ¬ Scheduled h := by
  intro hs
  have harmed := hs.2 ⟨j, hj⟩
  rw [Hws.Armed, hp] at harmed
  exact harmed.elim (in_zero _) hr

/-- A blink whose on phase is too short stops at its first phase, one whose off phase is too short at its
second. -/
theorem stalls (lit : Fin 4 → Bool) {clock : UInt32} {start : Fin 4 → UInt32} {j : Fin 4}
    (hj : Has leds j) (hpercent : percent ≠ 0 ∧ percent < 100) (hperiod : period ≠ 0)
    (hc : Clocked clock start) (hl : ¬ Lasting count percent period) :
    ∃ es, (∀ e ∈ es, Undisturbed e) ∧
      Run.Along step Fair (asked lit clock leds count percent period start) es ∧
      ¬ Scheduled (Run.final step (asked lit clock leds count percent period start) es) := by
  obtain ⟨hs, hp, hr, hlast, hview⟩ := asked_eq lit clock count start (ne_zero_of_has hj) hpercent
    hperiod
  obtain ⟨hview₁, hs₁, hp₁, hlast₁, hr₁⟩ := round_eq hs hp hr (start 3)
  have hfirst (i : Fin 4) := first_tick count percent period (hc.le i).2
  have halong := along_round (hlast.trans_le (UInt32.le_refl (start 3)))
  generalize asked lit clock leds count percent period start = h at *
  by_cases hon : phase percent period = 0
  · refine ⟨round (start 3), undisturbed_round _, halong, not_scheduled (j := j) ?_ hp₁ ?_⟩
    · rw [hview₁, hview, if_pos hj]
      exact (hfirst j).2.1.blinking
    · rw [hr₁]
      rintro ⟨i, hi⟩
      rw [hview] at hi
      split_ifs at hi
      · exact hi ((hfirst i).1.trans hon)
      · rw [fresh_tick] at hi
        exact hi rfl
  · have hoff : phase (100 - percent) period = 0 ∧ count ≠ 1 :=
      ⟨by_contra fun h => hl ⟨hon, Or.inl h⟩, fun h => hl ⟨hon, Or.inr h⟩⟩
    have hask : ∃ i, ((view h.leds i).tick (start 3)).2 ≠ 0 := by
      refine ⟨j, ?_⟩
      rw [hview, if_pos hj, (hfirst j).1]
      exact hon
    obtain ⟨c, hc₁, hc₂⟩ : ∃ c, start 3 ≤ c ∧ start 3 + (phase percent period).toUInt32 ≤ c := by
      by_cases hle : start 3 ≤ start 3 + (phase percent period).toUInt32
      · exact ⟨_, hle, UInt32.le_refl _⟩
      · exact ⟨start 3, UInt32.le_refl _, UInt32.le_of_lt (UInt32.not_le.mp hle)⟩
    obtain ⟨hview₂, -, hp₂, -, hr₂⟩ := round_eq hs₁ hp₁ (hr₁.mpr hask) c
    have hsecond (i : Fin 4) := second_tick (c := c) (hfirst i).2.1
      (by rw [(hfirst i).2.2.2.2]; exact hc₂) (by rw [(hfirst i).2.2.1, (hfirst i).2.2.2.1]; exact hoff.1)
      hoff.2
    refine ⟨round (start 3) ++ round c, ?_, ?_, ?_⟩
    · intro e he
      exact (List.mem_append.mp he).elim (undisturbed_round _ e) (undisturbed_round _ e)
    · rw [Run.along_append]
      exact ⟨halong, along_round (hlast₁.trans_le hc₁)⟩
    · rw [Run.final_append]
      refine not_scheduled (j := j) ?_ hp₂ ?_
      · rw [hview₂, hview₁, hview, if_pos hj]
        exact (hsecond j).2
      · rw [hr₂]
        rintro ⟨i, hi⟩
        rw [hview₁, hview] at hi
        split_ifs at hi
        · exact hi (hsecond i).1
        · rw [fresh_tick, fresh_tick] at hi
          exact hi rfl

/-- After a request on a fresh board the LEDs are updated as long as they blink exactly when both phases
last. -/
theorem blink_goes_on_iff (lit : Fin 4 → Bool) {clock : UInt32} {start : Fin 4 → UInt32} {j : Fin 4}
    (hj : Has leds j) (hpercent : percent ≠ 0 ∧ percent < 100) (hperiod : period ≠ 0)
    (hc : Clocked clock start) :
    (∀ es, (∀ e ∈ es, Undisturbed e) →
        Run.Along step Fair (asked lit clock leds count percent period start) es →
        Run.Always step Scheduled (asked lit clock leds count percent period start) es) ↔
      Lasting count percent period := by
  constructor
  · intro h
    by_contra hl
    obtain ⟨es, hes, hfair, hnot⟩ := stalls lit hj hpercent hperiod hc hl
    exact hnot (h es hes hfair).final
  · intro hl es _ hfair
    have hasked : Run.Along step Fair (hwsInit lit clock)
        (.ledBlink leds count percent period start :: es) := ⟨⟨hc, fun _ => hl⟩, hfair⟩
    exact ((tasks_scheduled lit clock _).2 hasked).2

/-- Flashing LED 1 every 500 ticks never stops. -/
theorem flash_goes_on : Has 0x01 0 ∧ ∀ es, (∀ e ∈ es, Undisturbed e) →
    Run.Along step Fair (asked (fun _ => false) 0 0x01 0 50 500 fun _ => 7) es →
    Run.Always step Scheduled (asked (fun _ => false) 0 0x01 0 50 500 fun _ => 7) es :=
  ⟨by decide, (blink_goes_on_iff (fun _ => false) (show Has 0x01 0 by decide) (by decide) (by decide)
    (by decide)).mpr (by decide)⟩

end Asked

end Alarm

end AtNode.HwsTasks
