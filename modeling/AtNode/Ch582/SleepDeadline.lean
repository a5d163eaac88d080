import AtNode.Ch582.AtCmds
import AtNode.Lib.CyclicCounter

/-!
# The wake-up of a timed sleep on the CH582

The clock counts ticks of 32 kHz from 0 to `RTC_TIMER_MAX_VALUE - 1` and wraps. A sleep writes the
value to wake up at into the trigger of the clock. The callback of the stack reduces an instant behind
the wrap when it exceeds the maximum, which leaves the maximum itself; `AT+SLEEP` never reduces it.
-/

namespace AtNode.HwsSleep

open AtCmds ArgProgram CString CyclicCounter

section Source

inductive Osc where
  | crystal
  | internal

def Osc.freqRtc : Osc → ℕ
  | .crystal => 32768
  | .internal => 32000

def rtcTimerMaxValue : UInt32 := 0xA8C00000

section Clock

variable (o : Osc)

/-- The macros add one half and cut off. -/
def msToRtc (ms : UInt32) : UInt32 := ((2 * ms.toNat * o.freqRtc + 1000) / 2000).toUInt32

def usToRtc (us : UInt32) : UInt32 := ((2 * us.toNat * o.freqRtc + 1000000) / 2000000).toUInt32

def rtcToMs (clk : UInt32) : UInt32 :=
  ((2 * clk.toNat * 1000 + o.freqRtc) / (2 * o.freqRtc)).toUInt32

def sleepRtcMinTime : UInt32 := usToRtc o 1000

def sleepRtcMaxTime : UInt32 := msToRtc o (rtcToMs o rtcTimerMaxValue - 1000 * 60 * 60)

def wakeUpRtcMaxTime : UInt32 := usToRtc o 1400

end Clock

inductive LowPower where
  | idle
  | sleep
  | shutdown

structure Instant where
  ticks : UInt32
  lt : ticks < rtcTimerMaxValue

structure Rtc where
  /-- What `RTC_GetCycle32k` returns. -/
  cycle : Instant
  tigFlag : Bool
  /-- The values of the trigger register, the oldest first. -/
  triggers : List UInt32
  lowPower : List LowPower

def Rtc.setTrigger (r : Rtc) (time : UInt32) : Rtc :=
  { r with triggers := r.triggers ++ [time], tigFlag := false }

def Rtc.irqHandler (r : Rtc) : Rtc := { r with tigFlag := true }

def Rtc.power (r : Rtc) (m : LowPower) : Rtc := { r with lowPower := r.lowPower ++ [m] }

/-- When the interrupt of the clock comes. -/
structure Interrupts where
  beforeSleep : Bool
  asleep : Bool

def Rtc.interrupt (r : Rtc) (comes : Bool) : Rtc := if comes then r.irqHandler else r

def sleepTime (time curr : UInt32) : UInt32 :=
  if time < curr then time + (rtcTimerMaxValue - curr) else time - curr

def afterWake (o : Osc) (time : UInt32) : UInt32 :=
  let time := time + wakeUpRtcMaxTime o
  if 0xA8C00000 < time then time - 0xA8C00000 else time

def hwsSleepEnter (o : Osc) (irq : Interrupts) (time : UInt32) (r : Rtc) : UInt32 × Rtc :=
  let duration := sleepTime time r.cycle.ticks
  if duration < sleepRtcMinTime o ∨ sleepRtcMaxTime o < duration then (2, r)
  else
    let r := (r.setTrigger time).interrupt irq.beforeSleep
    if r.tigFlag then (3, r)
    else
      let r := (r.power .sleep).interrupt irq.asleep
      (0, if r.tigFlag then (r.setTrigger (afterWake o time)).power .idle else r)

def hwsSleepAt (o : Osc) (mode : UInt8) (seconds : UInt32) (r : Rtc) : Rtc :=
  let r := r.setTrigger (r.cycle.ticks + msToRtc o (seconds * 1000))
  if mode = 0 then r.power .idle
  else if mode = 1 then r.power .sleep
  else r.power .shutdown

/-- Where the state of the chip has its clock. -/
structure ClockOf (σ : Type) where
  get : σ → Rtc
  set : Rtc → σ → σ
  get_set : ∀ r s, get (set r s) = r

/-- The chip whose `sleep` is `hws_sleep_at`. -/
def withSleep {n : ℕ} {σ : Type} (C : Chip n σ) (o : Osc) (L : ClockOf σ) : Chip n σ :=
  { C with sleep := fun mode sec s =>
      L.set (hwsSleepAt o mode.toUInt8 sec.toUInt32 (L.get s)) s }

end Source

section Deadline

/-- The period of the counter. -/
def period : ℕ := 2831155200

theorem rtcTimerMaxValue_toNat : rtcTimerMaxValue.toNat = period := rfl

theorem Instant.toNat_lt (t : Instant) : t.ticks.toNat < period := UInt32.lt_iff_toNat_lt.mp t.lt

/-- A wake-up that is due at `instant`, which is `delay` ticks from `start`. -/
structure Wake where
  instant : ℕ
  start : ℕ
  delay : ℕ

/-- The trigger stands for the instant, and the counter meets it there first. -/
structure Wake.Set (k : Wake) (trigger : UInt32) : Prop where
  timely : Timely period k.instant trigger.toNat
  rings : FirstRing period k.start k.delay trigger.toNat

theorem set_iff_timely {instant start delay : ℕ} (hdelay : delay ≤ period)
    (hstart : start + delay ≡ instant [MOD period]) (trigger : UInt32) :
    (Wake.mk instant start delay).Set trigger ↔ Timely period instant trigger.toNat := by
  have hpos : 0 < period := by decide
  refine ⟨Wake.Set.timely, fun h => ⟨h, ?_⟩⟩
  exact (firstRing_iff_timely hpos hdelay).mpr (h.congr hstart.symm)

/-- The triggers that were set between the two states are those of the wake-ups. -/
def Programmed (before after : Rtc) (wakes : List Wake) : Prop :=
  ∃ triggers, after.triggers = before.triggers ++ triggers ∧ List.Forall₂ Wake.Set wakes triggers

theorem programmed_iff {before after : Rtc} {triggers : List UInt32} {wakes : List Wake}
    (h : after.triggers = before.triggers ++ triggers) :
    Programmed before after wakes ↔ List.Forall₂ Wake.Set wakes triggers := by
  constructor
  · rintro ⟨more, heq, hset⟩
    rwa [List.append_cancel_left (h.symm.trans heq)]
  · exact fun hset => ⟨triggers, h, hset⟩

end Deadline

section Callback

variable (o : Osc) (irq : Interrupts) (time : Instant) (r : Rtc)

def timeTo : ℕ := distance period r.cycle.ticks.toNat time.ticks.toNat

def InWindow : Prop :=
  (sleepRtcMinTime o).toNat ≤ timeTo time r ∧ timeTo time r ≤ (sleepRtcMaxTime o).toNat

instance : Decidable (InWindow o time r) := inferInstanceAs (Decidable (_ ∧ _))

/-- The clock wakes the chip up early, before the crystal is stable. -/
def EarlyWake : Prop := InWindow o time r ∧ irq.beforeSleep = false ∧ irq.asleep = true

instance : Decidable (EarlyWake o irq time r) := inferInstanceAs (Decidable (_ ∧ _))

def enterWakes : List Wake :=
  let now := r.cycle.ticks.toNat
  let w := (wakeUpRtcMaxTime o).toNat
  if InWindow o time r then
    ⟨time.ticks.toNat, now, timeTo time r⟩ ::
      if EarlyWake o irq time r then [⟨time.ticks.toNat + w, time.ticks.toNat, w⟩] else []
  else []

theorem sleepTime_toNat : (sleepTime time.ticks r.cycle.ticks).toNat = timeTo time r := by
  have htime := time.toNat_lt
  have hnow := r.cycle.toNat_lt
  have hmax := rtcTimerMaxValue_toNat
  have hperiod : period < 2 ^ 32 := by decide
  unfold sleepTime timeTo
  split_ifs with hlt
  · have hlt' := UInt32.lt_iff_toNat_lt.mp hlt
    have hle : r.cycle.ticks ≤ rtcTimerMaxValue := UInt32.le_iff_toNat_le.mpr (hmax ▸ hnow.le)
    rw [distance_of_lt hlt' hnow, UInt32.toNat_add, UInt32.toNat_sub_of_le _ _ hle, hmax]
    exact Nat.mod_eq_of_lt (by omega)
  · have hle : r.cycle.ticks ≤ time.ticks := UInt32.not_lt.mp hlt
    rw [distance_of_le (UInt32.le_iff_toNat_le.mp hle) htime, UInt32.toNat_sub_of_le _ _ hle]

theorem wakeUpRtcMaxTime_toNat_le : (wakeUpRtcMaxTime o).toNat ≤ 46 := by
  cases o <;> decide

theorem afterWake_toNat :
    (afterWake o time.ticks).toNat = if period < time.ticks.toNat + (wakeUpRtcMaxTime o).toNat then
      time.ticks.toNat + (wakeUpRtcMaxTime o).toNat - period
    else time.ticks.toNat + (wakeUpRtcMaxTime o).toNat := by
  have htime := time.toNat_lt
  have hw := wakeUpRtcMaxTime_toNat_le o
  have hperiod : period + 46 < 2 ^ 32 := by decide
  have hsum : (time.ticks + wakeUpRtcMaxTime o).toNat =
      time.ticks.toNat + (wakeUpRtcMaxTime o).toNat := by
    rw [UInt32.toNat_add]
    exact Nat.mod_eq_of_lt (by omega)
  have hiff : (0xA8C00000 : UInt32) < time.ticks + wakeUpRtcMaxTime o ↔
      period < time.ticks.toNat + (wakeUpRtcMaxTime o).toNat := by
    rw [UInt32.lt_iff_toNat_lt, hsum]
    exact Iff.rfl
  unfold afterWake
  simp only [hiff]
  split_ifs with hlt
  · have hle : (0xA8C00000 : UInt32) ≤ time.ticks + wakeUpRtcMaxTime o :=
      UInt32.le_of_lt (hiff.mpr hlt)
    rw [UInt32.toNat_sub_of_le _ _ hle, hsum]
    rfl
  · exact hsum

theorem set_time {r : Rtc} (trigger : UInt32) (h : trigger = time.ticks) :
    (Wake.mk time.ticks.toNat r.cycle.ticks.toNat (timeTo time r)).Set trigger := by
  have hdelay : timeTo time r ≤ period := (distance_lt time.toNat_lt).le
  rw [set_iff_timely hdelay (add_distance_modEq r.cycle.toNat_lt), h]
  exact timely_self time.toNat_lt

/-- Only the instant that is the period itself is not brought back. -/
theorem set_afterWake_iff :
    (Wake.mk (time.ticks.toNat + (wakeUpRtcMaxTime o).toNat) time.ticks.toNat
      (wakeUpRtcMaxTime o).toNat).Set (afterWake o time.ticks) ↔
      time.ticks.toNat + (wakeUpRtcMaxTime o).toNat ≠ period := by
  have htime := time.toNat_lt
  have hw := wakeUpRtcMaxTime_toNat_le o
  have hperiod : 46 < period := by decide
  have hdelay : (wakeUpRtcMaxTime o).toNat ≤ period := by omega
  rw [set_iff_timely hdelay (Nat.ModEq.refl _), timely_iff (by omega),
    afterWake_toNat]
  split_ifs with hlt
  · have hmod : (time.ticks.toNat + (wakeUpRtcMaxTime o).toNat) % period =
        time.ticks.toNat + (wakeUpRtcMaxTime o).toNat - period := by
      rw [Nat.mod_eq_sub_mod hlt.le, Nat.mod_eq_of_lt (by omega)]
    exact iff_of_true hmod.symm hlt.ne'
  · rcases Nat.lt_or_eq_of_le (Nat.not_lt.mp hlt) with h | h
    · exact iff_of_true (Nat.mod_eq_of_lt h).symm h.ne
    · rw [h, Nat.mod_self]
      exact iff_of_false (by omega) (not_not.mpr rfl)

theorem outside_iff : sleepTime time.ticks r.cycle.ticks < sleepRtcMinTime o ∨
    sleepRtcMaxTime o < sleepTime time.ticks r.cycle.ticks ↔ ¬ InWindow o time r := by
  rw [UInt32.lt_iff_toNat_lt, UInt32.lt_iff_toNat_lt, sleepTime_toNat, InWindow, not_and_or,
    Nat.not_le, Nat.not_le]

theorem hwsSleepEnter_outside (hwin : ¬ InWindow o time r) :
    hwsSleepEnter o irq time.ticks r = (2, r) := if_pos ((outside_iff o time r).mpr hwin)

theorem hwsSleepEnter_inside (hwin : InWindow o time r) : hwsSleepEnter o irq time.ticks r =
    if irq.beforeSleep then (3, (r.setTrigger time.ticks).irqHandler)
    else if irq.asleep then
      (0, ((((r.setTrigger time.ticks).power .sleep).irqHandler).setTrigger
        (afterWake o time.ticks)).power .idle)
    else (0, (r.setTrigger time.ticks).power .sleep) := by
  refine (if_neg ((outside_iff o time r).not.mpr (not_not.mpr hwin))).trans ?_
  obtain ⟨before, asleep⟩ := irq
  cases before with
  | true => rfl
  | false =>
    cases asleep with
    | true => rfl
    | false => rfl

theorem hwsSleepEnter_eq :
    ((hwsSleepEnter o irq time.ticks r).1 = 2 ↔ ¬ InWindow o time r) ∧
    (hwsSleepEnter o irq time.ticks r).2.triggers = r.triggers ++
      if InWindow o time r then
        time.ticks :: if EarlyWake o irq time r then [afterWake o time.ticks] else []
      else [] := by
  by_cases hwin : InWindow o time r
  · have hearly : EarlyWake o irq time r ↔ irq.beforeSleep = false ∧ irq.asleep = true :=
      and_iff_right hwin
    have hthree : ¬ (3 : UInt32) = 2 := by decide
    have hzero : ¬ (0 : UInt32) = 2 := by decide
    rw [hwsSleepEnter_inside o irq time r hwin, if_pos hwin]
    simp only [hearly]
    obtain ⟨before, asleep⟩ := irq
    cases before with
    | true => exact ⟨iff_of_false hthree (not_not.mpr hwin), rfl⟩
    | false =>
      cases asleep with
      | true =>
        refine ⟨iff_of_false hzero (not_not.mpr hwin), ?_⟩
        simp [Rtc.setTrigger, Rtc.power, Rtc.irqHandler]
      | false => exact ⟨iff_of_false hzero (not_not.mpr hwin), rfl⟩
  · rw [hwsSleepEnter_outside o irq time r hwin, if_neg hwin, List.append_nil]
    exact ⟨iff_of_true rfl hwin, rfl⟩

theorem programmed_enter_iff :
    Programmed r (hwsSleepEnter o irq time.ticks r).2 (enterWakes o irq time r) ↔
      (EarlyWake o irq time r →
        time.ticks.toNat + (wakeUpRtcMaxTime o).toNat ≠ period) := by
  rw [programmed_iff (hwsSleepEnter_eq o irq time r).2]
  unfold enterWakes
  by_cases hwin : InWindow o time r
  · rw [if_pos hwin, if_pos hwin, List.forall₂_cons, and_iff_right (set_time time _ rfl)]
    by_cases hearly : EarlyWake o irq time r
    · rw [if_pos hearly, if_pos hearly, List.forall₂_cons, and_iff_left .nil, set_afterWake_iff,
        imp_iff_right hearly]
    · rw [if_neg hearly, if_neg hearly]
      exact iff_of_true .nil fun h => absurd h hearly
  · rw [if_neg hwin, if_neg hwin]
    exact iff_of_true .nil fun h => absurd h.1 hwin

end Callback

section Command

variable {n : ℕ} {σ : Type} (C : Chip n σ) (o : Osc) (L : ClockOf σ) (argc : ℕ)
  (argv : ℕ → Option Text) (w : Node n σ)

/-- The seconds of an accepted command. -/
def sleepSeconds : Option ℕ :=
  if C.build.usb ∨ argc < 2 then none
  else
    (argv 1).bind fun mode => (if 2 < argc then (argv 2).map atoi else some 5).bind fun sec =>
      if atoi mode < 0 ∨ 2 < atoi mode ∨ sec < 1 ∨ 3600 < sec then none else some sec.toNat

def commandWakes : List Wake :=
  let now := (L.get w.rest).cycle.ticks.toNat
  match sleepSeconds C argc argv with
  | some sec => [⟨now + sec * o.freqRtc, now, sec * o.freqRtc⟩]
  | none => []

theorem sleepSeconds_le {sec : ℕ} (h : sleepSeconds C argc argv = some sec) :
    sec ≤ 3600 := by
  unfold sleepSeconds at h
  rw [Option.ite_none_left_eq_some] at h
  obtain ⟨mode, -, h⟩ := Option.bind_eq_some_iff.mp h.2
  obtain ⟨v, -, h⟩ := Option.bind_eq_some_iff.mp h
  split_ifs at h with hout
  cases h
  omega

theorem toUInt32_toNat {v : ℕ} (h : v < 2 ^ 32) : v.toUInt32.toNat = v := by
  rw [Nat.toUInt32_eq, UInt32.toNat_ofNat', Nat.mod_eq_of_lt h]

theorem msToRtc_toNat {sec : ℕ} (h : sec ≤ 3600) :
    (msToRtc o (sec.toUInt32 * 1000)).toNat = sec * o.freqRtc := by
  have hms : (sec.toUInt32 * 1000).toNat = sec * 1000 := by
    rw [UInt32.toNat_mul, toUInt32_toNat (by omega)]
    change sec * 1000 % 2 ^ 32 = _
    omega
  have hexact : (2 * (sec * 1000) * o.freqRtc + 1000) / 2000 = sec * o.freqRtc := by
    cases o <;> simp only [Osc.freqRtc] <;> omega
  have hlt : sec * o.freqRtc < 2 ^ 32 := by
    cases o <;> simp only [Osc.freqRtc] <;> omega
  rw [msToRtc, hms, hexact, toUInt32_toNat hlt]

def sleepFor (mode sec : ℤ) : Program n σ Int :=
  if mode < 0 ∨ 2 < mode ∨ sec < 1 ∨ 3600 < sec then
    refuse (bytes "usage: AT+SLEEP=<mode 0-2>[,<sec 1-3600>]")
  else do
    edit fun w =>
      if roleCurrent C w.rest = .dongle then
        { w with dongle := (Central.bleDongleDisconnect (C.gap w.rest) w.dongle).1 }
      else { w with keyboard := (Ble.kbBleDisconnect w.keyboard).1 }
    respond (bytes "sleeping mode=" ++ dec mode ++ bytes " wake=" ++ dec sec ++ bytes "s")
    edit fun w => { w with rest := C.sleep mode.toNat sec.toNat w.rest }
    edit fun w =>
      if roleCurrent C w.rest = .kbd then
        { w with keyboard := { w.keyboard with
            air := { w.keyboard.air with advertEnabled := true } } }
      else w
    respond (bytes "awake")
    pure 0

theorem atCmdSleep_eq : atCmdSleep C argc =
    if C.build.usb then
      refuse (bytes "ERROR: sleep excluded with USB — use HWS_SLEEP build over UART")
    else if argc < 2 then refuse (bytes "usage: AT+SLEEP=<mode 0-2>[,<sec>]")
    else if 2 < argc then ask 1 >>= fun m => ask 2 >>= fun s => sleepFor C (atoi m) (atoi s)
    else ask 1 >>= fun m => sleepFor C (atoi m) 5 := by
  unfold atCmdSleep
  split_ifs <;> rfl

theorem sleepFor_rest (mode sec : ℤ) : ((sleepFor C mode sec).run argv w).state.rest =
    if mode < 0 ∨ 2 < mode ∨ sec < 1 ∨ 3600 < sec then w.rest
    else C.sleep mode.toNat sec.toNat w.rest := by
  unfold sleepFor
  split_ifs with hout
  · rfl
  · rw [run_edit_bind, respond, run_edit_bind, run_edit_bind, run_edit_bind, respond, run_edit_bind,
      run_pure]
    simp only [Node.respond, apply_ite Node.rest, ite_self]

theorem atCmdSleep_rest : ∃ mode, ((atCmdSleep C argc).run argv w).state.rest =
    match sleepSeconds C argc argv with
    | some sec => C.sleep mode sec w.rest
    | none => w.rest := by
  rw [atCmdSleep_eq, sleepSeconds]
  by_cases husb : C.build.usb
  · rw [if_pos husb, if_pos (Or.inl husb)]
    exact ⟨0, rfl⟩
  by_cases hargc : argc < 2
  · rw [if_neg husb, if_pos hargc, if_pos (Or.inr hargc)]
    exact ⟨0, rfl⟩
  rw [if_neg husb, if_neg hargc, if_neg (not_or.mpr ⟨husb, hargc⟩)]
  cases hmode : argv 1 with
  | none =>
    split_ifs
    · rw [run_ask_bind_none hmode]
      exact ⟨0, rfl⟩
    · rw [run_ask_bind_none hmode]
      exact ⟨0, rfl⟩
  | some m =>
    refine ⟨(atoi m).toNat, ?_⟩
    rw [Option.bind_some]
    split_ifs with hsec
    · rw [state_ask_bind_some hmode]
      cases hs : argv 2 with
      | none => rw [run_ask_bind_none hs, Option.map_none, Option.bind_none]
      | some s =>
        rw [state_ask_bind_some hs, sleepFor_rest, Option.map_some, Option.bind_some]
        split_ifs <;> rfl
    · rw [state_ask_bind_some hmode, sleepFor_rest, Option.bind_some]
      split_ifs <;> rfl

theorem hwsSleepAt_triggers (mode : UInt8) (seconds : UInt32) (r : Rtc) :
    (hwsSleepAt o mode seconds r).triggers =
      r.triggers ++ [r.cycle.ticks + msToRtc o (seconds * 1000)] := by
  unfold hwsSleepAt
  dsimp only
  split_ifs <;> rfl

theorem programmed_command_iff :
    Programmed (L.get w.rest) (L.get ((atCmdSleep (withSleep C o L) argc).run argv w).state.rest)
        (commandWakes C o L argc argv w) ↔
      ∀ sec, sleepSeconds C argc argv = some sec →
        (L.get w.rest).cycle.ticks.toNat + sec * o.freqRtc < period := by
  obtain ⟨mode, hrest⟩ := atCmdSleep_rest (withSleep C o L) argc argv w
  have hseconds : sleepSeconds (withSleep C o L) argc argv = sleepSeconds C argc argv := rfl
  rw [hrest, hseconds, commandWakes]
  cases hsec : sleepSeconds C argc argv with
  | none => exact iff_of_true ⟨[], (List.append_nil _).symm, .nil⟩ fun sec h => nomatch h
  | some sec =>
    have hle := sleepSeconds_le C argc argv hsec
    have hnow := (L.get w.rest).cycle.toNat_lt
    have hperiod : period + 3600 * 32768 < 2 ^ 32 := by decide
    have hdelay : sec * o.freqRtc ≤ 3600 * 32768 := by
      cases o <;> simp only [Osc.freqRtc] <;> omega
    have hsum : ((L.get w.rest).cycle.ticks + msToRtc o (sec.toUInt32 * 1000)).toNat =
        (L.get w.rest).cycle.ticks.toNat + sec * o.freqRtc := by
      rw [UInt32.toNat_add, msToRtc_toNat o hle]
      exact Nat.mod_eq_of_lt (by omega)
    have htriggers : (L.get ((withSleep C o L).sleep mode sec w.rest)).triggers =
        (L.get w.rest).triggers ++
          [(L.get w.rest).cycle.ticks + msToRtc o (sec.toUInt32 * 1000)] := by
      change (L.get (L.set _ w.rest)).triggers = _
      rw [L.get_set, hwsSleepAt_triggers]
    dsimp only
    rw [programmed_iff htriggers, List.forall₂_cons, and_iff_left .nil,
      set_iff_timely (hdelay.trans (by decide)) (Nat.ModEq.refl _), hsum]
    constructor
    · rintro h _ ⟨⟩
      exact h.lt
    · exact fun h => timely_self (h sec rfl)

end Command

section Requests

variable {n : ℕ} {σ : Type}

/-- The two ways to a timed sleep. -/
inductive Request (n : ℕ) (σ : Type) where
  | enter (irq : Interrupts) (time : Instant) (r : Rtc)
  | command (C : Chip n σ) (L : ClockOf σ) (argc : ℕ) (argv : ℕ → Option Text) (w : Node n σ)

/-- The triggers are those of the wake-ups asked for, and the callback tests the time to the first. -/
def Request.Met (o : Osc) : Request n σ → Prop
  | .enter irq time r =>
    Programmed r (hwsSleepEnter o irq time.ticks r).2 (enterWakes o irq time r) ∧
      (sleepTime time.ticks r.cycle.ticks).toNat = timeTo time r ∧
      ((hwsSleepEnter o irq time.ticks r).1 = 2 ↔ ¬ InWindow o time r)
  | .command C L argc argv w =>
    Programmed (L.get w.rest) (L.get ((atCmdSleep (withSleep C o L) argc).run argv w).state.rest)
      (commandWakes C o L argc argv w)

/-- No second trigger is due at the period itself, and no delay of the command reaches it. -/
def Request.ClearOfWrap (o : Osc) : Request n σ → Prop
  | .enter irq time r => EarlyWake o irq time r →
      time.ticks.toNat + (wakeUpRtcMaxTime o).toNat ≠ period
  | .command C L argc argv w => ∀ sec, sleepSeconds C argc argv = some sec →
      (L.get w.rest).cycle.ticks.toNat + sec * o.freqRtc < period

theorem wake_deadline_iff (o : Osc) (q : Request n σ) : q.Met o ↔ q.ClearOfWrap o := by
  cases q with
  | enter irq time r =>
    exact (and_iff_left ⟨sleepTime_toNat time r, (hwsSleepEnter_eq o irq time r).1⟩).trans
      (programmed_enter_iff o irq time r)
  | command C L argc argv w => exact programmed_command_iff C o L argc argv w

def lastWindow : Instant := ⟨2831155154, by decide⟩

def beforeWrap : Rtc := ⟨⟨2831154154, by decide⟩, false, [], []⟩

/-- Woken early, the callback sets a trigger that the counter never reads. -/
theorem period_programmed :
    (hwsSleepEnter .crystal ⟨false, true⟩ lastWindow.ticks beforeWrap).2.triggers =
      [lastWindow.ticks, rtcTimerMaxValue] ∧
    ¬ (Request.enter (n := 1) (σ := Unit) ⟨false, true⟩ lastWindow beforeWrap).Met .crystal := by
  refine ⟨by decide, fun h => ?_⟩
  exact (programmed_enter_iff _ _ _ _).mp h.1 (by decide) (by decide)

end Requests

end AtNode.HwsSleep
