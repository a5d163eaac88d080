import AtNode.Esp32.MqttTask

/-!
# The master switch of the MQTT client

A monitor runs beside the task. It knows whether the task has processed `mqtt.enable = 0` with
nothing switched on since, and whether the signal that is pending comes from starts alone that were
made with a session up. It records a session that is opened, and one that is torn down, against the
switch.
-/

namespace AtNode.MqttTask

open Run Config TunnelSwitch CfgBus

structure Watched where
  task : State
  /-- `mqtt.enable = 0` was processed, and nothing has switched the client on since. -/
  off : Bool
  /-- A session was opened although `off`. -/
  opened : Bool
  /-- The pending signal comes from starts with a session up. -/
  starts : Bool
  /-- Such a signal ended a session. -/
  torn : Bool

def Watched.init (cfg : Cfg) : Watched := ⟨MqttTask.init cfg, false, false, false, false⟩

section Monitor

def hasBroker (s : State) : Bool := getStr s.bus.cfg .mqttBroker ≠ []

def listens (s : State) : Bool := s.phase = .idle || s.phase = .session

def readsOff (s : State) : Event → Bool
  | .poll _ =>
    listens s && !s.kick && s.bus.head .mqttc = some .mqttEnable && !isOn s.bus.cfg .mqttEnable
  | _ => false

def switchesOn (s : State) : Event → Bool
  | .set c => isOn (s.bus.set c).cfg .mqttEnable
  | .start => hasBroker s
  | _ => false

def opens (s : State) (e : Event) : Bool := s.phase ≠ .opening && (step s e).phase = .opening

def pendingStarts (w : Watched) : Event → Bool
  | .start =>
    if hasBroker w.task then w.task.connected && (!w.task.kick || w.starts) else w.starts
  | .stop => false
  | .poll _ => if listens w.task then false else w.starts
  | _ => w.starts

def tears (w : Watched) : Event → Bool
  | .poll _ => w.task.phase = .session && w.task.kick && w.starts
  | _ => false

def watch (w : Watched) (e : Event) : Watched where
  task := step w.task e
  off := !switchesOn w.task e && (w.off || readsOff w.task e)
  opened := w.opened || (opens w.task e && w.off)
  starts := pendingStarts w e
  torn := w.torn || tears w e

end Monitor

/-- No session is opened against the switch, and none is torn down by a start. -/
def Obeys (w : Watched) : Prop := w.opened = false ∧ w.torn = false

/-- The switch is not found off in a session that is to run, and no start is made with a session
up. -/
def Respected (w : Watched) : Event → Prop
  | .poll link =>
    w.task.phase = .session → w.task.running = true → readsOff w.task (.poll link) = false
  | .start => hasBroker w.task = true → w.task.connected = false
  | _ => True

section Task

variable {s : State} {e : Event} {link : Bool}

/-- An idle task with no signal pending is not to run. -/
def IdleOff (s : State) : Prop := s.phase = .idle → s.kick = false → s.running = false

/-- What the head of the loop comes to. -/
theorem loopTop_cases (s : State) (link : Bool) :
    (loopTop s link = { s with phase := .idle } ∧ s.running = false) ∨
      loopTop s link = { s with phase := .wifiWait } ∨
      loopTop s link = { s with running := false, phase := .idle } ∨
      (loopTop s link = { s with phase := .opening } ∧ s.running = true) := by
  unfold loopTop
  split
  · rename_i hr
    rw [Bool.not_eq_true'] at hr
    exact Or.inl ⟨rfl, hr⟩
  · rename_i hr
    rw [Bool.not_eq_true', Bool.not_eq_false] at hr
    split
    · exact Or.inr (Or.inl rfl)
    · split
      · exact Or.inr (Or.inr (Or.inl rfl))
      · exact Or.inr (Or.inr (Or.inr ⟨rfl, hr⟩))

theorem idleOff_loopTop (s : State) (link : Bool) : IdleOff (loopTop s link) := by
  intro hp hk
  rcases loopTop_cases s link with ⟨h, hr⟩ | h | h | ⟨h, -⟩
  · rw [h]
    exact hr
  · rw [h] at hp
    cases hp
  · rw [h]
  · rw [h] at hp
    cases hp

theorem loopTop_running (s : State) (link : Bool) :
    ((loopTop s link).running = true → s.running = true) ∧
      ((loopTop s link).phase = .opening → s.running = true) := by
  rcases loopTop_cases s link with ⟨h, hr⟩ | h | h | ⟨h, hr⟩
  · rw [h]
    exact ⟨fun h => h, nofun⟩
  · rw [h]
    exact ⟨fun h => h, nofun⟩
  · rw [h]
    exact ⟨nofun, nofun⟩
  · rw [h]
    exact ⟨fun h => h, fun _ => hr⟩

theorem loopTop_cfg (s : State) (link : Bool) : (loopTop s link).bus.cfg = s.bus.cfg := by
  rcases loopTop_cases s link with ⟨h, -⟩ | h | h | ⟨h, -⟩
  · rw [h]
  · rw [h]
  · rw [h]
  · rw [h]

theorem finish_cases (s : State) (link : Bool) :
    finish s link = { s with connected := false, phase := .backoff } ∨
      finish s link = loopTop { s with connected := false } link := by
  unfold finish
  dsimp only
  split
  · exact Or.inl rfl
  · exact Or.inr rfl

/-- What a step of the task itself does: it leaves the configuration alone, and starts the client or
opens a session only where the client is to run already or `mqtt.enable` is on. -/
structure Calm (s s' : State) : Prop where
  cfg : s'.bus.cfg = s.bus.cfg
  running : s'.running = true → s.running = true ∨ isOn s.bus.cfg .mqttEnable = true
  opening : s'.phase = .opening →
    s.phase = .opening ∨ s.running = true ∨ isOn s.bus.cfg .mqttEnable = true
  idleOff : IdleOff s'

theorem calm_self (h : IdleOff s) : Calm s s := ⟨rfl, Or.inl, Or.inl, h⟩

theorem calm_loopTop {t : State} (hcfg : t.bus.cfg = s.bus.cfg)
    (hrun : t.running = true → s.running = true ∨ isOn s.bus.cfg .mqttEnable = true)
    (link : Bool) : Calm s (loopTop t link) where
  cfg := (loopTop_cfg t link).trans hcfg
  running h := hrun ((loopTop_running t link).1 h)
  opening h := Or.inr (hrun ((loopTop_running t link).2 h))
  idleOff := idleOff_loopTop t link

theorem calm_finish (s : State) (link : Bool) : Calm s (finish s link) := by
  rcases finish_cases s link with h | h
  · rw [h]
    exact ⟨rfl, Or.inl, nofun, nofun⟩
  · rw [h]
    exact calm_loopTop (s := s) (t := { s with connected := false }) rfl Or.inl link

theorem calm_leave {s' : State} (hcfg : s'.bus.cfg = s.bus.cfg) (hrun : s'.running = s.running) :
    Calm s (leave s') :=
  ⟨hcfg, fun h => Or.inl (hrun.symm.trans h), nofun, nofun⟩

theorem calm_idlePoll (h : IdleOff s) (link : Bool) : Calm s (idlePoll s link) := by
  unfold idlePoll
  split
  · exact calm_loopTop (s := s) (t := { s with kick := false }) rfl Or.inl link
  · split
    · rename_i key hkey
      unfold idleKey
      split
      · rename_i hon
        refine calm_loopTop (s := s) (t := { s with bus := s.bus.read .mqttc, running := true }) rfl
          (fun _ => ?_) link
        exact Or.inr (Bool.and_eq_true_iff.mp hon).2
      · exact calm_loopTop (s := s) (t := { s with bus := s.bus.read .mqttc }) rfl Or.inl link
    · exact calm_self h

theorem calm_sessionPoll (h : IdleOff s) (hp : s.phase = .session) : Calm s (sessionPoll s) := by
  unfold sessionPoll
  split
  · exact calm_leave rfl rfl
  · split
    · split
      · exact calm_leave rfl rfl
      · refine ⟨rfl, Or.inl, Or.inl, fun hidle => ?_⟩
        rw [hp] at hidle
        cases hidle
    · exact calm_self h

theorem calm_poll (h : IdleOff s) (link : Bool) : Calm s (poll s link) := by
  unfold poll
  split
  · exact calm_idlePoll h link
  · rename_i hp
    exact calm_sessionPoll h hp
  · exact calm_self h
  · exact calm_self h
  · exact calm_self h
  · exact calm_self h
  · exact calm_self h
  · exact calm_self h

theorem calm_proceed (h : IdleOff s) (ok link : Bool) : Calm s (proceed s ok link) := by
  have hnext : ∀ {c : Bool} {p : Phase}, p ≠ .idle → p ≠ .opening →
      Calm s { s with connected := c, phase := p } :=
    fun hidle hopening => ⟨rfl, Or.inl, fun h => absurd h hopening, fun h => absurd h hidle⟩
  unfold proceed
  split
  · exact calm_self h
  · exact calm_loopTop rfl Or.inl link
  · exact calm_loopTop rfl Or.inl link
  · split
    · exact hnext (by decide) (by decide)
    · exact calm_finish s link
  · split
    · exact hnext (by decide) (by decide)
    · exact calm_finish s link
  · split
    · exact hnext (by decide) (by decide)
    · exact calm_leave rfl rfl
  · split
    · exact hnext (by decide) (by decide)
    · exact calm_leave rfl rfl
  · exact calm_finish s link

end Task

section Invariant

variable {w : Watched}

structure Inv (w : Watched) : Prop where
  idleOff : IdleOff w.task
  /-- Once the switch was found off, the client is not to run. -/
  stopped : w.off = true → w.task.running = false ∧ isOn w.task.bus.cfg .mqttEnable = false
  starts : w.starts = false
  obeys : Obeys w

theorem inv_init (cfg : Cfg) : Inv (.init cfg) :=
  ⟨idleOff_loopTop _ _, fun h => absurd h Bool.false_ne_true, rfl, rfl, rfl⟩

theorem stopped_of_calm {s s' : State} (hcalm : Calm s s')
    (h : s.running = false ∧ isOn s.bus.cfg .mqttEnable = false) :
    s'.running = false ∧ isOn s'.bus.cfg .mqttEnable = false := by
  refine ⟨?_, (congrArg (isOn · Key.mqttEnable) hcalm.cfg).trans h.2⟩
  refine Bool.eq_false_iff.mpr fun hrun => ?_
  rcases hcalm.running hrun with hr | hon
  · exact Bool.false_ne_true (h.1.symm.trans hr)
  · exact Bool.false_ne_true (h.2.symm.trans hon)

/-- A step that opens no session with the switch off keeps the record clean. -/
theorem obeys_watch {e : Event} (hi : Inv w) (hopens : w.off = true → opens w.task e = false)
    (htears : tears w e = false) : Obeys (watch w e) := by
  unfold Obeys watch
  dsimp only
  rw [hi.obeys.1, hi.obeys.2, htears]
  refine ⟨?_, rfl⟩
  cases hoff : w.off with
  | false => rw [Bool.and_false]; rfl
  | true => rw [hopens hoff]; rfl

theorem opens_of_calm {e : Event} (hcalm : Calm w.task (step w.task e))
    (h : w.task.running = false ∧ isOn w.task.bus.cfg .mqttEnable = false) :
    opens w.task e = false := by
  refine Bool.eq_false_iff.mpr fun ho => ?_
  obtain ⟨hne, hopen⟩ := Bool.and_eq_true_iff.mp ho
  rcases hcalm.opening (of_decide_eq_true hopen) with hp | hr | hon
  · exact of_decide_eq_true hne hp
  · exact Bool.false_ne_true (h.1.symm.trans hr)
  · exact Bool.false_ne_true (h.2.symm.trans hon)

theorem off_watch {e : Event} (h : (watch w e).off = true) :
    switchesOn w.task e = false ∧ (w.off = true ∨ readsOff w.task e = true) := by
  change (!switchesOn w.task e && (w.off || readsOff w.task e)) = true at h
  rw [Bool.and_eq_true, Bool.not_eq_true', Bool.or_eq_true] at h
  exact h

theorem stopped_of_off {e : Event} (hi : Inv w) (hread : readsOff w.task e = false)
    (h : (watch w e).off = true) :
    w.task.running = false ∧ isOn w.task.bus.cfg .mqttEnable = false := by
  rcases (off_watch h).2 with hoff | hreads
  · exact hi.stopped hoff
  · exact absurd (hread.symm.trans hreads) Bool.false_ne_true

/-- A step of the task itself keeps a client that was switched off stopped. -/
theorem inv_of_calm {e : Event} (hi : Inv w) (hcalm : Calm w.task (step w.task e))
    (hstarts : pendingStarts w e = false) (htears : tears w e = false)
    (hoff : readsOff w.task e = true →
      w.task.running = false ∧ isOn w.task.bus.cfg .mqttEnable = false) : Inv (watch w e) where
  idleOff := hcalm.idleOff
  stopped h := by
    rcases (off_watch h).2 with hold | hread
    · exact stopped_of_calm hcalm (hi.stopped hold)
    · exact stopped_of_calm hcalm (hoff hread)
  starts := hstarts
  obeys := obeys_watch hi (fun h => opens_of_calm hcalm (hi.stopped h)) htears

theorem readsOff_poll {s : State} {link : Bool} (h : readsOff s (.poll link) = true) :
    (s.phase = .idle ∨ s.phase = .session) ∧ s.kick = false ∧
      isOn s.bus.cfg .mqttEnable = false := by
  unfold readsOff listens at h
  simp only [Bool.and_eq_true, Bool.or_eq_true, decide_eq_true_eq, Bool.not_eq_true'] at h
  exact ⟨h.1.1.1, h.1.1.2, h.2⟩

theorem inv_poll (hi : Inv w) {link : Bool} (hP : Respected w (.poll link)) :
    Inv (watch w (.poll link)) := by
  refine inv_of_calm hi (calm_poll hi.idleOff link) ?_ ?_ fun h => ?_
  · have hpending : pendingStarts w (.poll link) = if listens w.task then false else w.starts := rfl
    rw [hpending, hi.starts, ite_self]
  · unfold tears
    rw [hi.starts]
    exact Bool.and_false _
  · obtain ⟨hphase, hkick, hon⟩ := readsOff_poll h
    refine ⟨?_, hon⟩
    rcases hphase with hp | hp
    · exact hi.idleOff hp hkick
    · refine Bool.eq_false_iff.mpr fun hrun => ?_
      exact Bool.false_ne_true ((hP hp hrun).symm.trans h)

theorem inv_of_phase {e : Event} (hi : Inv w) (hphase : (step w.task e).phase = w.task.phase)
    (hidle : IdleOff (step w.task e)) (hstarts : pendingStarts w e = false)
    (htears : tears w e = false)
    (hstopped : (watch w e).off = true →
      (step w.task e).running = false ∧ isOn (step w.task e).bus.cfg .mqttEnable = false) :
    Inv (watch w e) where
  idleOff := hidle
  stopped := hstopped
  starts := hstarts
  obeys := by
    refine obeys_watch hi (fun _ => Bool.eq_false_iff.mpr fun ho => ?_) htears
    obtain ⟨hne, hopen⟩ := Bool.and_eq_true_iff.mp ho
    exact of_decide_eq_true hne (hphase.symm.trans (of_decide_eq_true hopen))

theorem inv_set (hi : Inv w) (c : Call) : Inv (watch w (.set c)) := by
  refine inv_of_phase hi rfl hi.idleOff hi.starts rfl fun h => ?_
  exact ⟨(stopped_of_off hi rfl h).1, (off_watch h).1⟩

theorem inv_otherReads (hi : Inv w) (i : Subscriber) : Inv (watch w (.otherReads i)) := by
  have hstep : ∃ b : Bus, step w.task (.otherReads i) = { w.task with bus := b } ∧
      b.cfg = w.task.bus.cfg := by
    unfold step
    dsimp only
    split
    · exact ⟨w.task.bus, rfl, rfl⟩
    · exact ⟨w.task.bus.read i, rfl, rfl⟩
  obtain ⟨b, heq, hcfg⟩ := hstep
  refine inv_of_phase hi ?_ ?_ hi.starts rfl fun h => ?_
  · rw [heq]
  · rw [heq]
    exact hi.idleOff
  · rw [heq]
    dsimp only
    rw [hcfg]
    exact stopped_of_off hi rfl h

theorem inv_stop (hi : Inv w) : Inv (watch w .stop) := by
  refine inv_of_phase hi rfl (fun _ _ => rfl) rfl rfl fun h => ⟨rfl, ?_⟩
  exact (stopped_of_off hi rfl h).2

theorem inv_start (hi : Inv w) (hP : Respected w .start) : Inv (watch w .start) := by
  have hpending : pendingStarts w .start =
      if hasBroker w.task then w.task.connected && (!w.task.kick || w.starts) else w.starts := rfl
  have hstep : step w.task .start = start w.task := rfl
  cases hb : hasBroker w.task with
  | false =>
    have heq : start w.task = w.task := if_pos (not_not.mp (of_decide_eq_false hb))
    rw [hb, if_neg Bool.false_ne_true] at hpending
    refine inv_of_phase hi (congrArg State.phase heq) ?_ (hpending.trans hi.starts) rfl fun h => ?_
    · rw [hstep, heq]
      exact hi.idleOff
    · rw [hstep, heq]
      exact stopped_of_off hi rfl h
  | true =>
    have heq : start w.task = { w.task with running := true, kick := true } :=
      if_neg (of_decide_eq_true hb)
    rw [hb, hP hb, if_pos rfl, Bool.false_and] at hpending
    refine inv_of_phase hi ?_ ?_ hpending rfl fun h => ?_
    · rw [hstep, heq]
    · rw [hstep, heq]
      exact fun _ hk => absurd hk.symm Bool.false_ne_true
    · exact absurd ((off_watch h).1.symm.trans hb) Bool.false_ne_true

theorem inv_watch (hi : Inv w) {e : Event} (hP : Respected w e) : Inv (watch w e) := by
  cases e with
  | set c => exact inv_set hi c
  | otherReads i => exact inv_otherReads hi i
  | start => exact inv_start hi hP
  | stop => exact inv_stop hi
  | poll link => exact inv_poll hi hP
  | proceed ok link =>
    exact inv_of_calm hi (calm_proceed hi.idleOff ok link) hi.starts rfl
      fun h => absurd h Bool.false_ne_true

end Invariant

/-- From boot, with any configuration and over every order of settings, starts, stops and answers of
the broker, the switch is obeyed in every run in which it is not found off in a session that is to
run and no start is made with a session up. -/
theorem switch_obeyed {cfg : Cfg} {es : List Event} (h : Along watch Respected (.init cfg) es) :
    Always watch Obeys (.init cfg) es := by
  have hinv : Always watch Inv (.init cfg) es :=
    always_of_along (I := Inv) (fun _ _ hi hP => inv_watch hi hP) (inv_init cfg) h
  exact hinv.mono fun _ hi => hi.obeys

section Runs

def bootCfg : Cfg where
  table
    | .mqttBroker => some ['b']
    | .mqttAuto | .mqttEnable => some ['1']
    | _ => none
  defName := []
  defHostname := []

def sessionUp : List Event := [.proceed true true, .proceed true true, .proceed true true]

def switchOff : Event := .set ⟨"mqtt.enable".toList, ['0'], true⟩

/-- The switch is set off in a session; the task ends the session, waits and opens another. -/
def reopened : List Event :=
  sessionUp ++ [switchOff, .poll true, .proceed true true, .proceed true true]

/-- The client is stopped before it is switched off. -/
def stoppedFirst : List Event :=
  sessionUp ++ [.stop, .poll true, .proceed true true, switchOff, .poll true]

theorem stopped_first_obeyed : Always watch Obeys (.init bootCfg) stoppedFirst := by
  refine switch_obeyed ⟨trivial, trivial, trivial, trivial, fun _ h => ?_, trivial, trivial,
    fun h => ?_, trivial⟩
  · exact absurd h (by decide)
  · exact absurd h (by decide)

theorem switch_disobeyed :
    ¬ Always watch Obeys (.init bootCfg) reopened ∧
      ¬ Always watch Obeys (.init bootCfg) (sessionUp ++ [.start, .poll true]) := by
  have hopened : (final watch (.init bootCfg) reopened).opened = true := by decide +kernel
  have htorn : (final watch (.init bootCfg) (sessionUp ++ [.start, .poll true])).torn = true := by
    decide +kernel
  constructor
  · intro h
    exact Bool.false_ne_true (h.final.1.symm.trans hopened)
  · intro h
    exact Bool.false_ne_true (h.final.2.symm.trans htorn)

end Runs

end AtNode.MqttTask
