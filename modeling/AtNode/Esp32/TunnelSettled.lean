import AtNode.Lib.Latch
import AtNode.Lib.Run
import AtNode.Esp32.TunnelSwitch

/-!
# When the tunnel follows its switches

What the watcher leaves behind is a latch of the announcements it reads. A switch that is off stops
the tunnel if its announcement found room in the queue and no start comes behind it.
-/

namespace AtNode.TunnelSwitch

open Run Config PubSub Latch

def SwitchedOff (cfg : Cfg) : Prop := masterOn cfg = false ∨ tunnelEnabled cfg = false

/-- Once the watcher has read all, the tunnel is not to run while a switch is off. -/
def Settled (s : State) : Prop := SwitchedOff (drained s).cfg → (drained s).wantRun = false

section Condition

/-- The announcement of a switch that is off. -/
def disables (cfg : Cfg) : Key → Bool
  | .ratholeEnable => !masterOn cfg
  | .tunnelEnable => !tunnelEnabled cfg
  | _ => false

/-- The announcement at which the watcher starts the tunnel. -/
def enables (cfg : Cfg) : Key → Bool
  | .ratholeEnable => masterOn cfg && tunnelEnabled cfg && isOn cfg .tunnelAuto && configured cfg
  | .tunnelEnable => tunnelEnabled cfg && configured cfg
  | _ => false

/-- With a switch off, a tunnel that is to run has the announcement of a switch that is off before
it, and every `tunnel.1.enable` that would start it has one behind it. -/
def Announced (cfg : Cfg) (run : Bool) (pending : List Key) : Prop :=
  SwitchedOff cfg → (run = true → ∃ key ∈ pending, disables cfg key = true) ∧
    Answered (disables cfg) (enables cfg) pending

/-- The configuration behind the calls and the keys that were set. -/
def stored (cfg : Cfg) : List Call → Cfg × List Key
  | [] => (cfg, [])
  | c :: calls =>
    match Config.set cfg c.key c.val c.flash with
    | .error _ => stored cfg calls
    | .ok (cfg, key) => ((stored cfg calls).1, key :: (stored cfg calls).2)

/-- What the watcher has to read behind the calls: what it had, and as many of the keys set as find
room. -/
def pending (s : State) (calls : List Call) : List Key :=
  s.changed.unread .watcher ++ (stored s.cfg calls).2.take (s.changed.room changedCap)

/-- The calls of a handler that leave a switch off are announced. -/
def Heard (s : State) : Event → Prop
  | .settings calls => Announced (stored s.cfg calls).1 s.wantRun (pending s calls)
  | .clear flash =>
    Announced (stored s.cfg (clearCalls flash)).1 false (pending s (clearCalls flash))
  | _ => True

end Condition

section Drain

variable {s : State} {key : Key} {l : List Key}

theorem watchKey_wantRun (s : State) (key : Key) :
    (watchKey s key).wantRun = latch (disables s.cfg) (enables s.cfg) s.wantRun key := by
  unfold watchKey latch
  split
  · dsimp only [disables, enables]
    by_cases hm : masterOn s.cfg = true
    · simp only [hm, Bool.true_and]
    · simp only [hm, Bool.not_false, if_true]
  · dsimp only [disables, enables]
    by_cases ht : tunnelEnabled s.cfg = true
    · simp only [ht, Bool.true_and]
    · simp only [ht, Bool.not_false, if_true]
  · rename_i hm ht
    have hd : disables s.cfg key = false := by
      unfold disables
      split
      · exact absurd rfl hm
      · exact absurd rfl ht
      · rfl
    have he : enables s.cfg key = false := by
      unfold enables
      split
      · exact absurd rfl hm
      · exact absurd rfl ht
      · rfl
    rw [hd, he]
    split
    · rfl
    · rfl

theorem watchKey_frame (s : State) (key : Key) :
    (watchKey s key).cfg = s.cfg ∧ (watchKey s key).changed = s.changed := by
  unfold watchKey
  split
  · exact ⟨rfl, rfl⟩
  · exact ⟨rfl, rfl⟩
  · split
    · exact ⟨rfl, rfl⟩
    · exact ⟨rfl, rfl⟩

theorem watch_cons (h : s.changed.unread .watcher = key :: l) :
    (watch s).cfg = s.cfg ∧ (watch s).changed.unread .watcher = l ∧
      (watch s).wantRun = latch (disables s.cfg) (enables s.cfg) s.wantRun key := by
  unfold watch
  rw [h]
  obtain ⟨hcfg, hchanged⟩ := watchKey_frame { s with changed := s.changed.read .watcher } key
  refine ⟨hcfg, ?_, watchKey_wantRun _ key⟩
  rw [hchanged]
  refine (unread_read_self s.changed .watcher).trans ?_
  rw [h]
  rfl

/-- The watcher reads everything, and the announcements drive `WANT_RUN` as a latch. -/
theorem watch_iterate (h : s.changed.unread .watcher = l) :
    (watch^[l.length] s).cfg = s.cfg ∧ (watch^[l.length] s).changed.unread .watcher = [] ∧
      (watch^[l.length] s).wantRun =
        l.foldl (latch (disables s.cfg) (enables s.cfg)) s.wantRun := by
  induction l generalizing s with
  | nil => exact ⟨rfl, h, rfl⟩
  | cons key l ih =>
    obtain ⟨hcfg, hunread, hrun⟩ := watch_cons h
    rw [List.length_cons, Function.iterate_succ_apply, List.foldl_cons, ← hrun, ← hcfg]
    exact ih hunread

theorem settled_iff (s : State) :
    Settled s ↔ Announced s.cfg s.wantRun (s.changed.unread .watcher) := by
  obtain ⟨hcfg, -, hrun⟩ := watch_iterate (s := s) rfl
  unfold Settled drained Announced
  rw [hcfg, hrun, latch_down_iff]

theorem drained_watch (s : State) : drained (watch s) = drained s := by
  cases h : s.changed.unread .watcher with
  | nil =>
    have hw : watch s = s := by
      unfold watch
      rw [h]
    rw [hw]
  | cons key l =>
    unfold drained
    rw [(watch_cons h).2.1, h, List.length_cons, Function.iterate_succ_apply]

end Drain

section Steps

variable {s : State}

theorem stored_error {cfg : Cfg} {c : Call} {calls : List Call} {e : Error}
    (h : Config.set cfg c.key c.val c.flash = .error e) :
    stored cfg (c :: calls) = stored cfg calls := by
  rw [stored, h]

theorem stored_ok {cfg cfg' : Cfg} {c : Call} {calls : List Call} {key : Key}
    (h : Config.set cfg c.key c.val c.flash = .ok (cfg', key)) :
    stored cfg (c :: calls) = ((stored cfg' calls).1, key :: (stored cfg' calls).2) := by
  rw [stored, h]

theorem setAll_eq (s : State) (calls : List Call) :
    setAll s calls =
      { s with
        cfg := (stored s.cfg calls).1
        changed := s.changed.tryPublishAll changedCap (stored s.cfg calls).2 } := by
  induction calls generalizing s with
  | nil => rfl
  | cons c calls ih =>
    have hstep : setAll s (c :: calls) = setAll ((setCall s c).toOption.getD s) calls := rfl
    rw [hstep]
    unfold setCall
    cases h : Config.set s.cfg c.key c.val c.flash with
    | error e =>
      rw [stored_error h]
      exact ih s
    | ok r =>
      rw [stored_ok h]
      exact ih _

theorem setAll_unread (s : State) (calls : List Call) :
    (setAll s calls).changed.unread .watcher = pending s calls := by
  rw [setAll_eq]
  exact unread_tryPublishAll

/-- What the tunnel page does is a handler's sequence of calls. -/
theorem tunnelPost_eq (s : State) (calls : List Call) :
    ∃ n, tunnelPost s calls = setAll s (calls.take n) := by
  induction calls generalizing s with
  | nil => exact ⟨0, rfl⟩
  | cons c calls ih =>
    unfold tunnelPost
    cases h : setCall s c with
    | error e => exact ⟨0, rfl⟩
    | ok s' =>
      obtain ⟨n, hn⟩ := ih s'
      refine ⟨n + 1, hn.trans ?_⟩
      rw [List.take_succ_cons, setAll, setAll, List.foldl_cons, h]
      rfl

theorem settled_setAll_iff (s : State) (calls : List Call) :
    Settled (setAll s calls) ↔ Announced (stored s.cfg calls).1 s.wantRun (pending s calls) := by
  rw [settled_iff, setAll_unread, setAll_eq]

/-- A stop from outside does not make the watcher start the tunnel. -/
theorem Announced.stopped {cfg : Cfg} {run : Bool} {unread : List Key}
    (h : Announced cfg run unread) : Announced cfg false unread :=
  fun hoff => ⟨fun hrun => absurd hrun Bool.false_ne_true, (h hoff).2⟩

theorem not_switchedOff {cfg : Cfg} (hm : masterOn cfg = true) (ht : tunnelEnabled cfg = true) :
    ¬ SwitchedOff cfg := by
  rintro (h | h)
  · exact Bool.false_ne_true (h.symm.trans hm)
  · exact Bool.false_ne_true (h.symm.trans ht)

theorem settled_init (cfg : Cfg) : Settled (init cfg) := by
  rw [settled_iff]
  intro hoff
  refine ⟨fun hrun => ?_, answered_nil⟩
  unfold init at hrun
  simp only [Bool.and_eq_true] at hrun
  exact absurd hoff (not_switchedOff hrun.1.1.1 hrun.1.1.2)

theorem settled_connect (hi : Settled s) : Settled (connect s) := by
  unfold connect
  split
  · rename_i hon
    rw [settled_iff]
    intro hoff
    simp only [Bool.and_eq_true] at hon
    exact absurd hoff (not_switchedOff hon.1.1 hon.1.2)
  · exact hi

theorem settled_step_iff (hi : Settled s) (e : Event) : Settled (step s e) ↔ Heard s e := by
  cases e with
  | settings calls => exact settled_setAll_iff s calls
  | clear flash => exact settled_setAll_iff (disconnect s) (clearCalls flash)
  | connect => exact iff_of_true (settled_connect hi) trivial
  | disconnect =>
    refine iff_of_true ?_ trivial
    rw [settled_iff] at hi ⊢
    exact hi.stopped
  | watch =>
    refine iff_of_true ?_ trivial
    change Settled (watch s)
    unfold Settled
    rw [drained_watch]
    exact hi
  | otherReads i =>
    refine iff_of_true ?_ trivial
    unfold step
    dsimp only
    split
    · exact hi
    · rename_i hne
      rw [settled_iff] at hi ⊢
      dsimp only
      rw [unread_read_of_ne s.changed (Ne.symm hne)]
      exact hi
  | attempt | woken =>
    refine iff_of_true ?_ trivial
    rw [settled_iff] at hi ⊢
    exact hi

end Steps

/-- From boot, with any configuration, the run state follows the switches throughout a run if and
only if the settings that leave a switch off are announced. -/
theorem run_follows_switches_iff (cfg : Cfg) (es : List Event) :
    Always step Settled (init cfg) es ↔ Along step Heard (init cfg) es := by
  refine always_iff_along (I := Settled) (fun _ hi => hi) ?_ ?_ (settled_init cfg)
  · intro s e hi hP
    exact (settled_step_iff hi e).mpr hP
  · intro s e hi hP hs
    exact hP ((settled_step_iff hi e).mp hs)

section Unheard

def startedCfg : Cfg where
  table
    | .tunnelServer => some ['h', ':', '7']
    | .tunnelToken | .tunnelService => some ['t']
    | .tunnelLocal => some ['l', ':', '8']
    | .tunnelAuto => some ['1']
    | _ => none
  defName := []
  defHostname := []

def pageOff : List Call :=
  tunnelCalls (fun arg => if arg = "enable".toList then ['0'] else ['1']) fun _ => true

/-- The master switch off, then the tunnel switch on. -/
def masterOff : List Event :=
  [.settings [⟨"rathole.enable".toList, ['0'], true⟩], .watch,
    .settings [⟨"tunnel.1.enable".toList, ['1'], true⟩]]

/-- The announcement of the tunnel switch finds the queue full; and a tunnel switch that is set
starts the tunnel behind the master switch. -/
theorem switch_off_unheard :
    ¬ Always step Settled (init startedCfg) [.settings pageOff] ∧
      ¬ Always step Settled (init startedCfg) masterOff := by
  have hpage :
      tunnelEnabled (drained (final step (init startedCfg) [.settings pageOff])).cfg = false ∧
      (drained (final step (init startedCfg) [.settings pageOff])).wantRun = true := by decide +kernel
  have hmaster : masterOn (drained (final step (init startedCfg) masterOff)).cfg = false ∧
      (drained (final step (init startedCfg) masterOff)).wantRun = true := by decide +kernel
  constructor
  · intro h
    exact Bool.false_ne_true ((h.final (Or.inr hpage.1)).symm.trans hpage.2)
  · intro h
    exact Bool.false_ne_true ((h.final (Or.inl hmaster.1)).symm.trans hmaster.2)

end Unheard

end AtNode.TunnelSwitch
