import AtNode.Esp32.Httpd

/-!
# The HTTP server behind the boot

The server runs from boot only with `http.auto`. An idle acceptor that is woken, though, starts the
server whenever `http.enable` is on, and the boot leaves the signal `KICK` set.
-/

namespace AtNode.Httpd

open Run Config CfgBus TunnelSwitch

/-- No acceptor listens. -/
def Silent (s : State) : Prop := ∀ a idx, s.phase a ≠ .accept idx

/-- Everything but a call that sets `http.enable` to one. -/
def Unstarted (_ : State) : Event → Prop
  | .set c => ¬ TurnsOn .httpEnable c
  | _ => True

section Off

variable {s : State}

/-- The server is off, and stays off whoever wakes. -/
structure Off (s : State) : Prop where
  running : s.running = false
  enable : isOn s.bus.cfg .httpEnable = false
  idle : ∀ a, s.phase a = .idle

theorem Off.silent (h : Off s) : Silent s := by
  intro a idx hp
  rw [h.idle a] at hp
  cases hp

theorem off_init {cfg : Cfg} (h : isOn cfg .httpEnable = false) : Off (init cfg) := by
  have hrun : (init cfg).running = false := by
    unfold init
    dsimp only
    rw [h, Bool.and_false]
  refine ⟨hrun, h, fun a => ?_⟩
  change (if (init cfg).running then Phase.waitIdx else Phase.idle) = Phase.idle
  rw [hrun]
  rfl

theorem off_woken (h : Off s) (a : Acceptor) : Off (woken s a) := by
  unfold woken
  rw [h.enable]
  refine ⟨h.running, h.enable, fun b => ?_⟩
  change Function.update s.phase a (if s.running then Phase.waitIdx else Phase.idle) b = Phase.idle
  rw [h.running]
  by_cases hb : b = a
  · subst hb
    exact Function.update_self _ _ _
  · rw [Function.update_of_ne hb]
    exact h.idle b

theorem off_step (h : Off s) {e : Event} (hP : Unstarted s e) : Off (step s e) := by
  cases e with
  | set c => exact ⟨h.running, isOn_set rfl h.enable hP, h.idle⟩
  | otherReads i =>
    unfold step
    dsimp only
    split
    · exact h
    · exact ⟨h.running, h.enable, h.idle⟩
  | poll a =>
    unfold step poll
    dsimp only
    rw [h.idle a]
    dsimp only [idlePoll]
    split
    · have hoff : Off { s with kick := false } := ⟨h.running, h.enable, h.idle⟩
      exact off_woken hoff a
    · split
      · have hoff : Off { s with bus := s.bus.read a.subscriber } := ⟨h.running, h.enable, h.idle⟩
        exact off_woken hoff a
      · exact h
  | disable a =>
    unfold step disable
    dsimp only
    rw [h.idle a]
    exact h
  | accepted a ok =>
    unfold step accepted
    dsimp only
    rw [h.idle a]
    exact h
  | receive =>
    unfold step receive
    dsimp only
    split
    · exact ⟨h.running, h.enable, h.idle⟩
    · exact h
  | served =>
    unfold step served
    dsimp only
    split
    · unfold freeSend
      split
      · exact ⟨h.running, h.enable, h.idle⟩
      · exact ⟨h.running, h.enable, h.idle⟩
    · exact h

end Off

section Kick

def bootRun : List Event := [.poll .zero, .poll .zero]

theorem poll_idle {s : State} {a : Acceptor} (h : s.phase a = .idle) : poll s a = idlePoll s a := by
  rw [poll, h]

theorem poll_waitIdx {s : State} {a : Acceptor} (h : s.phase a = .waitIdx) :
    poll s a = takeIdx s a := by
  rw [poll, h]

theorem boot_listens {cfg : Cfg} (hauto : isOn cfg .httpAuto = false)
    (henable : isOn cfg .httpEnable = true) :
    (final step (init cfg) bootRun).phase .zero = .accept 0 := by
  have hidle : (init cfg).phase .zero = .idle := by
    unfold init
    dsimp only
    rw [hauto]
    rfl
  have hwoken : poll (init cfg) .zero =
      loopTop (setRunning { init cfg with kick := false } true) .zero :=
    (poll_idle hidle).trans (if_pos henable)
  have htaken : (loopTop (setRunning { init cfg with kick := false } true) .zero).phase .zero =
      .waitIdx := rfl
  change (poll (poll (init cfg) .zero) .zero).phase .zero = .accept 0
  rw [hwoken, poll_waitIdx htaken]
  rfl

end Kick

/-- From a boot without `http.auto`, no acceptor listens in any run in which `http.enable` is not set
to one, if and only if `http.enable` is not one at the boot. -/
theorem boot_gate_iff {cfg : Cfg} (hauto : isOn cfg .httpAuto = false) :
    (∀ es, Along step Unstarted (init cfg) es → Always step Silent (init cfg) es) ↔
      isOn cfg .httpEnable = false := by
  constructor
  · intro h
    refine Bool.eq_false_iff.mpr fun henable => ?_
    exact (h bootRun ⟨trivial, trivial, trivial⟩).final .zero 0 (boot_listens hauto henable)
  · intro henable es hes
    have hoff : Always step Off (init cfg) es :=
      always_of_along (I := Off) (fun _ _ h hP => off_step h hP) (off_init henable) hes
    exact hoff.mono fun _ h => h.silent

section Boot

def enabledCfg : Cfg where
  table
    | .httpEnable => some ['1']
    | _ => none
  defName := []
  defHostname := []

theorem boot_gate_enabled :
    (∀ es, Along step Unstarted (init enabledCfg) es → Always step Silent (init enabledCfg) es) ↔
      isOn enabledCfg .httpEnable = false :=
  boot_gate_iff (by decide)

theorem server_starts_without_auto :
    isOn enabledCfg .httpAuto = false ∧ Along step Unstarted (init enabledCfg) bootRun ∧
      ¬ Always step Silent (init enabledCfg) bootRun :=
  ⟨by decide, ⟨trivial, trivial, trivial⟩, fun h =>
    h.final .zero 0 (boot_listens (by decide) (by decide))⟩

end Boot

end AtNode.Httpd
