import AtNode.Ch582.KeyRouter
import AtNode.Ch582.UsbEp0

/-!
# When the CH582 USB device is ready

`kb_flush` counts USB as an output while `usb_ready` returns 1. The flag is set by every
SET_CONFIGURATION and by every IN token behind a request other than GET_DESCRIPTOR and SET_ADDRESS;
only a bus reset clears it.

It is proved that throughout a run the flag stands for an accepted configuration exactly when the
device is detached only while it is not ready, and no such IN token and no SET_CONFIGURATION of 0 is
served before a configuration.
-/

namespace AtNode.Usb

variable (fw : Firmware)

section Flag

/-- The request is a SET_CONFIGURATION; it is never refused. -/
def SetupReq.configures (r : SetupReq) : Bool :=
  r.isStandard && r.bRequest == usbSetConfiguration

/-- Nothing but a SET_CONFIGURATION touches the flag, and no request detaches the device. -/
structure Serves (s : State) (set : Bool) (t : State) : Prop where
  ready : t.ready = (s.ready || set)
  attached : t.attached = s.attached

theorem serves_of_eq {s t : State} (hr : t.ready = s.ready) (ha : t.attached = s.attached) :
    Serves s false t := ⟨by rw [hr, Bool.or_false], ha⟩

theorem serves_classRequest {s t : State} {r : SetupReq} (h : classRequest s r = some t) :
    Serves s false t := by
  unfold classRequest at h
  split_ifs at h <;> cases h <;> exact serves_of_eq rfl rfl

theorem serves_featureRequest {s t : State} {r : SetupReq} (h : featureRequest s r = some t) :
    Serves s false t := by
  unfold featureRequest at h
  split_ifs at h <;> cases h <;> exact serves_of_eq rfl rfl

theorem serves_standardRequest {s t : State} {r : SetupReq}
    (h : standardRequest fw s r = some t) :
    Serves s (r.bRequest == usbSetConfiguration) t := by
  by_cases hset : r.bRequest = usbSetConfiguration
  · rw [standardRequest, hset] at h
    obtain rfl := Option.some.inj h
    exact ⟨by simp [hset], rfl⟩
  · rw [beq_eq_false_iff_ne.mpr hset]
    simp only [standardRequest, if_neg hset] at h
    split at h
    · obtain ⟨d, -, rfl⟩ := Option.map_eq_some_iff.mp h
      exact serves_of_eq rfl rfl
    · repeat' split at h
      all_goals
        first
        | exact serves_featureRequest h
        | cases h <;> exact serves_of_eq rfl rfl

theorem serves_decodeRequest {s t : State} {r : SetupReq} (h : decodeRequest fw s r = some t) :
    Serves (setupReceived s r) r.configures t := by
  unfold decodeRequest at h
  unfold SetupReq.configures
  split_ifs at h with hstd
  · rw [hstd, Bool.true_and]
    exact serves_standardRequest fw h
  · rw [Bool.eq_false_of_not_eq_true hstd, Bool.false_and]
    exact serves_classRequest h

theorem decodeRequest_of_configures {s : State} {r : SetupReq} (h : r.configures = true) :
    decodeRequest fw s r = some { setupReceived s r with devConfig := 1, ready := true } := by
  rw [SetupReq.configures, Bool.and_eq_true, beq_iff_eq] at h
  rw [decodeRequest, if_pos h.1, standardRequest, h.2]
  rfl

theorem serves_setup (s : State) (r : SetupReq) : Serves s r.configures (setup fw s r) := by
  unfold setup
  cases h : decodeRequest fw s r with
  | none =>
    have hnot : r.configures = false := by
      by_contra hconf
      rw [decodeRequest_of_configures fw (Bool.eq_true_of_not_eq_false hconf)] at h
      cases h
    rw [hnot]
    exact serves_of_eq rfl rfl
  | some t =>
    have ht := serves_decodeRequest fw h
    dsimp only
    split_ifs
    · exact ⟨ht.ready, ht.attached⟩
    · exact ⟨ht.ready, ht.attached⟩

/-- The IN token ends a control transfer that is not a descriptor's or an address's. -/
def EndsOther (s : State) : Prop :=
  s.attached = true ∧ s.tRes = .ack ∧ s.setupReqCode ≠ usbGetDescriptor ∧
    s.setupReqCode ≠ usbSetAddress

instance (s : State) : Decidable (EndsOther s) := inferInstanceAs (Decidable (_ ∧ _))

theorem serves_inToken (s : State) : Serves s (decide (EndsOther s)) (step fw s .inToken) := by
  by_cases hends : EndsOther s
  · rw [decide_eq_true hends]
    obtain ⟨hatt, hack, hdescr, haddr⟩ := hends
    rw [step, if_pos ⟨hatt, hack⟩, inToken, if_neg hdescr, if_neg haddr]
    exact ⟨(Bool.or_true _).symm, rfl⟩
  · rw [decide_eq_false hends]
    unfold step
    dsimp only
    split_ifs with hack
    · unfold inToken
      split_ifs with hdescr haddr
      · exact serves_of_eq rfl rfl
      · exact serves_of_eq rfl rfl
      · exact absurd ⟨hack.1, hack.2, hdescr, haddr⟩ hends
    · exact serves_of_eq rfl rfl

end Flag

section Runs

/-- The device, and whether a configuration was accepted since the last bus reset or detach. -/
structure History where
  dev : State
  configured : Bool

def started : History := ⟨boot, false⟩

def SetupReq.selects (r : SetupReq) : Bool := r.configures && SetupReq.low r.wValue != 0

def track (h : History) (e : Event) : History where
  dev := step fw h.dev e
  configured := match e with
    | .busReset => false
    | .detach => false
    | .setup r => h.configured || h.dev.attached && r.selects
    | _ => h.configured

/-- `usb_ready` tells of a configuration, and so does a report that `kb_flush` sends to USB. -/
structure Truthful (h : History) : Prop where
  ready : usbReady h.dev = true → h.configured = true
  flushed : ∀ (n : ℕ) (kbTarget : UInt8) (env : Router.Env n), env.usbReady = usbReady h.dev →
    Router.usbTried kbTarget env = true → h.configured = true

/-- Detached only while not ready; no other transfer ends, and no 0 is set, before a
configuration. -/
def Sound (h : History) : Event → Prop
  | .detach => h.dev.ready = false
  | .inToken => EndsOther h.dev → h.configured = true
  | .setup r => h.dev.attached = true → r.configures = true → SetupReq.low r.wValue = 0 →
      h.configured = true
  | _ => True

theorem truthful_of_ready {h : History} (hr : h.dev.ready = true → h.configured = true) :
    Truthful h where
  ready := hr
  flushed n kbTarget env henv htried := by
    rw [Router.usbTried, Bool.and_eq_true] at htried
    exact hr (henv.symm.trans htried.2)

structure Kept (h : History) : Prop where
  truthful : Truthful h
  detached : h.dev.attached = false → h.configured = false

section Events

variable {h : History}

theorem Kept.configured_of_ready (hk : Kept h) : h.dev.ready = true → h.configured = true :=
  hk.truthful.ready

theorem kept_busReset (hk : Kept h) : Kept (track fw h .busReset) := by
  refine ⟨truthful_of_ready fun hr => ?_, fun _ => rfl⟩
  cases hatt : h.dev.attached with
  | true =>
    have hfalse : (step fw h.dev .busReset).ready = false := by
      rw [step, if_pos hatt]
      rfl
    exact absurd (hfalse.symm.trans hr) (by decide)
  | false =>
    have hsame : (step fw h.dev .busReset).ready = h.dev.ready := by
      rw [step, if_neg (by rw [hatt]; decide)]
    have hconf := hk.configured_of_ready (hsame.symm.trans hr)
    rw [hk.detached hatt] at hconf
    exact absurd hconf (by decide)

theorem kept_setup {r : SetupReq} (hk : Kept h) (hs : Sound h (.setup r)) :
    Kept (track fw h (.setup r)) := by
  cases hatt : h.dev.attached with
  | true =>
    have hstep : step fw h.dev (.setup r) = setup fw h.dev r := by
      rw [step, if_pos hatt]
    have hserves := serves_setup fw h.dev r
    refine ⟨truthful_of_ready fun hr => ?_, fun hdet => ?_⟩
    · change (h.configured || h.dev.attached && r.selects) = true
      change (step fw h.dev (.setup r)).ready = true at hr
      rw [hstep, hserves.ready, Bool.or_eq_true] at hr
      rcases hr with hbefore | hconf
      · rw [hk.configured_of_ready hbefore, Bool.true_or]
      · by_cases hzero : SetupReq.low r.wValue = 0
        · rw [hs hatt hconf hzero, Bool.true_or]
        · simp [hatt, SetupReq.selects, hconf, hzero]
    · change (step fw h.dev (.setup r)).attached = false at hdet
      rw [hstep, hserves.attached, hatt] at hdet
      cases hdet
  | false =>
    have hsame : track fw h (.setup r) = h := by
      rw [track, step, if_neg (by rw [hatt]; decide), hatt, Bool.false_and, Bool.or_false]
    rw [hsame]
    exact hk

theorem kept_inToken (hk : Kept h) (hs : Sound h .inToken) : Kept (track fw h .inToken) := by
  have hserves := serves_inToken fw h.dev
  refine ⟨truthful_of_ready fun hr => ?_, fun hdet => ?_⟩
  · change (step fw h.dev .inToken).ready = true at hr
    rw [hserves.ready, Bool.or_eq_true, decide_eq_true_iff] at hr
    exact hr.elim hk.configured_of_ready hs
  · exact hk.detached (hserves.attached.symm.trans hdet)

theorem kept_outToken (hk : Kept h) (data : List UInt8) : Kept (track fw h (.outToken data)) := by
  have hsame : (step fw h.dev (.outToken data)).ready = h.dev.ready ∧
      (step fw h.dev (.outToken data)).attached = h.dev.attached := by
    unfold step
    dsimp only
    split_ifs
    · exact ⟨rfl, rfl⟩
    · exact ⟨rfl, rfl⟩
  refine ⟨truthful_of_ready fun hr => ?_, fun hdet => ?_⟩
  · exact hk.configured_of_ready (hsame.1.symm.trans hr)
  · exact hk.detached (hsame.2.symm.trans hdet)

theorem kept_track {e : Event} (hk : Kept h) (hs : Sound h e) : Kept (track fw h e) := by
  cases e with
  | busReset => exact kept_busReset fw hk
  | setup r => exact kept_setup fw hk hs
  | inToken => exact kept_inToken fw hk hs
  | outToken data => exact kept_outToken fw hk data
  | other => exact hk
  | detach =>
    exact ⟨truthful_of_ready fun hr => absurd (hs.symm.trans hr) (by decide), fun _ => rfl⟩
  | attach =>
    exact ⟨truthful_of_ready hk.configured_of_ready, fun hdet => absurd hdet.symm Bool.false_ne_true⟩

end Events

theorem not_truthful_track {h : History} {e : Event} (hs : ¬ Sound h e) :
    ¬ Truthful (track fw h e) := by
  intro htrue
  have hready : (step fw h.dev e).ready = true → (track fw h e).configured = true := htrue.ready
  cases e with
  | busReset => exact hs trivial
  | setup r =>
    obtain ⟨hatt, hconf, hzero, hnot⟩ : h.dev.attached = true ∧ r.configures = true ∧
        SetupReq.low r.wValue = 0 ∧ ¬ h.configured = true := by
      simpa only [Sound, Classical.not_imp] using hs
    have hset : (step fw h.dev (.setup r)).ready = true := by
      rw [step, if_pos hatt, (serves_setup fw h.dev r).ready, hconf, Bool.or_true]
    have hc : (h.configured || h.dev.attached && r.selects) = true := hready hset
    rw [Bool.eq_false_of_not_eq_true hnot, SetupReq.selects, hzero] at hc
    simp at hc
  | inToken =>
    obtain ⟨hends, hnot⟩ := Classical.not_imp.mp hs
    apply hnot
    apply hready
    rw [(serves_inToken fw h.dev).ready, decide_eq_true hends, Bool.or_true]
  | outToken data => exact hs trivial
  | other => exact hs trivial
  | detach =>
    have hset : (step fw h.dev .detach).ready = true := Bool.eq_true_of_not_eq_false hs
    exact absurd (hready hset) Bool.false_ne_true
  | attach => exact hs trivial

/-- In every state of a run USB is ready only with a configuration, exactly when along the run the
device is detached only while it is not ready, and before a configuration no transfer ends that is
not a descriptor's or an address's, and no 0 is set. -/
theorem usb_ready_truthful_iff (fw : Firmware) (es : List Event) :
    Run.Always (track fw) Truthful started es ↔ Run.Along (track fw) Sound started es := by
  apply Run.always_iff_along (I := Kept)
  · exact fun h hk => hk.truthful
  · exact fun h e hk hs => kept_track fw hk hs
  · exact fun h e _ hs => not_truthful_track fw hs
  · exact ⟨truthful_of_ready fun hr => absurd hr (by decide), fun hdet => absurd hdet (by decide)⟩

def getStatus : SetupReq := ⟨0x80, usbGetStatus, 0, 0, 2⟩

/-- The IN token of a GET_STATUS makes an unconfigured device ready. -/
theorem get_status_makes_ready :
    ¬ Run.Always (track ⟨.kbd, fun _ => 0xFF⟩) Truthful started [.setup getStatus, .inToken] := by
  intro h
  exact absurd (h.final.ready (by decide +kernel)) (by decide +kernel)

end Runs

end AtNode.Usb
