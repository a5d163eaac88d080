import AtNode.Esp32.Wifi

/-!
# When the published link state is true

The task cannot know of a loss before it looks, nor of new credentials before their announcement
reaches it. Apart from that, the link is to be up only while the station is associated under the
credentials that are stored, and the task is to wait nowhere else with the link up.
-/

namespace AtNode.Wifi

open Run Config PubSub TunnelSwitch CfgBus

/-- The credentials are those that are stored, or the task has still an announcement to read. -/
def Current (b : Bus) (cur : Creds) : Prop :=
  creds b.cfg = cur ∨ ∃ key ∈ b.changed.unread .wifi, isWifi key = true

/-- The task is suspended with an association. -/
def Associated (s : State) : Prop := s.phase = .online ∨ s.phase = .unchanged

/-- With the link up, the task waits with an association, under the credentials that are current,
and the association it saw at its last look was lost since if it is gone. -/
def Truthful (s : State) : Prop :=
  (s.up = true → Associated s ∧ s.conf = s.cur ∧ Current s.bus s.cur ∧
    (s.assoc = true ∨ s.lost = true)) ∧ (s.up = false → s.ip = none)

/-- The task goes back to the head of its loop without a look. -/
def leaves (s : State) : Bool :=
  s.phase = .unchanged || s.phase = .online && (s.bus.head .wifi).any isWifi

/-- Where the task goes back with the link up, nothing has changed; new credentials are announced;
and an address that comes for credentials that are replaced finds the announcement unread. -/
def Kept (s : State) : Event → Prop
  | .wake _ => s.up = true → leaves s = true →
      creds s.bus.cfg = s.cur ∧ s.cur.1 ≠ [] ∧ s.assoc = true
  | .set c => s.up = true → Current (s.bus.set c) s.cur
  | .dhcp _ => s.phase = .dhcp → Current s.bus s.cur
  | _ => True

section Steps

variable {s : State} {configOk : Bool}

/-- What is true of the station besides. -/
structure Inv (s : State) : Prop where
  truthful : Truthful s
  connecting : s.phase = .connecting → s.conf = s.cur
  dhcp : s.phase = .dhcp → s.conf = s.cur ∧ (s.assoc = true ∨ s.lost = true)
  online : s.phase = .online → s.up = true

theorem loopTop_unchanged (hc : creds s.bus.cfg = s.cur) (hne : s.cur.1 ≠ [])
    (ha : s.assoc = true) (configOk : Bool) :
    loopTop s configOk = { s with phase := .unchanged, lost := false } := by
  unfold loopTop
  dsimp only
  rw [hc, if_neg hne, if_pos ⟨rfl, ha⟩]

theorem loopTop_changed (h : ¬ (creds s.bus.cfg = s.cur ∧ s.cur.1 ≠ [] ∧ s.assoc = true))
    (configOk : Bool) : (loopTop s configOk).up = s.up ∧ ¬ Associated (loopTop s configOk) := by
  unfold loopTop configure Associated
  dsimp only
  split
  · exact ⟨rfl, by simp⟩
  · rename_i hne
    split
    · rename_i hsame
      refine absurd ⟨hsame.1, ?_, hsame.2⟩ h
      rw [← hsame.1]
      exact hne
    · split
      · exact ⟨rfl, by simp⟩
      · split
        · exact ⟨rfl, by simp⟩
        · exact ⟨rfl, by simp⟩

theorem inv_loopTop_down (hup : s.up = false) (hip : s.ip = none) (configOk : Bool) :
    Inv (loopTop s configOk) := by
  have hdown : ∀ t : State, t.up = s.up → t.ip = s.ip → Truthful t := fun t ht hi =>
    ⟨fun h => absurd (hup.symm.trans (ht.symm.trans h)) Bool.false_ne_true, fun _ => hi.trans hip⟩
  unfold loopTop configure
  dsimp only
  split
  · exact ⟨hdown _ rfl rfl, nofun, nofun, nofun⟩
  · split
    · exact ⟨hdown _ rfl rfl, nofun, nofun, nofun⟩
    · split
      · exact ⟨hdown _ rfl rfl, nofun, nofun, nofun⟩
      · split
        · exact ⟨hdown _ rfl rfl, fun _ => rfl, nofun, nofun⟩
        · exact ⟨hdown _ rfl rfl, nofun, nofun, nofun⟩

theorem resume_unchanged (h : s.phase = .unchanged) (relevant configOk : Bool) :
    resume s relevant configOk = loopTop s configOk := by
  rw [resume, h]

theorem resume_online (h : s.phase = .online) (relevant configOk : Bool) :
    resume s relevant configOk = if relevant then loopTop s configOk else look s configOk := by
  rw [resume, h]

theorem waits_of_associated (h : Associated s) : waits s = true := by
  unfold waits
  rcases h with hp | hp
  · rw [hp]
  · rw [hp]

theorem wake_leaves (h : leaves s = true) (configOk : Bool) :
    ∃ b : Bus, b.cfg = s.bus.cfg ∧ wake s configOk = loopTop { s with bus := b } configOk := by
  unfold leaves at h
  simp only [Bool.or_eq_true, Bool.and_eq_true, decide_eq_true_eq] at h
  have hw : waits s = true := by
    refine waits_of_associated ?_
    rcases h with hp | ⟨hp, -⟩
    · exact Or.inr hp
    · exact Or.inl hp
  unfold wake
  rw [hw, Bool.not_true, if_neg Bool.false_ne_true]
  rcases h with hp | ⟨hp, hkey⟩
  · cases hhead : s.bus.head .wifi with
    | none => exact ⟨s.bus, rfl, resume_unchanged hp _ _⟩
    | some key =>
      exact ⟨s.bus.read .wifi, rfl,
        resume_unchanged (s := { s with bus := s.bus.read .wifi }) hp (isWifi key) configOk⟩
  · cases hhead : s.bus.head .wifi with
    | none =>
      rw [hhead] at hkey
      cases hkey
    | some key =>
      rw [hhead, Option.any_some] at hkey
      have heq := resume_online (s := { s with bus := s.bus.read .wifi }) hp (isWifi key) configOk
      exact ⟨s.bus.read .wifi, rfl, heq.trans (if_pos hkey)⟩

theorem wake_looks (hp : s.phase = .online) (h : leaves s = false) (configOk : Bool) :
    ∃ b : Bus, b.cfg = s.bus.cfg ∧ (Current s.bus s.cur → Current b s.cur) ∧
      wake s configOk = look { s with bus := b } configOk := by
  have hw : waits s = true := waits_of_associated (Or.inl hp)
  have hkey : (s.bus.head .wifi).any isWifi = false := by
    unfold leaves at h
    rw [hp] at h
    exact h
  unfold wake
  rw [hw, Bool.not_true, if_neg Bool.false_ne_true]
  cases hhead : s.bus.head .wifi with
  | none => exact ⟨s.bus, rfl, fun h => h, resume_online hp false configOk⟩
  | some key =>
    rw [hhead, Option.any_some] at hkey
    refine ⟨s.bus.read .wifi, rfl, ?_, ?_⟩
    · rintro (hc | ⟨k, hk, hwifi⟩)
      · exact Or.inl hc
      · right
        refine ⟨k, ?_, hwifi⟩
        change k ∈ (s.bus.changed.read .wifi).unread .wifi
        rw [unread_read_self]
        unfold Bus.head at hhead
        cases hl : s.bus.changed.unread .wifi with
        | nil =>
          rw [hl] at hk
          exact absurd hk List.not_mem_nil
        | cons k' ks =>
          rw [hl] at hk hhead
          cases Option.some.inj hhead
          rcases List.mem_cons.mp hk with rfl | hmem
          · exact absurd (hkey.symm.trans hwifi) Bool.false_ne_true
          · exact hmem
    · have heq := resume_online (s := { s with bus := s.bus.read .wifi }) hp (isWifi key) configOk
      exact heq.trans (if_neg (Bool.eq_false_iff.mp hkey))

theorem inv_wake_down (hi : Inv s) (hup : s.up = false) (configOk : Bool) :
    Inv (wake s configOk) := by
  have hresume : ∀ (b : Bus) (relevant : Bool), waits s = true →
      Inv (resume { s with bus := b } relevant configOk) := by
    intro b relevant hw
    unfold waits at hw
    unfold resume
    dsimp only
    cases hp : s.phase with
    | noCreds | unchanged | retry =>
      exact inv_loopTop_down (s := { s with bus := b, phase := _ }) hup (hi.truthful.2 hup) configOk
    | online => exact absurd (hup.symm.trans (hi.online hp)) Bool.false_ne_true
    | disconnecting | connecting | dhcp =>
      rw [hp] at hw
      exact absurd hw Bool.false_ne_true
  unfold wake
  split
  · exact hi
  · rename_i hw
    rw [Bool.not_eq_true', Bool.not_eq_false] at hw
    split
    · exact hresume _ _ hw
    · exact hresume s.bus false hw

theorem inv_wake (hi : Inv s) (hP : Kept s (.wake configOk)) : Inv (wake s configOk) := by
  cases hup : s.up with
  | false => exact inv_wake_down hi hup configOk
  | true =>
    obtain ⟨hassoc, hconf, hcur, hseen⟩ := hi.truthful.1 hup
    have hnip : ∀ {p : Prop}, s.up = false → p :=
      fun h => absurd (h.symm.trans hup) Bool.false_ne_true
    cases hleaves : leaves s with
    | true =>
      obtain ⟨hc, hne, ha⟩ := hP hup hleaves
      obtain ⟨b, hb, heq⟩ := wake_leaves hleaves configOk
      have hc' : creds b.cfg = s.cur := by rw [hb, hc]
      rw [heq, loopTop_unchanged (s := { s with bus := b }) hc' hne ha]
      exact ⟨⟨fun _ => ⟨Or.inr rfl, hconf, Or.inl hc', Or.inl ha⟩, hnip⟩, nofun, nofun, nofun⟩
    | false =>
      have hp : s.phase = .online := by
        rcases hassoc with hp | hp
        · exact hp
        · unfold leaves at hleaves
          rw [hp] at hleaves
          exact absurd hleaves.symm Bool.false_ne_true
      obtain ⟨b, -, hcurrent, heq⟩ := wake_looks hp hleaves configOk
      rw [heq]
      unfold look
      split
      · rename_i ha
        refine ⟨⟨fun _ => ⟨Or.inl hp, hconf, hcurrent hcur, Or.inl ha⟩, hnip⟩, ?_, ?_, fun _ => hup⟩
        · exact fun h => absurd (hp.symm.trans h) (by decide)
        · exact fun h => absurd (hp.symm.trans h) (by decide)
      · exact inv_loopTop_down rfl rfl configOk

theorem not_truthful_wake (hP : ¬ Kept s (.wake configOk)) : ¬ Truthful (wake s configOk) := by
  unfold Kept at hP
  simp only [Classical.not_imp] at hP
  obtain ⟨hup, hleaves, hchanged⟩ := hP
  obtain ⟨b, hb, heq⟩ := wake_leaves hleaves configOk
  obtain ⟨hup', hphase⟩ := loopTop_changed (s := { s with bus := b }) (by rw [hb]; exact hchanged)
    configOk
  rw [heq]
  exact fun h => hphase (h.1 (hup'.trans hup)).1

theorem set_iff (hi : Inv s) (c : Call) :
    (Kept s (.set c) → Inv (step s (.set c))) ∧
      (¬ Kept s (.set c) → ¬ Truthful (step s (.set c))) := by
  constructor
  · intro hP
    refine ⟨⟨fun hup => ?_, hi.truthful.2⟩, hi.connecting, hi.dhcp, hi.online⟩
    obtain ⟨hassoc, hconf, -, hseen⟩ := hi.truthful.1 hup
    exact ⟨hassoc, hconf, hP hup, hseen⟩
  · intro hP h
    unfold Kept at hP
    rw [Classical.not_imp] at hP
    exact hP.2 (h.1 hP.1).2.2.1

theorem dhcp_iff (hi : Inv s) (ip : ℕ) :
    (Kept s (.dhcp ip) → Inv (dhcp s ip)) ∧ (¬ Kept s (.dhcp ip) → ¬ Truthful (dhcp s ip)) := by
  unfold dhcp
  cases hp : s.phase with
  | dhcp =>
    constructor
    · intro hP
      obtain ⟨hconf, hseen⟩ := hi.dhcp hp
      exact ⟨⟨fun _ => ⟨Or.inl rfl, hconf, hP hp, hseen⟩, nofun⟩, nofun, nofun, fun _ => rfl⟩
    · intro hP h
      unfold Kept at hP
      rw [Classical.not_imp] at hP
      exact hP.2 (h.1 rfl).2.2.1
  | noCreds | unchanged | disconnecting | connecting | retry | online =>
    refine ⟨fun _ => hi, fun hP => absurd ?_ hP⟩
    exact fun h => absurd (hp.symm.trans h) (by decide)

theorem up_false (hi : Inv s) (h : ¬ Associated s) : s.up = false := by
  refine Bool.eq_false_iff.mpr fun hup => h (hi.truthful.1 hup).1

theorem inv_configure {t : State} (hup : t.up = false) (hip : t.ip = none) :
    Inv (configure t configOk) := by
  have htruth : ∀ t' : State, t'.up = false → t'.ip = none → Truthful t' := fun t' hup hip =>
    ⟨fun h => absurd (hup.symm.trans h) Bool.false_ne_true, fun _ => hip⟩
  unfold configure
  split
  · exact ⟨htruth _ hup hip, fun _ => rfl, nofun, nofun⟩
  · exact ⟨htruth _ hup hip, nofun, nofun, nofun⟩

theorem inv_disconnected (hi : Inv s) (configOk : Bool) : Inv (disconnected s configOk) := by
  unfold disconnected
  cases hp : s.phase with
  | disconnecting =>
    have hup := up_false hi (by unfold Associated; rw [hp]; decide)
    exact inv_configure hup (hi.truthful.2 hup)
  | noCreds | unchanged | connecting | retry | dhcp | online => exact hi

theorem inv_connected (hi : Inv s) (ok : Bool) : Inv (connected s ok) := by
  unfold connected
  cases hp : s.phase with
  | connecting =>
    have hup := up_false hi (by unfold Associated; rw [hp]; decide)
    have hdown : ∀ {p : Prop}, s.up = true → p :=
      fun h => absurd (hup.symm.trans h) Bool.false_ne_true
    dsimp only
    split
    · refine ⟨⟨hdown, fun _ => hi.truthful.2 hup⟩, nofun, fun _ => ?_, nofun⟩
      exact ⟨hi.connecting hp, Or.inl rfl⟩
    · exact ⟨⟨hdown, fun _ => hi.truthful.2 hup⟩, nofun, nofun, nofun⟩
  | noCreds | unchanged | disconnecting | retry | dhcp | online => exact hi

/-- What happens to the association between two looks. -/
theorem inv_association {assoc lost : Bool} (hi : Inv s) (h : assoc = true ∨ lost = true) :
    Inv { s with assoc := assoc, lost := lost } := by
  refine ⟨⟨fun hup => ?_, hi.truthful.2⟩, hi.connecting, fun hp => ⟨(hi.dhcp hp).1, h⟩, hi.online⟩
  obtain ⟨hassoc, hconf, hcur, -⟩ := hi.truthful.1 hup
  exact ⟨hassoc, hconf, hcur, h⟩

theorem inv_otherReads (hi : Inv s) (i : Subscriber) : Inv (step s (.otherReads i)) := by
  unfold step
  dsimp only
  split
  · exact hi
  · rename_i hne
    refine ⟨⟨fun hup => ?_, hi.truthful.2⟩, hi.connecting, hi.dhcp, hi.online⟩
    obtain ⟨hassoc, hconf, hcur, hseen⟩ := hi.truthful.1 hup
    refine ⟨hassoc, hconf, ?_, hseen⟩
    unfold Current Bus.read
    dsimp only
    rw [unread_read_of_ne s.bus.changed (Ne.symm hne)]
    exact hcur

theorem kept_step_iff (hi : Inv s) (e : Event) :
    (Kept s e → Inv (step s e)) ∧ (¬ Kept s e → ¬ Truthful (step s e)) := by
  have hfree : ∀ {t : State}, Inv t → (True → Inv t) ∧ (¬ True → ¬ Truthful t) :=
    fun h => ⟨fun _ => h, fun hn => absurd trivial hn⟩
  cases e with
  | set c => exact set_iff hi c
  | otherReads i => exact hfree (inv_otherReads hi i)
  | linkLost => exact hfree (inv_association hi (Or.inr rfl))
  | relinked => exact hfree (inv_association hi (Or.inl rfl))
  | wake configOk => exact ⟨inv_wake hi, not_truthful_wake⟩
  | disconnected configOk => exact hfree (inv_disconnected hi configOk)
  | connected ok => exact hfree (inv_connected hi ok)
  | dhcp ip => exact dhcp_iff hi ip

end Steps

/-- From boot, over every order of associations, losses, addresses and credentials, the published
state is true throughout a run if and only if the task goes back with the link up only where nothing
has changed, and new credentials are announced. -/
theorem link_truthful_iff (cfg : Cfg) (configOk : Bool) (es : List Event) :
    Always step Truthful (init cfg configOk) es ↔ Along step Kept (init cfg configOk) es := by
  refine always_iff_along (I := Inv) (fun _ hi => hi.truthful) ?_ ?_
    (inv_loopTop_down rfl rfl configOk)
  · intro s e hi hP
    exact (kept_step_iff hi e).1 hP
  · intro s e hi hP
    exact (kept_step_iff hi e).2 hP

section Changed

def homeCfg : Cfg where
  table
    | .wifiSsid | .wifiPass => some ['h']
    | _ => none
  defName := []
  defHostname := []

def linkUp : List Event := [.connected true, .dhcp 1]

/-- New credentials, of another network or of none. -/
def newSsid (ssid : Text) : List Event :=
  linkUp ++ [.set ⟨"wifi.ssid".toList, ssid, true⟩, .wake true]

/-- With the credentials replaced or taken away, the task waits elsewhere with the link still up. -/
theorem link_stays_up :
    ¬ Always step Truthful (init homeCfg true) (newSsid ['o']) ∧
      ¬ Always step Truthful (init homeCfg true) (newSsid []) := by
  have hother : (final step (init homeCfg true) (newSsid ['o'])).up = true ∧
      (final step (init homeCfg true) (newSsid ['o'])).phase = .disconnecting := by decide +kernel
  have hnone : (final step (init homeCfg true) (newSsid [])).up = true ∧
      (final step (init homeCfg true) (newSsid [])).phase = .noCreds := by decide +kernel
  have hphase : ∀ {s : State}, Truthful s → s.up = true →
      s.phase = .online ∨ s.phase = .unchanged := fun h hup => (h.1 hup).1
  constructor
  · intro h
    have hp := hphase h.final hother.1
    rw [hother.2] at hp
    exact absurd hp (by decide)
  · intro h
    have hp := hphase h.final hnone.1
    rw [hnone.2] at hp
    exact absurd hp (by decide)

end Changed

end AtNode.Wifi
