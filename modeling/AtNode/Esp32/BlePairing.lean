import AtNode.Esp32.KbdBle

/-!
# Who is served and who may bond

Whether a host may bond is asked when it connects, and not again when its bond is there to be stored.
The deadline of the window is compared in 32 bits of seconds; while the uptime fits in them, the
comparison is that of the sixty seconds themselves.
-/

namespace AtNode.KbdBle

open Config Bond Run

attribute [local irreducible] Config.set

/-- A connection is served for the bonded host or in the window, and a bond is stored in the window. -/
def Gated (s : State) : Prop :=
  (∀ c ∈ s.served, c.bonded = some c.peer ∨ c.pairable = true) ∧ ∀ b ∈ s.stored, b.pairable = true

/-- A connection of another host that finds the window open by the 32 bits finds it open, and so does
every bond that flash takes. -/
def Guarded (s : State) : Event → Prop
  | .accept peer => s.phase = .advertising → s.bondedAddr ≠ some peer →
      pairWindowOpen s = true → pairable s = true
  | .bondSet flash => (∃ b, s.phase = .storing b) → flash = true → pairable s = true
  | _ => True

section Steps

variable {s t : State}

/-- The clock, the window and the histories of the gate. -/
def gate (s : State) : ℕ × ℕ × Option ℕ × List Served × List Stored :=
  (s.now, s.pairUntil, s.window, s.served, s.stored)

def quiet : Event → Bool
  | .set .. | .emit _ | .pollSend | .acceptError | .takeBondClear | .notify | .pairingComplete _
  | .disconnected | .resume => true
  | .tick | .pairOpen | .pairClose | .clearBond _ | .accept _ | .bondSet _ | .reboot => false

theorem gate_step {e : Event} (h : quiet e = true) : gate (step s e) = gate s := by
  cases e with
  | tick | pairOpen | pairClose | clearBond | accept | bondSet | reboot =>
    exact absurd h Bool.false_ne_true
  | set key val flash =>
    obtain ⟨cfg, heq⟩ := cfgSet_eq s key val flash
    exact (congrArg gate heq).trans rfl
  | emit r =>
    obtain ⟨rs, b, heq⟩ := emit_eq s r
    exact (congrArg gate heq).trans rfl
  | pollSend =>
    obtain ⟨rs, b, heq⟩ := pollSend_eq s
    exact (congrArg gate heq).trans rfl
  | takeBondClear =>
    obtain ⟨addr, clear, phase, conn, rs, heq⟩ := takeBondClear_eq s
    exact (congrArg gate heq).trans rfl
  | notify =>
    obtain ⟨rs, ns, heq⟩ := notify_eq s
    unfold step
    dsimp only
    split
    · exact (congrArg gate heq).trans rfl
    · rfl
  | acceptError | resume | disconnected | pairingComplete bond =>
    unfold step
    dsimp only
    split
    · rfl
    · rfl

theorem Gated.of_gate (hi : Gated s) (h : gate t = gate s) : Gated t := by
  simp only [gate, Prod.mk.injEq] at h
  obtain ⟨-, -, -, hserved, hstored⟩ := h
  unfold Gated
  rw [hserved, hstored]
  exact hi

theorem accept_iff (hi : Gated s) (hp : s.phase = .advertising) (peer : BdAddr) :
    Gated (accept s peer) ↔ Guarded s (.accept peer) := by
  unfold Guarded
  rw [accept_eq]
  by_cases hb : s.bondedAddr = some peer
  · rw [if_pos (Or.inl hb)]
    refine ⟨fun _ _ hne => absurd hb hne, fun _ => ⟨fun c hc => ?_, hi.2⟩⟩
    rcases List.mem_append.mp hc with hc | hc
    · exact hi.1 c hc
    · rw [List.mem_singleton.mp hc]
      exact Or.inl hb
  · by_cases hw : pairWindowOpen s = true
    · rw [if_pos (Or.inr hw)]
      constructor
      · intro h _ _ _
        rcases h.1 _ (List.mem_append_right _ (List.mem_singleton.mpr rfl)) with hbond | hopen
        · exact absurd hbond hb
        · exact hopen
      · intro h
        refine ⟨fun c hc => ?_, hi.2⟩
        rcases List.mem_append.mp hc with hc | hc
        · exact hi.1 c hc
        · rw [List.mem_singleton.mp hc]
          exact Or.inr (h hp hb hw)
    · rw [if_neg (not_or.mpr ⟨hb, hw⟩)]
      exact ⟨fun _ _ _ h => absurd h hw, fun _ => hi⟩

theorem onNewBond_iff (hi : Gated s) (b : BondInformation) (flash : Bool) :
    Gated (onNewBond s b flash) ↔ (flash = true → pairable s = true) := by
  rw [onNewBond_eq]
  cases flash with
  | false => exact ⟨fun _ h => absurd h Bool.false_ne_true, fun _ => hi⟩
  | true =>
    rw [if_pos rfl]
    constructor
    · exact fun h _ => h.2 _ (List.mem_append_right _ (List.mem_singleton.mpr rfl))
    · intro h
      refine ⟨hi.1, fun b' hb' => ?_⟩
      rcases List.mem_append.mp hb' with hb' | hb'
      · exact hi.2 b' hb'
      · rw [List.mem_singleton.mp hb']
        exact h rfl

/-- A step keeps the gate if and only if it meets the condition. -/
theorem gated_step_iff (hi : Gated s) (e : Event) : Gated (step s e) ↔ Guarded s e := by
  have hkept : ∀ {t : State}, Gated t → (Gated t ↔ True) := fun h => iff_true_intro h
  cases e with
  | set | emit | pollSend | acceptError | takeBondClear | notify | pairingComplete | disconnected
  | resume => exact hkept (hi.of_gate (gate_step rfl))
  | tick | pairOpen | pairClose | reboot => exact hkept hi
  | clearBond flash =>
    obtain ⟨cfg, heq⟩ := cfgSet_eq s "ble.bond".toList [] flash
    change Gated (clearBond s flash) ↔ True
    unfold clearBond
    rw [heq]
    exact hkept hi
  | accept peer =>
    unfold step
    dsimp only
    split
    · rename_i hp
      exact accept_iff hi hp peer
    · rename_i hp
      exact ⟨fun _ h => absurd h hp, fun _ => hi⟩
  | bondSet flash =>
    unfold step Guarded
    dsimp only
    split
    · rename_i b hp
      have hset : Gated { onNewBond s b flash with phase := .serving true } ↔
          Gated (onNewBond s b flash) := Iff.rfl
      rw [hset, onNewBond_iff hi]
      exact ⟨fun h _ => h, fun h => h ⟨b, hp⟩⟩
    · rename_i hp
      exact ⟨fun _ h => absurd h.choose_spec (hp h.choose), fun _ => hi⟩

end Steps

theorem always_gated_iff {s : State} (hi : Gated s) {es : List Event} :
    Always step Gated s es ↔ Along step Guarded s es := by
  refine always_iff_along (I := Gated) (fun _ hi => hi) ?_ ?_ hi
  · intro s e hi hP
    exact (gated_step_iff hi e).2 hP
  · intro s e hi hP h
    exact hP ((gated_step_iff hi e).1 h)

theorem gated_boot (cfg : Cfg) : Gated (boot cfg) :=
  ⟨fun _ hc => absurd hc List.not_mem_nil, fun _ hb => absurd hb List.not_mem_nil⟩

/-- Over every order of window events, connections, pairings, ends and reboots, the gate holds
throughout a run if and only if every bond that flash takes finds the window open when it is stored,
and the comparison of 32 bits opens it to no host that is not bonded after its sixty seconds. -/
theorem pairing_gated_iff (cfg : Cfg) (es : List Event) :
    Always step Gated (boot cfg) es ↔ Along step Guarded (boot cfg) es :=
  always_gated_iff (gated_boot cfg)

section Late

def newBond : BondInformation where
  identity := { bdAddr := host, irk := none }
  ltk := 7
  securityLevel := .encrypted
  isBonded := true

def pairLate (between : List Event) : List Event :=
  .pairOpen :: .accept host :: (between ++ [.pairingComplete (some newBond), .bondSet true])

/-- A bond is stored after the window was closed, and after the sixty seconds. -/
theorem bond_stored_late :
    ¬ Always step Gated (boot erasedCfg) (pairLate [.pairClose]) ∧
      ¬ Always step Gated (boot erasedCfg) (pairLate (List.replicate 60 .tick)) := by
  have hclosed : (final step (boot erasedCfg) (pairLate [.pairClose])).stored = [⟨host, false⟩] := by
    decide +kernel
  have hover : (final step (boot erasedCfg) (pairLate (List.replicate 60 .tick))).stored =
      [⟨host, false⟩] := by
    decide +kernel
  have hlate : ∀ {s : State}, s.stored = [⟨host, false⟩] → ¬ Gated s := by
    intro s hs h
    exact absurd (h.2 ⟨host, false⟩ (hs ▸ List.mem_singleton.mpr rfl)) Bool.false_ne_true
  exact ⟨fun h => hlate hclosed h.final, fun h => hlate hover h.final⟩

end Late

section Uptime

variable {s t : State}

/-- The clock and the deadline fit in 32 bits, and the deadline is the end of the window. -/
structure Timely (s : State) : Prop where
  now : s.now + pairWindowSecs < u32
  deadline : s.pairUntil = s.window.getD 0
  window : s.window ≠ some 0

/-- The uptime stays below 136 years. -/
def Early (s : State) : Event → Prop
  | .tick => s.now + 1 + pairWindowSecs < u32
  | _ => True

/-- Every bond that flash takes finds the window open. -/
def BondsInTime (s : State) : Event → Prop
  | .bondSet flash => Guarded s (.bondSet flash)
  | _ => True

theorem Timely.pairWindowOpen_eq (hi : Timely s) : pairWindowOpen s = pairable s := by
  have hnow : s.now % u32 = s.now :=
    Nat.mod_eq_of_lt (Nat.lt_of_le_of_lt (Nat.le_add_right _ _) hi.now)
  unfold pairWindowOpen pairable
  rw [hi.deadline, hnow]
  cases hw : s.window with
  | none => rfl
  | some t =>
    have ht : t ≠ 0 := fun h => hi.window (hw.trans (congrArg some h))
    rw [Option.getD_some, decide_eq_true ht, Bool.true_and, Option.any_some]

theorem Timely.of_gate (hi : Timely s) (h : gate t = gate s) : Timely t := by
  simp only [gate, Prod.mk.injEq] at h
  obtain ⟨hnow, huntil, hwindow, -, -⟩ := h
  constructor
  · rw [hnow]
    exact hi.now
  · rw [huntil, hwindow]
    exact hi.deadline
  · rw [hwindow]
    exact hi.window

theorem Timely.close (hi : Timely s) : Timely (pairClose s) :=
  ⟨hi.now, rfl, (Option.some_ne_none 0).symm⟩

theorem Timely.open (hi : Timely s) : Timely (pairOpen s) := by
  have hnow : s.now % u32 = s.now :=
    Nat.mod_eq_of_lt (Nat.lt_of_le_of_lt (Nat.le_add_right _ _) hi.now)
  refine ⟨hi.now, ?_, fun h => ?_⟩
  · change (s.now % u32 + pairWindowSecs) % u32 = s.now + pairWindowSecs
    rw [hnow, Nat.mod_eq_of_lt hi.now]
  · exact absurd (Option.some.inj h) (Nat.succ_ne_zero (s.now + 59))

theorem timely_boot (cfg : Cfg) : Timely (boot cfg) := by
  have hnow : 0 + pairWindowSecs < u32 := by decide
  exact ⟨hnow, rfl, (Option.some_ne_none 0).symm⟩

theorem timely_step (hi : Timely s) {e : Event} (he : Early s e) : Timely (step s e) := by
  cases e with
  | set | emit | pollSend | acceptError | takeBondClear | notify | pairingComplete | disconnected
  | resume => exact hi.of_gate (gate_step rfl)
  | tick => exact ⟨he, hi.deadline, hi.window⟩
  | pairOpen => exact hi.open
  | pairClose => exact hi.close
  | reboot =>
    obtain ⟨hnow, huntil, hwindow⟩ := timely_boot s.cfg
    exact ⟨hnow, huntil, hwindow⟩
  | clearBond flash =>
    obtain ⟨cfg, heq⟩ := cfgSet_eq s "ble.bond".toList [] flash
    change Timely (clearBond s flash)
    unfold clearBond
    rw [heq]
    exact hi.close.of_gate rfl
  | accept peer =>
    unfold step
    dsimp only
    split
    · rw [accept_eq]
      split
      · exact ⟨hi.now, hi.deadline, hi.window⟩
      · exact hi.of_gate rfl
    · exact hi
  | bondSet flash =>
    unfold step
    dsimp only
    split
    · rw [onNewBond_eq]
      split
      · exact ⟨hi.now, rfl, (Option.some_ne_none 0).symm⟩
      · exact hi.of_gate rfl
    · exact hi

/-- While the uptime fits in 32 bits, the bonds alone decide whether the gate holds. -/
theorem gated_early_iff (cfg : Cfg) (es : List Event) (he : Along step Early (boot cfg) es) :
    Always step Gated (boot cfg) es ↔ Along step BondsInTime (boot cfg) es := by
  rw [always_gated_iff (gated_boot cfg)]
  constructor
  · refine Along.mono fun s e h => ?_
    cases e with
    | bondSet flash => exact h
    | _ => trivial
  · intro hb
    refine along_of_inv (I := Timely) (fun s e hi h => timely_step hi h.1) ?_ (timely_boot cfg)
      (he.and hb)
    intro s e hi h
    cases e with
    | bondSet flash => exact h.2
    | accept peer => exact fun _ _ hw => hi.pairWindowOpen_eq.symm.trans hw
    | _ => trivial

end Uptime

end AtNode.KbdBle
