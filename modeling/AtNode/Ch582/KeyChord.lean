import AtNode.Ch582.AtCmds
import AtNode.Lib.Run

/-!
# The chord of a configured key

`hws_key_cfg_poll` samples the two pins. A pin that went down sends the configured modifiers in one
report and the configured key in another, a pin that went up sends two all-zero reports. What went
down is kept in `last`, which `AT+KEY_CFG` clears, and a pin without a key is passed over.

Between two polls `AT+KEY_CFG` lines may come, and everything of the node but `key_cfg` may change.
It is proved in which runs every press edge sends the chord in one report and every press is followed
by an all-zero report at the poll that finds its pin released.
-/

namespace AtNode.AtCmds

open ArgProgram CString Hid

variable {n : ℕ} {σ : Type} (C : Chip n σ)

section Poll

/-- The node within a poll, and the reports the poll has flushed. -/
structure Polled (n : ℕ) (σ : Type) where
  node : Node n σ
  reports : List Report

def Polled.flush (p : Polled n σ) (r : Report) : Polled n σ :=
  ⟨((kbFlush C r).run (fun _ => none) p.node).state, p.reports ++ [r]⟩

def kbPress (keycode : UInt8) (p : Polled n σ) : Polled n σ := p.flush C (.press 0 keycode)

def kbRelease (p : Polled n σ) : Polled n σ := p.flush C .rest

def kbSetMods (mods : UInt8) (p : Polled n σ) : Polled n σ :=
  p.flush C ⟨mods, Report.rest.keys⟩

/-- `HWS_PUSH_BUTTON1` and `HWS_PUSH_BUTTON3` when a poll reads them. -/
structure Buttons where
  button1 : Bool
  button3 : Bool

def pollKey (b : Buttons) (i : Fin 2) (p : Polled n σ) : Polled n σ :=
  let c := p.node.keyCfg i
  if c.kc = 0 then p
  else
    let now := if c.pin = 38 then b.button1 else b.button3
    let p :=
      if now = true ∧ c.last = 0 then kbPress C c.kc (kbSetMods C c.mods p)
      else if now = false ∧ c.last ≠ 0 then kbRelease C (kbSetMods C 0 p)
      else p
    { p with node := { p.node with
        keyCfg := Function.update p.node.keyCfg i { c with last := if now then 1 else 0 } } }

def hwsKeyCfgPoll (b : Buttons) (w : Node n σ) : Polled n σ :=
  pollKey C b 1 (pollKey C b 0 ⟨w, []⟩)

end Poll

section Law

def Buttons.pin (b : Buttons) (i : Fin 2) : Bool := if i = 0 then b.button1 else b.button3

/-- The node, and what was seen of the pins: the last sample, whether a press is still to be
released, and whether the assignment was written since the last poll. -/
structure Desk (n : ℕ) (σ : Type) where
  node : Node n σ
  held : Fin 2 → Bool
  owed : Fin 2 → Bool
  written : Fin 2 → Bool

inductive Event (n : ℕ) (σ : Type) where
  | poll (b : Buttons)
  | keyCfg (argc : ℕ) (argv : ℕ → Option Text)
  /-- Everything else of the node becomes that of `w`. -/
  | other (w : Node n σ)

def assignedPin (argc : ℕ) (argv : ℕ → Option Text) : Option (Fin 2) :=
  if 3 ≤ argc ∧ argv 2 ≠ none ∧ argv 3 ≠ none then
    (argv 1).bind fun a => keyIndex (toU8 (atoi a))
  else none

def PressEdge (d : Desk n σ) (b : Buttons) (i : Fin 2) : Prop :=
  b.pin i = true ∧ d.held i = false ∧ (d.node.keyCfg i).kc ≠ 0

instance (d : Desk n σ) (b : Buttons) (i : Fin 2) : Decidable (PressEdge d b i) :=
  inferInstanceAs (Decidable (_ ∧ _ ∧ _))

def step (d : Desk n σ) : Event n σ → Desk n σ
  | .poll b =>
    { node := (hwsKeyCfgPoll C b d.node).node
      held := b.pin
      owed := fun i => b.pin i && (d.owed i || decide (PressEdge d b i))
      written := fun _ => false }
  | .keyCfg argc argv =>
    { d with
      node := ((atCmdKeyCfg C argc).run argv d.node).state
      written := fun i =>
        d.written i || !d.node.keyCfgLoaded || decide (assignedPin argc argv = some i) }
  | .other w =>
    { d with node := { w with
        keyCfg := d.node.keyCfg
        keyCfgLoaded := d.node.keyCfgLoaded } }

/-- No pin has a key before the first `AT+KEY_CFG`, which loads the stored keys. -/
def Desk.boot (w : Node n σ) : Desk n σ where
  node := { w with keyCfg := fun _ => ⟨0, 0, 0, 0⟩, keyCfgLoaded := false }
  held := fun _ => false
  owed := fun _ => false
  written := fun _ => false

/-- Modifiers and key are down together. -/
def Chord (c : KeyCfg) (r : Report) : Prop := r.mods &&& c.mods = c.mods ∧ c.kc ∈ r.keys

instance (c : KeyCfg) (r : Report) : Decidable (Chord c r) :=
  inferInstanceAs (Decidable (_ ∧ _))

/-- Every press edge sends its chord, and every press is followed by the all-zero report. -/
def ChordLaw (d : Desk n σ) : Event n σ → Prop
  | .poll b => ∀ i,
    (PressEdge d b i → ∃ r ∈ (hwsKeyCfgPoll C b d.node).reports, Chord (d.node.keyCfg i) r) ∧
    (d.owed i = true → b.pin i = false → Report.rest ∈ (hwsKeyCfgPoll C b d.node).reports)
  | _ => True

end Law

section Condition

/-- The poll before found the pin down, with the key it has now. -/
def Known (d : Desk n σ) (i : Fin 2) : Prop :=
  (d.node.keyCfg i).kc ≠ 0 ∧ d.held i = true ∧ d.written i = false

/-- The pin has a key, and is a known press that ends or a new one without modifiers. -/
def SendsRest (d : Desk n σ) (b : Buttons) (i : Fin 2) : Prop :=
  (d.node.keyCfg i).kc ≠ 0 ∧
    ((Known d i ∧ b.pin i = false) ∨
      (¬ Known d i ∧ b.pin i = true ∧ (d.node.keyCfg i).mods = 0))

/-- A press edge has no modifiers, and a press ends while it is known. -/
def ChordCondition (d : Desk n σ) : Event n σ → Prop
  | .poll b => ∀ i,
    (PressEdge d b i → (d.node.keyCfg i).mods = 0) ∧
    (d.owed i = true → b.pin i = false → ∃ j, SendsRest d b j)
  | _ => True

end Condition

section PollReports

variable {C}

/-- The reports of one round, from the entry. -/
def keyReports (b : Buttons) (c : KeyCfg) : List Report :=
  let now := if c.pin = 38 then b.button1 else b.button3
  if c.kc = 0 then []
  else if now = true ∧ c.last = 0 then [⟨c.mods, Report.rest.keys⟩, .press 0 c.kc]
  else if now = false ∧ c.last ≠ 0 then [.rest, .rest]
  else []

def polledKey (b : Buttons) (c : KeyCfg) : KeyCfg :=
  if c.kc = 0 then c
  else { c with last := if (if c.pin = 38 then b.button1 else b.button3) then 1 else 0 }

@[simp] theorem flush_keyCfg (p : Polled n σ) (r : Report) :
    (p.flush C r).node.keyCfg = p.node.keyCfg := rfl

@[simp] theorem flush_loaded (p : Polled n σ) (r : Report) :
    (p.flush C r).node.keyCfgLoaded = p.node.keyCfgLoaded := rfl

@[simp] theorem flush_reports (p : Polled n σ) (r : Report) :
    (p.flush C r).reports = p.reports ++ [r] := rfl

theorem pollKey_reports (b : Buttons) (i : Fin 2) (p : Polled n σ) :
    (pollKey C b i p).reports = p.reports ++ keyReports b (p.node.keyCfg i) := by
  unfold pollKey keyReports
  by_cases hkc : (p.node.keyCfg i).kc = 0
  · simp [hkc]
  · simp only [if_neg hkc]
    split_ifs <;> simp [kbPress, kbSetMods, kbRelease, Report.rest]

theorem pollKey_keyCfg (b : Buttons) (i : Fin 2) (p : Polled n σ) :
    (pollKey C b i p).node.keyCfg =
      Function.update p.node.keyCfg i (polledKey b (p.node.keyCfg i)) := by
  unfold pollKey polledKey
  by_cases hkc : (p.node.keyCfg i).kc = 0
  · simp only [if_pos hkc, Function.update_eq_self]
  · simp only [if_neg hkc]
    split_ifs <;> simp [kbPress, kbSetMods, kbRelease]

theorem pollKey_loaded (b : Buttons) (i : Fin 2) (p : Polled n σ) :
    (pollKey C b i p).node.keyCfgLoaded = p.node.keyCfgLoaded := by
  unfold pollKey
  by_cases hkc : (p.node.keyCfg i).kc = 0
  · simp only [if_pos hkc]
  · simp only [if_neg hkc]
    split_ifs <;> simp [kbPress, kbSetMods, kbRelease]

theorem poll_reports (b : Buttons) (w : Node n σ) :
    (hwsKeyCfgPoll C b w).reports = keyReports b (w.keyCfg 0) ++ keyReports b (w.keyCfg 1) := by
  unfold hwsKeyCfgPoll
  rw [pollKey_reports, pollKey_reports, pollKey_keyCfg]
  simp

theorem mem_poll_reports {b : Buttons} {w : Node n σ} {r : Report} :
    r ∈ (hwsKeyCfgPoll C b w).reports ↔ ∃ i, r ∈ keyReports b (w.keyCfg i) := by
  rw [poll_reports, List.mem_append, Fin.exists_fin_two]

theorem poll_keyCfg (b : Buttons) (w : Node n σ) (i : Fin 2) :
    (hwsKeyCfgPoll C b w).node.keyCfg i = polledKey b (w.keyCfg i) := by
  unfold hwsKeyCfgPoll
  rw [pollKey_keyCfg, pollKey_keyCfg]
  obtain rfl | rfl : i = 0 ∨ i = 1 := by omega
  · simp
  · simp

theorem poll_loaded (b : Buttons) (w : Node n σ) :
    (hwsKeyCfgPoll C b w).node.keyCfgLoaded = w.keyCfgLoaded := by
  unfold hwsKeyCfgPoll
  rw [pollKey_loaded, pollKey_loaded]

end PollReports

section Assignment

variable {C}

def loadedKeys (w : Node n σ) : Fin 2 → KeyCfg :=
  if w.keyCfgLoaded then w.keyCfg else (keyCfgLoad C w).keyCfg

def OwnPin (i : Fin 2) (c : KeyCfg) : Prop := c.pin = 38 ↔ i = 0

theorem ownPin_keyIndex {pin : UInt8} {i : Fin 2} (h : keyIndex pin = some i) (mods kc last) :
    OwnPin i ⟨pin, mods, kc, last⟩ := by
  unfold keyIndex at h
  unfold OwnPin
  split_ifs at h with h1 h2
  · simp only [h1, true_iff]
    exact (Option.some.inj h).symm
  · obtain rfl := Option.some.inj h
    simp [h1]

theorem keyCfgLoad_ownPin (w : Node n σ) (i : Fin 2) : OwnPin i ((keyCfgLoad C w).keyCfg i) := by
  simp only [OwnPin, keyCfgLoad]
  by_cases hi : i = 0
  · split_ifs <;> simp [keyCfgDefault, hi]
  · split_ifs <;> simp [keyCfgDefault, hi]

theorem keyCfgLoad_last (w : Node n σ) (i : Fin 2) :
    ((keyCfgLoad C w).keyCfg i).last = (w.keyCfg i).last := by
  simp only [keyCfgLoad]
  by_cases hi : i = 0
  · split_ifs <;> simp [keyCfgDefault, hi]
  · split_ifs <;> simp [keyCfgDefault, hi]

theorem loaded_keyCfgReady (w : Node n σ) : (keyCfgReady C w).keyCfgLoaded = true := by
  unfold keyCfgReady
  split_ifs with h
  · exact h
  · rfl

theorem keyCfg_keyCfgReady (w : Node n σ) : (keyCfgReady C w).keyCfg = loadedKeys (C := C) w := by
  unfold keyCfgReady loadedKeys
  split_ifs <;> rfl

def enteredKey (argc : ℕ) (argv : ℕ → Option Text) : Option (Fin 2 × KeyCfg) :=
  if 3 ≤ argc then
    (argv 1).bind fun a => (keyIndex (toU8 (atoi a))).bind fun i =>
      (argv 2).bind fun b => (argv 3).map fun c =>
        (i, ⟨toU8 (atoi a), toU8 (atoi b), toU8 (atoi c), 0⟩)
  else none

theorem assignedPin_eq (argc : ℕ) (argv : ℕ → Option Text) :
    assignedPin argc argv = (enteredKey argc argv).map (·.1) := by
  unfold assignedPin enteredKey
  by_cases h3 : 3 ≤ argc
  · cases argv 1 with
    | none => simp
    | some a =>
      cases keyIndex (toU8 (atoi a)) <;> cases argv 2 <;> cases argv 3 <;> simp [h3]
  · rw [if_neg fun h => h3 h.1, if_neg h3]
    rfl

theorem run_keyCfg (argc : ℕ) (argv : ℕ → Option Text) (w : Node n σ) :
    let v := ((atCmdKeyCfg C argc).run argv w).state
    v.keyCfgLoaded = true ∧
      match enteredKey argc argv with
      | none => v.keyCfg = (keyCfgReady C w).keyCfg ∧ v.rest = (keyCfgReady C w).rest
      | some (i, c) => keyIndex c.pin = some i ∧ c.last = 0 ∧
        v.keyCfg = Function.update (keyCfgReady C w).keyCfg i c ∧
        v.rest = (keyCfgSave C { keyCfgReady C w with
          keyCfg := Function.update (keyCfgReady C w).keyCfg i c }).rest := by
  have hload := loaded_keyCfgReady (C := C) w
  obtain ⟨u, hu⟩ : ∃ u, u = keyCfgReady C w := ⟨_, rfl⟩
  rw [← hu] at hload ⊢
  unfold atCmdKeyCfg enteredKey
  rw [run_edit_bind, ← hu]
  dsimp only
  by_cases h2 : argc < 2
  · rw [if_pos h2, if_neg (by omega)]
    exact ⟨hload, rfl, rfl⟩
  rw [if_neg h2]
  cases h1 : argv 1 with
  | none =>
    rw [run_ask_bind_none h1, Option.bind_none, ite_self]
    exact ⟨hload, rfl, rfl⟩
  | some a =>
    rw [state_ask_bind_some h1, Option.bind_some]
    cases hi : keyIndex (toU8 (atoi a)) with
    | none =>
      rw [Option.bind_none, ite_self]
      exact ⟨hload, rfl, rfl⟩
    | some i =>
      rw [Option.bind_some]
      by_cases h3 : argc < 3
      · rw [if_neg (Nat.not_le.mpr h3)]
        simp only [if_pos h3]
        exact ⟨hload, rfl, rfl⟩
      rw [if_pos (Nat.not_lt.mp h3)]
      simp only [if_neg h3]
      cases hb : argv 2 with
      | none =>
        rw [run_ask_bind_none hb, Option.bind_none]
        exact ⟨hload, rfl, rfl⟩
      | some b =>
        rw [state_ask_bind_some hb, Option.bind_some]
        cases hc : argv 3 with
        | none =>
          rw [run_ask_bind_none hc, Option.map_none]
          exact ⟨hload, rfl, rfl⟩
        | some c =>
          rw [state_ask_bind_some hc, Option.map_some]
          exact ⟨hload, hi, rfl, rfl, rfl⟩

/-- An `AT+KEY_CFG` line loads the keys, and may put one in the place of its pin. -/
theorem atCmdKeyCfg_cases (argc : ℕ) (argv : ℕ → Option Text) (w : Node n σ) :
    ((atCmdKeyCfg C argc).run argv w).state.keyCfgLoaded = true ∧
    ((assignedPin argc argv = none ∧
        ((atCmdKeyCfg C argc).run argv w).state.keyCfg = loadedKeys (C := C) w) ∨
      ∃ i c, assignedPin argc argv = some i ∧ OwnPin i c ∧ c.last = 0 ∧
        ((atCmdKeyCfg C argc).run argv w).state.keyCfg =
          Function.update (loadedKeys (C := C) w) i c) := by
  obtain ⟨hload, hrun⟩ := run_keyCfg (C := C) argc argv w
  refine ⟨hload, ?_⟩
  rw [assignedPin_eq, ← keyCfg_keyCfgReady]
  cases hkey : enteredKey argc argv with
  | none =>
    rw [hkey] at hrun
    exact Or.inl ⟨rfl, hrun.1⟩
  | some r =>
    rw [hkey] at hrun
    obtain ⟨hpin, hlast, hkeys, -⟩ := hrun
    exact Or.inr ⟨r.1, r.2, rfl, ownPin_keyIndex hpin _ _ _, hlast, hkeys⟩

theorem atCmdKeyCfg_entry (argc : ℕ) (argv : ℕ → Option Text) (w : Node n σ) (i : Fin 2) :
    let c := ((atCmdKeyCfg C argc).run argv w).state.keyCfg i
    (assignedPin argc argv ≠ some i ∧ c = loadedKeys (C := C) w i) ∨
      (assignedPin argc argv = some i ∧ OwnPin i c ∧ c.last = 0) := by
  obtain ⟨-, ⟨hnone, hkeys⟩ | ⟨j, c, hsome, hown, hlast, hkeys⟩⟩ :=
    atCmdKeyCfg_cases (C := C) argc argv w
  · simp only [hkeys, hnone]
    exact Or.inl ⟨nofun, trivial⟩
  · simp only [hkeys, hsome, Option.some.injEq]
    by_cases hij : i = j
    · subst hij
      rw [Function.update_self]
      exact Or.inr ⟨rfl, hown, hlast⟩
    · rw [Function.update_of_ne hij]
      exact Or.inl ⟨fun h => hij (Option.some.inj h).symm, rfl⟩

end Assignment

section Invariant

variable {C}

/-- What `key_cfg` says of the pins. -/
structure DeskInv (d : Desk n σ) : Prop where
  own : ∀ i, (d.node.keyCfg i).kc ≠ 0 → OwnPin i (d.node.keyCfg i)
  last : ∀ i, (d.node.keyCfg i).last ≠ 0 ↔ Known d i
  unloaded : d.node.keyCfgLoaded = false → ∀ i, (d.node.keyCfg i).kc = 0

theorem deskInv_boot (w : Node n σ) : DeskInv (Desk.boot w) where
  own := by
    intro i h
    exact absurd rfl h
  last := by
    intro i
    simp [Desk.boot, Known]
  unloaded := fun _ _ => rfl

theorem sample_eq {b : Buttons} {i : Fin 2} {c : KeyCfg} (h : OwnPin i c) :
    (if c.pin = 38 then b.button1 else b.button3) = b.pin i := by
  unfold Buttons.pin
  by_cases hi : i = 0
  · rw [if_pos hi, if_pos (h.mpr hi)]
  · rw [if_neg hi, if_neg (mt h.mp hi)]

theorem polledKey_off {b : Buttons} {c : KeyCfg} (h : c.kc = 0) : polledKey b c = c := if_pos h

theorem polledKey_on {b : Buttons} {i : Fin 2} {c : KeyCfg} (h : c.kc ≠ 0) (ho : OwnPin i c) :
    polledKey b c = { c with last := if b.pin i then 1 else 0 } := by
  unfold polledKey
  rw [if_neg h, sample_eq ho]

theorem polledKey_kc (b : Buttons) (c : KeyCfg) : (polledKey b c).kc = c.kc := by
  unfold polledKey
  split_ifs <;> rfl

theorem DeskInv.poll {d : Desk n σ} (h : DeskInv d) (b : Buttons) :
    DeskInv (step C d (.poll b)) where
  own := by
    intro i hkc
    simp only [step, poll_keyCfg, polledKey_kc] at hkc ⊢
    rw [polledKey_on hkc (h.own i hkc)]
    exact h.own i hkc
  last := by
    intro i
    simp only [step, Known, poll_keyCfg, polledKey_kc]
    by_cases hkc : (d.node.keyCfg i).kc = 0
    · have hlast := mt (h.last i).mp fun hk => hk.1 hkc
      simp [polledKey_off hkc, hkc, hlast]
    · rw [polledKey_on hkc (h.own i hkc)]
      cases b.pin i <;> simp [hkc]
  unloaded := by
    intro hl i
    simp only [step, poll_keyCfg, poll_loaded, polledKey_kc] at hl ⊢
    exact h.unloaded hl i

/-- The keys before an assignment, and which of them the last poll knew. -/
theorem DeskInv.loaded {d : Desk n σ} (h : DeskInv d) (i : Fin 2) :
    ((loadedKeys (C := C) d.node i).kc ≠ 0 → OwnPin i (loadedKeys (C := C) d.node i)) ∧
    ((loadedKeys (C := C) d.node i).last ≠ 0 ↔ d.node.keyCfgLoaded = true ∧ Known d i) := by
  unfold loadedKeys
  by_cases hl : d.node.keyCfgLoaded = true
  · simp only [hl, if_true, true_and]
    exact ⟨h.own i, h.last i⟩
  · have hkc := h.unloaded (Bool.eq_false_iff.mpr hl) i
    have hlast : (d.node.keyCfg i).last = 0 :=
      not_not.mp (mt (h.last i).mp fun hk => hk.1 hkc)
    rw [if_neg hl]
    exact ⟨fun _ => keyCfgLoad_ownPin d.node i, by simp [keyCfgLoad_last, hlast, hl]⟩

theorem DeskInv.keyCfg {d : Desk n σ} (h : DeskInv d) (argc : ℕ) (argv : ℕ → Option Text) :
    DeskInv (step C d (.keyCfg argc argv)) where
  own := by
    intro i hkc
    rcases atCmdKeyCfg_entry (C := C) argc argv d.node i with ⟨-, heq⟩ | ⟨-, hown, -⟩
    · simp only [AtCmds.step, heq] at hkc ⊢
      exact (h.loaded i).1 hkc
    · exact hown
  last := by
    intro i
    rcases atCmdKeyCfg_entry (C := C) argc argv d.node i with ⟨hno, heq⟩ | ⟨hi, -, hlast⟩
    · simp only [AtCmds.step, Known, heq, (h.loaded i).2, hno]
      by_cases hl : d.node.keyCfgLoaded = true
      · simp [loadedKeys, hl]
      · simp [hl]
    · simp [AtCmds.step, Known, hlast, hi]
  unloaded := by
    intro hl
    have hloaded := (atCmdKeyCfg_cases (C := C) argc argv d.node).1
    exact absurd (hl.symm.trans hloaded) (by decide)

theorem DeskInv.step {d : Desk n σ} (h : DeskInv d) (e : Event n σ) : DeskInv (step C d e) := by
  cases e with
  | poll b => exact h.poll b
  | keyCfg argc argv => exact h.keyCfg argc argv
  | other w => exact ⟨h.own, h.last, h.unloaded⟩

theorem keyReports_on {b : Buttons} {i : Fin 2} {c : KeyCfg} (h : c.kc ≠ 0) (ho : OwnPin i c) :
    keyReports b c =
      if b.pin i = true ∧ c.last = 0 then [⟨c.mods, Report.rest.keys⟩, .press 0 c.kc]
      else if b.pin i = false ∧ c.last ≠ 0 then [.rest, .rest]
      else [] := by
  unfold keyReports
  simp only [sample_eq ho, if_neg h]

theorem press_ne_rest (mods : UInt8) {kc : UInt8} (h : kc ≠ 0) : Report.press mods kc ≠ .rest := by
  intro heq
  have hk := congrArg (fun r : Report => r.keys[0]) heq
  exact h hk

/-- A round sends the all-zero report when its press ends, or between a press and its key. -/
theorem mem_keyReports_rest {d : Desk n σ} (h : DeskInv d) (b : Buttons) (i : Fin 2) :
    Report.rest ∈ keyReports b (d.node.keyCfg i) ↔ SendsRest d b i := by
  unfold SendsRest
  by_cases hkc : (d.node.keyCfg i).kc = 0
  · simp [keyReports, hkc]
  have hlast := h.last i
  rw [keyReports_on hkc (h.own i hkc)]
  by_cases hk : Known d i
  · have hne := hlast.mpr hk
    cases b.pin i <;> simp [hkc, hk, hne]
  · have heq := not_not.mp (mt hlast.mp hk)
    have hpress := (press_ne_rest 0 hkc).symm
    have hmods : Report.rest = ⟨(d.node.keyCfg i).mods, Report.rest.keys⟩ ↔
        (d.node.keyCfg i).mods = 0 := by
      simp [Report.rest, eq_comm]
    cases b.pin i <;> simp [hkc, hk, heq, hpress, hmods]

/-- The report with a key has no modifiers. -/
theorem mods_of_mem_keyReports {b : Buttons} {c : KeyCfg} {r : Report} (h : r ∈ keyReports b c)
    {kc : UInt8} (hkc : kc ≠ 0) (hr : kc ∈ r.keys) : r.mods = 0 := by
  have hrest : kc ∉ Report.rest.keys := by
    simp [Report.rest, hkc]
  simp only [keyReports] at h
  generalize (if c.pin = 38 then b.button1 else b.button3) = now at h
  split_ifs at h
  · simp at h
  · simp only [List.mem_cons, List.not_mem_nil, or_false] at h
    rcases h with rfl | rfl
    · exact absurd hr hrest
    · rfl
  · simp only [List.mem_cons, List.not_mem_nil, or_false, or_self] at h
    rw [h] at hr
    exact absurd hr hrest
  · simp at h

theorem chord_iff {d : Desk n σ} (h : DeskInv d) {b : Buttons} {i : Fin 2} (hp : PressEdge d b i) :
    (∃ r ∈ (hwsKeyCfgPoll C b d.node).reports, Chord (d.node.keyCfg i) r) ↔
      (d.node.keyCfg i).mods = 0 := by
  obtain ⟨hnow, hheld, hkc⟩ := hp
  constructor
  · rintro ⟨r, hr, hmods, hkey⟩
    obtain ⟨j, hj⟩ := mem_poll_reports.mp hr
    rw [mods_of_mem_keyReports hj hkc hkey] at hmods
    simpa using hmods.symm
  · intro hmods
    have hlast : (d.node.keyCfg i).last = 0 := by
      refine not_not.mp (mt (h.last i).mp fun hk => ?_)
      exact absurd (hheld.symm.trans hk.2.1) (by decide)
    refine ⟨.press 0 (d.node.keyCfg i).kc, mem_poll_reports.mpr ⟨i, ?_⟩, ?_, ?_⟩
    · rw [keyReports_on hkc (h.own i hkc), if_pos ⟨hnow, hlast⟩]
      simp
    · simp [Report.press, hmods]
    · simp [Report.press]

end Invariant

/-- Every press edge sends its chord and every press is released exactly in the runs whose press
edges have no modifiers and whose presses end while their pin has the key of the poll before. -/
theorem key_chord_iff (w : Node n σ) (es : List (Event n σ)) :
    Run.Along (step C) (ChordLaw C) (Desk.boot w) es ↔
      Run.Along (step C) ChordCondition (Desk.boot w) es := by
  apply Run.along_iff_of_inv (I := DeskInv) (fun d e h => h.step e) ?_ (deskInv_boot w)
  intro d e h
  cases e with
  | poll b =>
    unfold ChordLaw ChordCondition
    apply forall_congr'
    intro i
    apply and_congr
    · exact forall_congr' fun hp => chord_iff h hp
    · refine forall_congr' fun _ => forall_congr' fun _ => ?_
      rw [mem_poll_reports]
      exact exists_congr fun j => mem_keyReports_rest h b j
  | keyCfg argc argv => exact Iff.rfl
  | other w => exact Iff.rfl

def keyCfgLine3 (pin mods kc : String) : Event 1 Unit :=
  .keyCfg 4 fun i => [bytes "AT+KEY_CFG", bytes pin, bytes mods, bytes kc][i]?

/-- The modifier and the key come in different reports; and the key that `AT+KEY_CFG=38,0,0`
disables stays down. -/
theorem shifted_key_has_no_chord :
    ¬ Run.Along (step bareChip) (ChordLaw bareChip) (Desk.boot bareNode)
        [keyCfgLine3 "38" "2" "4", .poll ⟨true, false⟩] ∧
      ¬ Run.Along (step bareChip) (ChordLaw bareChip) (Desk.boot bareNode)
        [keyCfgLine3 "38" "0" "4", .poll ⟨true, false⟩, keyCfgLine3 "38" "0" "0",
          .poll ⟨false, false⟩] := by
  constructor
  · intro h
    have hchord := (h.2.1 0).1 (by decide +kernel)
    exact absurd hchord (by decide +kernel)
  · intro h
    have hrest := (h.2.2.2.1 0).2 (by decide +kernel) (by decide)
    exact absurd hrest (by decide +kernel)

end AtNode.AtCmds
