import AtNode.Ch582.FactoryDefaults
import AtNode.Ch582.KeyChord

/-!
# The configured keys over a restart

The keys are in RAM, where the poll uses them, and on a page of the flash, from which the first
`AT+KEY_CFG` after a start loads them. Until then RAM has no keys. `AT+FACTORY` erases the page in the
builds with a keyboard role and restarts the chip.

In a run of commands, resets, polls and restarts a pin should have the last key it was given since the
last factory reset, or its default. It is proved at which polls the pins have these keys.
-/

namespace AtNode.KeyPersistence

open AtCmds ArgProgram CString Run

variable {n : ℕ} {σ : Type}

section Page

/-- The chip with its page of keys beside the rest of its state; the page reads back what was written
behind an erase. -/
def withKeyPage (C : Chip n σ) : Chip n (σ × Text) where
  build := C.build
  ble := C.ble
  gap s := C.gap s.1
  usbReady s := C.usbReady s.1
  send s := C.send s.1
  sendReport os r s := (C.sendReport os r s.1, s.2)
  slotParams s := C.slotParams s.1
  slotSecure s := C.slotSecure s.1
  slotNotify s := C.slotNotify s.1
  forgetBonds s := (C.forgetBonds s.1, s.2)
  eraseBond a s := (C.eraseBond a s.1, s.2)
  wdgArmed s := C.wdgArmed s.1
  wdgArm s := (C.wdgArm s.1, s.2)
  wdgDisarm s := (C.wdgDisarm s.1, s.2)
  eepromRead off len s :=
    if off = appKeycfgFlashAddr then s.2.take len else C.eepromRead off len s.1
  eepromErase off len s :=
    if off = appKeycfgFlashAddr then (true, (s.1, List.replicate 8 0xFF))
    else
      let r := C.eepromErase off len s.1
      (r.1, (r.2, s.2))
  eepromWrite off buf s :=
    if off = appKeycfgFlashAddr then (true, (s.1, buf ++ s.2.drop buf.length))
    else
      let r := C.eepromWrite off buf s.1
      (r.1, (r.2, s.2))
  eraseApp s := (C.eraseApp s.1, s.2)
  gpioOut pin level drive s := (C.gpioOut pin level drive s.1, s.2)
  gpioIn pin mode s :=
    let r := C.gpioIn pin mode s.1
    (r.1, (r.2, s.2))
  adcSample ch pga s :=
    let r := C.adcSample ch pga s.1
    (r.1, (r.2, s.2))
  temp s := C.temp s.1
  celsius := C.celsius
  battMv s := C.battMv s.1
  clock s := C.clock s.1
  ledOnOff v s := (C.ledOnOff v s.1, s.2)
  i2cInit s := (C.i2cInit s.1, s.2)
  i2cProbe a s :=
    let r := C.i2cProbe a s.1
    (r.1, (r.2, s.2))
  i2cRead a reg len s :=
    let r := C.i2cRead a reg len s.1
    (r.1, (r.2, s.2))
  i2cWrite a reg data s :=
    let r := C.i2cWrite a reg data s.1
    (r.1, (r.2, s.2))
  sleep mode sec s := (C.sleep mode sec s.1, s.2)
  startStatus s := C.startStatus s.1
  passkey code s := (C.passkey code s.1, s.2)
  listBonds s := C.listBonds s.1

/-- The modifiers and the key of a pin. -/
structure Key where
  mods : UInt8
  kc : UInt8
  deriving DecidableEq

def keyOf (c : KeyCfg) : Key := ⟨c.mods, c.kc⟩

def defaultKey (i : Fin 2) : Key := if i = 0 then ⟨0, 0x3A⟩ else ⟨0, 0x28⟩

/-- What a load makes of the page. -/
def storedKey (page : Text) (i : Fin 2) : Key :=
  if page.take 4 = keyCfgMagic then
    if i = 0 then ⟨page.getD 4 0, page.getD 5 0⟩ else ⟨page.getD 6 0, page.getD 7 0⟩
  else defaultKey i

/-- The key as the poll uses it: with the key code 0 the pin is passed over. -/
def Key.inForce (k : Key) : Option Key := if k.kc = 0 then none else some k

end Page

section Runs

structure Station (n : ℕ) (σ : Type) where
  node : Node n (σ × Text)
  /-- The key of each pin since the last factory reset. -/
  assigned : Fin 2 → Key
  /-- The key of each pin since its page was erased. -/
  saved : Fin 2 → Key
  /-- An `AT+KEY_CFG` has come since the start. -/
  asked : Bool

inductive Event (n : ℕ) (σ : Type) where
  | keyCfg (argc : ℕ) (argv : ℕ → Option Text)
  | factory
  | poll (b : Buttons)
  | reboot
  /-- Everything else of the node becomes that of `w`. -/
  | other (w : Node n (σ × Text))

/-- The pin and the key of an accepted line. -/
def assignment (argc : ℕ) (argv : ℕ → Option Text) : Option (Fin 2 × Key) :=
  if 3 ≤ argc then
    (argv 1).bind fun a => (keyIndex (toU8 (atoi a))).bind fun i =>
      (argv 2).bind fun b => (argv 3).map fun c => (i, ⟨toU8 (atoi b), toU8 (atoi c)⟩)
  else none

def assign (keys : Fin 2 → Key) : Option (Fin 2 × Key) → Fin 2 → Key
  | none => keys
  | some (i, k) => Function.update keys i k

variable (C : Chip n σ)

def step (s : Station n σ) : Event n σ → Station n σ
  | .keyCfg argc argv =>
    { node := ((atCmdKeyCfg (withKeyPage C) argc).run argv s.node).state
      assigned := assign s.assigned (assignment argc argv)
      saved := assign s.saved (assignment argc argv)
      asked := true }
  | .factory =>
    { node := restarted (withKeyPage C)
        ((atCmdFactory (withKeyPage C)).run (fun _ => none) s.node).state
      assigned := defaultKey
      saved := if C.build.hasKbd then defaultKey else s.saved
      asked := false }
  | .poll b => { s with node := (hwsKeyCfgPoll (withKeyPage C) b s.node).node }
  | .reboot => { s with node := restarted (withKeyPage C) s.node, asked := false }
  | .other w =>
    { s with node := { w with
        keyCfg := s.node.keyCfg
        keyCfgLoaded := s.node.keyCfgLoaded
        rest := (w.rest.1, s.node.rest.2) } }

/-- A page no keys were saved on. -/
structure BlankPage where
  page : Text
  blank : page.take 4 ≠ keyCfgMagic

def Station.boot (w : Node n (σ × Text)) (page : BlankPage) : Station n σ where
  node := restarted (withKeyPage C) { w with rest := (w.rest.1, page.page) }
  assigned := defaultKey
  saved := defaultKey
  asked := false

/-- Each pin has its key when it is polled. -/
def KeyLaw (s : Station n σ) : Event n σ → Prop
  | .poll _ => ∀ i, (keyOf (s.node.keyCfg i)).inForce = (s.assigned i).inForce
  | _ => True

/-- An `AT+KEY_CFG` has come since the start and the keys saved are those since the factory reset, or
none has come and the pin has no key. -/
def KeyCondition (s : Station n σ) : Event n σ → Prop
  | .poll _ => ∀ i,
    if s.asked then (s.saved i).inForce = (s.assigned i).inForce else (s.assigned i).kc = 0
  | _ => True

end Runs

section Steps

variable (C : Chip n σ)

theorem keyOf_polledKey (b : Buttons) (c : KeyCfg) : keyOf (polledKey b c) = keyOf c := by
  unfold polledKey
  split_ifs <;> rfl

theorem pollKey_page (b : Buttons) (i : Fin 2) (p : Polled n (σ × Text)) :
    (pollKey (withKeyPage C) b i p).node.rest.2 = p.node.rest.2 := by
  unfold pollKey
  by_cases hkc : (p.node.keyCfg i).kc = 0
  · simp only [if_pos hkc]
  · simp only [if_neg hkc]
    split_ifs <;> rfl

theorem poll_page (b : Buttons) (w : Node n (σ × Text)) :
    (hwsKeyCfgPoll (withKeyPage C) b w).node.rest.2 = w.rest.2 := by
  unfold hwsKeyCfgPoll
  rw [pollKey_page, pollKey_page]

theorem keyCfgLoad_keys (w : Node n (σ × Text)) (i : Fin 2) :
    keyOf ((keyCfgLoad (withKeyPage C) w).keyCfg i) = storedKey (w.rest.2.take 8) i := by
  have hread : (withKeyPage C).eepromRead appKeycfgFlashAddr 8 w.rest = w.rest.2.take 8 := rfl
  rw [keyCfgLoad, hread, storedKey]
  dsimp only
  have hpin : i = 0 ∨ i = 1 := by omega
  by_cases hmagic : (w.rest.2.take 8).take 4 = keyCfgMagic
  · rw [if_pos hmagic, if_pos hmagic]
    rcases hpin with rfl | rfl <;> rfl
  · rw [if_neg hmagic, if_neg hmagic]
    rcases hpin with rfl | rfl <;> rfl

theorem storedKey_save (k : Fin 2 → Key) (i : Fin 2) :
    storedKey (keyCfgMagic ++ [(k 0).mods, (k 0).kc, (k 1).mods, (k 1).kc]) i = k i := by
  have hmagic (buf : Text) : (keyCfgMagic ++ buf).take 4 = keyCfgMagic := rfl
  rw [storedKey, if_pos (hmagic _)]
  obtain rfl | rfl : i = 0 ∨ i = 1 := by omega
  · rfl
  · rfl

theorem factory_page (w : Node n (σ × Text)) (argv : ℕ → Option Text) :
    ((atCmdFactory (withKeyPage C)).run argv w).state.rest.2 =
      if C.build.hasKbd then List.replicate 8 0xFF else w.rest.2 := by
  have hbuild : (withKeyPage C).build = C.build := rfl
  unfold atCmdFactory
  rw [hbuild]
  cases C.build.hasKbd <;> cases C.build.hasDongle <;> rfl

theorem keyCfgReady_page (w : Node n (σ × Text)) : (keyCfgReady (withKeyPage C) w).rest = w.rest := by
  unfold keyCfgReady
  split_ifs <;> rfl

/-- What an accepted line leaves: the key in RAM, and all keys on the page. -/
structure Accepted (w v : Node n (σ × Text)) (i : Fin 2) (k : Key) : Prop where
  own : keyOf (v.keyCfg i) = k
  others : ∀ j, j ≠ i → v.keyCfg j = w.keyCfg j
  page : v.rest.2 = keyCfgMagic ++
    [(v.keyCfg 0).mods, (v.keyCfg 0).kc, (v.keyCfg 1).mods, (v.keyCfg 1).kc]

theorem assignment_eq (argc : ℕ) (argv : ℕ → Option Text) :
    assignment argc argv = (enteredKey argc argv).map fun r => (r.1, keyOf r.2) := by
  unfold assignment enteredKey
  by_cases h3 : 3 ≤ argc
  · rw [if_pos h3, if_pos h3]
    cases argv 1 with
    | none => rfl
    | some a =>
      cases hi : keyIndex (toU8 (atoi a)) with
      | none => simp [hi]
      | some i => cases argv 2 <;> cases argv 3 <;> simp [hi, keyOf]
  · rw [if_neg h3, if_neg h3]
    rfl

theorem run_atCmdKeyCfg (argc : ℕ) (argv : ℕ → Option Text) (w : Node n (σ × Text)) :
    let v := ((atCmdKeyCfg (withKeyPage C) argc).run argv w).state
    v.keyCfgLoaded = true ∧
      match assignment argc argv with
      | none => v.keyCfg = (keyCfgReady (withKeyPage C) w).keyCfg ∧ v.rest = w.rest
      | some (i, k) => Accepted (keyCfgReady (withKeyPage C) w) v i k := by
  obtain ⟨hload, hrun⟩ := run_keyCfg (C := withKeyPage C) argc argv w
  refine ⟨hload, ?_⟩
  rw [assignment_eq]
  cases hkey : enteredKey argc argv with
  | none =>
    rw [hkey] at hrun
    exact ⟨hrun.1, hrun.2.trans (keyCfgReady_page C w)⟩
  | some r =>
    rw [hkey] at hrun
    obtain ⟨-, -, hkeys, hrest⟩ := hrun
    refine ⟨?_, fun j hj => ?_, ?_⟩
    · rw [hkeys, Function.update_self]
    · rw [hkeys]
      exact Function.update_of_ne hj _ _
    · rw [hrest, hkeys]
      rfl

/-- The page and RAM have the keys that were saved, RAM only once it was asked for them. -/
structure StationInv (s : Station n σ) : Prop where
  page : ∀ i, storedKey (s.node.rest.2.take 8) i = s.saved i
  loaded : s.node.keyCfgLoaded = s.asked
  ram : s.asked = true → ∀ i, keyOf (s.node.keyCfg i) = s.saved i
  empty : s.asked = false → ∀ i, (s.node.keyCfg i).kc = 0

variable {C} {s : Station n σ}

theorem stationInv_boot (w : Node n (σ × Text)) (page : BlankPage) :
    StationInv (Station.boot C w page) where
  page i := by
    have htake : (page.page.take 8).take 4 = page.page.take 4 := List.take_take
    change storedKey (page.page.take 8) i = _
    rw [storedKey, htake, if_neg page.blank]
    rfl
  loaded := rfl
  ram h := by cases h
  empty _ _ := rfl

theorem stationInv_restarted {v : Node n (σ × Text)} {assigned saved : Fin 2 → Key}
    (h : ∀ i, storedKey (v.rest.2.take 8) i = saved i) :
    StationInv ⟨restarted (withKeyPage C) v, assigned, saved, false⟩ where
  page := h
  loaded := rfl
  ram h := by cases h
  empty _ _ := rfl

theorem StationInv.loadedKeys (h : StationInv s) (i : Fin 2) :
    keyOf ((keyCfgReady (withKeyPage C) s.node).keyCfg i) = s.saved i := by
  unfold keyCfgReady
  split_ifs with hl
  · exact h.ram (h.loaded ▸ hl) i
  · change keyOf ((keyCfgLoad (withKeyPage C) s.node).keyCfg i) = _
    rw [keyCfgLoad_keys, h.page]

theorem StationInv.keyCfg (h : StationInv s) (argc : ℕ) (argv : ℕ → Option Text) :
    StationInv (step C s (.keyCfg argc argv)) := by
  obtain ⟨hload, hrun⟩ := run_atCmdKeyCfg C argc argv s.node
  change StationInv ⟨((atCmdKeyCfg (withKeyPage C) argc).run argv s.node).state, _,
    assign s.saved (assignment argc argv), true⟩
  generalize ((atCmdKeyCfg (withKeyPage C) argc).run argv s.node).state = v at hload hrun ⊢
  have hkeys (j : Fin 2) : keyOf (v.keyCfg j) = assign s.saved (assignment argc argv) j ∧
      storedKey (v.rest.2.take 8) j = assign s.saved (assignment argc argv) j := by
    cases hassign : assignment argc argv with
    | none =>
      rw [hassign] at hrun
      obtain ⟨hkeys, hrest⟩ := hrun
      rw [hkeys, hrest]
      exact ⟨h.loadedKeys j, h.page j⟩
    | some r =>
      rw [hassign] at hrun
      have hassigned : keyOf (v.keyCfg j) = Function.update s.saved r.1 r.2 j := by
        by_cases hj : j = r.1
        · rw [hj, Function.update_self, hrun.own]
        · rw [Function.update_of_ne hj, hrun.others j hj, h.loadedKeys j]
      refine ⟨hassigned, ?_⟩
      have hpage := storedKey_save (fun j => keyOf (v.keyCfg j)) j
      rw [hrun.page]
      exact hpage.trans hassigned
  exact ⟨fun j => (hkeys j).2, hload, fun _ j => (hkeys j).1, fun hasked => by cases hasked⟩

theorem StationInv.step (h : StationInv s) (e : Event n σ) : StationInv (step C s e) := by
  cases e with
  | keyCfg argc argv => exact h.keyCfg argc argv
  | factory =>
    refine stationInv_restarted fun i => ?_
    rw [factory_page]
    split_ifs
    · rfl
    · exact h.page i
  | poll b =>
    refine ⟨fun i => ?_, ?_, fun hasked i => ?_, fun hasked i => ?_⟩
    · change storedKey ((hwsKeyCfgPoll (withKeyPage C) b s.node).node.rest.2.take 8) i = _
      rw [poll_page]
      exact h.page i
    · exact (poll_loaded b s.node).trans h.loaded
    · change keyOf ((hwsKeyCfgPoll (withKeyPage C) b s.node).node.keyCfg i) = _
      rw [poll_keyCfg, keyOf_polledKey]
      exact h.ram hasked i
    · change ((hwsKeyCfgPoll (withKeyPage C) b s.node).node.keyCfg i).kc = _
      rw [poll_keyCfg, polledKey_kc]
      exact h.empty hasked i
  | reboot => exact stationInv_restarted h.page
  | other w => exact ⟨h.page, h.loaded, h.ram, h.empty⟩

theorem keyLaw_iff (h : StationInv s) (e : Event n σ) : KeyLaw s e ↔ KeyCondition s e := by
  cases e with
  | poll b =>
    refine forall_congr' fun i => ?_
    cases hasked : s.asked with
    | false =>
      have hnone : (keyOf (s.node.keyCfg i)).inForce = none := if_pos (h.empty hasked i)
      rw [hnone, if_neg Bool.false_ne_true, Key.inForce]
      split_ifs with hkc
      · exact iff_of_true rfl hkc
      · exact iff_of_false nofun hkc
    | true => rw [h.ram hasked i, if_pos rfl]
  | _ => exact Iff.rfl

/-- At every poll of a run the pins have the keys they were given exactly when an `AT+KEY_CFG` has
come since the start and the page was erased by the last factory reset, or the keys agree anyway. -/
theorem key_persistence_iff (C : Chip n σ) (w : Node n (σ × Text)) (page : BlankPage)
    (es : List (Event n σ)) :
    Along (step C) KeyLaw (Station.boot C w page) es ↔
      Along (step C) KeyCondition (Station.boot C w page) es :=
  along_iff_of_inv (fun _ e h => StationInv.step h e) (fun _ e h => keyLaw_iff h e)
    (stationInv_boot w page)

end Steps

section Fresh

def freshPage : BlankPage := ⟨List.replicate 8 0xFF, by decide⟩

def freshNode : Node 1 (Unit × Text) := { bareNode with rest := ((), []) }

def shiftedA : Event 1 Unit :=
  .keyCfg 4 fun i => [bytes "AT+KEY_CFG", bytes "38", bytes "2", bytes "4"][i]?

/-- The key that was saved is not there after the restart. -/
theorem saved_key_lost :
    assignment 4 (fun i => [bytes "AT+KEY_CFG", bytes "38", bytes "2", bytes "4"][i]?) =
      some (0, ⟨2, 4⟩) ∧
    ¬ Along (step bareChip) KeyLaw (Station.boot bareChip freshNode freshPage)
      [shiftedA, .reboot, .poll ⟨true, false⟩] := by
  refine ⟨by decide +kernel, fun h => ?_⟩
  have hpoll := h.2.2.1 0
  exact absurd hpoll (by decide +kernel)

end Fresh

end AtNode.KeyPersistence
