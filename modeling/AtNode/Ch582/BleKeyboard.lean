import AtNode.Lib.Run
import AtNode.Ch582.BleSlots

/-!
# The BLE keyboard as an event-driven machine

The events are the link events and role states the BLE stack reports, the two timers, the AT
commands about slots, and power. The stack reports a link under a handle no live link has, and it
keeps a link alive until it reports its end, whether or not the firmware asked for the end.

Multi-host builds keep one link: a host whose slot is not selected is dropped when it connects, and
a change of the selected slot ends the other links. Single-host builds never drop a host.
-/

namespace AtNode.Ble

open Memory Router

variable {n : ℕ}

section Advertising

abbrev advInd : UInt8 := 0x00

abbrev advHdcDirectInd : UInt8 := 0x01

def kbBleAdvertWanted (kbTarget : UInt8) : Bool := kbTarget &&& kbTgtBleAll ≠ 0

def advertise (k : Keyboard n) (want : Bool) (evtType : UInt8) : Keyboard n :=
  { k with air := { k.air with
      advertEnabled := want
      advEventType := evtType
      advRearmEvt := want && k.pairSlot.isNone } }

def kbdAdvUpdate (k : Keyboard n) : Keyboard n :=
  if k.pairSlot.isSome ∧ kbBleAdvertWanted k.kbTarget then advertise k true advInd
  else if 0 < kbBleConnCount k then advertise k false advInd
  else match activeSlot n k.kbTarget with
    | none => advertise k false advInd
    | some act =>
      if (1 < n → ¬ LooksFree (k.slotmap act)) ∧ kbBleAdvertWanted k.kbTarget then
        advertise
          { k with air := { k.air with
              advDirectType := k.slottype act
              advDirectAddr := k.slotmap act } } true advHdcDirectInd
      else advertise k false advInd

def kbBleApplyAddr (b : Board) (k : Keyboard n) (slot : Option (Fin n)) : Keyboard n :=
  let k' := kbdNameUpdate b k
  match slot.or (List.finRange n).head? with
  | none => k'
  | some s =>
    { k' with air := { k'.air with
        deviceAddr := k.slotmac s
        stackAdvertData := k'.air.advertData
        advertEnabled := true } }

end Advertising

section Policy

def kbBlePairOpen (k : Keyboard n) (slot : Option (Fin n)) : Keyboard n :=
  let k' := kbdAdvUpdate { k with pairSlot := slot }
  { k' with air := { k'.air with pairWindowEvt := true } }

abbrev Selected (k : Keyboard n) (s : Fin n) : Prop := k.kbTarget &&& slotBit s ≠ 0

def kbdPolicyDrop (k : Keyboard n) (addr : Addr) : Bool :=
  if 1 < n then
    match slotmapFind k.toTables addr with
    | none => k.pairSlot.isNone
    | some s => ¬ Selected k s
  else false

def pointAt (b : Board) (k : Keyboard n) : Option (Fin n) → Keyboard n
  | none =>
    kbdAdvUpdate <|
      if k.pairSlot.isSome then
        { k with pairSlot := none, air := { k.air with pairWindowEvt := false } }
      else k
  | some s => kbBleApplyAddr b k (some s)

def kbBleActivateSlot (b : Board) (k : Keyboard n) (slot : Option (Fin n)) : Keyboard n :=
  if 1 < n then pointAt b (terminateLinks k (handlesOf k fun s => some s ≠ slot)) slot
  else match slot with
    | some s =>
      if ConnFree k s then pointAt b k (some s) else terminateLinks k [(k.conns s).handle]
    | none => pointAt b k none

end Policy

section Commands

def atCmdDev (b : Board) (k : Keyboard n) (argv : List (List UInt8)) : Keyboard n × Int :=
  if argv.length < 2 then (k, 0)
  else match devTarget n argv with
    | none => (k, -1)
    | some m =>
      let k' := { k with kbTarget := m }
      if m &&& kbTgtBleAll ≠ 0 then
        match activeSlot n m with
        | some s => (kbBleActivateSlot b k' (some s), 0)
        | none => (k', 0)
      else (kbBleActivateSlot b k' none, 0)

/-- `KB_TGT_BLE1 << slot`; the shift by −1 leaves nothing in the low byte. -/
def targetOf : Option (Fin n) → UInt8
  | some s => slotBit s
  | none => 0

def pairInto (b : Board) (k : Keyboard n) (slot : Option (Fin n)) : Keyboard n :=
  kbBlePairOpen (kbBleActivateSlot b { k with kbTarget := targetOf slot } slot) slot

def unbindNamed (b : Board) (k : Keyboard n) (slot : Option (Fin n)) : Keyboard n :=
  match slot with
  | some s => (kbBleUnbindSlot b k s).1
  | none => k

def btPairKbd (b : Board) (k : Keyboard n) (argv : List (List UInt8)) : Keyboard n × Int :=
  if argv.length < 2 then
    match activeSlot n k.kbTarget with
    | none => (k, -1)
    | some s => (pairInto b k (some s), 0)
  else
    let m := devTargetParse (argv.getD 1 [])
    if m &&& kbTgtBleAll = 0 then (k, -1)
    else
      let slot := (bleSlots n m).getLast?
      (pairInto b (unbindNamed b k slot) slot, 0)

def overSlots (f : Keyboard n → Fin n → Keyboard n × Int) (k : Keyboard n) :
    List (Fin n) → Keyboard n × ℕ
  | [] => (k, 0)
  | s :: ss =>
    let r := f k s
    let rest := overSlots f r.1 ss
    (rest.1, rest.2 + if r.2 = 0 then 1 else 0)

def btUnbindKbd (b : Board) (k : Keyboard n) (argv : List (List UInt8)) : Keyboard n × Int :=
  let m := devTargetParse (argv.getD 1 [])
  if argv.length < 2 ∨ m &&& kbTgtBleAll = 0 then (k, -1)
  else
    let r := overSlots (kbBleUnbindSlot b) k (bleSlots n m)
    (r.1, if r.2 = 0 then -1 else 0)

def btDiscKbd (k : Keyboard n) (argv : List (List UInt8)) : Keyboard n × Int :=
  if argv.length < 2 then kbBleDisconnect k
  else
    let m := devTargetParse (argv.getD 1 [])
    if m &&& kbTgtBleAll = 0 then (k, -1)
    else
      let r := overSlots kbBleDisconnectSlot k (bleSlots n m)
      (r.1, if r.2 = 0 then -1 else 0)

end Commands

section Boot

def zeroAddr : Addr := fun _ => 0

def advertDataInit : ℕ → UInt8 := fun i =>
  ([0x02, 0x01, 0x06, 0x03, 0x19, 0xC1, 0x03, 0x01, 0x09] : List UInt8).getD i 0

def bss (page : ℕ → UInt8) : Keyboard n where
  slotmap _ := zeroAddr
  slotname _ _ := 0
  slotpace _ := 0
  slotmac _ := zeroAddr
  slottype _ := 0
  conns _ := ⟨connHandleInit, zeroAddr⟩
  pairSlot := none
  kbTarget := kbTgtBle1
  page := page
  links := []
  air :=
    { attDeviceName := fun _ => 0
      advertData := advertDataInit
      stackAdvertData := fun _ => 0
      advertEnabled := false
      advEventType := advInd
      advDirectType := 0
      advDirectAddr := zeroAddr
      deviceAddr := zeroAddr
      pairWindowEvt := false
      advRearmEvt := false }

def bleHidEmuInit (b : Board) (page : ℕ → UInt8) : Keyboard n :=
  let k := kbdNameUpdate b (slotmapLoad b (kbdNameUpdate b (bss page)))
  { k with air := { k.air with stackAdvertData := k.air.advertData, advertEnabled := true } }

def atCmdFactory (b : Board) (k : Keyboard n) : Keyboard n :=
  bleHidEmuInit b (kbBleFactoryReset b (kbBleDisconnect k).1).page

end Boot

section Machine

inductive Event where
  | linkEstablished (handle : UInt16) (addr : Addr) (addrType : UInt8)
  | linkTerminated (handle : UInt16) (newState : UInt8)
  | roleState (newState : UInt8)
  | pairWindowEvt
  | advRearmEvt
  | dev (argv : List (List UInt8))
  | btPair (argv : List (List UInt8))
  | btUnbind (argv : List (List UInt8))
  | btDisc (argv : List (List UInt8))
  | setName (slot : UInt8) (name : List UInt8)
  | setPace (slot : UInt8) (ms : UInt16)
  | setMac (slot : UInt8) (addr : Addr)
  | factoryReset
  | factory
  | powerCycle

abbrev gaproleStarted : UInt8 := 1

abbrev gaproleWaiting : UInt8 := 3

def roleSwitch (b : Board) (k : Keyboard n) (newState : UInt8) : Keyboard n :=
  if newState &&& 0xF = gaproleStarted then kbBleApplyAddr b k (activeSlot n k.kbTarget)
  else if newState &&& 0xF = gaproleWaiting then kbdAdvUpdate k
  else k

def stateCbEstablished (b : Board) (k : Keyboard n) (handle : UInt16) (addr : Addr)
    (addrType : UInt8) : Keyboard n :=
  if kbdPolicyDrop k addr then terminateLinks k [handle]
  else match kbdSlotAlloc b k handle addr with
    | (k', some s) => kbdSlotSetType b k' s addrType
    | (k', none) => terminateLinks k' [handle]

def vacate (k : Keyboard n) (slot : Option (Fin n)) : Keyboard n :=
  match slot with
  | some s => occupy k s connHandleInit (k.conns s).addr
  | none => k

def stateCbTerminated (b : Board) (k : Keyboard n) (handle : UInt16) (newState : UInt8) :
    Keyboard n :=
  roleSwitch b (kbdAdvUpdate (vacate k (kbdSlotOf k handle))) newState

/-- A handle the stack can give to a new link. -/
def FreshHandle (k : Keyboard n) (handle : UInt16) : Prop :=
  handle ≠ connHandleInit ∧ ∀ l ∈ k.links, l.handle ≠ handle

instance (k : Keyboard n) (handle : UInt16) : Decidable (FreshHandle k handle) := by
  unfold FreshHandle
  infer_instance

def addLink (k : Keyboard n) (handle : UInt16) : Keyboard n :=
  { k with links := ⟨handle, false⟩ :: k.links }

def step (b : Board) (k : Keyboard n) : Event → Keyboard n
  | .linkEstablished handle addr addrType =>
    if FreshHandle k handle then stateCbEstablished b (addLink k handle) handle addr addrType else k
  | .linkTerminated handle newState =>
    stateCbTerminated b { k with links := k.links.filter fun l => l.handle ≠ handle }
      handle newState
  | .roleState newState => roleSwitch b k newState
  | .pairWindowEvt =>
    kbdAdvUpdate { k with pairSlot := none, air := { k.air with pairWindowEvt := false } }
  | .advRearmEvt => kbdAdvUpdate k
  | .dev argv => (atCmdDev b k argv).1
  | .btPair argv => (btPairKbd b k argv).1
  | .btUnbind argv => (btUnbindKbd b k argv).1
  | .btDisc argv => (btDiscKbd k argv).1
  | .setName slot name => (kbBleSlotSetName b k slot name).1
  | .setPace slot ms => (kbBleSlotSetPace b k slot ms).1
  | .setMac slot addr => (kbBleSlotSetMac b k slot addr).1
  | .factoryReset => kbBleFactoryReset b k
  | .factory => atCmdFactory b k
  | .powerCycle => bleHidEmuInit b k.page

end Machine

section Effects

variable (b : Board) (k : Keyboard n)

theorem kbdAdvUpdate_eq : ∃ a, kbdAdvUpdate k = { k with air := a } := by
  unfold kbdAdvUpdate
  split
  · exact ⟨_, rfl⟩
  split
  · exact ⟨_, rfl⟩
  split
  · exact ⟨_, rfl⟩
  split
  · exact ⟨_, rfl⟩
  · exact ⟨_, rfl⟩

theorem kbBleApplyAddr_eq (slot : Option (Fin n)) :
    ∃ a, kbBleApplyAddr b k slot = { k with air := a } := by
  obtain ⟨a, ha⟩ := kbdNameUpdate_eq b k
  unfold kbBleApplyAddr
  rw [ha]
  split
  · exact ⟨a, rfl⟩
  · exact ⟨_, rfl⟩

theorem bleHidEmuInit_eq (page : ℕ → UInt8) :
    ∃ a, (bleHidEmuInit b page : Keyboard n) =
      { (bss page : Keyboard n) with toTables := loadTables b.mac page fun _ => 0, air := a } := by
  obtain ⟨a, ha⟩ := kbdNameUpdate_eq b (bss page : Keyboard n)
  obtain ⟨a', ha'⟩ := kbdNameUpdate_eq b (slotmapLoad b { (bss page : Keyboard n) with air := a })
  unfold bleHidEmuInit
  rw [ha, ha']
  exact ⟨_, rfl⟩

theorem kbBlePairOpen_eq (slot : Option (Fin n)) :
    ∃ a, kbBlePairOpen k slot = { k with pairSlot := slot, air := a } := by
  obtain ⟨a, ha⟩ := kbdAdvUpdate_eq { k with pairSlot := slot }
  unfold kbBlePairOpen
  rw [ha]
  exact ⟨_, rfl⟩

theorem pointAt_eq (slot : Option (Fin n)) :
    ∃ p a, pointAt b k slot = { k with pairSlot := p, air := a } := by
  cases slot with
  | some s =>
    obtain ⟨a, ha⟩ := kbBleApplyAddr_eq b k (some s)
    exact ⟨k.pairSlot, a, ha⟩
  | none =>
    by_cases hp : k.pairSlot.isSome
    · obtain ⟨a, ha⟩ := kbdAdvUpdate_eq
        { k with pairSlot := none, air := { k.air with pairWindowEvt := false } }
      rw [pointAt, if_pos hp]
      exact ⟨none, a, ha⟩
    · obtain ⟨a, ha⟩ := kbdAdvUpdate_eq k
      rw [pointAt, if_neg hp]
      exact ⟨k.pairSlot, a, ha⟩

def dropped (k : Keyboard n) (slot : Option (Fin n)) : List UInt16 :=
  if 1 < n then handlesOf k fun s => some s ≠ slot
  else match slot with
    | some s => if ConnFree k s then [] else [(k.conns s).handle]
    | none => []

theorem kbBleActivateSlot_eq (slot : Option (Fin n)) :
    ∃ p a, kbBleActivateSlot b k slot =
      { k with links := (terminateLinks k (dropped k slot)).links, pairSlot := p, air := a } := by
  unfold kbBleActivateSlot dropped
  by_cases hn : 1 < n
  · rw [if_pos hn, if_pos hn]
    exact pointAt_eq b _ slot
  · rw [if_neg hn, if_neg hn]
    cases slot with
    | none =>
      rw [terminateLinks_nil]
      exact pointAt_eq b k none
    | some s =>
      by_cases hf : ConnFree k s
      · simp only [if_pos hf, terminateLinks_nil]
        exact pointAt_eq b k (some s)
      · simp only [if_neg hf]
        exact ⟨k.pairSlot, k.air, rfl⟩

theorem pairInto_eq (slot : Option (Fin n)) :
    ∃ a, pairInto b k slot =
      { k with
        kbTarget := targetOf slot
        links := (terminateLinks k (dropped k slot)).links
        pairSlot := slot
        air := a } := by
  obtain ⟨p, a, ha⟩ := kbBleActivateSlot_eq b { k with kbTarget := targetOf slot } slot
  unfold pairInto
  rw [ha]
  exact kbBlePairOpen_eq _ slot

theorem roleSwitch_eq (newState : UInt8) : ∃ a, roleSwitch b k newState = { k with air := a } := by
  unfold roleSwitch
  split
  · exact kbBleApplyAddr_eq b k _
  split
  · exact kbdAdvUpdate_eq k
  · exact ⟨k.air, rfl⟩

theorem kbdSlotSetType_eq (s : Fin n) (type : UInt8) :
    ∃ ty p a, kbdSlotSetType b k s type = { k with slottype := ty, page := p, air := a } := by
  unfold kbdSlotSetType
  split
  · obtain ⟨a, ha⟩ := slotmapSave_eq b { k with slottype := Function.update k.slottype s type }
    exact ⟨_, _, a, ha⟩
  · exact ⟨k.slottype, k.page, k.air, rfl⟩

end Effects

section Targets

def targets : List UInt8 := [0, kbTgtUsb, kbTgtBle1, kbTgtBle2, kbTgtBle3]

theorem slotBit_of_le {s : ℕ} (h : 7 ≤ s) : slotBit s = 0 := by
  obtain ⟨d, rfl⟩ := Nat.exists_eq_add_of_le h
  apply UInt8.toNat_inj.mp
  rw [slotBit, UInt8.toNat_ofNat', Nat.shiftLeft_eq, Nat.pow_add]
  simp only [UInt8.toNat_zero]
  omega

theorem lt_seven_of_and_slotBit {m : UInt8} {s : ℕ} (h : m &&& slotBit s ≠ 0) : s < 7 := by
  by_contra hs
  rw [slotBit_of_le (Nat.le_of_not_lt hs), UInt8.and_zero] at h
  exact h rfl

theorem target_unique {m : UInt8} (hm : m ∈ targets) {s t : Fin n} (hs : m &&& slotBit s ≠ 0)
    (ht : m &&& slotBit t ≠ 0) : s = t := by
  have hfin : ∀ m ∈ targets, ∀ i < 7, m &&& slotBit i ≠ 0 →
      ∀ j < 7, m &&& slotBit j ≠ 0 → i = j := by
    decide +kernel
  exact Fin.ext (hfin m hm s (lt_seven_of_and_slotBit hs) hs t (lt_seven_of_and_slotBit ht) ht)

theorem slotBit_mem_targets {m : UInt8} (hm : m ∈ targets) {s : Fin n} (hs : m &&& slotBit s ≠ 0) :
    slotBit s ∈ targets := by
  have hfin : ∀ m ∈ targets, ∀ i < 7, m &&& slotBit i ≠ 0 → slotBit i ∈ targets := by
    decide +kernel
  exact hfin m hm s (lt_seven_of_and_slotBit hs) hs

theorem activeSlot_none_of_usb {m : UInt8} (hm : m ∈ targets) (h : m &&& kbTgtBleAll = 0) :
    activeSlot n m = none := by
  have hfin : ∀ m ∈ targets, m &&& kbTgtBleAll = 0 → ∀ i < 7, m &&& slotBit i = 0 := by
    decide +kernel
  rw [activeSlot_eq_none]
  intro s
  by_contra hs
  exact hs (hfin m hm h s (lt_seven_of_and_slotBit hs))

theorem devTargetParse_mem (s : List UInt8) : devTargetParse s ∈ targets := by
  have hfin : ∀ i < 3, slotBit i ∈ targets := by
    decide
  unfold devTargetParse
  split
  · exact List.mem_cons_of_mem _ List.mem_cons_self
  split
  · exact List.mem_cons_of_mem _ (List.mem_cons_of_mem _ List.mem_cons_self)
  split
  · rename_i d _ _
    split
    · rename_i hd
      have hlt : (d - '1'.toUInt8).toNat < 3 := by
        have h1 : ('1'.toUInt8).toNat ≤ d.toNat := UInt8.le_iff_toNat_le.mp hd.2.1
        have h3 : d.toNat ≤ ('3'.toUInt8).toNat := UInt8.le_iff_toNat_le.mp hd.2.2
        rw [UInt8.toNat_sub_of_le _ _ hd.2.1]
        have e1 : ('1'.toUInt8).toNat = 49 := rfl
        have e3 : ('3'.toUInt8).toNat = 51 := rfl
        omega
      exact hfin _ hlt
    · exact List.mem_cons_self
  · exact List.mem_cons_self

theorem devTarget_some {argv : List (List UInt8)} {m : UInt8} (h : devTarget n argv = some m) :
    2 ≤ argv.length ∧ m ∈ targets ∧ m &&& ~~~ validTargets n = 0 := by
  unfold devTarget at h
  simp only [Option.ite_none_left_eq_some, not_or, not_lt, not_not, Option.some.injEq] at h
  obtain ⟨⟨hl, _, hv⟩, rfl⟩ := h
  exact ⟨hl, devTargetParse_mem _, hv⟩

theorem slots_zero_of_activeSlot_none {m : UInt8} (hm : m ∈ targets)
    (hv : m &&& ~~~ validTargets n = 0) (hb : m &&& kbTgtBleAll ≠ 0) (h : activeSlot n m = none) :
    n = 0 := by
  by_contra hn
  have hz := activeSlot_eq_none.mp h
  simp only [targets, List.mem_cons, List.not_mem_nil, or_false] at hm
  rcases hm with rfl | rfl | rfl | rfl | rfl
  · exact hb rfl
  · exact hb rfl
  · exact (by decide : kbTgtBle1 &&& slotBit 0 ≠ 0) (hz ⟨0, by omega⟩)
  · by_cases h2 : 2 ≤ n
    · exact (by decide : kbTgtBle2 &&& slotBit 1 ≠ 0) (hz ⟨1, by omega⟩)
    · have h3 : ¬ 3 ≤ n := by omega
      rw [validTargets, if_neg h2, if_neg h3] at hv
      exact absurd hv (by decide)
  · by_cases h3 : 3 ≤ n
    · exact (by decide : kbTgtBle3 &&& slotBit 2 ≠ 0) (hz ⟨2, by omega⟩)
    · rw [validTargets, if_neg h3] at hv
      by_cases h2 : 2 ≤ n
      · rw [if_pos h2] at hv
        exact absurd hv (by decide)
      · rw [if_neg h2] at hv
        exact absurd hv (by decide)

theorem atCmdDev_none (b : Board) {k : Keyboard n} {argv : List (List UInt8)}
    (h : devTarget n argv = none) : (atCmdDev b k argv).1 = k := by
  unfold atCmdDev
  split
  · rfl
  · rw [h]

theorem atCmdDev_some (b : Board) (k : Keyboard n) {argv : List (List UInt8)} {m : UInt8}
    (h : devTarget n argv = some m) :
    ∃ p a, (atCmdDev b k argv).1 =
      { k with
        kbTarget := m
        links := (terminateLinks k (dropped k (activeSlot n m))).links
        pairSlot := p
        air := a } := by
  obtain ⟨hl, hm, hv⟩ := devTarget_some h
  unfold atCmdDev
  rw [if_neg (Nat.not_lt.mpr hl), h]
  by_cases hb : m &&& kbTgtBleAll = 0
  · simp only [hb, ne_eq, not_true_eq_false, if_false, activeSlot_none_of_usb hm hb]
    exact kbBleActivateSlot_eq b { k with kbTarget := m } none
  · simp only [ne_eq, hb, not_false_eq_true, if_true]
    cases ha : activeSlot n m with
    | some s => exact kbBleActivateSlot_eq b { k with kbTarget := m } (some s)
    | none =>
      have hn := slots_zero_of_activeSlot_none hm hv hb ha
      have hd : dropped k none = [] := if_neg (by omega)
      rw [hd, terminateLinks_nil]
      exact ⟨k.pairSlot, k.air, rfl⟩

end Targets

section Ending

/-- Links may be asked to end; who holds which slot and the target stay. -/
structure Ends (k k' : Keyboard n) : Prop where
  conns : k'.conns = k.conns
  kbTarget : k'.kbTarget = k.kbTarget
  links : ∃ handles, k'.links = (terminateLinks k handles).links

theorem Ends.refl (k : Keyboard n) : Ends k k :=
  ⟨rfl, rfl, [], by rw [terminateLinks_nil]⟩

theorem Ends.trans {k k' k'' : Keyboard n} (h : Ends k k') (h' : Ends k' k'') : Ends k k'' := by
  obtain ⟨hs, he⟩ := h.links
  obtain ⟨hs', he'⟩ := h'.links
  refine ⟨h'.conns.trans h.conns, h'.kbTarget.trans h.kbTarget, hs ++ hs', ?_⟩
  rw [he', ← terminateLinks_append]
  simp only [terminateLinks, he]

theorem Ends.of_eq {k k' : Keyboard n} (hc : k'.conns = k.conns) (ht : k'.kbTarget = k.kbTarget)
    (hl : k'.links = k.links) : Ends k k' :=
  ⟨hc, ht, [], by rw [terminateLinks_nil]; exact hl⟩

theorem ends_terminate (k : Keyboard n) (hs : List UInt16) : Ends k (terminateLinks k hs) :=
  ⟨rfl, rfl, hs, rfl⟩

theorem overSlots_inv {f : Keyboard n → Fin n → Keyboard n × Int} {P : Keyboard n → Prop}
    (hf : ∀ k s, P k → P (f k s).1) {k : Keyboard n} (hk : P k) (ss : List (Fin n)) :
    P (overSlots f k ss).1 := by
  induction ss generalizing k with
  | nil => exact hk
  | cons s ss ih => exact ih (hf k s hk)

theorem ends_overSlots {f : Keyboard n → Fin n → Keyboard n × Int}
    (hf : ∀ k s, Ends k (f k s).1) (k : Keyboard n) (ss : List (Fin n)) :
    Ends k (overSlots f k ss).1 :=
  overSlots_inv (fun k' s h => h.trans (hf k' s)) (Ends.refl k) ss

theorem ends_unbind (b : Board) (k : Keyboard n) (s : Fin n) :
    Ends k (kbBleUnbindSlot b k s).1 := by
  by_cases h : k.slotmap s 0 = 0xFF
  · rw [kbBleUnbindSlot_free h]
    exact Ends.refl k
  · obtain ⟨hs, a, he⟩ := kbBleUnbindSlot_bound b h
    rw [he]
    exact ⟨rfl, rfl, hs, rfl⟩

theorem ends_disconnectSlot (k : Keyboard n) (s : Fin n) : Ends k (kbBleDisconnectSlot k s).1 := by
  unfold kbBleDisconnectSlot
  split
  · exact Ends.refl k
  · exact ends_terminate k _

theorem ends_disc (k : Keyboard n) (argv : List (List UInt8)) : Ends k (btDiscKbd k argv).1 := by
  unfold btDiscKbd kbBleDisconnect
  split
  · split
    · exact Ends.refl k
    · exact ends_terminate k _
  · dsimp only
    split
    · exact Ends.refl k
    · exact ends_overSlots ends_disconnectSlot k _

theorem ends_btUnbind (b : Board) (k : Keyboard n) (argv : List (List UInt8)) :
    Ends k (btUnbindKbd b k argv).1 := by
  unfold btUnbindKbd
  dsimp only
  split
  · exact Ends.refl k
  · exact ends_overSlots (ends_unbind b) k _

theorem ends_unbindNamed (b : Board) (k : Keyboard n) (slot : Option (Fin n)) :
    Ends k (unbindNamed b k slot) := by
  cases slot with
  | none => exact Ends.refl k
  | some s => exact ends_unbind b k s

theorem ends_air {k : Keyboard n} {k' : Keyboard n} (h : ∃ a, k' = { k with air := a }) :
    Ends k k' := by
  obtain ⟨a, rfl⟩ := h
  exact Ends.of_eq rfl rfl rfl

theorem ends_setType (b : Board) (k : Keyboard n) (s : Fin n) (type : UInt8) :
    Ends k (kbdSlotSetType b k s type) := by
  obtain ⟨ty, p, a, he⟩ := kbdSlotSetType_eq b k s type
  rw [he]
  exact Ends.of_eq rfl rfl rfl

theorem ends_factoryReset (b : Board) (k : Keyboard n) : Ends k (kbBleFactoryReset b k) := by
  unfold kbBleFactoryReset slotmapLoad
  exact Ends.of_eq rfl rfl rfl

theorem ends_setters (b : Board) (k : Keyboard n) :
    (∀ slot name, Ends k (kbBleSlotSetName b k slot name).1) ∧
    (∀ slot ms, Ends k (kbBleSlotSetPace b k slot ms).1) ∧
    ∀ slot addr, Ends k (kbBleSlotSetMac b k slot addr).1 := by
  refine ⟨fun slot name => ?_, fun slot ms => ?_, fun slot addr => ?_⟩
  · unfold kbBleSlotSetName
    split
    · exact Ends.refl k
    dsimp only
    split <;> exact Ends.of_eq rfl rfl rfl
  · unfold kbBleSlotSetPace
    split
    · exact Ends.refl k
    split <;> exact Ends.of_eq rfl rfl rfl
  · unfold kbBleSlotSetMac
    split
    · exact Ends.refl k
    split <;> exact Ends.of_eq rfl rfl rfl

def Event.quiet : Event → Bool
  | .linkEstablished .. | .linkTerminated .. | .dev _ | .btPair _ | .factory | .powerCycle => false
  | _ => true

theorem ends_pairWindow (b : Board) (k : Keyboard n) : Ends k (step b k .pairWindowEvt) := by
  obtain ⟨a, ha⟩ := kbdAdvUpdate_eq
    { k with pairSlot := none, air := { k.air with pairWindowEvt := false } }
  rw [step, ha]
  exact Ends.of_eq rfl rfl rfl

theorem ends_quiet (b : Board) (k : Keyboard n) {e : Event} (he : e.quiet = true) :
    Ends k (step b k e) := by
  cases e with
  | linkEstablished | linkTerminated | dev | btPair | factory | powerCycle =>
    exact absurd he Bool.false_ne_true
  | roleState newState => exact ends_air (roleSwitch_eq b k newState)
  | pairWindowEvt => exact ends_pairWindow b k
  | advRearmEvt => exact ends_air (kbdAdvUpdate_eq k)
  | btUnbind argv => exact ends_btUnbind b k argv
  | btDisc argv => exact ends_disc k argv
  | setName slot name => exact (ends_setters b k).1 slot name
  | setPace slot ms => exact (ends_setters b k).2.1 slot ms
  | setMac slot addr => exact (ends_setters b k).2.2 slot addr
  | factoryReset => exact ends_factoryReset b k

def named (n : ℕ) (argv : List (List UInt8)) : List (Fin n) :=
  if argv.length < 2 ∨ devTargetParse (argv.getD 1 []) &&& kbTgtBleAll = 0 then []
  else bleSlots n (devTargetParse (argv.getD 1 []))

def NoSuchSlot (n : ℕ) (argv : List (List UInt8)) : Prop :=
  2 ≤ argv.length ∧ devTargetParse (argv.getD 1 []) &&& kbTgtBleAll ≠ 0 ∧
    bleSlots n (devTargetParse (argv.getD 1 [])) = []

def pairUnbound (b : Board) (k : Keyboard n) (argv : List (List UInt8)) : Keyboard n :=
  unbindNamed b k (named n argv).getLast?

theorem btPairKbd_cases (b : Board) (k : Keyboard n) (argv : List (List UInt8)) :
    (btPairKbd b k argv).1 = pairUnbound b k argv ∨
    (∃ s, (btPairKbd b k argv).1 = pairInto b (pairUnbound b k argv) (some s) ∧
      (k.kbTarget &&& slotBit s ≠ 0 ∨ devTargetParse (argv.getD 1 []) &&& slotBit s ≠ 0)) ∨
    (NoSuchSlot n argv ∧ (btPairKbd b k argv).1 = pairInto b (pairUnbound b k argv) none) := by
  unfold btPairKbd pairUnbound named
  by_cases hl : argv.length < 2
  · rw [if_pos hl, if_pos (Or.inl hl)]
    cases ha : activeSlot n k.kbTarget with
    | none => exact Or.inl rfl
    | some s => exact Or.inr (Or.inl ⟨s, rfl, Or.inl (selected_of_activeSlot ha)⟩)
  · rw [if_neg hl]
    by_cases hb : devTargetParse (argv.getD 1 []) &&& kbTgtBleAll = 0
    · rw [if_pos (Or.inr hb)]
      exact Or.inl (congrArg Prod.fst (if_pos hb))
    · simp only [hl, hb, or_false, if_false]
      cases hs : (bleSlots n (devTargetParse (argv.getD 1 []))).getLast? with
      | none =>
        exact Or.inr (Or.inr ⟨⟨Nat.le_of_not_lt hl, hb, List.getLast?_eq_none_iff.mp hs⟩, rfl⟩)
      | some s =>
        have hm := mem_bleSlots.mp (List.mem_of_getLast? hs)
        exact Or.inr (Or.inl ⟨s, rfl, Or.inr hm⟩)

theorem btPairKbd_noSuchSlot (b : Board) (k : Keyboard n) {argv : List (List UInt8)}
    (h : NoSuchSlot n argv) : (btPairKbd b k argv).1 = pairInto b k none := by
  obtain ⟨hl, hb, hs⟩ := h
  unfold btPairKbd
  simp only [if_neg (Nat.not_lt.mpr hl), if_neg hb, hs, List.getLast?_nil]
  rfl

end Ending

section Linked

/-- A slot that is in use holds a live link of its own. -/
structure Linked (k : Keyboard n) : Prop where
  handles : ∀ l ∈ k.links, l.handle ≠ connHandleInit
  live : ∀ s, ¬ ConnFree k s → Live k (k.conns s).handle
  distinct : ∀ s t, ¬ ConnFree k s → (k.conns s).handle = (k.conns t).handle → s = t

theorem linked_of_terminate {k k' : Keyboard n} (hk : Linked k) (hc : k'.conns = k.conns)
    (hl : ∃ hs, k'.links = (terminateLinks k hs).links) : Linked k' := by
  obtain ⟨hs, hl⟩ := hl
  have hlive : ∀ h, Live k' h ↔ Live k h := fun h => by
    have heq : Live k' h ↔ Live (terminateLinks k hs) h := by rw [Live, hl, Live]
    exact heq.trans live_terminateLinks
  refine ⟨fun l hm => ?_, fun s hs => ?_, fun s t hs he => ?_⟩
  · obtain ⟨l', hm', he⟩ := (hlive l.handle).mp ⟨l, hm, rfl⟩
    rw [← he]
    exact hk.handles l' hm'
  · rw [ConnFree, hc] at hs
    rw [hlive, hc]
    exact hk.live s hs
  · rw [ConnFree, hc] at hs
    rw [hc] at he
    exact hk.distinct s t hs he

theorem Linked.ends {k k' : Keyboard n} (hk : Linked k) (he : Ends k k') : Linked k' :=
  linked_of_terminate hk he.conns he.links

theorem Linked.fresh {k : Keyboard n} (hk : Linked k) {handle : UInt16}
    (hf : FreshHandle k handle) : kbdSlotOf k handle = none := by
  rw [kbdSlotOf_none]
  intro s hs
  have hfree : ¬ ConnFree k s := fun h => hf.1 (hs.symm.trans h)
  obtain ⟨l, hl, he⟩ := hk.live s hfree
  exact hf.2 l hl (he.trans hs)

theorem established_cases (b : Board) {k : Keyboard n} (hk : Linked k) {handle : UInt16}
    (hf : FreshHandle k handle) (addr : Addr) (addrType : UInt8) :
    (kbdPolicyDrop k addr = true ∧
      step b k (.linkEstablished handle addr addrType) =
        terminateLinks (addLink k handle) [handle]) ∨
    (kbdPolicyDrop k addr = false ∧ ∃ s, slotmapFind k.toTables addr = some s ∧ ConnFree k s ∧
      step b k (.linkEstablished handle addr addrType) =
        kbdSlotSetType b (occupy (addLink k handle) s handle addr) s addrType) ∨
    (kbdPolicyDrop k addr = false ∧
      (∀ t, slotmapFind k.toTables addr = some t → ¬ ConnFree k t) ∧
      ∃ s, kbdNextPairSlot k = some s ∧ step b k (.linkEstablished handle addr addrType) =
        kbdSlotSetType b (slotmapSave b (reserve (addLink k handle) s handle addr)) s addrType) ∨
    (kbdPolicyDrop k addr = false ∧
      (∀ t, slotmapFind k.toTables addr = some t → ¬ ConnFree k t) ∧
      kbdNextPairSlot k = none ∧
      step b k (.linkEstablished handle addr addrType) =
        terminateLinks (addLink k handle) [handle]) := by
  have hh : kbdSlotOf (addLink k handle) handle = none := hk.fresh hf
  rw [step, if_pos hf]
  unfold stateCbEstablished
  cases hd : kbdPolicyDrop k addr with
  | true => exact Or.inl ⟨rfl, if_pos hd⟩
  | false =>
    have hd' : kbdPolicyDrop (addLink k handle) addr = false := hd
    simp only [hd', Bool.false_eq_true, if_false, false_and, true_and, false_or]
    by_cases hr : ∃ s, slotmapFind k.toTables addr = some s ∧ ConnFree k s
    · obtain ⟨s, hs, hf⟩ := hr
      rw [kbdSlotAlloc_reclaim (k := addLink k handle) hh hs hf]
      exact Or.inl ⟨s, hs, hf, rfl⟩
    · have hb : ∀ t, slotmapFind k.toTables addr = some t → ¬ ConnFree k t :=
        fun t ht hf => hr ⟨t, ht, hf⟩
      cases hn : kbdNextPairSlot k with
      | some s =>
        rw [kbdSlotAlloc_new (k := addLink k handle) hh hb hn]
        exact Or.inr (Or.inl ⟨hb, s, rfl, rfl⟩)
      | none =>
        rw [kbdSlotAlloc_full (k := addLink k handle) hh hb hn]
        exact Or.inr (Or.inr ⟨hb, rfl, rfl⟩)

theorem occupy_self (k : Keyboard n) (s : Fin n) (handle : UInt16) (addr : Addr) :
    ((occupy k s handle addr).conns s) = ⟨handle, addr⟩ := Function.update_self _ _ _

theorem occupy_of_ne (k : Keyboard n) {s t : Fin n} (hts : t ≠ s) (handle : UInt16) (addr : Addr) :
    ((occupy k s handle addr).conns t) = k.conns t := Function.update_of_ne hts _ _

theorem linked_occupy {k : Keyboard n} (hk : Linked k) {s : Fin n} {handle : UInt16} {addr : Addr}
    (hl : Live k handle) (hnew : kbdSlotOf k handle = none) : Linked (occupy k s handle addr) := by
  have hne := kbdSlotOf_none.mp hnew
  refine ⟨hk.handles, fun t ht => ?_, fun t u ht he => ?_⟩
  · by_cases hts : t = s
    · rw [hts, occupy_self]
      exact hl
    · rw [ConnFree, occupy_of_ne k hts] at ht
      rw [occupy_of_ne k hts]
      exact hk.live t ht
  · by_cases hts : t = s
    · by_cases hus : u = s
      · rw [hts, hus]
      · rw [hts, occupy_self, occupy_of_ne k hus] at he
        exact absurd he.symm (hne u)
    · rw [ConnFree, occupy_of_ne k hts] at ht
      by_cases hus : u = s
      · rw [hus, occupy_self, occupy_of_ne k hts] at he
        exact absurd he (hne t)
      · rw [occupy_of_ne k hts, occupy_of_ne k hus] at he
        exact hk.distinct t u ht he

theorem linked_addLink {k : Keyboard n} (hk : Linked k) {handle : UInt16}
    (hf : handle ≠ connHandleInit) : Linked (addLink k handle) := by
  refine ⟨fun l hl => ?_, fun s hs => ?_, hk.distinct⟩
  · rcases List.mem_cons.mp hl with rfl | hl
    · exact hf
    · exact hk.handles l hl
  · obtain ⟨l, hl, he⟩ := hk.live s hs
    exact ⟨l, List.mem_cons_of_mem _ hl, he⟩

theorem linked_established (b : Board) {k : Keyboard n} (hk : Linked k) {handle : UInt16}
    (hf : FreshHandle k handle) (addr : Addr) (addrType : UInt8) :
    Linked (step b k (.linkEstablished handle addr addrType)) := by
  have hk' := linked_addLink hk hf.1
  have hocc : ∀ s, Linked (occupy (addLink k handle) s handle addr) := fun s =>
    linked_occupy hk' ⟨_, List.mem_cons_self, rfl⟩ (hk.fresh hf)
  rcases established_cases b hk hf addr addrType with
    ⟨_, he⟩ | ⟨_, s, _, _, he⟩ | ⟨_, _, s, _, he⟩ | ⟨_, _, _, he⟩
  · rw [he]
    exact hk'.ends (ends_terminate _ _)
  · rw [he]
    exact (hocc s).ends (ends_setType b _ s addrType)
  · have hres : Linked (slotmapSave b (reserve (addLink k handle) s handle addr)) :=
      (hocc s).ends (Ends.of_eq rfl rfl rfl)
    rw [he]
    exact hres.ends (ends_setType b _ s addrType)
  · rw [he]
    exact hk'.ends (ends_terminate _ _)

/-- What is left when the link with this handle is gone. -/
def unlink (k : Keyboard n) (handle : UInt16) : Keyboard n :=
  vacate { k with links := k.links.filter fun l => l.handle ≠ handle } (kbdSlotOf k handle)

theorem terminated_eq (b : Board) (k : Keyboard n) (handle : UInt16) (newState : UInt8) :
    ∃ a, step b k (.linkTerminated handle newState) = { unlink k handle with air := a } := by
  obtain ⟨a, ha⟩ := kbdAdvUpdate_eq (unlink k handle)
  have he : step b k (.linkTerminated handle newState) =
      roleSwitch b { unlink k handle with air := a } newState := by
    rw [← ha]
    rfl
  rw [he]
  exact roleSwitch_eq b _ newState

theorem unlink_conns {k : Keyboard n} (hk : Linked k) (handle : UInt16) (s : Fin n) :
    ((unlink k handle).conns s).handle =
      if (k.conns s).handle = handle then connHandleInit else (k.conns s).handle := by
  cases hs : kbdSlotOf k handle with
  | none =>
    rw [if_neg (kbdSlotOf_none.mp hs s), unlink, hs]
    rfl
  | some t =>
    have ht := kbdSlotOf_some hs
    rw [unlink, hs]
    by_cases hst : s = t
    · rw [hst, if_pos ht, vacate, occupy_self]
    · rw [vacate, occupy_of_ne _ hst]
      by_cases he : (k.conns s).handle = handle
      · rw [if_pos he]
        by_contra hf
        exact hst (hk.distinct s t hf (he.trans ht.symm))
      · rw [if_neg he]

theorem unlink_links (k : Keyboard n) (handle : UInt16) :
    (unlink k handle).links = k.links.filter fun l => l.handle ≠ handle := by
  cases hs : kbdSlotOf k handle <;> rw [unlink, hs] <;> rfl

theorem unlink_kbTarget (k : Keyboard n) (handle : UInt16) :
    (unlink k handle).kbTarget = k.kbTarget := by
  cases hs : kbdSlotOf k handle <;> rw [unlink, hs] <;> rfl

theorem unlink_toTables (k : Keyboard n) (handle : UInt16) :
    (unlink k handle).toTables = k.toTables ∧ (unlink k handle).page = k.page := by
  cases hs : kbdSlotOf k handle <;> rw [unlink, hs] <;> exact ⟨rfl, rfl⟩

theorem linked_unlink {k : Keyboard n} (hk : Linked k) (handle : UInt16) :
    Linked (unlink k handle) := by
  have hused : ∀ s, ¬ ConnFree (unlink k handle) s →
      ¬ ConnFree k s ∧ (k.conns s).handle ≠ handle := by
    intro s hs
    rw [ConnFree, unlink_conns hk] at hs
    by_cases he : (k.conns s).handle = handle
    · rw [if_pos he] at hs
      exact absurd rfl hs
    · rw [if_neg he] at hs
      exact ⟨hs, he⟩
  refine ⟨fun l hl => ?_, fun s hs => ?_, fun s t hs he => ?_⟩
  · rw [unlink_links] at hl
    exact hk.handles l (List.mem_filter.mp hl).1
  · obtain ⟨hf, hne⟩ := hused s hs
    obtain ⟨l, hl, he⟩ := hk.live s hf
    rw [unlink_conns hk, if_neg hne]
    refine ⟨l, ?_, he⟩
    rw [unlink_links, List.mem_filter]
    exact ⟨hl, by simpa [he] using hne⟩
  · obtain ⟨hf, hne⟩ := hused s hs
    rw [unlink_conns hk, unlink_conns hk, if_neg hne] at he
    by_cases ht : (k.conns t).handle = handle
    · rw [if_pos ht] at he
      exact absurd he hf
    · rw [if_neg ht] at he
      exact hk.distinct s t hf he

theorem linked_boot (b : Board) (page : ℕ → UInt8) :
    Linked (bleHidEmuInit b page : Keyboard n) := by
  obtain ⟨a, ha⟩ := bleHidEmuInit_eq b page
  rw [ha]
  exact ⟨fun _ hl => absurd hl (List.not_mem_nil), fun _ hs => absurd rfl hs,
    fun _ _ hs => absurd rfl hs⟩

theorem linked_step (b : Board) (k : Keyboard n) (e : Event) (hk : Linked k) :
    Linked (step b k e) := by
  cases e with
  | linkEstablished handle addr addrType =>
    by_cases hf : FreshHandle k handle
    · exact linked_established b hk hf addr addrType
    · rw [step, if_neg hf]
      exact hk
  | linkTerminated handle newState =>
    obtain ⟨a, ha⟩ := terminated_eq b k handle newState
    rw [ha]
    exact (linked_unlink hk handle).ends (Ends.of_eq rfl rfl rfl)
  | dev argv =>
    rw [step]
    cases hd : devTarget n argv with
    | none =>
      rw [atCmdDev_none b hd]
      exact hk
    | some m =>
      obtain ⟨p, a, he⟩ := atCmdDev_some b k hd
      rw [he]
      exact linked_of_terminate hk rfl ⟨_, rfl⟩
  | btPair argv =>
    rw [step]
    have hk' : Linked (pairUnbound b k argv) := hk.ends (ends_unbindNamed b k _)
    rcases btPairKbd_cases b k argv with he | ⟨s, he, _⟩ | ⟨_, he⟩
    · rw [he]
      exact hk'
    · obtain ⟨a, ha⟩ := pairInto_eq b (pairUnbound b k argv) (some s)
      rw [he, ha]
      exact linked_of_terminate hk' rfl ⟨_, rfl⟩
    · obtain ⟨a, ha⟩ := pairInto_eq b (pairUnbound b k argv) none
      rw [he, ha]
      exact linked_of_terminate hk' rfl ⟨_, rfl⟩
  | factory => exact linked_boot b _
  | powerCycle => exact linked_boot b _
  | _ => exact hk.ends (ends_quiet b k rfl)

end Linked

section Stored

def Event.transient : Event → Bool
  | .linkTerminated .. | .roleState _ | .pairWindowEvt | .advRearmEvt | .dev _ | .btDisc _ => true
  | _ => false

def Stored (k k' : Keyboard n) : Prop := k'.toTables = k.toTables ∧ k'.page = k.page

theorem stored_air {k k' : Keyboard n} (h : ∃ a, k' = { k with air := a }) : Stored k k' := by
  obtain ⟨a, rfl⟩ := h
  exact ⟨rfl, rfl⟩

theorem stored_disc (k : Keyboard n) (argv : List (List UInt8)) :
    Stored k (btDiscKbd k argv).1 := by
  have hslot : ∀ (k' : Keyboard n) (s : Fin n), Stored k k' →
      Stored k (kbBleDisconnectSlot k' s).1 := by
    intro k' s hk
    unfold kbBleDisconnectSlot
    split
    · exact hk
    · exact hk
  unfold btDiscKbd kbBleDisconnect
  split
  · split
    · exact ⟨rfl, rfl⟩
    · exact ⟨rfl, rfl⟩
  · dsimp only
    split
    · exact ⟨rfl, rfl⟩
    · exact overSlots_inv hslot ⟨rfl, rfl⟩ _

theorem stored_dev (b : Board) (k : Keyboard n) (argv : List (List UInt8)) :
    Stored k (atCmdDev b k argv).1 := by
  cases hd : devTarget n argv with
  | none =>
    rw [atCmdDev_none b hd]
    exact ⟨rfl, rfl⟩
  | some m =>
    obtain ⟨p, a, he⟩ := atCmdDev_some b k hd
    rw [he]
    exact ⟨rfl, rfl⟩

theorem stored_transient (b : Board) (k : Keyboard n) {e : Event} (he : e.transient = true) :
    Stored k (step b k e) := by
  cases e with
  | linkTerminated handle newState =>
    obtain ⟨a, ha⟩ := terminated_eq b k handle newState
    rw [ha]
    exact unlink_toTables k handle
  | roleState newState => exact stored_air (roleSwitch_eq b k newState)
  | pairWindowEvt =>
    obtain ⟨a, ha⟩ := kbdAdvUpdate_eq
      { k with pairSlot := none, air := { k.air with pairWindowEvt := false } }
    rw [step, ha]
    exact ⟨rfl, rfl⟩
  | advRearmEvt => exact stored_air (kbdAdvUpdate_eq k)
  | dev argv => exact stored_dev b k argv
  | btDisc argv => exact stored_disc k argv
  | _ => exact absurd he Bool.false_ne_true

theorem stored_btPair (b : Board) (k : Keyboard n) (argv : List (List UInt8)) :
    Stored (pairUnbound b k argv) (btPairKbd b k argv).1 := by
  rcases btPairKbd_cases b k argv with he | ⟨s, he, _⟩ | ⟨_, he⟩
  · rw [he]
    exact ⟨rfl, rfl⟩
  · obtain ⟨a, ha⟩ := pairInto_eq b (pairUnbound b k argv) (some s)
    rw [he, ha]
    exact ⟨rfl, rfl⟩
  · obtain ⟨a, ha⟩ := pairInto_eq b (pairUnbound b k argv) none
    rw [he, ha]
    exact ⟨rfl, rfl⟩

theorem btUnbindKbd_eq (b : Board) (k : Keyboard n) (argv : List (List UInt8)) :
    (btUnbindKbd b k argv).1 = (overSlots (kbBleUnbindSlot b) k (named n argv)).1 := by
  unfold btUnbindKbd named
  dsimp only
  split
  · rfl
  · rfl

end Stored

section Inputs

def pairBle1 : List (List UInt8) :=
  [ascii ['A', 'T', '+', 'B', 'T', '_', 'P', 'A', 'I', 'R'], ascii ['B', 'L', 'E', '1']]

def board : Board := ⟨List.get [0x10, 0x32, 0x54, 0x76, 0x98, 0xC8], fun _ => 0⟩

def host : Addr := List.get [0x01, 0x02, 0x03, 0x04, 0x05, 0xC6]

end Inputs

end AtNode.Ble
