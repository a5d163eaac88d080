import AtNode.Esp32.BondRoundTrip
import AtNode.Esp32.KbdBle

/-!
# Three copies of the BLE bond

The security manager of the stack holds the bonds that it made or was given, `BONDED_ADDR` mirrors
the address of one, and the registry keeps the record of one. A pairing makes a bond in the manager
and then overwrites the other two; a clear erases the record and leaves the rest to the host task,
which has the manager remove the host that the mirror names.

The copies agree when all three denote the last bond that was made and not cleared since. It is
proved exactly which steps lead to a state in which they do not agree once the host task has
finished what it has begun.
-/

namespace AtNode.BondCopies

open KbdBle Config Bond Run

attribute [local irreducible] Config.set

section Model

/-- The bonds of the security manager. It keeps what it made or was given until `remove` names the
host, and has one bond of a host. -/
structure SecurityManager where
  add : List BondInformation → BondInformation → List BondInformation
  remove : List BondInformation → BdAddr → List BondInformation
  mem_add : ∀ {bs b c}, c ∈ add bs b ↔ c = b ∨ c ∈ bs ∧ c.identity.bdAddr ≠ b.identity.bdAddr
  mem_remove : ∀ {bs a c}, c ∈ remove bs a ↔ c ∈ bs ∧ c.identity.bdAddr ≠ a

/-- A bond as the registry gives it back. -/
def kept (b : BondInformation) : BondInformation := { b with isBonded := true }

structure Node where
  ble : State
  bonds : List BondInformation
  /-- The last bond that was made and not cleared since. -/
  owner : Option BondInformation

/-- The bond that `ble.bond` denotes. -/
def persisted (cfg : Cfg) : Option BondInformation := bondDecode (getStr cfg .bleBond)

/-- The bond that waits for the registry. -/
def storing (s : State) : Option BondInformation :=
  match s.phase with
  | .storing b => some b
  | .advertising | .serving _ | .pause => none

/-- The bond of a pairing; it needs a connection that was made bondable. -/
def newBond (s : State) (bond : Option BondInformation) : Option BondInformation :=
  match s.phase with
  | .serving true => bond
  | .serving false | .advertising | .storing _ | .pause => none

/-- Where the host task takes the signal of `clear_bond`. -/
def takesClear (s : State) : Bool :=
  s.bondClear && match s.phase with
    | .advertising | .serving _ => true
    | .storing _ | .pause => false

variable (M : SecurityManager)

/-- `load_bond` at a boot. -/
def loaded (cfg : Cfg) : List BondInformation := (persisted cfg).elim [] (M.add [])

/-- `remove_bond_information` of the host that the mirror names. -/
def purged (s : Node) : List BondInformation :=
  match s.ble.bondedAddr with
  | some addr => M.remove s.bonds addr
  | none => s.bonds

def bondsAfter (s : Node) : Event → List BondInformation
  | .pairingComplete bond => (newBond s.ble bond).elim s.bonds (M.add s.bonds)
  | .takeBondClear => if takesClear s.ble then purged M s else s.bonds
  | .reboot => loaded M s.ble.cfg
  | .tick | .pairOpen | .pairClose | .clearBond _ | .set .. | .emit _ | .pollSend | .accept _
  | .acceptError | .notify | .bondSet _ | .disconnected | .resume => s.bonds

def ownerAfter (s : Node) : Event → Option BondInformation
  | .pairingComplete bond => ((newBond s.ble bond).map kept).or s.owner
  | .clearBond _ => none
  | .tick | .pairOpen | .pairClose | .takeBondClear | .set .. | .emit _ | .pollSend | .accept _
  | .acceptError | .notify | .bondSet _ | .disconnected | .resume | .reboot => s.owner

def step (s : Node) (e : Event) : Node := ⟨KbdBle.step s.ble e, bondsAfter M s e, ownerAfter s e⟩

def boot (cfg : Cfg) : Node := ⟨KbdBle.boot cfg, loaded M cfg, persisted cfg⟩

end Model

section Claims

variable (M : SecurityManager)

/-- The copies denote the last bond that was made and not cleared since. -/
structure Agrees (s : Node) : Prop where
  manager : ∀ c, c ∈ s.bonds.map kept ↔ s.owner = some c
  mirror : s.ble.bondedAddr = s.owner.map fun b => b.identity.bdAddr
  flash : persisted s.ble.cfg = s.owner

/-- The host task has nothing to finish. -/
def Idle (s : Node) : Prop := storing s.ble = none ∧ s.ble.bondClear = false

/-- The host task finishes: flash takes the bond that it stores, and it comes to where it takes the
signal of a clear. -/
def settled (s : Node) : Node := final (step M) s [.bondSet true, .resume, .takeBondClear]

def Settles (s : Node) : Prop := Agrees (settled M s)

/-- A link of this host can be encrypted again. -/
def Resumes (s : Node) (peer : BdAddr) : Prop := ∃ b ∈ s.bonds, b.identity.bdAddr = peer

/-- A bond is made only where no clear waits and the manager has no bond of another host. It is
stored, and what is cleared is erased, unless that changes nothing. No clear and no reboot comes
while a bond waits for the registry, and other calls leave the bond that the registry has. -/
def Careful (s : Node) : Event → Prop
  | .pairingComplete bond => ∀ b ∈ newBond s.ble bond, s.ble.bondClear = false ∧
      ∀ c ∈ s.bonds, c.identity.bdAddr = b.identity.bdAddr
  | .bondSet flash => ∀ b ∈ storing s.ble, flash = true ∨
      persisted s.ble.cfg = some (kept b) ∧ s.ble.bondedAddr = some b.identity.bdAddr
  | .clearBond flash => storing s.ble = none ∧ (flash = true ∨ persisted s.ble.cfg = none)
  | .set key val flash => storing s.ble = none →
      persisted (cfgSet s.ble key val flash).cfg = persisted s.ble.cfg
  | .reboot => ∀ b ∈ storing s.ble, persisted s.ble.cfg = some (kept b)
  | .tick | .pairOpen | .pairClose | .emit _ | .pollSend | .accept _ | .acceptError
  | .takeBondClear | .notify | .disconnected | .resume => True

end Claims

section Registry

variable {cfg : Cfg} {b : BondInformation}

/-- A bond of the registry is as the registry gives it back. -/
theorem kept_of_persisted (h : persisted cfg = some b) : kept b = b := by
  unfold persisted bondDecode at h
  split_ifs at h
  obtain ⟨digits, -, rfl⟩ := Option.map_eq_some_iff.mp h
  rfl

theorem persisted_store (cfg : Cfg) (b : BondInformation) :
    persisted (store cfg .bleBond (bondEncode b)) = some (kept b) := by
  rw [persisted, getStr_store_self]
  exact bondDecode_bondEncode b

theorem loadBond_eq (cfg : Cfg) :
    loadBond cfg = (persisted cfg).map fun b => b.identity.bdAddr := rfl

theorem set_nil (cfg : Cfg) (flash : Bool) :
    Config.set cfg "ble.bond".toList [] flash =
      if flash then .ok (store cfg .bleBond [], .bleBond) else .error .flash := by
  have hfind : tableDef.find? (fun k => k.name = "ble.bond".toList) = some .bleBond :=
    find_name .bleBond
  unfold Config.set
  rw [hfind]
  rfl

theorem persisted_clearBond (s : State) (flash : Bool) :
    persisted (clearBond s flash).cfg = if flash then none else persisted s.cfg := by
  unfold clearBond cfgSet
  rw [set_nil]
  cases flash with
  | true =>
    change persisted (store s.cfg .bleBond []) = none
    rw [persisted, getStr_store_self]
    rfl
  | false => rfl

end Registry

section Task

/-! What the host task does to the mirror, the signal and the registry. -/

variable {s : State} {b : BondInformation}

theorem phase_storing (h : storing s = some b) : s.phase = .storing b := by
  unfold storing at h
  cases hp : s.phase with
  | storing b' =>
    rw [hp] at h
    exact congrArg _ (Option.some.inj h)
  | advertising | serving | pause =>
    rw [hp] at h
    cases h

theorem storing_of_phase (h : s.phase = .storing b) : storing s = some b := by
  rw [storing, h]

theorem bondSet_of_none (h : storing s = none) (flash : Bool) :
    KbdBle.step s (.bondSet flash) = s := by
  unfold storing at h
  rw [KbdBle.step]
  cases hp : s.phase with
  | storing b =>
    rw [hp] at h
    cases h
  | advertising | serving | pause => rfl

theorem bondSet_of_storing (h : storing s = some b) (flash : Bool) :
    KbdBle.step s (.bondSet flash) = { onNewBond s b flash with phase := .serving true } := by
  rw [KbdBle.step, phase_storing h]

theorem resume_of_none (h : storing s = none) : ∃ p, KbdBle.step s .resume = { s with phase := p } ∧
    takesClear { s with phase := p } = s.bondClear ∧ storing { s with phase := p } = none := by
  cases hp : s.phase with
  | storing b =>
    rw [storing_of_phase hp] at h
    cases h
  | pause =>
    have hstep : KbdBle.step s .resume = { s with phase := .advertising } := by
      rw [KbdBle.step, hp]
    exact ⟨.advertising, hstep, Bool.and_true _, rfl⟩
  | advertising | serving =>
    have hstep : KbdBle.step s .resume = s := by rw [KbdBle.step, hp]
    have htakes : takesClear s = s.bondClear := by
      rw [takesClear, hp]
      exact Bool.and_true _
    exact ⟨s.phase, hstep, htakes, h⟩

theorem takeBondClear_of_not (h : takesClear s = false) : takeBondClear s = s := by
  unfold takesClear at h
  unfold takeBondClear
  cases hc : s.bondClear with
  | false => rfl
  | true =>
    rw [hc, Bool.true_and] at h
    cases hp : s.phase with
    | advertising | serving =>
      rw [hp] at h
      cases h
    | storing | pause => rfl

theorem takeBondClear_of_takes (h : takesClear s = true) :
    (takeBondClear s).bondedAddr = none ∧ (takeBondClear s).bondClear = false ∧
      (takeBondClear s).cfg = s.cfg ∧ storing (takeBondClear s) = none := by
  obtain ⟨hc, hp⟩ := (Bool.and_eq_true _ _).mp h
  cases hphase : s.phase with
  | advertising =>
    have heq : takeBondClear s = handleBondClear s := by
      rw [takeBondClear, hc, hphase]
      rfl
    have hnone : storing s = none := by rw [storing, hphase]
    rw [heq]
    exact ⟨rfl, rfl, rfl, hnone⟩
  | serving p =>
    have heq : takeBondClear s = hangUp (handleBondClear s) := by
      rw [takeBondClear, hc, hphase]
      rfl
    rw [heq]
    exact ⟨rfl, rfl, rfl, rfl⟩
  | storing | pause =>
    rw [hphase] at hp
    cases hp

end Task

section Settling

/-! What a state has to have for the copies to agree when the host task has finished. -/

variable (M : SecurityManager) {s : Node} {b : BondInformation}

theorem step_bondSet_of_none (h : storing s.ble = none) (flash : Bool) :
    step M s (.bondSet flash) = s :=
  congrArg (fun ble => (⟨ble, s.bonds, s.owner⟩ : Node)) (bondSet_of_none h flash)

theorem settled_of_none (h : storing s.ble = none) : ∃ p,
    settled M s = step M ⟨{ s.ble with phase := p }, s.bonds, s.owner⟩ .takeBondClear ∧
      takesClear { s.ble with phase := p } = s.ble.bondClear := by
  obtain ⟨p, hresume, htakes, -⟩ := resume_of_none h
  refine ⟨p, ?_, htakes⟩
  have hstep : step M s .resume = ⟨{ s.ble with phase := p }, s.bonds, s.owner⟩ :=
    congrArg (fun ble => (⟨ble, s.bonds, s.owner⟩ : Node)) hresume
  rw [settled, final_cons, step_bondSet_of_none M h, final_cons, hstep, final_cons, final_nil]

theorem settles_idle (h : storing s.ble = none) (hc : s.ble.bondClear = false) :
    Settles M s ↔ Agrees s := by
  obtain ⟨p, hsettled, htakes⟩ := settled_of_none M h
  rw [hc] at htakes
  have hstep : step M ⟨{ s.ble with phase := p }, s.bonds, s.owner⟩ .takeBondClear =
      ⟨{ s.ble with phase := p }, s.bonds, s.owner⟩ := by
    rw [step, bondsAfter, htakes, if_neg Bool.false_ne_true, KbdBle.step,
      takeBondClear_of_not htakes]
    rfl
  rw [Settles, hsettled, hstep]
  exact ⟨fun h => ⟨h.manager, h.mirror, h.flash⟩, fun h => ⟨h.manager, h.mirror, h.flash⟩⟩

theorem mem_purged {c : BondInformation} :
    c ∈ purged M s ↔ c ∈ s.bonds ∧ s.ble.bondedAddr ≠ some c.identity.bdAddr := by
  unfold purged
  cases s.ble.bondedAddr with
  | none => exact ⟨fun h => ⟨h, (Option.some_ne_none _).symm⟩, And.left⟩
  | some addr =>
    rw [M.mem_remove]
    exact and_congr_right fun _ => ⟨fun h heq => h (Option.some.inj heq).symm,
      fun h heq => h (congrArg some heq.symm)⟩

theorem settles_clearing (h : storing s.ble = none) (hc : s.ble.bondClear = true) :
    Settles M s ↔ s.owner = none ∧ persisted s.ble.cfg = none ∧
      ∀ c ∈ s.bonds, s.ble.bondedAddr = some c.identity.bdAddr := by
  obtain ⟨p, hsettled, htakes⟩ := settled_of_none M h
  rw [hc] at htakes
  obtain ⟨hmirror, -, hcfg, -⟩ := takeBondClear_of_takes htakes
  have hbonds : bondsAfter M ⟨{ s.ble with phase := p }, s.bonds, s.owner⟩ .takeBondClear =
      purged M s := by
    rw [bondsAfter, htakes, if_pos rfl]
    rfl
  rw [Settles, hsettled]
  constructor
  · intro hagrees
    have howner : s.owner = none := Option.map_eq_none_iff.mp (hagrees.mirror.symm.trans hmirror)
    refine ⟨howner, ?_, fun c hc => ?_⟩
    · have hflash : persisted (takeBondClear { s.ble with phase := p }).cfg = s.owner :=
        hagrees.flash
      rw [hcfg, howner] at hflash
      exact hflash
    · by_contra hne
      have hmem : kept c ∈ (purged M s).map kept :=
        List.mem_map_of_mem ((mem_purged M).mpr ⟨hc, hne⟩)
      rw [← hbonds] at hmem
      have hsome := (hagrees.manager (kept c)).mp hmem
      exact Option.some_ne_none _ (hsome.symm.trans howner)
  · rintro ⟨howner, hflash, hall⟩
    refine ⟨fun c => ?_, ?_, ?_⟩
    · change c ∈ (bondsAfter M ⟨{ s.ble with phase := p }, s.bonds, s.owner⟩
        .takeBondClear).map kept ↔ s.owner = some c
      rw [hbonds, howner]
      refine iff_of_false (fun hmem => ?_) (Option.some_ne_none c).symm
      obtain ⟨c', hc', -⟩ := List.mem_map.mp hmem
      obtain ⟨hin, hne⟩ := (mem_purged M).mp hc'
      exact hne (hall c' hin)
    · change (takeBondClear { s.ble with phase := p }).bondedAddr = s.owner.map _
      rw [hmirror, howner]
      rfl
    · change persisted (takeBondClear { s.ble with phase := p }).cfg = s.owner
      rw [hcfg, howner]
      exact hflash

theorem stored_bondSet (h : storing s.ble = some b) :
    storing (step M s (.bondSet true)).ble = none ∧
      (step M s (.bondSet true)).ble.bondClear = s.ble.bondClear ∧
      (step M s (.bondSet true)).ble.bondedAddr = some b.identity.bdAddr ∧
      persisted (step M s (.bondSet true)).ble.cfg = some (kept b) := by
  have hble : (step M s (.bondSet true)).ble =
      { onNewBond s.ble b true with phase := .serving true } := bondSet_of_storing h true
  rw [hble, onNewBond_eq, if_pos rfl]
  exact ⟨rfl, rfl, rfl, persisted_store s.ble.cfg b⟩

theorem settles_bondSet (h : storing s.ble = some b) :
    Settles M s ↔ Settles M (step M s (.bondSet true)) := by
  have hnone := (stored_bondSet M h).1
  have hsettled : settled M (step M s (.bondSet true)) = settled M s := by
    rw [settled, final_cons, step_bondSet_of_none M hnone]
    rfl
  rw [Settles, Settles, hsettled]

/-- The manager holds the owner alone. -/
theorem manager_iff {bonds : List BondInformation} {owner : Option BondInformation}
    {o : BondInformation} (h : owner = some o) :
    (∀ c, c ∈ bonds.map kept ↔ owner = some c) ↔ ∀ c, c ∈ bonds.map kept ↔ c = o := by
  refine forall_congr' fun c => ?_
  rw [h, Option.some.injEq, eq_comm (a := o)]

theorem settles_storing (h : storing s.ble = some b) (hc : s.ble.bondClear = false) :
    Settles M s ↔ s.owner = some (kept b) ∧ ∀ c, c ∈ s.bonds.map kept ↔ c = kept b := by
  obtain ⟨hnone, hclear, hmirror, hflash⟩ := stored_bondSet M h
  rw [settles_bondSet M h, settles_idle M hnone (hclear.trans hc)]
  constructor
  · intro hagrees
    have howner : s.owner = some (kept b) := hagrees.flash.symm.trans hflash
    exact ⟨howner, (manager_iff howner).mp hagrees.manager⟩
  · rintro ⟨howner, hall⟩
    refine ⟨(manager_iff howner).mpr hall, ?_, ?_⟩
    · rw [hmirror]
      exact (congrArg (Option.map fun b => b.identity.bdAddr) howner).symm
    · rw [hflash]
      exact howner.symm

/-- A clear that waits behind a bond leaves the bond in the registry. -/
theorem not_settles (h : storing s.ble = some b) (hc : s.ble.bondClear = true) : ¬ Settles M s := by
  obtain ⟨hnone, hclear, -, hflash⟩ := stored_bondSet M h
  rw [settles_bondSet M h, settles_clearing M hnone (hclear.trans hc), hflash]
  rintro ⟨-, hno, -⟩
  cases hno

end Settling

section Steps

variable (M : SecurityManager) {s t : Node} {b : BondInformation}

/-- What the agreement depends on. -/
def copies (s : State) : Option BondInformation × Bool × Option BdAddr × Cfg :=
  (storing s, s.bondClear, s.bondedAddr, s.cfg)

theorem settles_congr (hcopies : copies t.ble = copies s.ble) (hbonds : t.bonds = s.bonds)
    (howner : t.owner = s.owner) : Settles M t ↔ Settles M s := by
  simp only [copies, Prod.mk.injEq] at hcopies
  obtain ⟨hstoring, hclear, hmirror, hcfg⟩ := hcopies
  cases hs : storing s.ble with
  | none =>
    have ht : storing t.ble = none := hstoring.trans hs
    cases hc : s.ble.bondClear with
    | false =>
      have hct : t.ble.bondClear = false := hclear.trans hc
      rw [settles_idle M ht hct, settles_idle M hs hc]
      constructor
      · intro h
        exact ⟨hbonds ▸ howner ▸ h.manager, hmirror ▸ howner ▸ h.mirror, hcfg ▸ howner ▸ h.flash⟩
      · intro h
        exact ⟨hbonds ▸ howner ▸ h.manager, hmirror ▸ howner ▸ h.mirror, hcfg ▸ howner ▸ h.flash⟩
    | true =>
      have hct : t.ble.bondClear = true := hclear.trans hc
      rw [settles_clearing M ht hct, settles_clearing M hs hc, hbonds, howner, hmirror, hcfg]
  | some b =>
    have ht : storing t.ble = some b := hstoring.trans hs
    cases hc : s.ble.bondClear with
    | false =>
      have hct : t.ble.bondClear = false := hclear.trans hc
      rw [settles_storing M ht hct, settles_storing M hs hc, hbonds, howner]
    | true =>
      have hct : t.ble.bondClear = true := hclear.trans hc
      exact iff_of_false (not_settles M ht hct) (not_settles M hs hc)

/-- The events that leave the copies as they are. -/
def quiet : Event → Bool
  | .tick | .pairOpen | .pairClose | .emit _ | .pollSend | .accept _ | .acceptError | .notify
  | .disconnected | .resume => true
  | .clearBond _ | .set .. | .takeBondClear | .pairingComplete _ | .bondSet _ | .reboot => false

theorem copies_quiet (s : State) {e : Event} (h : quiet e = true) :
    copies (KbdBle.step s e) = copies s := by
  cases e with
  | clearBond | set | takeBondClear | pairingComplete | bondSet | reboot =>
    exact absurd h Bool.false_ne_true
  | tick | pairOpen | pairClose => rfl
  | emit r =>
    obtain ⟨rs, b, heq⟩ := emit_eq s r
    exact (congrArg copies heq).trans rfl
  | pollSend =>
    obtain ⟨rs, b, heq⟩ := pollSend_eq s
    exact (congrArg copies heq).trans rfl
  | notify =>
    obtain ⟨rs, ns, heq⟩ := notify_eq s
    rw [KbdBle.step]
    split
    · exact (congrArg copies heq).trans rfl
    · rfl
  | accept peer =>
    rw [KbdBle.step]
    split
    · rename_i hp
      have hnone : storing s = none := by rw [storing, hp]
      rw [accept_eq]
      split_ifs
      · rw [copies, copies, hnone]
        rfl
      · rw [copies, copies, hnone]
        rfl
    · rfl
  | acceptError | disconnected | resume =>
    rw [KbdBle.step]
    split
    · rename_i hp
      have hnone : storing s = none := by rw [storing, hp]
      rw [copies, copies, hnone]
      rfl
    · rfl

theorem settles_quiet {e : Event} (h : quiet e = true) : Settles M (step M s e) ↔ Settles M s := by
  refine settles_congr M (copies_quiet s.ble h) ?_ ?_
  · cases e with
    | clearBond | set | takeBondClear | pairingComplete | bondSet | reboot =>
      exact absurd h Bool.false_ne_true
    | tick | pairOpen | pairClose | emit | pollSend | accept | acceptError | notify | disconnected
    | resume => rfl
  · cases e with
    | clearBond | set | takeBondClear | pairingComplete | bondSet | reboot =>
      exact absurd h Bool.false_ne_true
    | tick | pairOpen | pairClose | emit | pollSend | accept | acceptError | notify | disconnected
    | resume => rfl

end Steps

section Changes

/-! Each of the other events keeps the agreement to come exactly when it meets its condition. -/

variable (M : SecurityManager) {s : Node} {b : BondInformation}

theorem clear_of_settles (hs : Settles M s) (hb : storing s.ble = some b) :
    s.ble.bondClear = false := by
  by_contra hc
  exact not_settles M hb (eq_true_of_ne_false hc) hs

theorem cfgSet_copies (s : State) (key val : Text) (flash : Bool) :
    storing (cfgSet s key val flash) = storing s ∧
      (cfgSet s key val flash).bondClear = s.bondClear ∧
      (cfgSet s key val flash).bondedAddr = s.bondedAddr := by
  obtain ⟨cfg, heq⟩ := cfgSet_eq s key val flash
  rw [heq]
  exact ⟨rfl, rfl, rfl⟩

theorem settles_set (hs : Settles M s) (key val : Text) (flash : Bool) :
    Settles M (step M s (.set key val flash)) ↔ Careful s (.set key val flash) := by
  obtain ⟨hstoring, hclear, hmirror⟩ := cfgSet_copies s.ble key val flash
  rw [Careful]
  cases hb : storing s.ble with
  | none =>
    have hnone : storing (step M s (.set key val flash)).ble = none := hstoring.trans hb
    cases hc : s.ble.bondClear with
    | false =>
      have hs' := (settles_idle M hb hc).mp hs
      have hclear' : (step M s (.set key val flash)).ble.bondClear = false := hclear.trans hc
      rw [settles_idle M hnone hclear']
      constructor
      · intro h _
        exact h.flash.trans hs'.flash.symm
      · intro h
        exact ⟨hs'.manager, hmirror.trans hs'.mirror, (h rfl).trans hs'.flash⟩
    | true =>
      obtain ⟨howner, hflash, hall⟩ := (settles_clearing M hb hc).mp hs
      have hclear' : (step M s (.set key val flash)).ble.bondClear = true := hclear.trans hc
      rw [settles_clearing M hnone hclear', hflash]
      constructor
      · exact fun h _ => h.2.1
      · intro h
        refine ⟨howner, h rfl, fun c hc => ?_⟩
        exact hmirror.trans (hall c hc)
  | some b =>
    have hsome : storing (step M s (.set key val flash)).ble = some b := hstoring.trans hb
    have hc := clear_of_settles M hs hb
    have hclear' : (step M s (.set key val flash)).ble.bondClear = false := hclear.trans hc
    rw [settles_storing M hsome hclear']
    refine iff_of_true ((settles_storing M hb hc).mp hs) fun h => ?_
    cases h

theorem settles_clearBond (hs : Settles M s) (flash : Bool) :
    Settles M (step M s (.clearBond flash)) ↔ Careful s (.clearBond flash) := by
  obtain ⟨cfg, heq⟩ := cfgSet_eq s.ble "ble.bond".toList [] flash
  have hcopies : storing (clearBond s.ble flash) = storing s.ble ∧
      (clearBond s.ble flash).bondedAddr = s.ble.bondedAddr := by
    rw [clearBond, heq]
    exact ⟨rfl, rfl⟩
  obtain ⟨hstoring, hmirror⟩ := hcopies
  rw [Careful]
  cases hb : storing s.ble with
  | some b =>
    have hsome : storing (step M s (.clearBond flash)).ble = some b := hstoring.trans hb
    exact iff_of_false (not_settles M hsome rfl) fun h => by cases h.1
  | none =>
    have hnone : storing (step M s (.clearBond flash)).ble = none := hstoring.trans hb
    have hall : ∀ c ∈ s.bonds, s.ble.bondedAddr = some c.identity.bdAddr := by
      cases hc : s.ble.bondClear with
      | true => exact ((settles_clearing M hb hc).mp hs).2.2
      | false =>
        have hs' := (settles_idle M hb hc).mp hs
        intro c hmem
        have howner := (hs'.manager (kept c)).mp (List.mem_map_of_mem hmem)
        rw [hs'.mirror, howner]
        rfl
    have hflash : persisted (step M s (.clearBond flash)).ble.cfg = none ↔
        flash = true ∨ persisted s.ble.cfg = none := by
      have hp : persisted (step M s (.clearBond flash)).ble.cfg =
          if flash then none else persisted s.ble.cfg := persisted_clearBond s.ble flash
      rw [hp]
      cases flash with
      | true => exact iff_of_true rfl (Or.inl rfl)
      | false => exact (or_iff_right Bool.false_ne_true).symm
    rw [settles_clearing M hnone rfl, hflash]
    constructor
    · exact fun h => ⟨rfl, h.2.1⟩
    · intro h
      refine ⟨rfl, h.2, fun c hc => ?_⟩
      exact hmirror.trans (hall c hc)

/-- With nothing to store the answer of the registry means nothing. -/
theorem settles_bondSet_iff (hs : Settles M s) (flash : Bool) :
    Settles M (step M s (.bondSet flash)) ↔ Careful s (.bondSet flash) := by
  rw [Careful]
  cases hb : storing s.ble with
  | none =>
    rw [step_bondSet_of_none M hb]
    exact iff_of_true hs fun b h => by cases h
  | some b =>
    have hclear := clear_of_settles M hs hb
    cases flash with
    | true => exact iff_of_true ((settles_bondSet M hb).mp hs) fun _ _ => Or.inl rfl
    | false =>
      obtain ⟨howner, hall⟩ := (settles_storing M hb hclear).mp hs
      have haddr : s.owner.map (fun b => b.identity.bdAddr) = some b.identity.bdAddr := by
        rw [howner]
        rfl
      have hble : KbdBle.step s.ble (.bondSet false) = { s.ble with phase := .serving true } := by
        rw [bondSet_of_storing hb, onNewBond_eq, if_neg Bool.false_ne_true]
      have hstep : step M s (.bondSet false) =
          ⟨{ s.ble with phase := .serving true }, s.bonds, s.owner⟩ :=
        congrArg (fun ble => (⟨ble, s.bonds, s.owner⟩ : Node)) hble
      have hnone : storing (step M s (.bondSet false)).ble = none := congrArg storing hble
      have hclear' : (step M s (.bondSet false)).ble.bondClear = false :=
        (congrArg State.bondClear hble).trans hclear
      rw [settles_idle M hnone hclear', hstep]
      constructor
      · intro h b' hb'
        cases hb'
        exact Or.inr ⟨h.flash.trans howner, h.mirror.trans haddr⟩
      · intro h
        obtain ⟨hflash, hmirror⟩ := (h b rfl).resolve_left Bool.false_ne_true
        exact ⟨(manager_iff howner).mpr hall, hmirror.trans haddr.symm, hflash.trans howner.symm⟩

theorem mem_loaded (cfg : Cfg) (c : BondInformation) :
    c ∈ (loaded M cfg).map kept ↔ persisted cfg = some c := by
  unfold loaded
  cases hp : persisted cfg with
  | none =>
    refine iff_of_false ?_ (Option.some_ne_none c).symm
    exact List.not_mem_nil
  | some b =>
    have hkept := kept_of_persisted hp
    rw [Option.elim_some, List.mem_map]
    constructor
    · rintro ⟨c', hc', rfl⟩
      rcases M.mem_add.mp hc' with rfl | ⟨hnil, -⟩
      · rw [hkept]
      · cases hnil
    · intro h
      cases h
      exact ⟨c, M.mem_add.mpr (Or.inl rfl), hkept⟩

theorem agrees_loaded {owner : Option BondInformation} (ble : State)
    (howner : persisted ble.cfg = owner) (hmirror : ble.bondedAddr = loadBond ble.cfg) :
    Agrees ⟨ble, loaded M ble.cfg, owner⟩ := by
  refine ⟨fun c => ?_, ?_, howner⟩
  · rw [mem_loaded, howner]
  · rw [hmirror, loadBond_eq, howner]

theorem settles_reboot (hs : Settles M s) : Settles M (step M s .reboot) ↔ Careful s .reboot := by
  have hafter : Settles M (step M s .reboot) ↔ persisted s.ble.cfg = s.owner := by
    have hnone : storing (step M s .reboot).ble = none := rfl
    have hclear : (step M s .reboot).ble.bondClear = false := rfl
    rw [settles_idle M hnone hclear]
    constructor
    · exact fun h => h.flash
    · exact fun h => agrees_loaded M (KbdBle.reboot s.ble) h rfl
  rw [hafter, Careful]
  cases hb : storing s.ble with
  | none =>
    refine iff_of_true ?_ fun b h => by cases h
    cases hc : s.ble.bondClear with
    | false => exact ((settles_idle M hb hc).mp hs).flash
    | true =>
      obtain ⟨howner, hflash, -⟩ := (settles_clearing M hb hc).mp hs
      exact hflash.trans howner.symm
  | some b =>
    have hclear := clear_of_settles M hs hb
    obtain ⟨howner, -⟩ := (settles_storing M hb hclear).mp hs
    rw [howner]
    constructor
    · intro h b' hb'
      cases hb'
      exact h
    · exact fun h => h b rfl

/-- A pairing on a bondable connection, and any other. -/
theorem newBond_cases (s : State) (bond : Option BondInformation) :
    (newBond s bond = none ∧ KbdBle.step s (.pairingComplete bond) = s) ∨
      ∃ b, newBond s bond = some b ∧ s.phase = .serving true ∧
        KbdBle.step s (.pairingComplete bond) = { s with phase := .storing b } := by
  cases hp : s.phase with
  | advertising | storing | pause =>
    exact Or.inl ⟨by rw [newBond, hp], by simp only [KbdBle.step, hp]⟩
  | serving p =>
    cases p with
    | false => exact Or.inl ⟨by rw [newBond, hp], by simp only [KbdBle.step, hp]⟩
    | true =>
      cases bond with
      | none => exact Or.inl ⟨by rw [newBond, hp], by simp only [KbdBle.step, hp]⟩
      | some b => exact Or.inr ⟨b, by rw [newBond, hp], rfl, by simp only [KbdBle.step, hp]⟩

theorem settles_pairingComplete (hs : Settles M s) (bond : Option BondInformation) :
    Settles M (step M s (.pairingComplete bond)) ↔ Careful s (.pairingComplete bond) := by
  rw [Careful]
  rcases newBond_cases s.ble bond with ⟨hno, hble⟩ | ⟨b, hb, hphase, hble⟩
  · have hstep : step M s (.pairingComplete bond) = s := by
      rw [step, bondsAfter, ownerAfter, hno, hble]
      rfl
    rw [hstep, hno]
    exact iff_of_true hs fun b h => by cases h
  · have hstep : step M s (.pairingComplete bond) =
        ⟨{ s.ble with phase := .storing b }, M.add s.bonds b, some (kept b)⟩ := by
      rw [step, bondsAfter, ownerAfter, hb, hble]
      rfl
    have hstoring : storing (step M s (.pairingComplete bond)).ble = some b := congrArg storing hble
    have hclear : (step M s (.pairingComplete bond)).ble.bondClear = s.ble.bondClear := by
      rw [hstep]
    rw [hb]
    cases hc : s.ble.bondClear with
    | true =>
      refine iff_of_false (not_settles M hstoring (hclear.trans hc)) fun h => ?_
      cases (h b rfl).1
    | false =>
      rw [settles_storing M hstoring (hclear.trans hc), hstep]
      constructor
      · rintro ⟨-, hall⟩ b' hb'
        cases hb'
        refine ⟨rfl, fun c hmem => ?_⟩
        by_contra hne
        have hadd : c ∈ M.add s.bonds b := M.mem_add.mpr (Or.inr ⟨hmem, hne⟩)
        have hkept : kept c = kept b := (hall (kept c)).mp (List.mem_map_of_mem hadd)
        exact hne (congrArg (fun b => b.identity.bdAddr) hkept)
      · intro h
        obtain ⟨-, hall⟩ := h b rfl
        refine ⟨rfl, fun c => ⟨fun hmem => ?_, fun heq => ?_⟩⟩
        · obtain ⟨c', hc', rfl⟩ := List.mem_map.mp hmem
          rcases M.mem_add.mp hc' with rfl | ⟨hold, hne⟩
          · rfl
          · exact absurd (hall c' hold) hne
        · exact List.mem_map.mpr ⟨b, M.mem_add.mpr (Or.inl rfl), heq.symm⟩

theorem settles_takeBondClear (hs : Settles M s) : Settles M (step M s .takeBondClear) := by
  cases ht : takesClear s.ble with
  | false =>
    have hstep : step M s .takeBondClear = s := by
      rw [step, bondsAfter, ht, if_neg Bool.false_ne_true, KbdBle.step, takeBondClear_of_not ht]
      rfl
    rw [hstep]
    exact hs
  | true =>
    obtain ⟨hmirror, hclear, hcfg, hnone⟩ := takeBondClear_of_takes ht
    have hc : s.ble.bondClear = true := ((Bool.and_eq_true _ _).mp ht).1
    have hb : storing s.ble = none := by
      cases hb : storing s.ble with
      | none => rfl
      | some b =>
        have hno := clear_of_settles M hs hb
        rw [hc] at hno
        cases hno
    obtain ⟨howner, hflash, hall⟩ := (settles_clearing M hb hc).mp hs
    have hbonds : (step M s .takeBondClear).bonds = purged M s := by
      rw [step, bondsAfter, ht, if_pos rfl]
    refine (settles_idle M (s := step M s .takeBondClear) hnone hclear).mpr ⟨fun c => ?_, ?_, ?_⟩
    · rw [hbonds]
      refine iff_of_false (fun hmem => ?_) fun h => Option.some_ne_none c (h.symm.trans howner)
      obtain ⟨c', hc', -⟩ := List.mem_map.mp hmem
      obtain ⟨hin, hne⟩ := (mem_purged M).mp hc'
      exact hne (hall c' hin)
    · have haddr : s.owner.map (fun b => b.identity.bdAddr) = none := by
        rw [howner]
        rfl
      exact hmirror.trans haddr.symm
    · exact (congrArg persisted hcfg).trans (hflash.trans howner.symm)

theorem settles_step_iff (hs : Settles M s) (e : Event) : Settles M (step M s e) ↔ Careful s e := by
  cases e with
  | tick | pairOpen | pairClose | emit | pollSend | accept | acceptError | notify | disconnected
  | resume => exact iff_of_true ((settles_quiet M rfl).mpr hs) trivial
  | takeBondClear => exact iff_of_true (settles_takeBondClear M hs) trivial
  | clearBond flash => exact settles_clearBond M hs flash
  | set key val flash => exact settles_set M hs key val flash
  | pairingComplete bond => exact settles_pairingComplete M hs bond
  | bondSet flash => exact settles_bondSet_iff M hs flash
  | reboot => exact settles_reboot M hs

end Changes

section Runs

variable (M : SecurityManager)

theorem settles_boot (cfg : Cfg) : Settles M (boot M cfg) := by
  have hnone : storing (boot M cfg).ble = none := rfl
  have hclear : (boot M cfg).ble.bondClear = false := rfl
  exact (settles_idle M hnone hclear).mpr (agrees_loaded M (KbdBle.boot cfg) rfl rfl)

theorem owner_of_resumes {s : Node} (h : Agrees s) {peer : BdAddr} (hr : Resumes s peer) :
    s.owner.map (fun b => b.identity.bdAddr) = some peer := by
  obtain ⟨b, hb, rfl⟩ := hr
  rw [(h.manager (kept b)).mp (List.mem_map_of_mem hb)]
  rfl

/-- Over every order of pairings, clears, writes, connections and reboots, the copies agree whenever
the host task has finished what it has begun if and only if the steps are careful; then, while it is
idle, the last host that was bonded and not cleared is the only one that can resume, before a reboot
and behind it. -/
theorem bond_copies_agree_iff (cfg : Cfg) (es : List Event) :
    (Always (step M) (Settles M) (boot M cfg) es ↔ Along (step M) Careful (boot M cfg) es) ∧
      (Along (step M) Careful (boot M cfg) es → Always (step M) (fun s => Idle s → Agrees s ∧
        Agrees (step M s .reboot) ∧ ∀ peer, Resumes s peer ∨ Resumes (step M s .reboot) peer →
          s.owner.map (fun b => b.identity.bdAddr) = some peer) (boot M cfg) es) := by
  have hiff : Always (step M) (Settles M) (boot M cfg) es ↔
      Along (step M) Careful (boot M cfg) es := by
    refine always_iff_along (I := Settles M) (fun _ hs => hs) ?_ ?_ (settles_boot M cfg)
    · intro s e hs hP
      exact (settles_step_iff M hs e).mpr hP
    · intro s e hs hP h
      exact hP ((settles_step_iff M hs e).mp h)
  refine ⟨hiff, fun hcareful => (hiff.mpr hcareful).mono fun s hs hidle => ?_⟩
  obtain ⟨hnone, hclear⟩ := hidle
  have hagrees := (settles_idle M hnone hclear).mp hs
  have hreboot : Agrees (step M s .reboot) :=
    agrees_loaded M (KbdBle.reboot s.ble) hagrees.flash rfl
  refine ⟨hagrees, hreboot, fun peer hpeer => ?_⟩
  rcases hpeer with hpeer | hpeer
  · exact owner_of_resumes hagrees hpeer
  · exact owner_of_resumes hreboot hpeer

end Runs

section Overwritten

/-- A manager that keeps its bonds in a list. -/
def listManager : SecurityManager where
  add bs b := b :: bs.filter fun c => c.identity.bdAddr ≠ b.identity.bdAddr
  remove bs a := bs.filter fun c => c.identity.bdAddr ≠ a
  mem_add := by
    intro bs b c
    rw [List.mem_cons, List.mem_filter, decide_eq_true_eq]
  mem_remove := by
    intro bs a c
    rw [List.mem_filter, decide_eq_true_eq]

def bondOf (addr : BdAddr) : BondInformation where
  identity := { bdAddr := addr, irk := none }
  ltk := 7
  securityLevel := .encrypted
  isBonded := true

def otherHost : BdAddr := #v[6, 5, 4, 3, 2, 1]

def pairs (addr : BdAddr) : List Event :=
  [.pairOpen, .accept addr, .pairingComplete (some (bondOf addr)), .bondSet true, .disconnected,
    .resume]

def bothPaired : Node :=
  final (step listManager) (boot listManager erasedCfg) (pairs host ++ pairs otherHost)

/-- The first of two hosts that pair can still resume. -/
theorem overwritten_bond_resumes :
    Idle bothPaired ∧ Resumes bothPaired host ∧ Resumes bothPaired otherHost ∧
      ¬ Agrees bothPaired := by
  have hidle : storing bothPaired.ble = none ∧ bothPaired.ble.bondClear = false := by
    decide +kernel
  have hbonds : bothPaired.bonds = [bondOf otherHost, bondOf host] := by
    decide +kernel
  have howner : bothPaired.owner = some (bondOf otherHost) := by
    decide +kernel
  have hmem : bondOf host ∈ bothPaired.bonds := by
    rw [hbonds]
    exact List.mem_cons_of_mem _ List.mem_cons_self
  have hother : bondOf otherHost ∈ bothPaired.bonds := by
    rw [hbonds]
    exact List.mem_cons_self
  refine ⟨hidle, ⟨_, hmem, rfl⟩, ⟨_, hother, rfl⟩, fun h => ?_⟩
  have hsome := (h.manager (kept (bondOf host))).mp (List.mem_map_of_mem hmem)
  rw [howner] at hsome
  exact absurd hsome (by decide)

end Overwritten

end AtNode.BondCopies
