import AtNode.Ch582.AtCmds

/-!
# The CH582 factory reset

`AT+FACTORY` wipes the slot tables in RAM, erases their page and loads them again, and gives the
configured keys their defaults. A load from an erased page sets the host map, the labels, the paces
and the own addresses and leaves the address types as they are; nothing else in the reset sets them.

It is proved that a reset from any state of a run leaves what a start with an erased flash gives,
before and after the restart that follows, exactly when the run gives no slot to a host with a
random address.
-/

namespace AtNode.Ble

open Memory Router Run

variable {n : ℕ}

section Erased

theorem erasedPage_invalid : ¬ leNat (row erasedPage 0 4 0) = slotmapMagic := by decide

theorem erasedPage_slottype (mac : Addr) (old : Fin n → UInt8) :
    (loadTables mac erasedPage old).slottype = old := by
  funext s
  simp only [loadTables, erasedPage_invalid, decide_false, Bool.false_eq_true, if_false]

theorem loadTables_erasedPage_inj {mac : Addr} {old old' : Fin n → UInt8} :
    loadTables mac erasedPage old = loadTables mac erasedPage old' ↔ old = old' := by
  constructor
  · intro h
    rw [← erasedPage_slottype mac old, h, erasedPage_slottype]
  · exact fun h => h ▸ rfl

theorem toTables_boot (b : Board) (page : ℕ → UInt8) :
    (bleHidEmuInit b page : Keyboard n).toTables = loadTables b.mac page fun _ => 0 := by
  obtain ⟨a, ha⟩ := bleHidEmuInit_eq b page
  rw [ha]

theorem slottype_disconnect (k : Keyboard n) : (kbBleDisconnect k).1.slottype = k.slottype := by
  unfold kbBleDisconnect
  split_ifs <;> rfl

end Erased

section Types

/-- All hosts have public addresses, on the page too. -/
structure Public (b : Board) (k : Keyboard n) : Prop where
  ram : ∀ s, k.slottype s = 0
  page : ∀ s : Fin n, (loadTables b.mac k.page fun _ => 0).slottype s = 0

/-- The address types are left alone; the page may have been written again. -/
def KeepsTypes (b : Board) (k k' : Keyboard n) : Prop :=
  k'.slottype = k.slottype ∧
    (k'.page = k.page ∨ ∃ t : Tables n, k'.page = savedPage b.stack t ∧ t.slottype = k.slottype)

def SeatsRandom (k : Keyboard n) : Event → Prop
  | .linkEstablished handle addr addrType =>
    addrType = 1 ∧ FreshHandle k handle ∧ kbdPolicyDrop k addr = false ∧
      ((∃ s, slotmapFind k.toTables addr = some s ∧ ConnFree k s) ∨ ∃ s, kbdNextPairSlot k = some s)
  | _ => False

variable {b : Board} {k k' : Keyboard n}

theorem Public.keeps (hn : n ≤ 3) (h : Public b k) (hk : KeepsTypes b k k') : Public b k' := by
  obtain ⟨htype, hpage⟩ := hk
  refine ⟨fun s => ?_, fun s => ?_⟩
  · rw [htype]
    exact h.ram s
  · rcases hpage with hp | ⟨t, hp, ht⟩
    · rw [hp]
      exact h.page s
    · rw [hp, loadTables_savedPage _ _ hn]
      dsimp only [restored]
      rw [ht, h.ram s]
      rfl

theorem KeepsTypes.refl (b : Board) (k : Keyboard n) : KeepsTypes b k k := ⟨rfl, Or.inl rfl⟩

theorem KeepsTypes.trans {k'' : Keyboard n} (h : KeepsTypes b k k') (h' : KeepsTypes b k' k'') :
    KeepsTypes b k k'' := by
  refine ⟨h'.1.trans h.1, ?_⟩
  rcases h'.2 with hp | ⟨t, hp, ht⟩
  · rw [hp]
    exact h.2
  · exact Or.inr ⟨t, hp, ht.trans h.1⟩

theorem keepsTypes_stored (b : Board) (h : Stored k k') : KeepsTypes b k k' :=
  ⟨congrArg Tables.slottype h.1, Or.inl h.2⟩

theorem keepsTypes_setName (slot : UInt8) (name : List UInt8) :
    KeepsTypes b k (kbBleSlotSetName b k slot name).1 := by
  unfold kbBleSlotSetName
  split
  · exact .refl b k
  · dsimp only
    split
    · exact ⟨rfl, Or.inr ⟨_, rfl, rfl⟩⟩
    · exact ⟨rfl, Or.inl rfl⟩

theorem keepsTypes_setPace (slot : UInt8) (ms : UInt16) :
    KeepsTypes b k (kbBleSlotSetPace b k slot ms).1 := by
  unfold kbBleSlotSetPace
  split
  · exact .refl b k
  · split
    · exact .refl b k
    · exact ⟨rfl, Or.inr ⟨_, rfl, rfl⟩⟩

theorem keepsTypes_setMac (slot : UInt8) (addr : Addr) :
    KeepsTypes b k (kbBleSlotSetMac b k slot addr).1 := by
  unfold kbBleSlotSetMac
  split
  · exact .refl b k
  · split
    · exact .refl b k
    · exact ⟨rfl, Or.inr ⟨_, rfl, rfl⟩⟩

theorem keepsTypes_unbind (k : Keyboard n) (s : Fin n) :
    KeepsTypes b k (kbBleUnbindSlot b k s).1 := by
  by_cases h : k.slotmap s 0 = 0xFF
  · rw [kbBleUnbindSlot_free h]
    exact .refl b k
  · obtain ⟨handles, a, he⟩ := kbBleUnbindSlot_bound b h
    rw [he]
    exact ⟨rfl, Or.inr ⟨_, rfl, rfl⟩⟩

theorem keepsTypes_overUnbind (k : Keyboard n) (ss : List (Fin n)) :
    KeepsTypes b k (overSlots (kbBleUnbindSlot b) k ss).1 :=
  overSlots_inv (fun k' s h => h.trans (keepsTypes_unbind k' s)) (.refl b k) ss

theorem keepsTypes_btPair (k : Keyboard n) (argv : List (List UInt8)) :
    KeepsTypes b k (btPairKbd b k argv).1 := by
  have hunbound : KeepsTypes b k (pairUnbound b k argv) := by
    unfold pairUnbound unbindNamed
    split
    · exact keepsTypes_unbind k _
    · exact .refl b k
  exact hunbound.trans (keepsTypes_stored b (stored_btPair b k argv))

theorem setType_public {s : Fin n} {type : UInt8} (hzero : k.slottype s = 0) (hne : type ≠ 1) :
    kbdSlotSetType b k s type = k := by
  apply if_neg
  rintro ⟨hdiff, hle⟩
  rw [hzero] at hdiff
  have hle' := UInt8.le_iff_toNat_le.mp hle
  have hne' : type.toNat ≠ 1 := fun h => hne (UInt8.toNat_inj.mp h)
  have hdiff' : type.toNat ≠ 0 := fun h => hdiff (UInt8.toNat_inj.mp h).symm
  have hone : (1 : UInt8).toNat = 1 := rfl
  omega

theorem setType_random {s : Fin n} (hzero : k.slottype s = 0) :
    (kbdSlotSetType b k s 1).slottype s = 1 := by
  have hcond : k.slottype s ≠ 1 ∧ (1 : UInt8) ≤ 1 := by
    rw [hzero]
    decide
  rw [kbdSlotSetType, if_pos hcond]
  exact Function.update_self s 1 k.slottype

/-- A link that is dropped, or seated with a public address, keeps all addresses public. -/
theorem public_established (hn : n ≤ 3) (hl : Linked k) (hk : Public b k) {handle : UInt16}
    {addr : Addr} {addrType : UInt8}
    (hs : ¬ SeatsRandom k (.linkEstablished handle addr addrType)) :
    Public b (step b k (.linkEstablished handle addr addrType)) := by
  by_cases hf : FreshHandle k handle
  · have hdropped : Public b (terminateLinks (addLink k handle) [handle]) :=
      hk.keeps hn ⟨rfl, Or.inl rfl⟩
    rcases established_cases b hl hf addr addrType with
      ⟨-, he⟩ | ⟨hd, s, hfind, hfree, he⟩ | ⟨hd, -, s, hnext, he⟩ | ⟨-, -, -, he⟩
    · rw [he]
      exact hdropped
    · have hne : addrType ≠ 1 := fun h => hs ⟨h, hf, hd, Or.inl ⟨s, hfind, hfree⟩⟩
      have hseated : Public b (occupy (addLink k handle) s handle addr) :=
        hk.keeps hn ⟨rfl, Or.inl rfl⟩
      rw [he, setType_public (hseated.ram s) hne]
      exact hseated
    · have hne : addrType ≠ 1 := fun h => hs ⟨h, hf, hd, Or.inr ⟨s, hnext⟩⟩
      have hseated : Public b (slotmapSave b (reserve (addLink k handle) s handle addr)) :=
        hk.keeps hn ⟨rfl, Or.inr ⟨_, rfl, rfl⟩⟩
      rw [he, setType_public (hseated.ram s) hne]
      exact hseated
    · rw [he]
      exact hdropped
  · rw [step, if_neg hf]
    exact hk

theorem random_established (hl : Linked k) (hk : Public b k) {handle : UInt16} {addr : Addr}
    {addrType : UInt8} (hs : SeatsRandom k (.linkEstablished handle addr addrType)) :
    ∃ s, (step b k (.linkEstablished handle addr addrType)).slottype s = 1 := by
  obtain ⟨rfl, hf, hd, hseat⟩ := hs
  rcases established_cases b hl hf addr 1 with
    ⟨hd', -⟩ | ⟨-, s, -, -, he⟩ | ⟨-, -, s, -, he⟩ | ⟨-, hnone, hnext, -⟩
  · rw [hd] at hd'
    cases hd'
  · exact ⟨s, by rw [he]; exact setType_random (hk.ram s)⟩
  · exact ⟨s, by rw [he]; exact setType_random (hk.ram s)⟩
  · rcases hseat with ⟨s, hfind, hfree⟩ | ⟨s, hsome⟩
    · exact absurd hfree (hnone s hfind)
    · rw [hnext] at hsome
      cases hsome

theorem public_boot {page : ℕ → UInt8}
    (h : ∀ s : Fin n, (loadTables b.mac page fun _ => 0).slottype s = 0) :
    Public b (bleHidEmuInit b page : Keyboard n) := by
  have hpage : (bleHidEmuInit b page : Keyboard n).page = page := by
    obtain ⟨a, ha⟩ := bleHidEmuInit_eq (n := n) b page
    rw [ha]
    rfl
  refine ⟨fun s => ?_, fun s => by rw [hpage]; exact h s⟩
  rw [show (bleHidEmuInit b page : Keyboard n).slottype = _ from
    congrArg Tables.slottype (toTables_boot b page)]
  exact h s

theorem public_boot_erased (b : Board) : Public b (bleHidEmuInit b erasedPage : Keyboard n) :=
  public_boot fun s => congrFun (erasedPage_slottype b.mac _) s

theorem public_step (hn : n ≤ 3) (hl : Linked k) (hk : Public b k) {e : Event}
    (hs : ¬ SeatsRandom k e) : Public b (step b k e) := by
  cases e with
  | linkEstablished handle addr addrType => exact public_established hn hl hk hs
  | linkTerminated | roleState | pairWindowEvt | advRearmEvt | dev | btDisc =>
    exact hk.keeps hn (keepsTypes_stored b (stored_transient b k rfl))
  | btPair argv => exact hk.keeps hn (keepsTypes_btPair k argv)
  | btUnbind argv =>
    rw [step, btUnbindKbd_eq]
    exact hk.keeps hn (keepsTypes_overUnbind k _)
  | setName slot name => exact hk.keeps hn (keepsTypes_setName slot name)
  | setPace slot ms => exact hk.keeps hn (keepsTypes_setPace slot ms)
  | setMac slot addr => exact hk.keeps hn (keepsTypes_setMac slot addr)
  | factoryReset =>
    have htypes : (step b k .factoryReset).slottype = k.slottype :=
      erasedPage_slottype b.mac k.slottype
    exact ⟨fun s => (congrFun htypes s).trans (hk.ram s),
      fun s => congrFun (erasedPage_slottype b.mac _) s⟩
  | factory => exact public_boot_erased b
  | powerCycle => exact public_boot hk.page

end Types

end AtNode.Ble

namespace AtNode.AtCmds

open Ble Memory Router Run

variable {n : ℕ} {σ : Type}

section Reset

variable (C : Chip n σ) (w : Node n σ)

/-- The five slot tables and the two keys. -/
structure Config (n : ℕ) where
  tables : Tables n
  keys : Fin 2 → KeyCfg

def Node.config : Config n :=
  ⟨w.keyboard.toTables, (if w.keyCfgLoaded then w else keyCfgLoad C w).keyCfg⟩

/-- What `AT+FACTORY` does to the keyboard side before it restarts the chip. -/
def factoryReset : Node n σ :=
  hwsKeyCfgFactoryReset C { w with
    keyboard := kbBleFactoryReset C.ble (kbBleDisconnect w.keyboard).1
    rest := C.forgetBonds w.rest }

/-- A restart: the RAM is cleared and the slot tables are loaded. -/
def restarted : Node n σ :=
  { w with
    keyboard := bleHidEmuInit C.ble w.keyboard.page
    keyCfg := fun _ => ⟨0, 0, 0, 0⟩
    keyCfgLoaded := false }

def erased : Node n σ :=
  { w with
    keyboard := { w.keyboard with page := erasedPage }
    rest := (C.eepromErase appKeycfgFlashAddr 8 w.rest).2 }

/-- The reset leaves the configuration of a start with erased pages, and so does the restart. -/
structure ResetIsFresh : Prop where
  ram : (factoryReset C w).config C = (restarted C (erased C w)).config C
  restart : (restarted C (factoryReset C w)).config C = (restarted C (erased C w)).config C

def ErasesKeys : Prop :=
  ∀ s, C.eepromRead appKeycfgFlashAddr 8 (C.eepromErase appKeycfgFlashAddr 8 s).2 =
    List.replicate 8 0xFF

variable {C w}

theorem tables_restarted (v : Node n σ) :
    ((restarted C v).config C).tables = loadTables C.ble.mac v.keyboard.page fun _ => 0 := by
  have htables : ((restarted C v).config C).tables =
      (bleHidEmuInit C.ble v.keyboard.page : Keyboard n).toTables := rfl
  rw [htables, toTables_boot]

theorem keyCfg_load_erased {v : Node n σ} (hlast : ∀ i, (v.keyCfg i).last = 0)
    (hread : C.eepromRead appKeycfgFlashAddr 8 v.rest = List.replicate 8 0xFF) :
    (keyCfgLoad C v).keyCfg = keyCfgDefault fun _ => 0 := by
  have hbuf : ¬ (List.replicate 8 (0xFF : UInt8)).take 4 = keyCfgMagic := by decide
  have hzero : (fun i => (v.keyCfg i).last) = fun _ => 0 := funext hlast
  rw [keyCfgLoad]
  dsimp only
  rw [hread, if_neg hbuf, hzero]

theorem keys_restarted {v : Node n σ}
    (hread : C.eepromRead appKeycfgFlashAddr 8 v.rest = List.replicate 8 0xFF) :
    ((restarted C v).config C).keys = keyCfgDefault fun _ => 0 :=
  keyCfg_load_erased (v := restarted C v) (fun _ => rfl) hread

theorem last_keyCfgDefault (i : Fin 2) : (keyCfgDefault (fun _ => 0) i).last = 0 := by
  unfold keyCfgDefault
  split_ifs <;> rfl

theorem keys_factoryReset (h : ErasesKeys C) :
    ((factoryReset C w).config C).keys = keyCfgDefault fun _ => 0 := by
  unfold Node.config
  dsimp only
  split_ifs
  · rfl
  · have hkeys : (factoryReset C w).keyCfg = keyCfgDefault fun _ => 0 := rfl
    have hlast (i : Fin 2) : ((factoryReset C w).keyCfg i).last = 0 := by
      rw [hkeys]
      exact last_keyCfgDefault i
    have hrest : (factoryReset C w).rest =
        (C.eepromErase appKeycfgFlashAddr 8 (C.forgetBonds w.rest)).2 := rfl
    refine keyCfg_load_erased hlast ?_
    rw [hrest]
    exact h _

theorem resetIsFresh_iff (h : ErasesKeys C) :
    ResetIsFresh C w ↔ w.keyboard.slottype = fun _ => 0 := by
  have hkeys : ((restarted C (erased C w)).config C).keys = keyCfgDefault fun _ => 0 :=
    keys_restarted (h _)
  have hfresh : ((restarted C (erased C w)).config C).tables =
      loadTables C.ble.mac erasedPage fun _ => 0 := tables_restarted (erased C w)
  have hreset : ((factoryReset C w).config C).tables =
      loadTables C.ble.mac erasedPage w.keyboard.slottype := by
    have htables : ((factoryReset C w).config C).tables =
        loadTables C.ble.mac erasedPage (kbBleDisconnect w.keyboard).1.slottype := rfl
    rw [htables, slottype_disconnect]
  constructor
  · intro hres
    have htables := congrArg Config.tables hres.ram
    rw [hreset, hfresh] at htables
    exact loadTables_erasedPage_inj.mp htables
  · intro htype
    have hsame {c d : Config n} (ht : c.tables = d.tables) (hk : c.keys = d.keys) : c = d := by
      cases c
      cases d
      exact congrArg₂ Config.mk ht hk
    refine ⟨hsame ?_ ?_, hsame ?_ ?_⟩
    · rw [hreset, hfresh, htype]
    · rw [keys_factoryReset h, hkeys]
    · exact (tables_restarted (factoryReset C w)).trans hfresh.symm
    · exact (keys_restarted (h _)).trans hkeys.symm

end Reset

section Runs

/-- An event of the keyboard, or any change of the rest of the node. -/
inductive Action (n : ℕ) (σ : Type) where
  | keyboard (e : Ble.Event)
  | rest (v : Node n σ)

variable (C : Chip n σ) (w : Node n σ)

def act : Action n σ → Node n σ
  | .keyboard e => { w with keyboard := step C.ble w.keyboard e }
  | .rest v => { v with keyboard := w.keyboard }

def KeepsPublic : Action n σ → Prop
  | .keyboard e => ¬ SeatsRandom w.keyboard e
  | .rest _ => True

structure AllPublic : Prop where
  linked : Linked w.keyboard
  hosts : Public C.ble w.keyboard

variable {C w}

theorem allPublic_start (w : Node n σ) : AllPublic C (restarted C (erased C w)) :=
  ⟨linked_boot C.ble erasedPage, public_boot_erased C.ble⟩

theorem allPublic_act (hn : n ≤ 3) {a : Action n σ} (hw : AllPublic C w) (ha : KeepsPublic w a) :
    AllPublic C (act C w a) := by
  cases a with
  | keyboard e =>
    exact ⟨linked_step C.ble w.keyboard e hw.linked, public_step hn hw.linked hw.hosts ha⟩
  | rest v => exact ⟨hw.linked, hw.hosts⟩

theorem not_fresh_act (h : ErasesKeys C) {a : Action n σ} (hw : AllPublic C w)
    (ha : ¬ KeepsPublic w a) : ¬ ResetIsFresh C (act C w a) := by
  intro hfresh
  have htype := (resetIsFresh_iff h).mp hfresh
  cases a with
  | keyboard e =>
    have hseats : SeatsRandom w.keyboard e := not_not.mp ha
    cases e with
    | linkEstablished handle addr addrType =>
      obtain ⟨s, hs⟩ := random_established (b := C.ble) hw.linked hw.hosts hseats
      have hzero : (step C.ble w.keyboard (.linkEstablished handle addr addrType)).slottype s = 0 :=
        congrFun htype s
      exact absurd (hs.symm.trans hzero) (by decide)
    | _ => exact hseats
  | rest v => exact ha trivial

/-- From every state of a run on an erased flash a factory reset leaves what a start with an erased
flash gives, exactly when along the run no host with a random address gets a slot. -/
theorem factory_reset_fresh_iff (hn : n ≤ 3) (C : Chip n σ) (h : ErasesKeys C) (w : Node n σ)
    (es : List (Action n σ)) :
    Always (act C) (ResetIsFresh C) (restarted C (erased C w)) es ↔
      Along (act C) KeepsPublic (restarted C (erased C w)) es := by
  apply always_iff_along (I := AllPublic C)
  · exact fun v hv => (resetIsFresh_iff h).mpr (funext hv.hosts.ram)
  · exact fun v a hv ha => allPublic_act hn hv ha
  · exact fun v a hv ha => not_fresh_act h hv ha
  · exact allPublic_start w

theorem erasesKeys_bareChip : ErasesKeys bareChip := fun _ => rfl

/-- A keyboard no host ever connected to. -/
theorem unpaired_keyboard_resets_fresh :
    Always (act bareChip) (ResetIsFresh bareChip) (restarted bareChip (erased bareChip bareNode))
      [.keyboard (.setName 0 (ascii ['d', 'e', 's', 'k'])), .keyboard .powerCycle] := by
  rw [factory_reset_fresh_iff (by decide) bareChip erasesKeys_bareChip]
  exact ⟨not_false, not_false, trivial⟩

/-- A host with a random address was paired: its address type survives the reset. -/
theorem address_type_survives_reset :
    ¬ Always (act bareChip) (ResetIsFresh bareChip) (restarted bareChip (erased bareChip bareNode))
      [.keyboard (.btPair pairBle1), .keyboard (.linkEstablished 0 host 1)] := by
  intro h
  have hreset := h.final.ram
  have htype := congrArg (fun c => c.tables.slottype 0) hreset
  exact absurd htype (by decide +kernel)

end Runs

end AtNode.AtCmds
