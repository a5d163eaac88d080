import Mathlib.Data.Fintype.Basic
import AtNode.Lib.Memory
import AtNode.Ch582.KeyRouter

/-!
# The host slots of the BLE keyboard

A BLE keyboard build has `n` host slots (`KBD_MAX_CONN`: three in the multi-host build, one in the
others). A slot keeps the address of its host, a label, a typing pace, an own address and the
address type of the host. The five tables are kept in one flash page of 96 bytes; a section of the
page that looks erased is given its default on load.

`Air` is what the firmware told the BLE stack and the timers it started. Links are named by the
handles the stack gave them.
-/

namespace AtNode.Ble

open Memory Router

abbrev Addr := Fin 6 → UInt8

abbrev Label := Fin 12 → UInt8

abbrev connHandleInit : UInt16 := 0xFFFE

def erasedAddr : Addr := fun _ => 0xFF

abbrev LooksFree (addr : Addr) : Prop := addr 0 = 0xFF

abbrev LooksUnset (own : Addr) : Prop := own 0 = 0xFF ∧ own 5 = 0xFF

/-- A label that does not look erased and that the load leaves as it is. -/
abbrev Readable (l : Label) : Prop := l 0 ≠ 0xFF ∧ l 11 = 0

structure Tables (n : ℕ) where
  slotmap : Fin n → Addr
  slotname : Fin n → Label
  slotpace : Fin n → UInt16
  slotmac : Fin n → Addr
  slottype : Fin n → UInt8

structure Conn where
  handle : UInt16
  addr : Addr
  deriving DecidableEq

structure Link where
  handle : UInt16
  terminating : Bool
  deriving DecidableEq

structure Air where
  attDeviceName : ℕ → UInt8
  advertData : ℕ → UInt8
  stackAdvertData : ℕ → UInt8
  advertEnabled : Bool
  advEventType : UInt8
  advDirectType : UInt8
  advDirectAddr : Addr
  deviceAddr : Addr
  pairWindowEvt : Bool
  advRearmEvt : Bool

structure Keyboard (n : ℕ) extends Tables n where
  conns : Fin n → Conn
  pairSlot : Option (Fin n)
  kbTarget : UInt8
  page : ℕ → UInt8
  links : List Link
  air : Air

/-- The chip address, and what the unused tail of the buffer in `slotmap_save` holds. -/
structure Board where
  mac : Addr
  stack : ℕ → UInt8

variable {n : ℕ}

section Lookup

abbrev ConnFree (k : Keyboard n) (s : Fin n) : Prop := (k.conns s).handle = connHandleInit

abbrev SlotFree (k : Keyboard n) (s : Fin n) : Prop := ConnFree k s ∧ LooksFree (k.slotmap s)

def bleSlots (n : ℕ) (m : UInt8) : List (Fin n) :=
  (List.finRange n).filter fun s => m &&& slotBit s ≠ 0

def activeSlot (n : ℕ) (kbTarget : UInt8) : Option (Fin n) := (bleSlots n kbTarget).head?

def slotmapFind (t : Tables n) (addr : Addr) : Option (Fin n) :=
  (List.finRange n).find? fun s => t.slotmap s 0 ≠ 0xFF ∧ t.slotmap s = addr

def kbdNextPairSlot (k : Keyboard n) : Option (Fin n) :=
  (k.pairSlot.filter fun s => SlotFree k s).or <|
    ((activeSlot n k.kbTarget).filter fun s => SlotFree k s).or <|
      (List.finRange n).find? fun s => SlotFree k s

def kbdSlotOf (k : Keyboard n) (handle : UInt16) : Option (Fin n) :=
  (List.finRange n).find? fun s => (k.conns s).handle = handle

def kbBleConnCount (k : Keyboard n) : ℕ := (List.finRange n).countP fun s => ¬ ConnFree k s

theorem mem_bleSlots {m : UInt8} {s : Fin n} : s ∈ bleSlots n m ↔ m &&& slotBit s ≠ 0 := by
  simp [bleSlots]

theorem selected_of_activeSlot {m : UInt8} {s : Fin n} (h : activeSlot n m = some s) :
    m &&& slotBit s ≠ 0 := mem_bleSlots.mp (List.mem_of_head? h)

theorem activeSlot_eq_none {m : UInt8} :
    activeSlot n m = none ↔ ∀ s : Fin n, m &&& slotBit s = 0 := by
  rw [activeSlot, List.head?_eq_none_iff, List.eq_nil_iff_forall_not_mem]
  simp only [mem_bleSlots, ne_eq, not_not]

theorem slotBit_ne_zero {m : UInt8} {s : Fin n} (h : m &&& slotBit s ≠ 0) : slotBit s ≠ 0 := by
  intro hz
  rw [hz, UInt8.and_zero] at h
  exact h rfl

theorem slotmapFind_some {t : Tables n} {addr : Addr} {s : Fin n}
    (h : slotmapFind t addr = some s) : t.slotmap s 0 ≠ 0xFF ∧ t.slotmap s = addr := by
  simpa using List.find?_some h

theorem slotmapFind_none {t : Tables n} {addr : Addr} :
    slotmapFind t addr = none ↔ ∀ s, t.slotmap s 0 ≠ 0xFF → t.slotmap s ≠ addr := by
  simp [slotmapFind]

theorem kbdSlotOf_some {k : Keyboard n} {handle : UInt16} {s : Fin n}
    (h : kbdSlotOf k handle = some s) : (k.conns s).handle = handle := by
  simpa using List.find?_some h

theorem kbdSlotOf_none {k : Keyboard n} {handle : UInt16} :
    kbdSlotOf k handle = none ↔ ∀ s, (k.conns s).handle ≠ handle := by
  simp [kbdSlotOf]

theorem kbdNextPairSlot_none {k : Keyboard n} :
    kbdNextPairSlot k = none ↔ ∀ s, ¬ SlotFree k s := by
  unfold kbdNextPairSlot
  rw [Option.or_eq_none_iff, Option.or_eq_none_iff, List.find?_eq_none]
  constructor
  · intro h s
    simpa using h.2.2 s (List.mem_finRange s)
  · intro h
    refine ⟨?_, ?_, fun s _ => by simpa using h s⟩
    · rw [Option.filter_eq_none_iff]
      exact fun s _ => by simpa using h s
    · rw [Option.filter_eq_none_iff]
      exact fun s _ => by simpa using h s

theorem kbdNextPairSlot_some {k : Keyboard n} {s : Fin n} (h : kbdNextPairSlot k = some s) :
    SlotFree k s := by
  unfold kbdNextPairSlot at h
  rw [Option.or_eq_some_iff, Option.or_eq_some_iff] at h
  rcases h with h | ⟨_, h | ⟨_, h⟩⟩
  · simpa using (Option.filter_eq_some_iff.mp h).2
  · simpa using (Option.filter_eq_some_iff.mp h).2
  · simpa using List.find?_some h

end Lookup

section Name

def hex (d : UInt8) : UInt8 :=
  (ascii ['0', '1', '2', '3', '4', '5', '6', '7', '8', '9', 'A', 'B', 'C', 'D', 'E', 'F']).getD
    d.toNat 0

def deviceName (mac : Addr) (next : Option (Fin n)) : List UInt8 :=
  ascii ['A', 'T', '-', 'N', 'o', 'd', 'e', '-'] ++
    [hex (mac 1 >>> 4 &&& 0xF), hex (mac 1 &&& 0xF),
      hex (mac 0 >>> 4 &&& 0xF), hex (mac 0 &&& 0xF)] ++
    match next with
    | some s => ['-'.toUInt8, '0'.toUInt8 + UInt8.ofNat s + 1]
    | none => []

def kbdNameUpdate (b : Board) (k : Keyboard n) : Keyboard n :=
  let mac := match activeSlot n k.kbTarget with
    | some act => k.slotmac act
    | none => b.mac
  let name := deviceName mac (kbdNextPairSlot k)
  let len := min name.length 14
  { k with air := { k.air with
      attDeviceName := fun i => name.getD i 0
      advertData := copyTo (copyTo k.air.advertData 7 1 fun _ => UInt8.ofNat (1 + len)) 9 len
        fun i => name.getD i 0 } }

end Name

section Persistence

abbrev slotmapMagic : ℕ := 0xA77E0001

abbrev slotpaceDflt : UInt16 := 30

def slotmapBuf (stack : ℕ → UInt8) (t : Tables n) : ℕ → UInt8 :=
  let buf := copyTo stack 0 4 (leByte slotmapMagic)
  let buf := copyTo buf 4 (6 * n) (rows t.slotmap)
  let buf := copyTo buf (4 + 6 * n) (12 * n) (rows t.slotname)
  let buf := copyTo buf (4 + 18 * n) (2 * n)
    (rows fun s (j : Fin 2) => leByte (t.slotpace s).toNat j)
  let buf := copyTo buf (4 + 20 * n) (6 * n) (rows t.slotmac)
  copyTo buf (4 + 26 * n) (1 * n) (rows fun s (_ : Fin 1) => t.slottype s)

def erasedPage : ℕ → UInt8 := fun _ => 0xFF

/-- The page after the erase and the write of `slotmap_save`. -/
def savedPage (stack : ℕ → UInt8) (t : Tables n) : ℕ → UInt8 :=
  copyTo erasedPage 0 96 (slotmapBuf stack t)

def slotmapSave (b : Board) (k : Keyboard n) : Keyboard n :=
  kbdNameUpdate b { k with page := savedPage b.stack k.toTables }

def deriveMac (mac : Addr) (s : Fin n) : Addr := fun j =>
  if j = 0 then mac 0 + UInt8.ofNat s else mac j

def deriveUnset (mac : Addr) (s : Fin n) (own : Addr) : Addr :=
  if LooksUnset own then deriveMac mac s else own

def setAt (l : Label) (i : ℕ) (c : UInt8) : Label := fun j => if j = i then c else l j

/-- The tables `slotmap_load` builds from the page; `old` are the address types before it. -/
def loadTables (mac : Addr) (page : ℕ → UInt8) (old : Fin n → UInt8) : Tables n :=
  let valid : Bool := leNat (row page 0 4 0) = slotmapMagic
  let name (s : Fin n) : Label := row page (4 + 6 * n) 12 s
  let pace (s : Fin n) : UInt16 := UInt16.ofNat (leNat (row page (4 + 18 * n) 2 s))
  let own (s : Fin n) : Addr := if valid then row page (4 + 20 * n) 6 s else erasedAddr
  let type (s : Fin n) : UInt8 := row page (4 + 26 * n) 1 s 0
  { slotmap := fun s => if valid then row page 4 6 s else erasedAddr
    slotname := fun s => setAt (if valid ∧ name s 0 ≠ 0xFF then name s else fun _ => 0) 11 0
    slotpace := fun s =>
      if valid ∧ pace s ≠ 0xFFFF ∧ 5 ≤ pace s ∧ pace s ≤ 2000 then pace s else slotpaceDflt
    slotmac := fun s => deriveUnset mac s (own s)
    slottype := fun s => if valid then (if 1 < type s then 1 else type s) else old s }

def slotmapLoad (b : Board) (k : Keyboard n) : Keyboard n :=
  { k with toTables := loadTables b.mac k.page k.slottype }

def kbBleFactoryReset (b : Board) (k : Keyboard n) : Keyboard n :=
  slotmapLoad b { k with page := erasedPage }

theorem kbdNameUpdate_eq (b : Board) (k : Keyboard n) :
    ∃ a, kbdNameUpdate b k = { k with air := a } := ⟨_, rfl⟩

theorem slotmapSave_eq (b : Board) (k : Keyboard n) :
    ∃ a, slotmapSave b k = { k with page := savedPage b.stack k.toTables, air := a } := ⟨_, rfl⟩

section ReadBack

variable (stack : ℕ → UInt8) (t : Tables n)

theorem savedPage_magic (hn : n ≤ 3) : leNat (row (savedPage stack t) 0 4 0) = slotmapMagic := by
  have hrow : row (savedPage stack t) 0 4 0 = fun j : Fin 4 => leByte slotmapMagic j := by
    rw [savedPage, row_copyTo_whole _ _ (by omega), slotmapBuf, row_copyTo_before _ _ (by omega),
      row_copyTo_before _ _ (by omega), row_copyTo_before _ _ (by omega),
      row_copyTo_before _ _ (by omega), row_copyTo_before _ _ (by omega)]
    funext j
    rw [row, Nat.mul_zero, Nat.zero_add, copyTo_inside _ _ j.isLt]
  rw [hrow, leNat_leByte, Nat.mod_eq_of_lt (by norm_num)]

theorem savedPage_slotmap (hn : n ≤ 3) (s : Fin n) :
    row (savedPage stack t) 4 6 s = t.slotmap s := by
  have hs := s.isLt
  rw [savedPage, row_copyTo_whole _ _ (by omega), slotmapBuf, row_copyTo_before _ _ (by omega),
    row_copyTo_before _ _ (by omega), row_copyTo_before _ _ (by omega),
    row_copyTo_before _ _ (by omega), row_copyTo_rows]

theorem savedPage_slotname (hn : n ≤ 3) (s : Fin n) :
    row (savedPage stack t) (4 + 6 * n) 12 s = t.slotname s := by
  have hs := s.isLt
  rw [savedPage, row_copyTo_whole _ _ (by omega), slotmapBuf, row_copyTo_before _ _ (by omega),
    row_copyTo_before _ _ (by omega), row_copyTo_before _ _ (by omega), row_copyTo_rows]

theorem savedPage_slotpace (hn : n ≤ 3) (s : Fin n) :
    UInt16.ofNat (leNat (row (savedPage stack t) (4 + 18 * n) 2 s)) = t.slotpace s := by
  have hs := s.isLt
  have hrow : row (savedPage stack t) (4 + 18 * n) 2 s =
      fun j : Fin 2 => leByte (t.slotpace s).toNat j := by
    rw [savedPage, row_copyTo_whole _ _ (by omega), slotmapBuf, row_copyTo_before _ _ (by omega),
      row_copyTo_before _ _ (by omega), row_copyTo_rows]
  have hlt : (t.slotpace s).toNat < 256 ^ 2 := (t.slotpace s).toNat_lt
  rw [hrow, leNat_leByte, Nat.mod_eq_of_lt hlt, UInt16.ofNat_toNat]

theorem savedPage_slotmac (hn : n ≤ 3) (s : Fin n) :
    row (savedPage stack t) (4 + 20 * n) 6 s = t.slotmac s := by
  have hs := s.isLt
  rw [savedPage, row_copyTo_whole _ _ (by omega), slotmapBuf, row_copyTo_before _ _ (by omega),
    row_copyTo_rows]

theorem savedPage_slottype (hn : n ≤ 3) (s : Fin n) :
    row (savedPage stack t) (4 + 26 * n) 1 s 0 = t.slottype s := by
  have hs := s.isLt
  rw [savedPage, row_copyTo_whole _ _ (by omega), slotmapBuf, row_copyTo_rows]

/-- What `slotmap_load` makes of the tables `slotmap_save` wrote. -/
def restored (mac : Addr) (t : Tables n) : Tables n where
  slotmap := t.slotmap
  slotname s := setAt (if t.slotname s 0 ≠ 0xFF then t.slotname s else fun _ => 0) 11 0
  slotpace s := if t.slotpace s ≠ 0xFFFF ∧ 5 ≤ t.slotpace s ∧ t.slotpace s ≤ 2000 then t.slotpace s
    else slotpaceDflt
  slotmac s := deriveUnset mac s (t.slotmac s)
  slottype s := if 1 < t.slottype s then 1 else t.slottype s

theorem loadTables_savedPage (hn : n ≤ 3) (mac : Addr) (old : Fin n → UInt8) :
    loadTables mac (savedPage stack t) old = restored mac t := by
  simp only [loadTables, savedPage_magic stack t hn, savedPage_slotmap stack t hn,
    savedPage_slotname stack t hn, savedPage_slotpace stack t hn, savedPage_slotmac stack t hn,
    savedPage_slottype stack t hn, decide_true, if_true, true_and, restored]

end ReadBack

end Persistence

section Setters

def slotAt (n : ℕ) (slot : UInt8) : Option (Fin n) :=
  if h : slot.toNat < n then some ⟨slot.toNat, h⟩ else none

def labelChar (c : UInt8) : Prop :=
  'A'.toUInt8 ≤ c ∧ c ≤ 'Z'.toUInt8 ∨ 'a'.toUInt8 ≤ c ∧ c ≤ 'z'.toUInt8 ∨
    '0'.toUInt8 ≤ c ∧ c ≤ '9'.toUInt8 ∨ c = '-'.toUInt8 ∨ c = '_'.toUInt8

instance (c : UInt8) : Decidable (labelChar c) := by unfold labelChar; infer_instance

/-- The copy loop of `kb_ble_slot_set_name`, and whether it met the end of the label. -/
def copyLabel : List UInt8 → ℕ → Label → Label × Bool
  | [], i, l => (setAt l i 0, true)
  | c :: cs, i, l =>
    if 11 ≤ i then (setAt l i 0, true)
    else if labelChar c then copyLabel cs (i + 1) (setAt l i c)
    else (l, false)

def kbBleSlotSetName (b : Board) (k : Keyboard n) (slot : UInt8) (name : List UInt8) :
    Keyboard n × Int :=
  match slotAt n slot with
  | none => (k, -1)
  | some s =>
    let r := copyLabel name 0 (k.slotname s)
    let k' := { k with slotname := Function.update k.slotname s r.1 }
    if r.2 then (slotmapSave b k', 0) else (k', -1)

def kbBleSlotSetPace (b : Board) (k : Keyboard n) (slot : UInt8) (ms : UInt16) : Keyboard n × Int :=
  match slotAt n slot with
  | none => (k, -1)
  | some s =>
    if ms < 5 ∨ 2000 < ms then (k, -1)
    else (slotmapSave b { k with slotpace := Function.update k.slotpace s ms }, 0)

def kbBleSlotSetMac (b : Board) (k : Keyboard n) (slot : UInt8) (addr : Addr) : Keyboard n × Int :=
  match slotAt n slot with
  | none => (k, -1)
  | some s =>
    if addr 5 &&& 0xC0 ≠ 0xC0 then (k, -1)
    else (slotmapSave b { k with slotmac := Function.update k.slotmac s addr }, 0)

def kbdSlotSetType (b : Board) (k : Keyboard n) (s : Fin n) (type : UInt8) : Keyboard n :=
  if k.slottype s ≠ type ∧ type ≤ 1 then
    slotmapSave b { k with slottype := Function.update k.slottype s type }
  else k

end Setters

section Allocation

def terminateLinks (k : Keyboard n) (handles : List UInt16) : Keyboard n :=
  { k with links := k.links.map fun l =>
      { l with terminating := l.terminating || handles.contains l.handle } }

theorem terminateLinks_nil (k : Keyboard n) : terminateLinks k [] = k := by
  have hl : k.links.map (fun l => { l with terminating := l.terminating || [].contains l.handle }) =
      k.links := by
    simp
  rw [terminateLinks, hl]

theorem terminateLinks_append (k : Keyboard n) (hs hs' : List UInt16) :
    terminateLinks (terminateLinks k hs) hs' = terminateLinks k (hs ++ hs') := by
  simp [terminateLinks, Bool.or_assoc]

/-- The link is up and its end was not asked for. -/
def Up (k : Keyboard n) (handle : UInt16) : Prop := (⟨handle, false⟩ : Link) ∈ k.links

theorem up_terminateLinks {k : Keyboard n} {handles : List UInt16} {handle : UInt16} :
    Up (terminateLinks k handles) handle ↔ Up k handle ∧ handle ∉ handles := by
  constructor
  · intro h
    obtain ⟨l, hl, he⟩ := List.mem_map.mp h
    cases l with
    | mk h' t =>
      simp only [Link.mk.injEq, Bool.or_eq_false_iff] at he
      obtain ⟨rfl, rfl, hc⟩ := he
      exact ⟨hl, by simpa using hc⟩
  · rintro ⟨h, hn⟩
    exact List.mem_map.mpr ⟨_, h, by simpa using hn⟩

def Live (k : Keyboard n) (handle : UInt16) : Prop := ∃ l ∈ k.links, l.handle = handle

theorem live_terminateLinks {k : Keyboard n} {handles : List UInt16} {handle : UInt16} :
    Live (terminateLinks k handles) handle ↔ Live k handle := by
  simp [Live, terminateLinks]

def occupy (k : Keyboard n) (s : Fin n) (handle : UInt16) (addr : Addr) : Keyboard n :=
  { k with conns := Function.update k.conns s ⟨handle, addr⟩ }

/-- The slot is taken by a new host, whose address is remembered. -/
def reserve (k : Keyboard n) (s : Fin n) (handle : UInt16) (addr : Addr) : Keyboard n :=
  { occupy k s handle addr with slotmap := Function.update k.slotmap s addr }

def kbdSlotAlloc (b : Board) (k : Keyboard n) (handle : UInt16) (addr : Addr) :
    Keyboard n × Option (Fin n) :=
  match kbdSlotOf k handle with
  | some s => (k, some s)
  | none =>
    match (slotmapFind k.toTables addr).filter fun s => ConnFree k s with
    | some s => (occupy k s handle addr, some s)
    | none =>
      match kbdNextPairSlot k with
      | some s => (slotmapSave b (reserve k s handle addr), some s)
      | none => (k, none)

theorem kbdSlotAlloc_reclaim {b : Board} {k : Keyboard n} {handle : UInt16} {addr : Addr}
    {s : Fin n} (hh : kbdSlotOf k handle = none) (hs : slotmapFind k.toTables addr = some s)
    (hf : ConnFree k s) : kbdSlotAlloc b k handle addr = (occupy k s handle addr, some s) := by
  have hsome : ((slotmapFind k.toTables addr).filter fun s => ConnFree k s) = some s :=
    Option.filter_eq_some_iff.mpr ⟨hs, decide_eq_true hf⟩
  simp only [kbdSlotAlloc, hh, hsome]

theorem kbdSlotAlloc_new {b : Board} {k : Keyboard n} {handle : UInt16} {addr : Addr} {s : Fin n}
    (hh : kbdSlotOf k handle = none)
    (hr : ∀ t, slotmapFind k.toTables addr = some t → ¬ ConnFree k t)
    (hs : kbdNextPairSlot k = some s) :
    kbdSlotAlloc b k handle addr = (slotmapSave b (reserve k s handle addr), some s) := by
  have hnone : ((slotmapFind k.toTables addr).filter fun s => ConnFree k s) = none := by
    rw [Option.filter_eq_none_iff]
    exact fun t ht => by simpa using hr t ht
  simp only [kbdSlotAlloc, hh, hnone, hs]

theorem kbdSlotAlloc_full {b : Board} {k : Keyboard n} {handle : UInt16} {addr : Addr}
    (hh : kbdSlotOf k handle = none)
    (hr : ∀ t, slotmapFind k.toTables addr = some t → ¬ ConnFree k t)
    (hs : kbdNextPairSlot k = none) : kbdSlotAlloc b k handle addr = (k, none) := by
  have hnone : ((slotmapFind k.toTables addr).filter fun s => ConnFree k s) = none := by
    rw [Option.filter_eq_none_iff]
    exact fun t ht => by simpa using hr t ht
  simp only [kbdSlotAlloc, hh, hnone, hs]

def unbound (t : Tables n) (s : Fin n) : Tables n :=
  { t with
    slotmap := Function.update t.slotmap s erasedAddr
    slotname := Function.update t.slotname s (setAt (t.slotname s) 0 0)
    slotpace := Function.update t.slotpace s slotpaceDflt }

/-- The bond the command erases as well is the stack's. -/
def kbBleUnbindSlot (b : Board) (k : Keyboard n) (s : Fin n) : Keyboard n × Int :=
  if LooksFree (k.slotmap s) then (k, -1)
  else
    let k' := slotmapSave b { k with toTables := unbound k.toTables s }
    (if ConnFree k' s then k' else terminateLinks k' [(k'.conns s).handle], 0)

theorem kbBleUnbindSlot_free {b : Board} {k : Keyboard n} {s : Fin n} (h : k.slotmap s 0 = 0xFF) :
    kbBleUnbindSlot b k s = (k, -1) := if_pos h

theorem kbBleUnbindSlot_bound (b : Board) {k : Keyboard n} {s : Fin n} (h : k.slotmap s 0 ≠ 0xFF) :
    ∃ handles a, (kbBleUnbindSlot b k s).1 =
      { k with
        toTables := unbound k.toTables s
        page := savedPage b.stack (unbound k.toTables s)
        links := (terminateLinks k handles).links
        air := a } := by
  obtain ⟨a, ha⟩ := slotmapSave_eq b { k with toTables := unbound k.toTables s }
  unfold kbBleUnbindSlot
  rw [if_neg h, ha]
  by_cases hf : ConnFree k s
  · exact ⟨[], a, by rw [terminateLinks_nil]; exact if_pos hf⟩
  · exact ⟨[(k.conns s).handle], a, if_neg hf⟩

def kbBleDisconnectSlot (k : Keyboard n) (s : Fin n) : Keyboard n × Int :=
  if ConnFree k s then (k, -1) else (terminateLinks k [(k.conns s).handle], 0)

def handlesOf (k : Keyboard n) (p : Fin n → Prop) [DecidablePred p] : List UInt16 :=
  ((List.finRange n).filter fun s => p s ∧ ¬ ConnFree k s).map fun s => (k.conns s).handle

def kbBleDisconnect (k : Keyboard n) : Keyboard n × Int :=
  if kbBleConnCount k = 0 then (k, -1)
  else (terminateLinks k (handlesOf k fun _ => True), 0)

end Allocation

end AtNode.Ble
