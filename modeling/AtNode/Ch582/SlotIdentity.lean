import AtNode.Lib.Registry
import AtNode.Ch582.BleKeyboard

/-!
# Host slot identity

The history of a keyboard lists the hosts recorded in slots that were neither unbound nor wiped. A
host has one slot, `slotmap_find` gives it that slot, and the slot is not handed to another host.
This holds throughout a run, power cycles included, if and only if no connection that is given a new
slot comes from a host already recorded or from an address whose first byte is 0xFF, the test by
which the code takes a slot for free.
-/

namespace AtNode.Ble

open Memory Router Run Registry

variable {n : ℕ}

structure History (n : ℕ) where
  kbd : Keyboard n
  bound : List (Fin n × Addr)

/-- A link that got a slot recorded its host there, unless the host was found there before. -/
def recorded (k k' : Keyboard n) (handle : UInt16) (addr : Addr) : List (Fin n × Addr) :=
  match kbdSlotOf k handle, kbdSlotOf k' handle with
  | none, some s => if slotmapFind k.toTables addr = some s then [] else [(s, addr)]
  | _, _ => []

/-- The bindings left when the slots of a list are unbound; a slot that looks free is not. -/
def keptBy (k : Keyboard n) (bound : List (Fin n × Addr)) (slots : List (Fin n)) :
    List (Fin n × Addr) :=
  bound.filter fun p => slots.all fun s => s = p.1 → LooksFree (k.slotmap s)

def note (k k' : Keyboard n) (bound : List (Fin n × Addr)) : Event → List (Fin n × Addr)
  | .linkEstablished handle addr _ => recorded k k' handle addr ++ bound
  | .btUnbind argv => keptBy k bound (named n argv)
  | .btPair argv => keptBy k bound (named n argv).getLast?.toList
  | .factoryReset | .factory => []
  | _ => bound

def historyStep (b : Board) (h : History n) (e : Event) : History n :=
  ⟨step b h.kbd e, note h.kbd (step b h.kbd e) h.bound e⟩

def start (b : Board) : History n := ⟨bleHidEmuInit b erasedPage, []⟩

/-- No host is in two slots; a host recorded in a slot is found there, and stays there. -/
structure Identity (h : History n) : Prop where
  once : ∀ s t, h.kbd.slotmap s = h.kbd.slotmap t → h.kbd.slotmap s ≠ erasedAddr → s = t
  found : ∀ p ∈ h.bound, slotmapFind h.kbd.toTables p.2 = some p.1
  kept : ∀ p ∈ h.bound, h.kbd.slotmap p.1 = p.2

/-- A host that is let in while a slot is free is either new, with an address that does not look
free, or has its own slot free. -/
def KeepsIdentity (h : History n) : Event → Prop
  | .linkEstablished handle addr _ =>
    FreshHandle h.kbd handle → kbdPolicyDrop h.kbd addr = false → (∃ s, SlotFree h.kbd s) →
      ¬ LooksFree addr ∧ ∀ s, slotmapFind h.kbd.toTables addr = some s → ConnFree h.kbd s
  | _ => True

/-- The page gives the host map back. -/
def Saved (b : Board) (k : Keyboard n) : Prop :=
  (loadTables b.mac k.page k.slottype).slotmap = k.slotmap

structure IdInv (b : Board) (h : History n) : Prop where
  linked : Linked h.kbd
  saved : Saved b h.kbd
  book : Book LooksFree erasedAddr h.kbd.slotmap h.bound

section SavedMap

theorem saved_of_savedPage (hn : n ≤ 3) {b : Board} {k : Keyboard n} {t : Tables n}
    (hp : k.page = savedPage b.stack t) (ht : t.slotmap = k.slotmap) : Saved b k := by
  unfold Saved
  rw [hp, loadTables_savedPage _ _ hn]
  exact ht

theorem Saved.same {b : Board} {k k' : Keyboard n} (h : Saved b k) (hp : k'.page = k.page)
    (hm : k'.slotmap = k.slotmap) : Saved b k' := by
  unfold Saved at h ⊢
  rw [hp, hm, ← h]
  rfl

def KeepsMap (b : Board) (k k' : Keyboard n) : Prop :=
  k'.slotmap = k.slotmap ∧
    (k'.page = k.page ∨ ∃ t : Tables n, k'.page = savedPage b.stack t ∧ t.slotmap = k.slotmap)

theorem Saved.keeps (hn : n ≤ 3) {b : Board} {k k' : Keyboard n} (h : Saved b k)
    (hk : KeepsMap b k k') : Saved b k' := by
  obtain ⟨hm, hp | ⟨t, hp, ht⟩⟩ := hk
  · exact h.same hp hm
  · exact saved_of_savedPage hn hp (ht.trans hm.symm)

theorem keepsMap_setType (b : Board) (k : Keyboard n) (s : Fin n) (type : UInt8) :
    KeepsMap b k (kbdSlotSetType b k s type) := by
  unfold kbdSlotSetType
  split
  · exact ⟨rfl, Or.inr ⟨_, rfl, rfl⟩⟩
  · exact ⟨rfl, Or.inl rfl⟩

theorem keepsMap_setters (b : Board) (k : Keyboard n) :
    (∀ slot name, KeepsMap b k (kbBleSlotSetName b k slot name).1) ∧
    (∀ slot ms, KeepsMap b k (kbBleSlotSetPace b k slot ms).1) ∧
    ∀ slot addr, KeepsMap b k (kbBleSlotSetMac b k slot addr).1 := by
  refine ⟨fun slot name => ?_, fun slot ms => ?_, fun slot addr => ?_⟩
  · unfold kbBleSlotSetName
    split
    · exact ⟨rfl, Or.inl rfl⟩
    dsimp only
    split
    · exact ⟨rfl, Or.inr ⟨_, rfl, rfl⟩⟩
    · exact ⟨rfl, Or.inl rfl⟩
  · unfold kbBleSlotSetPace
    split
    · exact ⟨rfl, Or.inl rfl⟩
    split
    · exact ⟨rfl, Or.inl rfl⟩
    · exact ⟨rfl, Or.inr ⟨_, rfl, rfl⟩⟩
  · unfold kbBleSlotSetMac
    split
    · exact ⟨rfl, Or.inl rfl⟩
    split
    · exact ⟨rfl, Or.inl rfl⟩
    · exact ⟨rfl, Or.inr ⟨_, rfl, rfl⟩⟩

theorem keepsMap_stored (b : Board) {k k' : Keyboard n} (h : Stored k k') : KeepsMap b k k' :=
  ⟨congrArg Tables.slotmap h.1, Or.inl h.2⟩

theorem saved_load (b : Board) (k : Keyboard n) : Saved b (slotmapLoad b k) := rfl

theorem boot_slotmap (b : Board) (page : ℕ → UInt8) (old : Fin n → UInt8) :
    (bleHidEmuInit b page : Keyboard n).slotmap = (loadTables b.mac page old).slotmap := by
  obtain ⟨a, ha⟩ := bleHidEmuInit_eq b page
  rw [ha]
  rfl

theorem saved_boot (b : Board) (page : ℕ → UInt8) :
    Saved b (bleHidEmuInit b page : Keyboard n) := by
  obtain ⟨a, ha⟩ := bleHidEmuInit_eq b page
  rw [ha]
  exact saved_load b { (bss page : Keyboard n) with air := a }

theorem erasedPage_slotmap (mac : Addr) (old : Fin n → UInt8) (s : Fin n) :
    (loadTables mac erasedPage old).slotmap s = erasedAddr := by
  have hmagic : ¬ leNat (row erasedPage 0 4 0) = slotmapMagic := by decide
  simp only [loadTables, hmagic, decide_false, Bool.false_eq_true, if_false]

end SavedMap

section Kept

theorem IdInv.keeps (hn : n ≤ 3) {b : Board} {k k' : Keyboard n} {bound : List (Fin n × Addr)}
    (h : IdInv b ⟨k, bound⟩) (hl : Linked k') (hk : KeepsMap b k k') : IdInv b ⟨k', bound⟩ :=
  ⟨hl, h.saved.keeps hn hk, by rw [hk.1]; exact h.book⟩

theorem keptBy_eq {b : Board} {h : History n} (hi : IdInv b h) (ss : List (Fin n)) :
    keptBy h.kbd h.bound ss = h.bound.filter fun p => p.1 ∉ ss := by
  apply List.filter_congr
  intro p hp
  have hreal : ¬ LooksFree (h.kbd.slotmap p.1) := by
    rw [hi.book.kept p hp]
    exact hi.book.taken p hp
  rw [Bool.eq_iff_iff, List.all_eq_true, decide_eq_true_iff]
  constructor
  · intro hall hs
    exact hreal (of_decide_eq_true (hall p.1 hs) rfl)
  · rintro hs s hmem
    exact decide_eq_true fun he => absurd (he ▸ hmem) hs

theorem idInv_unbindSlot (hn : n ≤ 3) {b : Board} {k : Keyboard n} {bound : List (Fin n × Addr)}
    (h : IdInv b ⟨k, bound⟩) (s : Fin n) :
    IdInv b ⟨(kbBleUnbindSlot b k s).1, bound.filter fun p => p.1 ≠ s⟩ := by
  have hbook : Book LooksFree erasedAddr (Function.update k.slotmap s erasedAddr)
      (bound.filter fun p => p.1 ≠ s) := h.book.erase s
  have hl : Linked (kbBleUnbindSlot b k s).1 := h.linked.ends (ends_unbind b k s)
  by_cases hs : k.slotmap s 0 = 0xFF
  · rw [kbBleUnbindSlot_free hs] at hl ⊢
    have hblank : k.slotmap s = erasedAddr := h.book.blank_of_vacant hs
    have hsame : Function.update k.slotmap s erasedAddr = k.slotmap := by
      rw [← hblank, Function.update_eq_self]
    rw [hsame] at hbook
    exact ⟨hl, h.saved, hbook⟩
  · obtain ⟨handles, a, he⟩ := kbBleUnbindSlot_bound b hs
    rw [he] at hl ⊢
    exact ⟨hl, saved_of_savedPage hn rfl rfl, hbook⟩

theorem idInv_overUnbind (hn : n ≤ 3) {b : Board} {k : Keyboard n} {bound : List (Fin n × Addr)}
    (h : IdInv b ⟨k, bound⟩) (ss : List (Fin n)) :
    IdInv b ⟨(overSlots (kbBleUnbindSlot b) k ss).1, bound.filter fun p => p.1 ∉ ss⟩ := by
  induction ss generalizing k bound with
  | nil => simpa [overSlots] using h
  | cons s ss ih =>
    have hrest := ih (idInv_unbindSlot hn h s)
    rw [List.filter_filter] at hrest
    have hfilter : (bound.filter fun p => decide (p.1 ∉ ss) && decide (p.1 ≠ s)) =
        bound.filter fun p => p.1 ∉ s :: ss := by
      apply List.filter_congr
      intro p _
      simp [Bool.and_comm]
    rw [hfilter] at hrest
    exact hrest

theorem idInv_unbindNamed (hn : n ≤ 3) {b : Board} {k : Keyboard n} {bound : List (Fin n × Addr)}
    (h : IdInv b ⟨k, bound⟩) (slot : Option (Fin n)) :
    IdInv b ⟨unbindNamed b k slot, bound.filter fun p => p.1 ∉ slot.toList⟩ := by
  cases slot with
  | none => simpa [unbindNamed] using h
  | some s => exact idInv_overUnbind hn h [s]

theorem idInv_btPair (hn : n ≤ 3) {b : Board} {h : History n} (hi : IdInv b h)
    (argv : List (List UInt8)) : IdInv b (historyStep b h (.btPair argv)) := by
  have hl := linked_step b h.kbd (.btPair argv) hi.linked
  have hu := idInv_unbindNamed hn hi (named n argv).getLast?
  rw [← keptBy_eq hi] at hu
  exact hu.keeps hn hl (keepsMap_stored b (stored_btPair b h.kbd argv))

theorem idInv_erased {b : Board} {k : Keyboard n} (hl : Linked k) (hs : Saved b k)
    (hm : ∀ s, k.slotmap s = erasedAddr) : IdInv b ⟨k, []⟩ := ⟨hl, hs, Book.nil hm⟩

theorem idInv_boot_erased (b : Board) :
    IdInv b ⟨(bleHidEmuInit b erasedPage : Keyboard n), []⟩ := by
  refine idInv_erased (linked_boot b _) (saved_boot b _) fun s => ?_
  rw [boot_slotmap b erasedPage fun _ => 0]
  exact erasedPage_slotmap b.mac _ s

theorem idInv_start (b : Board) : IdInv b (start b : History n) :=
  idInv_boot_erased b

end Kept

section Recording

theorem kbdSlotOf_congr {k k' : Keyboard n} (h : k'.conns = k.conns) (handle : UInt16) :
    kbdSlotOf k' handle = kbdSlotOf k handle := by
  unfold kbdSlotOf
  rw [h]

theorem kbdSlotOf_occupy {k : Keyboard n} {handle : UInt16} (hh : kbdSlotOf k handle = none)
    (s : Fin n) (addr : Addr) : kbdSlotOf (occupy k s handle addr) handle = some s := by
  cases ht : kbdSlotOf (occupy k s handle addr) handle with
  | none =>
    refine absurd ?_ (kbdSlotOf_none.mp ht s)
    rw [occupy_self]
  | some t =>
    have hc := kbdSlotOf_some ht
    by_cases hts : t = s
    · rw [hts]
    · rw [occupy_of_ne k hts] at hc
      exact absurd hc (kbdSlotOf_none.mp hh t)

theorem recorded_of_none {k k' : Keyboard n} {handle : UInt16} (addr : Addr)
    (h : kbdSlotOf k' handle = none) : recorded k k' handle addr = [] := by
  unfold recorded
  rw [h]
  cases kbdSlotOf k handle <;> rfl

theorem recorded_of_some {k k' : Keyboard n} {handle : UInt16} {addr : Addr} {s : Fin n}
    (hh : kbdSlotOf k handle = none) (h : kbdSlotOf k' handle = some s) :
    recorded k k' handle addr =
      if slotmapFind k.toTables addr = some s then [] else [(s, addr)] := by
  unfold recorded
  rw [hh, h]

theorem established_map (b : Board) {k : Keyboard n} (hk : Linked k) {handle : UInt16}
    (hf : FreshHandle k handle) (addr : Addr) (addrType : UInt8) :
    (KeepsMap b k (step b k (.linkEstablished handle addr addrType)) ∧
      recorded k (step b k (.linkEstablished handle addr addrType)) handle addr = [] ∧
      (kbdPolicyDrop k addr = true ∨ (∃ s, slotmapFind k.toTables addr = some s ∧ ConnFree k s) ∨
        ∀ s, ¬ SlotFree k s)) ∨
    (kbdPolicyDrop k addr = false ∧ ∃ s, SlotFree k s ∧
      (∀ t, slotmapFind k.toTables addr = some t → ¬ ConnFree k t) ∧
      (step b k (.linkEstablished handle addr addrType)).slotmap =
        Function.update k.slotmap s addr ∧
      (∃ t : Tables n, (step b k (.linkEstablished handle addr addrType)).page =
        savedPage b.stack t ∧ t.slotmap = Function.update k.slotmap s addr) ∧
      recorded k (step b k (.linkEstablished handle addr addrType)) handle addr = [(s, addr)]) := by
  have hh := hk.fresh hf
  have hrefused : recorded k (terminateLinks (addLink k handle) [handle]) handle addr = [] :=
    recorded_of_none addr ((kbdSlotOf_congr rfl handle).trans hh)
  have hocc : ∀ s, kbdSlotOf (occupy (addLink k handle) s handle addr) handle = some s :=
    fun s => kbdSlotOf_occupy (k := addLink k handle) hh s addr
  rcases established_cases b hk hf addr addrType with
    ⟨hd, he⟩ | ⟨_, s, hs, hfree, he⟩ | ⟨hd, hb, s, hs, he⟩ | ⟨_, _, hn, he⟩
  · rw [he]
    exact Or.inl ⟨⟨rfl, Or.inl rfl⟩, hrefused, Or.inl hd⟩
  · have hend := ends_setType b (occupy (addLink k handle) s handle addr) s addrType
    rw [he]
    refine Or.inl ⟨keepsMap_setType b _ s addrType, ?_, Or.inr (Or.inl ⟨s, hs, hfree⟩)⟩
    rw [recorded_of_some hh ((kbdSlotOf_congr hend.conns handle).trans (hocc s)), if_pos hs]
  · have hend :=
      ends_setType b (slotmapSave b (reserve (addLink k handle) s handle addr)) s addrType
    have hmap := keepsMap_setType b (slotmapSave b (reserve (addLink k handle) s handle addr)) s
      addrType
    have hslot := (kbdSlotOf_congr hend.conns handle).trans (hocc s)
    have hfree := kbdNextPairSlot_some hs
    rw [he]
    refine Or.inr ⟨hd, s, hfree, hb, hmap.1, ?_, ?_⟩
    · rcases hmap.2 with hp | ⟨t, hp, ht⟩
      · exact ⟨_, hp, rfl⟩
      · exact ⟨t, hp, ht⟩
    · rw [recorded_of_some hh hslot, if_neg]
      exact fun hfind => hb s hfind hfree.1
  · rw [he]
    exact Or.inl ⟨⟨rfl, Or.inl rfl⟩, hrefused, Or.inr (Or.inr (kbdNextPairSlot_none.mp hn))⟩

theorem recorded_self (k : Keyboard n) (handle : UInt16) (addr : Addr) :
    recorded k k handle addr = [] := by
  unfold recorded
  cases kbdSlotOf k handle <;> rfl

theorem historyStep_established (b : Board) (h : History n) (handle : UInt16) (addr : Addr)
    (addrType : UInt8) :
    historyStep b h (.linkEstablished handle addr addrType) =
      ⟨step b h.kbd (.linkEstablished handle addr addrType),
        recorded h.kbd (step b h.kbd (.linkEstablished handle addr addrType)) handle addr ++
          h.bound⟩ := rfl

theorem idInv_established (hn : n ≤ 3) {b : Board} {h : History n} (hi : IdInv b h)
    {handle : UInt16} {addr : Addr} (addrType : UInt8)
    (hp : KeepsIdentity h (.linkEstablished handle addr addrType)) :
    IdInv b (historyStep b h (.linkEstablished handle addr addrType)) := by
  have hl := linked_step b h.kbd (.linkEstablished handle addr addrType) hi.linked
  rw [historyStep_established]
  by_cases hf : FreshHandle h.kbd handle
  · rcases established_map b hi.linked hf addr addrType with
      ⟨hm, hr, _⟩ | ⟨hd, s, hs, hb, hm, ⟨t, hpage, ht⟩, hr⟩
    · rw [hr]
      exact IdInv.keeps hn hi hl hm
    · obtain ⟨hreal, hown⟩ := hp hf hd ⟨s, hs⟩
      have hnew : ∀ t, h.kbd.slotmap t ≠ addr := by
        intro t hta
        have hta0 : h.kbd.slotmap t 0 ≠ 0xFF := by rwa [hta]
        cases hfind : slotmapFind h.kbd.toTables addr with
        | none => exact slotmapFind_none.mp hfind t hta0 hta
        | some u => exact hb u hfind (hown u hfind)
      have hbook := hi.book.record hs.2 hreal hnew
      rw [← hm] at hbook
      rw [hr]
      exact ⟨hl, saved_of_savedPage hn hpage (ht.trans hm.symm), hbook⟩
  · have hsame : step b h.kbd (.linkEstablished handle addr addrType) = h.kbd := by
      rw [step, if_neg hf]
    rw [hsame, recorded_self]
    exact hi

end Recording

theorem idInv_step (hn : n ≤ 3) (b : Board) (h : History n) (e : Event) (hi : IdInv b h)
    (hp : KeepsIdentity h e) : IdInv b (historyStep b h e) := by
  have hl := linked_step b h.kbd e hi.linked
  cases e with
  | linkEstablished handle addr addrType => exact idInv_established hn hi addrType hp
  | linkTerminated | roleState | pairWindowEvt | advRearmEvt | dev | btDisc =>
    exact IdInv.keeps hn hi hl (keepsMap_stored b (stored_transient b h.kbd rfl))
  | btPair argv => exact idInv_btPair hn hi argv
  | btUnbind argv =>
    have hu := idInv_overUnbind hn hi (named n argv)
    rw [← btUnbindKbd_eq, ← keptBy_eq hi] at hu
    exact hu
  | setName slot name => exact IdInv.keeps hn hi hl ((keepsMap_setters b h.kbd).1 slot name)
  | setPace slot ms => exact IdInv.keeps hn hi hl ((keepsMap_setters b h.kbd).2.1 slot ms)
  | setMac slot addr => exact IdInv.keeps hn hi hl ((keepsMap_setters b h.kbd).2.2 slot addr)
  | factoryReset => exact idInv_erased hl (saved_load b _) fun s => erasedPage_slotmap b.mac _ s
  | factory => exact idInv_boot_erased b
  | powerCycle =>
    have hbook := hi.book
    rw [← hi.saved, ← boot_slotmap] at hbook
    exact ⟨hl, saved_boot b _, hbook⟩

theorem identity_of_inv {b : Board} {h : History n} (hi : IdInv b h) : Identity h := by
  refine ⟨fun s t he hs => hi.book.once he hs, fun p hp => ?_, hi.book.kept⟩
  have hkept := hi.book.kept p hp
  have hreal := hi.book.taken p hp
  cases hfind : slotmapFind h.kbd.toTables p.2 with
  | none =>
    refine absurd hkept (slotmapFind_none.mp hfind p.1 ?_)
    rw [hkept]
    exact hreal
  | some s =>
    obtain ⟨hs0, hs⟩ := slotmapFind_some hfind
    have hblank : h.kbd.slotmap s ≠ erasedAddr := by
      intro he
      rw [he] at hs0
      exact hs0 rfl
    rw [hi.book.slot_eq hp hblank hs]

/-- A host can be recorded in a slot and keep the identity only if its address does not look free
and it is recorded nowhere else. -/
theorem Identity.of_recorded {k : Keyboard n} {h : History n} (hid : Identity h) {s : Fin n}
    {addr : Addr} (hs : ConnFree k s) (hm : h.kbd.slotmap = Function.update k.slotmap s addr)
    (hmem : (s, addr) ∈ h.bound) :
    addr 0 ≠ 0xFF ∧ ∀ t, slotmapFind k.toTables addr = some t → ConnFree k t := by
  have hself : h.kbd.slotmap s = addr := hid.kept _ hmem
  constructor
  · obtain ⟨h0, _⟩ := slotmapFind_some (hid.found _ hmem)
    rwa [hself] at h0
  · intro t ht
    obtain ⟨ht0, hta⟩ := slotmapFind_some ht
    by_cases hts : t = s
    · rw [hts]
      exact hs
    · have hother : h.kbd.slotmap t = addr := by
        rw [hm, Function.update_of_ne hts]
        exact hta
      refine absurd (hid.once t s (hother.trans hself.symm) ?_) hts
      intro he
      have hblank : k.slotmap t = erasedAddr := hta.trans (hother.symm.trans he)
      rw [hblank] at ht0
      exact ht0 rfl

theorem not_identity_step (b : Board) (h : History n) (e : Event) (hi : IdInv b h)
    (hp : ¬ KeepsIdentity h e) : ¬ Identity (historyStep b h e) := by
  cases e with
  | linkEstablished handle addr addrType =>
    simp only [KeepsIdentity, Classical.not_imp] at hp
    obtain ⟨hf, hd, ⟨s, hs⟩, hbad⟩ := hp
    rw [historyStep_established]
    intro hid
    rcases established_map b hi.linked hf addr addrType with
      ⟨_, _, hd' | ⟨t, ht, htf⟩ | hnone⟩ | ⟨_, t, ht, _, hm, _, hr⟩
    · exact Bool.false_ne_true (hd.symm.trans hd')
    · obtain ⟨ht0, hta⟩ := slotmapFind_some ht
      refine hbad ⟨by rwa [← hta], fun u hu => ?_⟩
      rw [← Option.some.inj (ht.symm.trans hu)]
      exact htf
    · exact hnone s hs
    · refine hbad (hid.of_recorded ht.1 hm ?_)
      rw [hr]
      exact List.mem_cons_self
  | _ => exact absurd trivial hp

/-- In every run from an erased page, every host has one slot, is found there and keeps it until the
slot is unbound or the map is wiped, if and only if every connection of the run meets its
condition. -/
theorem host_slot_identity (hn : n ≤ 3) (b : Board) (es : List Event) :
    Always (historyStep b) Identity (start b : History n) es ↔
      Along (historyStep b) KeepsIdentity (start b : History n) es :=
  always_iff_along (fun _ hi => identity_of_inv hi) (idInv_step hn b) (not_identity_step b)
    (idInv_start b)

/-- A host with a static random address as `slotmap` keeps it, last byte first. -/
def hostFF : Addr := List.get [0xFF, 0x02, 0x03, 0x04, 0x05, 0xC6]

instance (h : History n) : DecidablePred (KeepsIdentity h)
  | .linkEstablished handle addr _ => inferInstanceAs <| Decidable <|
      FreshHandle h.kbd handle → kbdPolicyDrop h.kbd addr = false → (∃ s, SlotFree h.kbd s) →
        ¬ LooksFree addr ∧ ∀ s, slotmapFind h.kbd.toTables addr = some s → ConnFree h.kbd s
  | .linkTerminated .. | .roleState _ | .pairWindowEvt | .advRearmEvt | .dev _ | .btPair _
  | .btUnbind _ | .btDisc _ | .setName .. | .setPace .. | .setMac .. | .factoryReset | .factory
  | .powerCycle => instDecidableTrue

/-- A host pairs into BLE1, leaves, comes back after a power cycle and is unbound. -/
theorem host_keeps_slot :
    Always (historyStep board) Identity (start board : History 3)
      [.btPair pairBle1, .linkEstablished 0 host 1, .linkTerminated 0 4, .powerCycle,
        .linkEstablished 0 host 1, .btUnbind pairBle1] := by
  rw [host_slot_identity (by decide)]
  decide +kernel

/-- A host whose address has 0xFF as its first byte pairs into BLE1 and is not found there. -/
theorem host_not_found :
    ¬ ∀ es : List Event, Always (historyStep board) Identity (start board : History 3) es := by
  intro hall
  have hlast := (hall [.btPair pairBle1, .linkEstablished 0 hostFF 1]).final
  have hmem : ((0 : Fin 3), hostFF) ∈ (final (historyStep board) (start board)
      [.btPair pairBle1, .linkEstablished 0 hostFF 1]).bound := by
    decide +kernel
  exact absurd (hlast.found _ hmem) (by decide +kernel)

end AtNode.Ble
