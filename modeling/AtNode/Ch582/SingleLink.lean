import AtNode.Ch582.BleKeyboard

/-!
# One active link

Every live link is in the slot `kb_target` selects, or its end has been asked for. The policy holds
throughout a run as long as every host that is let in lands in the selected slot, and, in a
single-host build, the keyboard is pointed away from BLE only while no link is up.

A host lands elsewhere when the pairing window is still open for a slot that is no longer selected,
or when the slot it pairs into is not free and another one is. A single-host build lets every host
in and does not end its link when USB is selected.
-/

namespace AtNode.Ble

open Memory Router Run

variable {n : ℕ}

def SingleLink (k : Keyboard n) : Prop :=
  ∀ l ∈ k.links, l.terminating = true ∨ ∃ s, (k.conns s).handle = l.handle ∧ Selected k s

instance (k : Keyboard n) : Decidable (SingleLink k) := by
  unfold SingleLink
  infer_instance

def NoneUp (k : Keyboard n) : Prop := ∀ handle, ¬ Up k handle

/-- A new host pairs into the selected slot: the window's slot, when free, is the selected one, and
when it is not, the selected slot is free unless none is. -/
def PairsOnTarget (k : Keyboard n) : Prop :=
  (∀ s, k.pairSlot = some s → SlotFree k s → Selected k s) ∧
  ((∀ s, k.pairSlot = some s → ¬ SlotFree k s) → (∃ s, SlotFree k s) →
    ∃ s, Selected k s ∧ SlotFree k s)

def LandsOnTarget (k : Keyboard n) (addr : Addr) : Prop :=
  (∀ s, slotmapFind k.toTables addr = some s → ConnFree k s → Selected k s) ∧
  ((∀ s, slotmapFind k.toTables addr = some s → ¬ ConnFree k s) → PairsOnTarget k)

def StaysSingle (k : Keyboard n) : Event → Prop
  | .linkEstablished handle addr _ =>
    FreshHandle k handle → kbdPolicyDrop k addr = false → LandsOnTarget k addr
  | .dev argv =>
    ¬ 1 < n → ∀ m, devTarget n argv = some m → activeSlot n m = none → NoneUp k
  | .btPair argv => ¬ 1 < n → NoSuchSlot n argv → NoneUp k
  | _ => True

structure LinkInv (k : Keyboard n) : Prop where
  linked : Linked k
  target : k.kbTarget ∈ targets
  single : SingleLink k

theorem singleLink_iff {k : Keyboard n} :
    SingleLink k ↔ ∀ handle, Up k handle → ∃ s, (k.conns s).handle = handle ∧ Selected k s := by
  constructor
  · intro h handle hu
    rcases h _ hu with ht | hs
    · exact absurd ht Bool.false_ne_true
    · exact hs
  · intro h l hl
    cases l with
    | mk handle t =>
      cases t with
      | true => exact Or.inl rfl
      | false => exact Or.inr (h handle hl)

section NextSlot

theorem kbdNextPairSlot_of_pair {k : Keyboard n} {s : Fin n} (hp : k.pairSlot = some s)
    (hf : SlotFree k s) : kbdNextPairSlot k = some s := by
  unfold kbdNextPairSlot
  rw [Option.or_eq_some_iff]
  exact Or.inl (Option.filter_eq_some_iff.mpr ⟨hp, decide_eq_true hf⟩)

theorem kbdNextPairSlot_of_active {k : Keyboard n} {s : Fin n}
    (hp : ∀ t, k.pairSlot = some t → ¬ SlotFree k t) (ha : activeSlot n k.kbTarget = some s)
    (hf : SlotFree k s) : kbdNextPairSlot k = some s := by
  unfold kbdNextPairSlot
  rw [Option.or_eq_some_iff, Option.or_eq_some_iff]
  refine Or.inr ⟨?_, Or.inl (Option.filter_eq_some_iff.mpr ⟨ha, decide_eq_true hf⟩)⟩
  rw [Option.filter_eq_none_iff]
  exact fun t ht => by simpa using hp t ht

theorem activeSlot_of_selected {k : Keyboard n} (ht : k.kbTarget ∈ targets) {s : Fin n}
    (hs : Selected k s) : activeSlot n k.kbTarget = some s := by
  cases ha : activeSlot n k.kbTarget with
  | none => exact absurd (activeSlot_eq_none.mp ha s) hs
  | some t => rw [target_unique ht (selected_of_activeSlot ha) hs]

theorem pairsOnTarget_iff {k : Keyboard n} (ht : k.kbTarget ∈ targets) :
    PairsOnTarget k ↔ ∀ s, kbdNextPairSlot k = some s → Selected k s := by
  constructor
  · rintro ⟨hw, ha⟩ s hs
    by_cases hp : ∃ t, k.pairSlot = some t ∧ SlotFree k t
    · obtain ⟨t, hp, hf⟩ := hp
      have hst : t = s := Option.some.inj ((kbdNextPairSlot_of_pair hp hf).symm.trans hs)
      rw [← hst]
      exact hw t hp hf
    · have hp' : ∀ t, k.pairSlot = some t → ¬ SlotFree k t := fun t h hf => hp ⟨t, h, hf⟩
      obtain ⟨t, hsel, hf⟩ := ha hp' ⟨s, kbdNextPairSlot_some hs⟩
      have hnext := kbdNextPairSlot_of_active hp' (activeSlot_of_selected ht hsel) hf
      have hst : t = s := Option.some.inj (hnext.symm.trans hs)
      rw [← hst]
      exact hsel
  · intro h
    refine ⟨fun s hp hf => h s (kbdNextPairSlot_of_pair hp hf), fun _ hex => ?_⟩
    cases hn : kbdNextPairSlot k with
    | none =>
      obtain ⟨s, hf⟩ := hex
      exact absurd hf (kbdNextPairSlot_none.mp hn s)
    | some s => exact ⟨s, h s hn, kbdNextPairSlot_some hn⟩

end NextSlot

section Preserved

theorem SingleLink.ends {k k' : Keyboard n} (hk : SingleLink k) (he : Ends k k') :
    SingleLink k' := by
  rw [singleLink_iff] at hk ⊢
  obtain ⟨hs, hl⟩ := he.links
  intro handle hu
  rw [Up, hl] at hu
  obtain ⟨s, hc, hsel⟩ := hk handle (up_terminateLinks.mp hu).1
  exact ⟨s, by rw [he.conns]; exact hc, by rw [Selected, he.kbTarget]; exact hsel⟩

theorem NoneUp.ends {k k' : Keyboard n} (hk : NoneUp k) (he : Ends k k') : NoneUp k' := by
  obtain ⟨hs, hl⟩ := he.links
  intro handle hu
  rw [Up, hl] at hu
  exact hk handle (up_terminateLinks.mp hu).1

theorem LinkInv.ends {k k' : Keyboard n} (hk : LinkInv k) (he : Ends k k') : LinkInv k' :=
  ⟨hk.linked.ends he, by rw [he.kbTarget]; exact hk.target, hk.single.ends he⟩

theorem Up.ne_init {k : Keyboard n} (hk : Linked k) {handle : UInt16} (hu : Up k handle) :
    handle ≠ connHandleInit := hk.handles _ hu

theorem singleLink_occupy {k : Keyboard n} (hk : LinkInv k) {s : Fin n} {handle : UInt16}
    {addr : Addr} (hf : ConnFree k s) (hs : Selected k s) :
    SingleLink (occupy (addLink k handle) s handle addr) := by
  have hk' := singleLink_iff.mp hk.single
  rw [singleLink_iff]
  intro handle' hu
  rcases List.mem_cons.mp hu with he | hold
  · have he' : handle' = handle := congrArg Link.handle he
    exact ⟨s, by rw [occupy_self, he'], hs⟩
  · obtain ⟨t, hc, hsel⟩ := hk' handle' hold
    have hts : t ≠ s := by
      rintro rfl
      exact Up.ne_init hk.linked hold (hc.symm.trans hf)
    refine ⟨t, ?_, hsel⟩
    rw [occupy_of_ne _ hts]
    exact hc

theorem singleLink_refused {k : Keyboard n} (hk : SingleLink k) (handle : UInt16) :
    SingleLink (terminateLinks (addLink k handle) [handle]) := by
  rw [singleLink_iff] at hk ⊢
  intro handle' hu
  obtain ⟨hu, hne⟩ := up_terminateLinks.mp hu
  rcases List.mem_cons.mp hu with he | hu
  · exact absurd (congrArg Link.handle he) (by simpa using hne)
  · exact hk handle' hu

theorem singleLink_established (b : Board) {k : Keyboard n} (hk : LinkInv k) {handle : UInt16}
    (hf : FreshHandle k handle) {addr : Addr} (addrType : UInt8)
    (hp : kbdPolicyDrop k addr = false → LandsOnTarget k addr) :
    SingleLink (step b k (.linkEstablished handle addr addrType)) := by
  rcases established_cases b hk.linked hf addr addrType with
    ⟨_, he⟩ | ⟨hd, s, hs, hfree, he⟩ | ⟨hd, hb, s, hs, he⟩ | ⟨_, _, _, he⟩
  · rw [he]
    exact singleLink_refused hk.single handle
  · rw [he]
    exact (singleLink_occupy hk hfree ((hp hd).1 s hs hfree)).ends (ends_setType b _ s addrType)
  · have hsel := (pairsOnTarget_iff hk.target).mp ((hp hd).2 hb) s hs
    have hres : SingleLink (slotmapSave b (reserve (addLink k handle) s handle addr)) :=
      (singleLink_occupy hk (kbdNextPairSlot_some hs).1 hsel).ends (Ends.of_eq rfl rfl rfl)
    rw [he]
    exact hres.ends (ends_setType b _ s addrType)
  · rw [he]
    exact singleLink_refused hk.single handle

theorem singleLink_unlink {k : Keyboard n} (hk : LinkInv k) (handle : UInt16) :
    SingleLink (unlink k handle) := by
  have hk' := singleLink_iff.mp hk.single
  rw [singleLink_iff]
  intro handle' hu
  rw [Up, unlink_links, List.mem_filter] at hu
  obtain ⟨s, hc, hsel⟩ := hk' handle' hu.1
  have hne : handle' ≠ handle := by simpa using hu.2
  refine ⟨s, ?_, ?_⟩
  · rw [unlink_conns hk.linked, hc, if_neg hne]
  · rw [Selected, unlink_kbTarget]
    exact hsel

theorem mem_dropped_of_ne {k : Keyboard n} {slot : Option (Fin n)} {s : Fin n} (hn : 1 < n)
    (hs : some s ≠ slot) (hu : ¬ ConnFree k s) : (k.conns s).handle ∈ dropped k slot := by
  unfold dropped
  rw [if_pos hn]
  refine List.mem_map.mpr ⟨s, List.mem_filter.mpr ⟨List.mem_finRange s, ?_⟩, rfl⟩
  exact decide_eq_true ⟨hs, hu⟩

theorem mem_dropped_of_single {k : Keyboard n} {s : Fin n} (t : Fin n) (hn : ¬ 1 < n)
    (hu : ¬ ConnFree k s) : (k.conns s).handle ∈ dropped k (some t) := by
  have hst : t = s := Fin.ext (by omega)
  unfold dropped
  simp only [if_neg hn, hst, if_neg hu, List.mem_singleton]

theorem singleLink_point {k k' : Keyboard n} (hk : LinkInv k) {slot : Option (Fin n)}
    (hl : k'.links = (terminateLinks k (dropped k slot)).links) (hc : k'.conns = k.conns)
    (ht : ∀ s, slot = some s → Selected k' s) (h1 : ¬ 1 < n → slot = none → NoneUp k) :
    SingleLink k' := by
  have hk' := singleLink_iff.mp hk.single
  rw [singleLink_iff]
  intro handle hu
  rw [Up, hl] at hu
  obtain ⟨hold, hnd⟩ := up_terminateLinks.mp hu
  obtain ⟨s, hs, _⟩ := hk' handle hold
  have hbusy : ¬ ConnFree k s := fun hf => Up.ne_init hk.linked hold (hs.symm.trans hf)
  have hslot : slot = some s := by
    by_contra hne
    rw [← hs] at hnd
    by_cases hn : 1 < n
    · exact hnd (mem_dropped_of_ne hn (Ne.symm hne) hbusy)
    · cases slot with
      | none => exact h1 hn rfl handle hold
      | some t => exact hnd (mem_dropped_of_single t hn hbusy)
  refine ⟨s, ?_, ht s hslot⟩
  rw [hc]
  exact hs

theorem linkInv_boot (b : Board) (page : ℕ → UInt8) : LinkInv (bleHidEmuInit b page : Keyboard n) :=
  ⟨linked_boot b page, List.mem_cons_of_mem _ (List.mem_cons_of_mem _ List.mem_cons_self),
    fun _ hl => absurd hl List.not_mem_nil⟩

theorem established_kbTarget (b : Board) {k : Keyboard n} (hk : Linked k) {handle : UInt16}
    (hf : FreshHandle k handle) (addr : Addr) (addrType : UInt8) :
    (step b k (.linkEstablished handle addr addrType)).kbTarget = k.kbTarget := by
  rcases established_cases b hk hf addr addrType with
    ⟨_, he⟩ | ⟨_, s, _, _, he⟩ | ⟨_, _, s, _, he⟩ | ⟨_, _, _, he⟩
  · rw [he]
    rfl
  · rw [he, (ends_setType b _ s addrType).kbTarget]
    rfl
  · rw [he, (ends_setType b _ s addrType).kbTarget]
    rfl
  · rw [he]
    rfl

theorem linkInv_step (b : Board) (k : Keyboard n) (e : Event) (hk : LinkInv k)
    (hp : StaysSingle k e) : LinkInv (step b k e) := by
  have hl := linked_step b k e hk.linked
  cases e with
  | linkEstablished handle addr addrType =>
    by_cases hf : FreshHandle k handle
    · refine ⟨hl, ?_, singleLink_established b hk hf addrType (hp hf)⟩
      rw [established_kbTarget b hk.linked hf]
      exact hk.target
    · rw [step, if_neg hf]
      exact hk
  | linkTerminated handle newState =>
    obtain ⟨a, ha⟩ := terminated_eq b k handle newState
    rw [ha] at hl ⊢
    refine ⟨hl, ?_, singleLink_unlink hk handle⟩
    rw [unlink_kbTarget]
    exact hk.target
  | dev argv =>
    rw [step] at hl ⊢
    cases hd : devTarget n argv with
    | none =>
      rw [atCmdDev_none b hd]
      exact hk
    | some m =>
      obtain ⟨p, a, he⟩ := atCmdDev_some b k hd
      rw [he] at hl ⊢
      refine ⟨hl, (devTarget_some hd).2.1, singleLink_point hk rfl rfl ?_ ?_⟩
      · exact fun s hs => selected_of_activeSlot hs
      · exact fun hn hnone => hp hn m hd hnone
  | btPair argv =>
    rw [step] at hl ⊢
    have hends := ends_unbindNamed b k (named n argv).getLast?
    have hk' : LinkInv (pairUnbound b k argv) := hk.ends hends
    rcases btPairKbd_cases b k argv with he | ⟨s, he, hs⟩ | ⟨hno, he⟩
    · rw [he]
      exact hk'
    · obtain ⟨a, ha⟩ := pairInto_eq b (pairUnbound b k argv) (some s)
      have htgt : slotBit s ∈ targets := by
        rcases hs with hs | hs
        · exact slotBit_mem_targets hk.target hs
        · exact slotBit_mem_targets (devTargetParse_mem _) hs
      have hself : slotBit s &&& slotBit s ≠ 0 := by
        rw [UInt8.and_self]
        exact hs.elim slotBit_ne_zero slotBit_ne_zero
      rw [he, ha] at hl ⊢
      refine ⟨hl, htgt, singleLink_point hk' rfl rfl ?_ ?_⟩
      · rintro t ⟨⟩
        exact hself
      · exact fun _ hnone => absurd hnone (Option.some_ne_none s)
    · obtain ⟨a, ha⟩ := pairInto_eq b (pairUnbound b k argv) none
      rw [he, ha] at hl ⊢
      refine ⟨hl, List.mem_cons_self, singleLink_point hk' rfl rfl ?_ ?_⟩
      · exact fun t ht => absurd ht.symm (Option.some_ne_none t)
      · exact fun hn _ => (hp hn hno).ends hends
  | factory => exact linkInv_boot b _
  | powerCycle => exact linkInv_boot b _
  | _ => exact hk.ends (ends_quiet b k rfl)

end Preserved

section Broken

theorem not_singleLink_occupy {k : Keyboard n} (hk : Linked k) {s : Fin n} {handle : UInt16}
    {addr : Addr} (hf : FreshHandle k handle) (hs : ¬ Selected k s) :
    ¬ SingleLink (occupy (addLink k handle) s handle addr) := by
  rw [singleLink_iff]
  intro h
  obtain ⟨t, hc, hsel⟩ := h handle List.mem_cons_self
  by_cases hts : t = s
  · rw [hts] at hsel
    exact hs hsel
  · rw [occupy_of_ne _ hts] at hc
    exact kbdSlotOf_none.mp (hk.fresh hf) t hc

theorem not_singleLink_of_eq {k k' : Keyboard n} (hk : ¬ SingleLink k) (hl : k'.links = k.links)
    (hc : k'.conns = k.conns) (ht : k'.kbTarget = k.kbTarget) : ¬ SingleLink k' := by
  intro h
  exact hk (h.ends (Ends.of_eq hc.symm ht.symm hl.symm))

theorem setType_links (b : Board) (k : Keyboard n) (s : Fin n) (type : UInt8) :
    (kbdSlotSetType b k s type).links = k.links := by
  obtain ⟨ty, p, a, he⟩ := kbdSlotSetType_eq b k s type
  rw [he]

theorem not_singleLink_established (b : Board) {k : Keyboard n} (hk : LinkInv k) {handle : UInt16}
    (hf : FreshHandle k handle) {addr : Addr} (addrType : UInt8)
    (hd : kbdPolicyDrop k addr = false) (hp : ¬ LandsOnTarget k addr) :
    ¬ SingleLink (step b k (.linkEstablished handle addr addrType)) := by
  rcases established_cases b hk.linked hf addr addrType with
    ⟨hd', _⟩ | ⟨_, s, hs, hfree, he⟩ | ⟨_, hb, s, hs, he⟩ | ⟨_, hb, hn, _⟩
  · exact absurd (hd'.symm.trans hd) Bool.true_eq_false_eq_False
  · have hsel : ¬ Selected k s := by
      intro hsel
      refine hp ⟨fun t ht _ => ?_, fun hb => absurd hfree (hb s hs)⟩
      rw [← Option.some.inj (hs.symm.trans ht)]
      exact hsel
    have hends := ends_setType b (occupy (addLink k handle) s handle addr) s addrType
    rw [he]
    exact not_singleLink_of_eq (not_singleLink_occupy hk.linked hf hsel)
      (setType_links b _ s addrType) hends.conns hends.kbTarget
  · have hsel : ¬ Selected k s := by
      intro hsel
      refine hp ⟨fun t ht hft => absurd hft (hb t ht), fun _ => ?_⟩
      rw [pairsOnTarget_iff hk.target]
      intro t ht
      rw [← Option.some.inj (hs.symm.trans ht)]
      exact hsel
    have hends :=
      ends_setType b (slotmapSave b (reserve (addLink k handle) s handle addr)) s addrType
    rw [he]
    exact not_singleLink_of_eq (not_singleLink_occupy hk.linked hf hsel)
      (setType_links b _ s addrType) hends.conns hends.kbTarget
  · refine absurd ⟨fun t ht hft => absurd hft (hb t ht), fun _ => ?_⟩ hp
    rw [pairsOnTarget_iff hk.target, hn]
    exact fun t ht => absurd ht.symm (Option.some_ne_none t)

theorem not_singleLink_away {k k' : Keyboard n} (hn : ¬ 1 < n) (hu : ¬ NoneUp k)
    (hl : k'.links = (terminateLinks k (dropped k none)).links) (ht : ∀ s, ¬ Selected k' s) :
    ¬ SingleLink k' := by
  rw [singleLink_iff]
  intro h
  apply hu
  intro handle hup
  have hd : dropped k none = [] := if_neg hn
  rw [hd, terminateLinks_nil] at hl
  have hup' : Up k' handle := by
    rw [Up, hl]
    exact hup
  obtain ⟨s, _, hsel⟩ := h handle hup'
  exact ht s hsel

theorem not_singleLink_step (b : Board) (k : Keyboard n) (e : Event) (hk : LinkInv k)
    (hp : ¬ StaysSingle k e) : ¬ SingleLink (step b k e) := by
  cases e with
  | linkEstablished handle addr addrType =>
    simp only [StaysSingle, Classical.not_imp] at hp
    obtain ⟨hf, hd, hp⟩ := hp
    exact not_singleLink_established b hk hf addrType hd hp
  | dev argv =>
    simp only [StaysSingle, Classical.not_imp, not_forall] at hp
    obtain ⟨hn, m, hd, hnone, hu⟩ := hp
    obtain ⟨p, a, he⟩ := atCmdDev_some b k hd
    rw [step, he]
    refine not_singleLink_away hn hu (by rw [hnone]) fun s hs => hs ?_
    exact activeSlot_eq_none.mp hnone s
  | btPair argv =>
    simp only [StaysSingle, Classical.not_imp] at hp
    obtain ⟨hn, hno, hu⟩ := hp
    obtain ⟨a, ha⟩ := pairInto_eq b k none
    rw [step, btPairKbd_noSuchSlot b k hno, ha]
    exact not_singleLink_away hn hu rfl fun s hs => hs (UInt8.zero_and)
  | _ => exact absurd trivial hp

end Broken

/-- The policy holds in every state of a run if and only if every event of the run meets its
condition: hosts that are let in land in the selected slot, and a single-host build is pointed away
from BLE only while no link is up. -/
theorem single_active_link (b : Board) (page : ℕ → UInt8) (es : List Event) :
    Always (step b) SingleLink (bleHidEmuInit b page : Keyboard n) es ↔
      Along (step b) StaysSingle (bleHidEmuInit b page : Keyboard n) es :=
  always_iff_along (fun _ hk => hk.single) (linkInv_step b) (not_singleLink_step b)
    (linkInv_boot b page)

def devBle2 : List (List UInt8) :=
  [ascii ['A', 'T', '+', 'D', 'E', 'V'], ascii ['B', 'L', 'E', '2']]

/-- The window is opened for BLE1, BLE2 is selected, and a new host connects: it is left up in
BLE1. -/
theorem host_left_up_in_other_slot :
    ¬ ∀ es : List Event,
      Always (step board) SingleLink (bleHidEmuInit board erasedPage : Keyboard 3) es := by
  intro hall
  have hlast := (hall [.btPair pairBle1, .dev devBle2, .linkEstablished 0 host 1]).final
  exact absurd hlast (by decide +kernel)

end AtNode.Ble
