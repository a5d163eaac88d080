import AtNode.Ch582.BleKeyboard

/-!
# The name in the advertising data

`kbd_name_update` writes the name into a buffer of 23 bytes that is passed to the stack as a whole.
The name has 12 characters, and two more, the number of a slot, while a slot is free. When the last
slot is taken the shorter name is written over the longer one and its last two characters stay behind
it.

It is proved when the advertising data is well formed in every state of a run.
-/

namespace AtNode.Ble

open Memory Router Run

variable {n : ℕ}

/-- The AD structures of a payload; behind the last one there is nothing but zeros. -/
def adStructures : ℕ → List UInt8 → Option (List (UInt8 × List UInt8))
  | _, [] => some []
  | 0, _ :: _ => none
  | fuel + 1, len :: rest =>
    if len = 0 then (if rest.all (· = 0) then some [] else none)
    else if rest.length < len.toNat then none
    else match rest.take len.toNat with
      | [] => none
      | type :: data => (adStructures fuel (rest.drop len.toNat)).map ((type, data) :: ·)

def advertBytes (k : Keyboard n) : List UInt8 := (List.range 23).map k.air.advertData

abbrev localNameComplete : UInt8 := 0x09

/-- The advertising data is a sequence of AD structures, and its name is the device name. -/
def WellFormedName (k : Keyboard n) : Prop :=
  ∃ ads name, adStructures 23 (advertBytes k) = some ads ∧
    ads.filter (fun ad => ad.1 = localNameComplete) = [(localNameComplete, name)] ∧
    k.air.attDeviceName = fun i => name.getD i 0

def AnyFree (k : Keyboard n) : Prop := ∃ s, SlotFree k s

/-- A name with a slot number has been written since power-up. -/
def Suffixed (k : Keyboard n) : Prop := k.air.advertData 21 ≠ 0

/-- The slot `AT+BT_PAIR` points the keyboard at. -/
def pairTarget (k : Keyboard n) (argv : List (List UInt8)) : Option (Fin n) :=
  if argv.length < 2 then activeSlot n k.kbTarget else (named n argv).getLast?

def PairRefused (k : Keyboard n) (argv : List (List UInt8)) : Prop :=
  if argv.length < 2 then activeSlot n k.kbTarget = none
  else devTargetParse (argv.getD 1 []) &&& kbTgtBleAll = 0

/-- The event writes the name. -/
def WritesName (b : Board) (k : Keyboard n) : Event → Prop
  | .linkEstablished handle addr addrType =>
    FreshHandle k handle ∧ kbdPolicyDrop k addr = false ∧
      ((∃ s, slotmapFind k.toTables addr = some s ∧ ConnFree k s ∧ k.slottype s ≠ addrType ∧
          addrType ≤ 1) ∨
        ((∀ s, slotmapFind k.toTables addr = some s → ¬ ConnFree k s) ∧ AnyFree k))
  | .linkTerminated _ newState => newState &&& 0xF = gaproleStarted
  | .roleState newState => newState &&& 0xF = gaproleStarted
  | .dev argv => ∃ m s, devTarget n argv = some m ∧ activeSlot n m = some s ∧ (1 < n ∨ ConnFree k s)
  | .btPair argv =>
    (∃ s ∈ (named n argv).getLast?, ¬ LooksFree (k.slotmap s)) ∨
      ∃ s ∈ pairTarget k argv, 1 < n ∨ ConnFree k s
  | .btUnbind argv => ∃ s ∈ named n argv, ¬ LooksFree (k.slotmap s)
  | .setName slot name => (kbBleSlotSetName b k slot name).2 = 0
  | .setPace slot ms => (kbBleSlotSetPace b k slot ms).2 = 0
  | .setMac slot addr => (kbBleSlotSetMac b k slot addr).2 = 0
  | _ => False

/-- The name is not written without a slot number after it was written with one. -/
def KeepsSuffix (b : Board) (k : Keyboard n) (e : Event) : Prop :=
  WritesName b k e → Suffixed k → AnyFree (step b k e)

section Buffer

def nameBytes (k : Keyboard n) (len : ℕ) : List UInt8 :=
  (List.range len).map fun i => k.air.advertData (9 + i)

/-- What no update touches, and the last two bytes, which an update with a slot number writes. -/
structure RawBuffer (k : Keyboard n) : Prop where
  head : ∀ i < 7, k.air.advertData i = advertDataInit i
  type : k.air.advertData 8 = localNameComplete
  rest : k.air.advertData 21 = 0x2D ∨ k.air.advertData 21 = 0 ∧ k.air.advertData 22 = 0

/-- The buffer after an update; `shown` says that the name has a slot number. -/
structure NameBuffer (k : Keyboard n) (shown : Prop) : Prop extends RawBuffer k where
  shownName : shown → k.air.advertData 7 = 15 ∧
    k.air.attDeviceName = fun i => (nameBytes k 14).getD i 0
  hiddenName : ¬ shown → k.air.advertData 7 = 13 ∧
    k.air.attDeviceName = fun i => (nameBytes k 12).getD i 0

variable {k k' k'' : Keyboard n} {shown : Prop}

theorem advertBytes_eq (h : RawBuffer k) :
    advertBytes k = [0x02, 0x01, 0x06, 0x03, 0x19, 0xC1, 0x03, k.air.advertData 7,
      localNameComplete] ++ nameBytes k 12 ++ [k.air.advertData 21, k.air.advertData 22] := by
  have hh := h.head
  have hlist : advertBytes k = [k.air.advertData 0, k.air.advertData 1, k.air.advertData 2,
      k.air.advertData 3, k.air.advertData 4, k.air.advertData 5, k.air.advertData 6,
      k.air.advertData 7, k.air.advertData 8] ++ nameBytes k 12 ++
        [k.air.advertData 21, k.air.advertData 22] := by rfl
  rw [hlist, hh 0 (by decide), hh 1 (by decide), hh 2 (by decide), hh 3 (by decide),
    hh 4 (by decide), hh 5 (by decide), hh 6 (by decide), h.type]
  rfl

theorem adStructures_shown (h : NameBuffer k shown) (hs : shown) :
    adStructures 23 (advertBytes k) =
      some [(0x01, [0x06]), (0x19, [0xC1, 0x03]), (localNameComplete, nameBytes k 14)] := by
  rw [advertBytes_eq h.toRawBuffer, (h.shownName hs).1]
  rfl

theorem adStructures_clean (h : NameBuffer k shown) (hs : ¬ shown)
    (hx : k.air.advertData 21 = 0 ∧ k.air.advertData 22 = 0) :
    adStructures 23 (advertBytes k) =
      some [(0x01, [0x06]), (0x19, [0xC1, 0x03]), (localNameComplete, nameBytes k 12)] := by
  rw [advertBytes_eq h.toRawBuffer, (h.hiddenName hs).1, hx.1, hx.2]
  rfl

theorem adStructures_stale (h : NameBuffer k shown) (hs : ¬ shown)
    (hx : k.air.advertData 21 = 0x2D) : adStructures 23 (advertBytes k) = none := by
  rw [advertBytes_eq h.toRawBuffer, (h.hiddenName hs).1, hx]
  rfl

/-- The data is well formed unless a shorter name was written over a longer one. -/
theorem wellFormedName_iff (h : NameBuffer k shown) :
    WellFormedName k ↔ (Suffixed k → shown) := by
  constructor
  · rintro ⟨ads, name, hads, -⟩ hx
    by_contra hs
    rcases h.rest with hdash | ⟨hzero, -⟩
    · rw [adStructures_stale h hs hdash] at hads
      cases hads
    · exact hx hzero
  · intro hx
    by_cases hs : shown
    · exact ⟨_, nameBytes k 14, adStructures_shown h hs, rfl, (h.shownName hs).2⟩
    · have hzero : k.air.advertData 21 = 0 := by
        by_contra hne
        exact hs (hx hne)
      rcases h.rest with hdash | hclean
      · rw [hdash] at hzero
        cases hzero
      · exact ⟨_, nameBytes k 12, adStructures_clean h hs hclean, rfl, (h.hiddenName hs).2⟩

end Buffer

section Updates

variable {k k' k'' : Keyboard n}

structure SameName (k k' : Keyboard n) : Prop where
  advert : k'.air.advertData = k.air.advertData
  device : k'.air.attDeviceName = k.air.attDeviceName

theorem SameName.refl (k : Keyboard n) : SameName k k := ⟨rfl, rfl⟩

theorem SameName.trans (h : SameName k k') (h' : SameName k' k'') : SameName k k'' :=
  ⟨h'.advert.trans h.advert, h'.device.trans h.device⟩

theorem SameName.raw (h : SameName k k') (hb : RawBuffer k) : RawBuffer k' := by
  obtain ⟨hh, ht, hr⟩ := hb
  rw [← h.advert] at hh ht hr
  exact ⟨hh, ht, hr⟩

theorem SameName.buffer (h : SameName k k') {shown : Prop} (hb : NameBuffer k shown) :
    NameBuffer k' shown := by
  have hbytes : nameBytes k' = nameBytes k := by
    funext len
    rw [nameBytes, nameBytes, h.advert]
  refine ⟨h.raw hb.toRawBuffer, ?_, ?_⟩
  · rw [h.advert, h.device, hbytes]
    exact hb.shownName
  · rw [h.advert, h.device, hbytes]
    exact hb.hiddenName

theorem anyFree_congr (hc : k'.conns = k.conns) (hm : k'.slotmap = k.slotmap) :
    AnyFree k' ↔ AnyFree k := by
  unfold AnyFree SlotFree ConnFree
  rw [hc, hm]

/-- The name has been written, at the end with a slot number if a slot is free. -/
structure Written (k k' : Keyboard n) : Prop where
  buffer : RawBuffer k → NameBuffer k' (AnyFree k')
  suffixed : RawBuffer k → ¬ AnyFree k' → (Suffixed k' ↔ Suffixed k)

theorem Written.same (h : Written k k') (hs : SameName k' k'') (hf : AnyFree k'' ↔ AnyFree k') :
    Written k k'' where
  buffer hb := by
    rw [hf]
    exact hs.buffer (h.buffer hb)
  suffixed hb hno := by
    rw [hf] at hno
    rw [← h.suffixed hb hno, Suffixed, Suffixed, hs.advert]

theorem SameName.written (hs : SameName k k') (h : Written k' k'') : Written k k'' where
  buffer hb := h.buffer (hs.raw hb)
  suffixed hb hno := by
    rw [h.suffixed (hs.raw hb) hno, Suffixed, Suffixed, hs.advert]

theorem Written.trans (h : Written k k') (h' : Written k' k'') (hf : AnyFree k' → AnyFree k'') :
    Written k k'' where
  buffer hb := h'.buffer (h.buffer hb).toRawBuffer
  suffixed hb hno := by
    rw [h'.suffixed (h.buffer hb).toRawBuffer hno]
    exact h.suffixed hb fun hk => hno (hf hk)

theorem kbdNextPairSlot_isSome (k : Keyboard n) : (kbdNextPairSlot k).isSome ↔ AnyFree k := by
  rw [Option.isSome_iff_ne_none, ne_eq, kbdNextPairSlot_none]
  exact not_forall_not

/-- The update writes the length and the characters of the name and nothing else. -/
theorem nameUpdate_spec (b : Board) (k : Keyboard n) :
    ∃ mac, (kbdNameUpdate b k).air.attDeviceName =
        (fun i => (deviceName mac (kbdNextPairSlot k)).getD i 0) ∧
      (kbdNameUpdate b k).air.advertData =
        copyTo (copyTo k.air.advertData 7 1 fun _ =>
            UInt8.ofNat (1 + min (deviceName mac (kbdNextPairSlot k)).length 14))
          9 (min (deviceName mac (kbdNextPairSlot k)).length 14)
          fun i => (deviceName mac (kbdNextPairSlot k)).getD i 0 := ⟨_, rfl, rfl⟩

theorem written_nameUpdate (b : Board) (k : Keyboard n) : Written k (kbdNameUpdate b k) := by
  obtain ⟨mac, hdev, hadv⟩ := nameUpdate_spec b k
  have hfree : AnyFree (kbdNameUpdate b k) ↔ AnyFree k := anyFree_congr rfl rfl
  cases hn : kbdNextPairSlot k with
  | some s =>
    have hshown : AnyFree k := (kbdNextPairSlot_isSome k).mp (by rw [hn]; rfl)
    rw [hn] at hdev hadv
    refine ⟨fun hb => ?_, fun hb hno => absurd (hfree.mpr hshown) hno⟩
    refine ⟨⟨fun i hi => ?_, ?_, Or.inl ?_⟩, fun _ => ⟨?_, ?_⟩,
      fun hno => absurd (hfree.mpr hshown) hno⟩
    · rw [hadv, copyTo_before _ _ (by omega), copyTo_before _ _ hi]
      exact hb.head i hi
    · rw [hadv, copyTo_before _ _ (by omega)]
      exact hb.type
    · rw [hadv]
      rfl
    · rw [hadv]
      rfl
    · have hname : nameBytes (kbdNameUpdate b k) 14 = deviceName mac (some s) := by
        rw [nameBytes, hadv]
        rfl
      rw [hdev, hname]
  | none =>
    have hhidden : ¬ AnyFree k := fun hk => by
      have hsome := (kbdNextPairSlot_isSome k).mpr hk
      rw [hn] at hsome
      cases hsome
    rw [hn] at hdev hadv
    have hlast : ∀ i, 21 ≤ i → (kbdNameUpdate b k).air.advertData i = k.air.advertData i := by
      intro i hi
      have hlen : min (deviceName mac (none : Option (Fin n))).length 14 = 12 := rfl
      rw [hadv, hlen, copyTo, if_neg (by omega), copyTo, if_neg (by omega)]
    refine ⟨fun hb => ?_, fun _ _ => by rw [Suffixed, Suffixed, hlast 21 (by decide)]⟩
    refine ⟨⟨fun i hi => ?_, ?_, ?_⟩, fun hk => absurd (hfree.mp hk) hhidden, fun _ => ⟨?_, ?_⟩⟩
    · rw [hadv, copyTo_before _ _ (by omega), copyTo_before _ _ hi]
      exact hb.head i hi
    · rw [hadv, copyTo_before _ _ (by omega)]
      exact hb.type
    · rw [hlast 21 (by decide), hlast 22 (by decide)]
      exact hb.rest
    · rw [hadv]
      rfl
    · have hname : nameBytes (kbdNameUpdate b k) 12 = deviceName mac (none : Option (Fin n)) := by
        rw [nameBytes, hadv]
        rfl
      rw [hdev, hname]

theorem written_save (b : Board) (k : Keyboard n) : Written k (slotmapSave b k) := by
  have hpage : SameName k { k with page := savedPage b.stack k.toTables } := ⟨rfl, rfl⟩
  exact hpage.written (written_nameUpdate b _)

end Updates

section Calls

variable (b : Board) (k : Keyboard n)

theorem sameName_advUpdate : SameName k (kbdAdvUpdate k) := by
  unfold kbdAdvUpdate
  split
  · exact ⟨rfl, rfl⟩
  split
  · exact ⟨rfl, rfl⟩
  split
  · exact ⟨rfl, rfl⟩
  split
  · exact ⟨rfl, rfl⟩
  · exact ⟨rfl, rfl⟩

theorem anyFree_air {k k' : Keyboard n} (h : ∃ a, k' = { k with air := a }) :
    AnyFree k' ↔ AnyFree k := by
  obtain ⟨a, rfl⟩ := h
  exact Iff.rfl

theorem written_applyAddr (slot : Option (Fin n)) : Written k (kbBleApplyAddr b k slot) := by
  refine (written_nameUpdate b k).same ?_ ?_
  · unfold kbBleApplyAddr
    split
    · exact .refl _
    · exact ⟨rfl, rfl⟩
  · have hfree : AnyFree (kbdNameUpdate b k) ↔ AnyFree k := anyFree_congr rfl rfl
    rw [hfree, anyFree_air (kbBleApplyAddr_eq b k slot)]

theorem sameName_pairOpen (slot : Option (Fin n)) : SameName k (kbBlePairOpen k slot) := by
  have hopen : SameName k { k with pairSlot := slot } := ⟨rfl, rfl⟩
  obtain ⟨ha, hd⟩ := hopen.trans (sameName_advUpdate { k with pairSlot := slot })
  exact ⟨ha, hd⟩

theorem sameName_roleSwitch {newState : UInt8} (h : newState &&& 0xF ≠ gaproleStarted) :
    SameName k (roleSwitch b k newState) := by
  unfold roleSwitch
  rw [if_neg h]
  split
  · exact sameName_advUpdate k
  · exact .refl k

theorem written_roleSwitch {newState : UInt8} (h : newState &&& 0xF = gaproleStarted) :
    Written k (roleSwitch b k newState) := by
  unfold roleSwitch
  rw [if_pos h]
  exact written_applyAddr b k _

theorem sameName_pointAt_none : SameName k (pointAt b k none) := by
  by_cases hp : k.pairSlot.isSome
  · rw [pointAt, if_pos hp]
    have hclose : SameName k
        { k with pairSlot := none, air := { k.air with pairWindowEvt := false } } := ⟨rfl, rfl⟩
    exact hclose.trans (sameName_advUpdate _)
  · rw [pointAt, if_neg hp]
    exact sameName_advUpdate k

theorem written_pointAt_some (s : Fin n) : Written k (pointAt b k (some s)) :=
  written_applyAddr b k (some s)

theorem sameName_terminate (handles : List UInt16) : SameName k (terminateLinks k handles) :=
  ⟨rfl, rfl⟩

theorem name_activate (slot : Option (Fin n)) :
    ((∃ s ∈ slot, 1 < n ∨ ConnFree k s) ∧ Written k (kbBleActivateSlot b k slot)) ∨
      ((¬ ∃ s ∈ slot, 1 < n ∨ ConnFree k s) ∧ SameName k (kbBleActivateSlot b k slot)) := by
  unfold kbBleActivateSlot
  cases slot with
  | none =>
    refine Or.inr ⟨fun h => ?_, ?_⟩
    · obtain ⟨s, hs, -⟩ := h
      cases hs
    · split
      · exact (sameName_terminate k _).trans (sameName_pointAt_none b _)
      · exact sameName_pointAt_none b k
  | some s =>
    by_cases hn : 1 < n
    · rw [if_pos hn]
      exact Or.inl ⟨⟨s, rfl, Or.inl hn⟩, (sameName_terminate k _).written (written_pointAt_some b _ s)⟩
    · rw [if_neg hn]
      by_cases hf : ConnFree k s
      · simp only [if_pos hf]
        exact Or.inl ⟨⟨s, rfl, Or.inr hf⟩, written_pointAt_some b k s⟩
      · simp only [if_neg hf]
        refine Or.inr ⟨fun h => ?_, ⟨rfl, rfl⟩⟩
        obtain ⟨t, ht, hor⟩ := h
        obtain rfl := Option.some.inj ht
        exact hor.elim hn hf

/-- Whether an unbinding writes the name; it makes no slot unfree. -/
theorem name_unbind (s : Fin n) :
    (¬ LooksFree (k.slotmap s) ∧ Written k (kbBleUnbindSlot b k s).1) ∨
      (LooksFree (k.slotmap s) ∧ (kbBleUnbindSlot b k s).1 = k) := by
  by_cases h : LooksFree (k.slotmap s)
  · exact Or.inr ⟨h, by rw [kbBleUnbindSlot_free h]⟩
  · refine Or.inl ⟨h, ?_⟩
    have htab : SameName k { k with toTables := unbound k.toTables s } := ⟨rfl, rfl⟩
    have hsave := htab.written (written_save b { k with toTables := unbound k.toTables s })
    unfold kbBleUnbindSlot
    rw [if_neg h]
    dsimp only
    split
    · exact hsave
    · exact hsave.same ⟨rfl, rfl⟩ Iff.rfl

theorem anyFree_unbind (s : Fin n) (h : AnyFree k) : AnyFree (kbBleUnbindSlot b k s).1 := by
  by_cases hs : k.slotmap s 0 = 0xFF
  · rwa [kbBleUnbindSlot_free hs]
  · obtain ⟨handles, a, he⟩ := kbBleUnbindSlot_bound b hs
    obtain ⟨t, hc, hm⟩ := h
    rw [he]
    refine ⟨t, hc, ?_⟩
    by_cases hts : t = s
    · rw [hts]
      simp [unbound, erasedAddr, LooksFree]
    · simpa [unbound, Function.update_of_ne hts, LooksFree] using hm

theorem name_unbindAll (ss : List (Fin n)) (k : Keyboard n) :
    (AnyFree k → AnyFree (overSlots (kbBleUnbindSlot b) k ss).1) ∧
      (((∃ s ∈ ss, ¬ LooksFree (k.slotmap s)) ∧
          Written k (overSlots (kbBleUnbindSlot b) k ss).1) ∨
        ((∀ s ∈ ss, LooksFree (k.slotmap s)) ∧ (overSlots (kbBleUnbindSlot b) k ss).1 = k)) := by
  induction ss generalizing k with
  | nil => exact ⟨id, Or.inr ⟨by simp, rfl⟩⟩
  | cons s ss ih =>
    obtain ⟨hfree, hrest⟩ := ih (kbBleUnbindSlot b k s).1
    refine ⟨fun h => hfree (anyFree_unbind b k s h), ?_⟩
    change ((∃ t ∈ s :: ss, ¬ LooksFree (k.slotmap t)) ∧
        Written k (overSlots (kbBleUnbindSlot b) (kbBleUnbindSlot b k s).1 ss).1) ∨
      ((∀ t ∈ s :: ss, LooksFree (k.slotmap t)) ∧
        (overSlots (kbBleUnbindSlot b) (kbBleUnbindSlot b k s).1 ss).1 = k)
    rcases name_unbind b k s with ⟨hs, hw⟩ | ⟨hs, he⟩
    · refine Or.inl ⟨⟨s, List.mem_cons_self, hs⟩, ?_⟩
      rcases hrest with ⟨-, hw'⟩ | ⟨-, he'⟩
      · exact hw.trans hw' hfree
      · rwa [he']
    · rw [he] at hrest ⊢
      rcases hrest with ⟨⟨t, ht, hno⟩, hw'⟩ | ⟨hall, he'⟩
      · exact Or.inl ⟨⟨t, List.mem_cons_of_mem _ ht, hno⟩, hw'⟩
      · exact Or.inr ⟨List.forall_mem_cons.mpr ⟨hs, hall⟩, he'⟩

end Calls

section Step

variable {b : Board} {k : Keyboard n}

theorem name_setType (b : Board) (k : Keyboard n) (s : Fin n) (type : UInt8) :
    ((k.slottype s ≠ type ∧ type ≤ 1) ∧ Written k (kbdSlotSetType b k s type)) ∨
      (¬ (k.slottype s ≠ type ∧ type ≤ 1) ∧ kbdSlotSetType b k s type = k) := by
  unfold kbdSlotSetType
  by_cases h : k.slottype s ≠ type ∧ type ≤ 1
  · rw [if_pos h]
    have htype : SameName k { k with slottype := Function.update k.slottype s type } := ⟨rfl, rfl⟩
    exact Or.inl ⟨h, htype.written (written_save b _)⟩
  · rw [if_neg h]
    exact Or.inr ⟨h, rfl⟩

abbrev NameStep (b : Board) (k : Keyboard n) (e : Event) : Prop :=
  (WritesName b k e ∧ Written k (step b k e)) ∨ (¬ WritesName b k e ∧ SameName k (step b k e))

theorem nameStep_established (hk : Linked k) (handle : UInt16) (addr : Addr) (addrType : UInt8) :
    NameStep b k (.linkEstablished handle addr addrType) := by
  by_cases hf : FreshHandle k handle
  case neg =>
    refine Or.inr ⟨fun h => hf h.1, ?_⟩
    rw [step, if_neg hf]
    exact .refl k
  rcases established_cases b hk hf addr addrType with ⟨hd, he⟩ | ⟨hd, s, hs, hfree, he⟩ |
    ⟨hd, hno, s, hs, he⟩ | ⟨hd, hno, hs, he⟩
  · refine Or.inr ⟨fun h => ?_, by rw [he]; exact ⟨rfl, rfl⟩⟩
    cases hd.symm.trans h.2.1
  · have hocc : SameName k (occupy (addLink k handle) s handle addr) := ⟨rfl, rfl⟩
    rcases name_setType b (occupy (addLink k handle) s handle addr) s addrType with
      ⟨ht, hw⟩ | ⟨ht, hsame⟩
    · refine Or.inl ⟨⟨hf, hd, Or.inl ⟨s, hs, hfree, ht⟩⟩, ?_⟩
      rw [he]
      exact hocc.written hw
    · refine Or.inr ⟨?_, by rw [he, hsame]; exact hocc⟩
      rintro ⟨-, -, ⟨t, hts, -, ht'⟩ | ⟨hno, -⟩⟩
      · obtain rfl := Option.some.inj (hs.symm.trans hts)
        exact ht ht'
      · exact hno s hs hfree
  · refine Or.inl ⟨⟨hf, hd, Or.inr ⟨hno, s, kbdNextPairSlot_some hs⟩⟩, ?_⟩
    have hres : SameName k (reserve (addLink k handle) s handle addr) := ⟨rfl, rfl⟩
    have hsave := hres.written (written_save b (reserve (addLink k handle) s handle addr))
    rw [he]
    rcases name_setType b (slotmapSave b (reserve (addLink k handle) s handle addr)) s addrType with
      ⟨-, hw⟩ | ⟨-, hsame⟩
    · refine hsave.trans hw fun h => ?_
      obtain ⟨ty, p, a, hty⟩ := kbdSlotSetType_eq b
        (slotmapSave b (reserve (addLink k handle) s handle addr)) s addrType
      rw [hty]
      exact h
    · rwa [hsame]
  · refine Or.inr ⟨?_, by rw [he]; exact ⟨rfl, rfl⟩⟩
    rintro ⟨-, -, ⟨t, hts, ht, -⟩ | ⟨-, hfree⟩⟩
    · exact hno t hts ht
    · have hsome := (kbdNextPairSlot_isSome k).mpr hfree
      rw [hs] at hsome
      cases hsome

theorem nameStep_roleSwitch {k' : Keyboard n} {e : Event} {newState : UInt8}
    (hw : WritesName b k e ↔ newState &&& 0xF = gaproleStarted) (hs : SameName k k')
    (he : step b k e = roleSwitch b k' newState) : NameStep b k e := by
  by_cases h : newState &&& 0xF = gaproleStarted
  · refine Or.inl ⟨hw.mpr h, ?_⟩
    rw [he]
    exact hs.written (written_roleSwitch b k' h)
  · refine Or.inr ⟨fun h' => h (hw.mp h'), ?_⟩
    rw [he]
    exact hs.trans (sameName_roleSwitch b k' h)

theorem sameName_unlink (k : Keyboard n) (handle : UInt16) : SameName k (unlink k handle) := by
  cases hs : kbdSlotOf k handle <;> rw [unlink, hs] <;> exact ⟨rfl, rfl⟩

theorem nameStep_terminated (handle : UInt16) (newState : UInt8) :
    NameStep b k (.linkTerminated handle newState) :=
  nameStep_roleSwitch Iff.rfl ((sameName_unlink k handle).trans (sameName_advUpdate _)) rfl

theorem atCmdDev_activate (b : Board) (k : Keyboard n) {argv : List (List UInt8)} {m : UInt8}
    (hd : devTarget n argv = some m) :
    ((activeSlot n m = none → m &&& kbTgtBleAll = 0) ∧
        (atCmdDev b k argv).1 = kbBleActivateSlot b { k with kbTarget := m } (activeSlot n m)) ∨
      (m &&& kbTgtBleAll ≠ 0 ∧ activeSlot n m = none ∧
        (atCmdDev b k argv).1 = { k with kbTarget := m }) := by
  obtain ⟨hl, hm, hv⟩ := devTarget_some hd
  unfold atCmdDev
  rw [if_neg (Nat.not_lt.mpr hl), hd]
  by_cases hb : m &&& kbTgtBleAll = 0
  · simp only [hb, ne_eq, not_true_eq_false, if_false, activeSlot_none_of_usb hm hb]
    exact Or.inl ⟨fun _ => trivial, trivial⟩
  · simp only [ne_eq, hb, not_false_eq_true, if_true]
    cases ha : activeSlot n m with
    | some s => exact Or.inl ⟨nofun, rfl⟩
    | none => exact Or.inr ⟨trivial, rfl, rfl⟩

theorem nameStep_dev (argv : List (List UInt8)) : NameStep b k (.dev argv) := by
  rw [NameStep, step]
  cases hd : devTarget n argv with
  | none =>
    refine Or.inr ⟨fun h => ?_, by rw [atCmdDev_none b hd]; exact .refl k⟩
    obtain ⟨m, s, hm, -⟩ := h
    cases hd.symm.trans hm
  | some m =>
    have htarget : SameName k { k with kbTarget := m } := ⟨rfl, rfl⟩
    have hwrites : WritesName b k (.dev argv) ↔ ∃ s ∈ activeSlot n m, 1 < n ∨ ConnFree k s := by
      constructor
      · rintro ⟨m', s, hm', hs, hor⟩
        obtain rfl := Option.some.inj (hd.symm.trans hm')
        exact ⟨s, hs, hor⟩
      · rintro ⟨s, hs, hor⟩
        exact ⟨m, s, hd, hs, hor⟩
    rw [hwrites]
    rcases atCmdDev_activate b k hd with ⟨-, he⟩ | ⟨-, hnone, he⟩
    · rw [he]
      exact (name_activate b { k with kbTarget := m } (activeSlot n m)).imp
        (fun h => ⟨h.1, htarget.written h.2⟩) (fun h => ⟨h.1, htarget.trans h.2⟩)
    · rw [he, hnone]
      refine Or.inr ⟨?_, htarget⟩
      rintro ⟨s, hs, -⟩
      cases hs

theorem name_unbindNamed (b : Board) (k : Keyboard n) (slot : Option (Fin n)) :
    ((∃ s ∈ slot, ¬ LooksFree (k.slotmap s)) ∧ Written k (unbindNamed b k slot)) ∨
      ((¬ ∃ s ∈ slot, ¬ LooksFree (k.slotmap s)) ∧ unbindNamed b k slot = k) := by
  cases slot with
  | none => exact Or.inr ⟨fun ⟨s, hs, _⟩ => (nomatch hs), rfl⟩
  | some s =>
    rcases name_unbind b k s with ⟨h, hw⟩ | ⟨h, he⟩
    · exact Or.inl ⟨⟨s, rfl, h⟩, hw⟩
    · refine Or.inr ⟨?_, he⟩
      rintro ⟨t, ht, hno⟩
      obtain rfl := Option.some.inj ht
      exact hno h

theorem name_pairInto (b : Board) (k : Keyboard n) (slot : Option (Fin n)) :
    ((∃ s ∈ slot, 1 < n ∨ ConnFree k s) ∧ Written k (pairInto b k slot)) ∨
      ((¬ ∃ s ∈ slot, 1 < n ∨ ConnFree k s) ∧ SameName k (pairInto b k slot)) := by
  have htarget : SameName k { k with kbTarget := targetOf slot } := ⟨rfl, rfl⟩
  have hopen := sameName_pairOpen (kbBleActivateSlot b { k with kbTarget := targetOf slot } slot) slot
  refine (name_activate b { k with kbTarget := targetOf slot } slot).imp
    (fun h => ⟨h.1, (htarget.written h.2).same hopen ?_⟩)
    (fun h => ⟨h.1, (htarget.trans h.2).trans hopen⟩)
  obtain ⟨a, ha⟩ := kbBlePairOpen_eq
    (kbBleActivateSlot b { k with kbTarget := targetOf slot } slot) slot
  rw [pairInto, ha]
  exact anyFree_congr rfl rfl

/-- `AT+BT_PAIR` is refused, or unbinds the slot it names and points the keyboard at its target. -/
theorem btPairKbd_target (b : Board) (k : Keyboard n) (argv : List (List UInt8)) :
    (PairRefused k argv ∧ (btPairKbd b k argv).1 = k ∧ pairTarget k argv = none ∧
        (named n argv).getLast? = none) ∨
      (¬ PairRefused k argv ∧ (btPairKbd b k argv).1 =
        pairInto b (unbindNamed b k (named n argv).getLast?) (pairTarget k argv)) := by
  unfold btPairKbd pairTarget named PairRefused
  by_cases hl : argv.length < 2
  · rw [if_pos hl, if_pos hl, if_pos hl, if_pos (Or.inl hl)]
    cases ha : activeSlot n k.kbTarget with
    | none => exact Or.inl ⟨rfl, rfl, rfl, rfl⟩
    | some s => exact Or.inr ⟨nofun, rfl⟩
  · rw [if_neg hl, if_neg hl, if_neg hl]
    by_cases hb : devTargetParse (argv.getD 1 []) &&& kbTgtBleAll = 0
    · rw [if_pos (Or.inr hb)]
      exact Or.inl ⟨hb, congrArg Prod.fst (if_pos hb), rfl, rfl⟩
    · simp only [hl, hb, or_false, if_false]
      exact Or.inr ⟨id, trivial⟩

theorem nameStep_btPair (argv : List (List UInt8)) : NameStep b k (.btPair argv) := by
  rw [NameStep, step]
  rcases btPairKbd_target b k argv with ⟨-, he, ht, hu⟩ | ⟨-, he⟩
  · refine Or.inr ⟨?_, by rw [he]; exact .refl k⟩
    rintro (⟨s, hs, -⟩ | ⟨s, hs, -⟩)
    · rw [hu] at hs
      cases hs
    · rw [ht] at hs
      cases hs
  rw [he]
  have hconns : (unbindNamed b k (named n argv).getLast?).conns = k.conns :=
    (ends_unbindNamed b k _).conns
  have hpair := name_pairInto b (unbindNamed b k (named n argv).getLast?) (pairTarget k argv)
  simp only [ConnFree, hconns] at hpair
  rcases name_unbindNamed b k (named n argv).getLast? with ⟨hu, hw⟩ | ⟨hu, hsame⟩
  · refine Or.inl ⟨Or.inl hu, ?_⟩
    obtain ⟨a, ha⟩ := pairInto_eq b (unbindNamed b k (named n argv).getLast?) (pairTarget k argv)
    have hfree : AnyFree (pairInto b (unbindNamed b k (named n argv).getLast?)
        (pairTarget k argv)) ↔ AnyFree (unbindNamed b k (named n argv).getLast?) := by
      rw [ha]
      exact anyFree_congr rfl rfl
    rcases hpair with ⟨-, hp⟩ | ⟨-, hp⟩
    · exact hw.trans hp hfree.mpr
    · exact hw.same hp hfree
  · rw [hsame] at hpair ⊢
    rcases hpair with ⟨hp, hw⟩ | ⟨hp, hs⟩
    · exact Or.inl ⟨Or.inr hp, hw⟩
    · exact Or.inr ⟨fun h => h.elim hu hp, hs⟩

theorem nameStep_btUnbind (argv : List (List UInt8)) : NameStep b k (.btUnbind argv) := by
  rw [NameStep, step, btUnbindKbd_eq]
  rcases (name_unbindAll b (named n argv) k).2 with ⟨h, hw⟩ | ⟨h, he⟩
  · exact Or.inl ⟨h, hw⟩
  · refine Or.inr ⟨?_, by rw [he]; exact .refl k⟩
    rintro ⟨s, hs, hno⟩
    exact hno (h s hs)

theorem minus_one : ¬ (-1 : Int) = 0 := by decide

theorem nameStep_setName (slot : UInt8) (name : List UInt8) :
    NameStep b k (.setName slot name) := by
  rw [NameStep, step, WritesName, kbBleSlotSetName]
  cases slotAt n slot with
  | none => exact Or.inr ⟨minus_one, .refl k⟩
  | some s =>
    have hname : SameName k { k with
        slotname := Function.update k.slotname s (copyLabel name 0 (k.slotname s)).1 } := ⟨rfl, rfl⟩
    dsimp only
    split
    · exact Or.inl ⟨rfl, hname.written (written_save b _)⟩
    · exact Or.inr ⟨minus_one, hname⟩

theorem nameStep_setPace (slot : UInt8) (ms : UInt16) : NameStep b k (.setPace slot ms) := by
  rw [NameStep, step, WritesName, kbBleSlotSetPace]
  cases slotAt n slot with
  | none => exact Or.inr ⟨minus_one, .refl k⟩
  | some s =>
    have hpace : SameName k { k with slotpace := Function.update k.slotpace s ms } := ⟨rfl, rfl⟩
    dsimp only
    split
    · exact Or.inr ⟨minus_one, .refl k⟩
    · exact Or.inl ⟨rfl, hpace.written (written_save b _)⟩

theorem nameStep_setMac (slot : UInt8) (addr : Addr) : NameStep b k (.setMac slot addr) := by
  rw [NameStep, step, WritesName, kbBleSlotSetMac]
  cases slotAt n slot with
  | none => exact Or.inr ⟨minus_one, .refl k⟩
  | some s =>
    have hmac : SameName k { k with slotmac := Function.update k.slotmac s addr } := ⟨rfl, rfl⟩
    dsimp only
    split
    · exact Or.inr ⟨minus_one, .refl k⟩
    · exact Or.inl ⟨rfl, hmac.written (written_save b _)⟩

theorem sameName_disc (k : Keyboard n) (argv : List (List UInt8)) :
    SameName k (btDiscKbd k argv).1 := by
  have hslot : ∀ (k' : Keyboard n) (s : Fin n), SameName k k' →
      SameName k (kbBleDisconnectSlot k' s).1 := by
    intro k' s hk
    unfold kbBleDisconnectSlot
    split
    · exact hk
    · exact hk.trans ⟨rfl, rfl⟩
  unfold btDiscKbd kbBleDisconnect
  split
  · split
    · exact .refl k
    · exact ⟨rfl, rfl⟩
  · dsimp only
    split
    · exact .refl k
    · exact overSlots_inv hslot (.refl k) _

theorem nameStep (hk : Linked k) {e : Event} (hf : e ≠ .factory) (hp : e ≠ .powerCycle) :
    NameStep b k e := by
  cases e with
  | linkEstablished handle addr addrType => exact nameStep_established hk handle addr addrType
  | linkTerminated handle newState => exact nameStep_terminated handle newState
  | roleState newState => exact nameStep_roleSwitch Iff.rfl (.refl k) rfl
  | pairWindowEvt =>
    have hclose : SameName k
        { k with pairSlot := none, air := { k.air with pairWindowEvt := false } } := ⟨rfl, rfl⟩
    exact Or.inr ⟨id, hclose.trans (sameName_advUpdate _)⟩
  | advRearmEvt => exact Or.inr ⟨id, sameName_advUpdate k⟩
  | dev argv => exact nameStep_dev argv
  | btPair argv => exact nameStep_btPair argv
  | btUnbind argv => exact nameStep_btUnbind argv
  | btDisc argv => exact Or.inr ⟨id, sameName_disc k argv⟩
  | setName slot name => exact nameStep_setName slot name
  | setPace slot ms => exact nameStep_setPace slot ms
  | setMac slot addr => exact nameStep_setMac slot addr
  | factoryReset => exact Or.inr ⟨id, ⟨rfl, rfl⟩⟩
  | factory => exact absurd rfl hf
  | powerCycle => exact absurd rfl hp

end Step

section Runs

variable {b : Board} {k : Keyboard n}

/-- The invariant: the buffer is as an update left it, and the name in it is whole. -/
structure WholeName (k : Keyboard n) : Prop where
  linked : Linked k
  buffer : ∃ shown, NameBuffer k shown ∧ (Suffixed k → shown)

theorem rawBuffer_bss (page : ℕ → UInt8) : RawBuffer (bss page : Keyboard n) :=
  ⟨fun _ _ => rfl, rfl, Or.inr ⟨rfl, rfl⟩⟩

/-- Before the slot map is loaded no slot looks free. -/
theorem not_anyFree_bss (page : ℕ → UInt8) : ¬ AnyFree (bss page : Keyboard n) := by
  rintro ⟨s, -, hs⟩
  have hbyte : (0 : UInt8) = 0xFF := hs
  exact absurd hbyte (by decide)

theorem wholeName_boot (b : Board) (page : ℕ → UInt8) :
    WholeName (bleHidEmuInit b page : Keyboard n) := by
  have hw := written_nameUpdate b (bss page : Keyboard n)
  have hraw := rawBuffer_bss (n := n) page
  have hno : ¬ AnyFree (kbdNameUpdate b (bss page : Keyboard n)) := not_anyFree_bss page
  have hload : SameName (kbdNameUpdate b (bss page : Keyboard n))
      (slotmapLoad b (kbdNameUpdate b (bss page))) := ⟨rfl, rfl⟩
  have hw' := hload.written (written_nameUpdate b (slotmapLoad b (kbdNameUpdate b (bss page))))
  have hinit : SameName (kbdNameUpdate b (slotmapLoad b (kbdNameUpdate b (bss page))))
      (bleHidEmuInit b page : Keyboard n) := ⟨rfl, rfl⟩
  have hraw' := (hw.buffer hraw).toRawBuffer
  refine ⟨linked_boot b page, _, hinit.buffer (hw'.buffer hraw'), fun hs => ?_⟩
  by_contra hfree
  have hs' := (hw.suffixed hraw hno).mp ((hw'.suffixed hraw' hfree).mp hs)
  exact hs' rfl

theorem wholeName_step (hk : WholeName k) (e : Event) (h : KeepsSuffix b k e) :
    WholeName (step b k e) := by
  have hlinked := linked_step b k e hk.linked
  obtain ⟨shown, hb, hs⟩ := hk.buffer
  by_cases hf : e = .factory
  · rw [hf]
    exact wholeName_boot b _
  by_cases hp : e = .powerCycle
  · rw [hp]
    exact wholeName_boot b _
  rcases nameStep hk.linked hf hp with ⟨hw, hwr⟩ | ⟨-, hsame⟩
  · refine ⟨hlinked, _, hwr.buffer hb.toRawBuffer, fun hs' => ?_⟩
    by_contra hfree
    exact hfree (h hw ((hwr.suffixed hb.toRawBuffer hfree).mp hs'))
  · refine ⟨hlinked, shown, hsame.buffer hb, fun hs' => hs ?_⟩
    rwa [Suffixed, ← hsame.advert]

theorem not_wellFormed_step (hk : WholeName k) (e : Event) (h : ¬ KeepsSuffix b k e) :
    ¬ WellFormedName (step b k e) := by
  obtain ⟨shown, hb, -⟩ := hk.buffer
  simp only [KeepsSuffix, Classical.not_imp] at h
  obtain ⟨hw, hs, hfree⟩ := h
  have hf : e ≠ .factory := by
    rintro rfl
    exact hw
  have hp : e ≠ .powerCycle := by
    rintro rfl
    exact hw
  rcases nameStep hk.linked hf hp with ⟨-, hwr⟩ | ⟨hno, -⟩
  · rw [wellFormedName_iff (hwr.buffer hb.toRawBuffer)]
    exact fun hall => hfree (hall ((hwr.suffixed hb.toRawBuffer hfree).mpr hs))
  · exact absurd hw hno

end Runs

/-- The advertised name is well formed throughout a run exactly when the name is never written
without a slot number after one with. -/
theorem advertised_name_iff (b : Board) (page : ℕ → UInt8) (es : List Event) :
    Always (step b) WellFormedName (bleHidEmuInit b page : Keyboard n) es ↔
      Along (step b) (KeepsSuffix b) (bleHidEmuInit b page : Keyboard n) es := by
  refine always_iff_along (fun k hk => ?_) (fun k e hk h => wholeName_step hk e h)
    (fun k e hk h => not_wellFormed_step hk e h) (wholeName_boot b page)
  obtain ⟨shown, hb, hs⟩ := hk.buffer
  exact (wellFormedName_iff hb).mpr hs

/-- The first host takes the only slot, and the two characters stay behind the name. -/
theorem pairing_leaves_suffix :
    ((advertBytes (step board (bleHidEmuInit board erasedPage : Keyboard 1)
        (.linkEstablished 1 host 1))).drop 21 = ascii ['-', '1']) ∧
      ¬ Always (step board) WellFormedName (bleHidEmuInit board erasedPage : Keyboard 1)
        [.linkEstablished 1 host 1] := by
  have hparse : adStructures 23 (advertBytes (step board
      (bleHidEmuInit board erasedPage : Keyboard 1) (.linkEstablished 1 host 1))) = none := by
    decide +kernel
  refine ⟨by decide +kernel, fun h => ?_⟩
  obtain ⟨ads, name, hads, -⟩ := h.2
  rw [hparse] at hads
  cases hads

end AtNode.Ble
