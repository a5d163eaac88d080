import AtNode.Ch582.BleKeyboard

/-!
# The slot map survives the flash

A load after a save gives back the host map, the labels, the paces, the own addresses and the
address types. `Restorable` says which tables come back as they were: each section of the record has
a value that looks erased, and the setters keep clear of it, with one exception. The load takes an
own address for erased when its first and last bytes are 0xFF, and `kb_ble_slot_set_mac` accepts
such addresses.
-/

namespace AtNode.Ble

open Memory Router Run

variable {n : ℕ}

/-- `slotmap_load` after `slotmap_save` restores the tables. -/
def RoundTrip (b : Board) (k : Keyboard n) : Prop :=
  (slotmapLoad b (slotmapSave b k)).toTables = k.toTables

structure Restorable (mac : Addr) (t : Tables n) : Prop where
  name : ∀ s, Readable (t.slotname s)
  pace : ∀ s, 5 ≤ t.slotpace s ∧ t.slotpace s ≤ 2000
  own : ∀ s, ¬ LooksUnset (t.slotmac s) ∨ t.slotmac s = deriveMac mac s
  type : ∀ s, t.slottype s ≤ 1

/-- An own address that is set is not read as erased, or it is the default one. -/
def MacReadable (n : ℕ) (b : Board) : Event → Prop
  | .setMac slot addr => ∀ s : Fin n, slotAt n slot = some s →
      LooksUnset addr → addr = deriveMac b.mac s
  | _ => True

theorem roundTrip_iff (hn : n ≤ 3) (b : Board) (k : Keyboard n) :
    RoundTrip b k ↔ restored b.mac k.toTables = k.toTables := by
  obtain ⟨a, ha⟩ := slotmapSave_eq b k
  unfold RoundTrip slotmapLoad
  rw [ha]
  dsimp only
  rw [loadTables_savedPage _ _ hn]

section Values

variable {mac : Addr} {t : Tables n}

theorem setAt_last {l : Label} (h : l 11 = 0) : setAt l 11 0 = l := by
  funext j
  rw [setAt]
  split
  · rename_i hj
    have hj' : j = 11 := Fin.ext hj
    rw [hj', h]
  · rfl

theorem restored_eq (h : Restorable mac t) : restored mac t = t := by
  cases t with
  | mk slotmap slotname slotpace slotmac slottype =>
    simp only [restored, Tables.mk.injEq, true_and]
    refine ⟨funext fun s => ?_, funext fun s => ?_, funext fun s => ?_, funext fun s => ?_⟩
    · rw [if_pos (h.name s).1]
      exact setAt_last (h.name s).2
    · obtain ⟨h5, h2000⟩ := h.pace s
      dsimp only at h5 h2000
      have hne : slotpace s ≠ 0xFFFF := by
        intro he
        rw [he] at h2000
        exact absurd h2000 (by decide)
      exact if_pos ⟨hne, h5, h2000⟩
    · rw [deriveUnset]
      split
      · rename_i hff
        exact ((h.own s).resolve_left (not_not.mpr hff)).symm
      · rfl
    · exact if_neg (UInt8.not_lt.mpr (h.type s))

theorem own_deriveUnset (mac own : Addr) (s : Fin n) :
    ¬ LooksUnset (deriveUnset mac s own) ∨
      deriveUnset mac s own = deriveMac mac s := by
  by_cases h : LooksUnset own
  · rw [deriveUnset, if_pos h]
    exact Or.inr rfl
  · rw [deriveUnset, if_neg h]
    exact Or.inl h

theorem restorable_load (mac : Addr) (page : ℕ → UInt8) {old : Fin n → UInt8}
    (hold : ∀ s, old s ≤ 1) : Restorable mac (loadTables mac page old) := by
  refine ⟨fun s => ⟨?_, rfl⟩, fun s => ?_, fun s => ?_, fun s => ?_⟩
  · dsimp only [loadTables, setAt]
    rw [if_neg (by decide)]
    split
    · rename_i hv
      exact hv.2
    · decide
  · dsimp only [loadTables]
    split
    · rename_i hv
      exact hv.2.2
    · decide
  · simp only [loadTables]
    exact own_deriveUnset mac _ s
  · dsimp only [loadTables]
    split
    · split
      · exact UInt8.le_refl 1
      · rename_i hv
        exact UInt8.not_lt.mp hv
    · exact hold s

theorem ne_erased_of_labelChar {c : UInt8} (h : labelChar c) : c ≠ 0xFF := by
  rintro rfl
  exact absurd h (by decide)

theorem readable_setAt {l : Label} (h : Readable l) {i : ℕ} {c : UInt8} (hc : c ≠ 0xFF)
    (hlast : i = 11 → c = 0) : Readable (setAt l i c) := by
  constructor
  · rw [setAt]
    split
    · exact hc
    · exact h.1
  · rw [setAt]
    split
    · rename_i hi
      exact hlast hi.symm
    · exact h.2

theorem readable_copyLabel (cs : List UInt8) {i : ℕ} {l : Label} (h : Readable l) :
    Readable (copyLabel cs i l).1 := by
  induction cs generalizing i l with
  | nil => exact readable_setAt h (by decide) fun _ => rfl
  | cons c cs ih =>
    by_cases hi : 11 ≤ i
    · rw [copyLabel, if_pos hi]
      exact readable_setAt h (by decide) fun _ => rfl
    · rw [copyLabel, if_neg hi]
      by_cases hc : labelChar c
      · rw [if_pos hc]
        exact ih (readable_setAt h (ne_erased_of_labelChar hc) fun he => absurd he (by omega))
      · rw [if_neg hc]
        exact h

end Values

section Preserved

theorem Restorable.of_eq {mac : Addr} {t t' : Tables n} (h : Restorable mac t)
    (hn : t'.slotname = t.slotname) (hp : t'.slotpace = t.slotpace) (hm : t'.slotmac = t.slotmac)
    (ht : t'.slottype = t.slottype) : Restorable mac t' :=
  ⟨by rw [hn]; exact h.name, by rw [hp]; exact h.pace, by rw [hm]; exact h.own,
    by rw [ht]; exact h.type⟩

theorem forall_update {α : Type*} {f : Fin n → α} {P : Fin n → α → Prop} (h : ∀ s, P s (f s))
    {s : Fin n} {a : α} (ha : P s a) : ∀ t, P t (Function.update f s a t) := by
  intro t
  by_cases hts : t = s
  · subst hts
    rw [Function.update_self]
    exact ha
  · rw [Function.update_of_ne hts]
    exact h t

variable {b : Board} {k : Keyboard n}

theorem restorable_setName (h : Restorable b.mac k.toTables) (slot : UInt8) (name : List UInt8) :
    Restorable b.mac (kbBleSlotSetName b k slot name).1.toTables := by
  unfold kbBleSlotSetName
  split
  · exact h
  · rename_i s _
    have hname := readable_copyLabel name (i := 0) (h.name s)
    have h' : Restorable b.mac
        { k.toTables with
          slotname := Function.update k.slotname s (copyLabel name 0 (k.slotname s)).1 } :=
      ⟨forall_update (P := fun _ l => Readable l) h.name hname, h.pace, h.own, h.type⟩
    dsimp only
    split
    · exact h'
    · exact h'

theorem restorable_setPace (h : Restorable b.mac k.toTables) (slot : UInt8) (ms : UInt16) :
    Restorable b.mac (kbBleSlotSetPace b k slot ms).1.toTables := by
  unfold kbBleSlotSetPace
  split
  · exact h
  split
  · exact h
  · rename_i s _ hms
    have hms' : 5 ≤ ms ∧ ms ≤ 2000 := by
      rw [not_or, UInt16.not_lt, UInt16.not_lt] at hms
      exact hms
    exact ⟨h.name, forall_update (P := fun _ p => 5 ≤ p ∧ p ≤ 2000) h.pace hms', h.own, h.type⟩

theorem restorable_setMac (h : Restorable b.mac k.toTables) {slot : UInt8} {addr : Addr}
    (hp : MacReadable n b (.setMac slot addr)) :
    Restorable b.mac (kbBleSlotSetMac b k slot addr).1.toTables := by
  unfold kbBleSlotSetMac
  split
  · exact h
  split
  · exact h
  · rename_i s hs _
    have hown : ¬ LooksUnset addr ∨ addr = deriveMac b.mac s := by
      by_cases hff : LooksUnset addr
      · exact Or.inr (hp s hs hff)
      · exact Or.inl hff
    exact ⟨h.name, h.pace, forall_update (P := fun t m =>
      ¬ LooksUnset m ∨ m = deriveMac b.mac t) h.own hown, h.type⟩

theorem restorable_setType (h : Restorable b.mac k.toTables) (s : Fin n) (type : UInt8) :
    Restorable b.mac (kbdSlotSetType b k s type).toTables := by
  unfold kbdSlotSetType
  split
  · rename_i ht
    exact ⟨h.name, h.pace, h.own, forall_update (P := fun _ ty => ty ≤ 1) h.type ht.2⟩
  · exact h

theorem restorable_unbound {mac : Addr} {t : Tables n} (h : Restorable mac t) (s : Fin n) :
    Restorable mac (unbound t s) := by
  have hname := readable_setAt (h.name s) (i := 0) (c := 0) (by decide) fun _ => rfl
  have hpace : 5 ≤ slotpaceDflt ∧ slotpaceDflt ≤ 2000 := by decide
  exact ⟨forall_update (P := fun _ l => Readable l) h.name hname,
    forall_update (P := fun _ p => 5 ≤ p ∧ p ≤ 2000) h.pace hpace, h.own, h.type⟩

theorem restorable_unbind (h : Restorable b.mac k.toTables) (s : Fin n) :
    Restorable b.mac (kbBleUnbindSlot b k s).1.toTables := by
  by_cases hs : k.slotmap s 0 = 0xFF
  · rw [kbBleUnbindSlot_free hs]
    exact h
  · obtain ⟨handles, a, he⟩ := kbBleUnbindSlot_bound b hs
    rw [he]
    exact restorable_unbound h s

theorem restorable_established (hk : Linked k) (h : Restorable b.mac k.toTables)
    (handle : UInt16) (addr : Addr) (addrType : UInt8) :
    Restorable b.mac (step b k (.linkEstablished handle addr addrType)).toTables := by
  by_cases hf : FreshHandle k handle
  · rcases established_cases b hk hf addr addrType with
      ⟨_, he⟩ | ⟨_, s, _, _, he⟩ | ⟨_, _, s, _, he⟩ | ⟨_, _, _, he⟩
    · rw [he]
      exact h
    · rw [he]
      apply restorable_setType
      exact h
    · rw [he]
      apply restorable_setType
      exact h.of_eq rfl rfl rfl rfl
    · rw [he]
      exact h
  · rw [step, if_neg hf]
    exact h

theorem restorable_boot (b : Board) (page : ℕ → UInt8) :
    Restorable b.mac (bleHidEmuInit b page : Keyboard n).toTables := by
  obtain ⟨a, ha⟩ := bleHidEmuInit_eq b page
  rw [ha]
  exact restorable_load b.mac page fun _ => UInt8.zero_le

theorem restorable_step (b : Board) (k : Keyboard n) (e : Event) (hk : Linked k)
    (h : Restorable b.mac k.toTables) (hp : MacReadable n b e) :
    Restorable b.mac (step b k e).toTables := by
  cases e with
  | linkEstablished handle addr addrType => exact restorable_established hk h handle addr addrType
  | btPair argv =>
    have hu : Restorable b.mac (pairUnbound b k argv).toTables := by
      unfold pairUnbound
      cases (named n argv).getLast? with
      | none => exact h
      | some s => exact restorable_unbind h s
    rw [step, (stored_btPair b k argv).1]
    exact hu
  | btUnbind argv =>
    rw [step, btUnbindKbd_eq]
    exact overSlots_inv (P := fun k => Restorable b.mac k.toTables)
      (fun _ s hk => restorable_unbind hk s) h (named n argv)
  | setName slot name => exact restorable_setName h slot name
  | setPace slot ms => exact restorable_setPace h slot ms
  | setMac slot addr => exact restorable_setMac h hp
  | factoryReset =>
    rw [step, kbBleFactoryReset, slotmapLoad]
    exact restorable_load b.mac erasedPage h.type
  | factory =>
    rw [step, atCmdFactory]
    exact restorable_boot b _
  | powerCycle =>
    rw [step]
    exact restorable_boot b _
  | linkTerminated | roleState | pairWindowEvt | advRearmEvt | dev | btDisc =>
    rw [(stored_transient b k rfl).1]
    exact h

end Preserved

theorem not_roundTrip_setMac (hn : n ≤ 3) (b : Board) (k : Keyboard n) (e : Event)
    (hp : ¬ MacReadable n b e) : ¬ RoundTrip b (step b k e) := by
  cases e with
  | setMac slot addr =>
    simp only [MacReadable, Classical.not_imp, not_forall] at hp
    obtain ⟨s, hs, hunset, hne⟩ := hp
    have hok : ¬ addr 5 &&& 0xC0 ≠ 0xC0 := by
      rw [hunset.2]
      decide
    have hmac : (step b k (.setMac slot addr)).slotmac s = addr := by
      rw [step, kbBleSlotSetMac, hs]
      dsimp only
      rw [if_neg hok]
      exact Function.update_self s addr k.slotmac
    rw [roundTrip_iff hn]
    intro he
    have hown := congrFun (congrArg Tables.slotmac he) s
    unfold restored at hown
    dsimp only at hown
    rw [hmac, deriveUnset, if_pos hunset] at hown
    exact hne hown.symm
  | _ => exact absurd trivial hp

/-- In every run from any page, a load after a save restores the tables in every state reached, if
and only if no own address of the run is set that the load takes for erased. -/
theorem slotmap_round_trip (hn : n ≤ 3) (b : Board) (page : ℕ → UInt8) (es : List Event) :
    Always (step b) (RoundTrip b) (bleHidEmuInit b page : Keyboard n) es ↔
      Along (step b) (fun _ e => MacReadable n b e) (bleHidEmuInit b page : Keyboard n) es :=
  always_iff_along (I := fun k => Linked k ∧ Restorable b.mac k.toTables)
    (fun k hk => (roundTrip_iff hn b k).mpr (restored_eq hk.2))
    (fun k e hk hp => ⟨linked_step b k e hk.1, restorable_step b k e hk.1 hk.2 hp⟩)
    (fun k e _ hp => not_roundTrip_setMac hn b k e hp)
    ⟨linked_boot b page, restorable_boot b page⟩

instance (b : Board) : DecidablePred (MacReadable n b)
  | .setMac slot addr => inferInstanceAs <| Decidable <| ∀ s : Fin n, slotAt n slot = some s →
      LooksUnset addr → addr = deriveMac b.mac s
  | .linkEstablished .. | .linkTerminated .. | .roleState _ | .pairWindowEvt | .advRearmEvt
  | .dev _ | .btPair _ | .btUnbind _ | .btDisc _ | .setName .. | .setPace .. | .factoryReset
  | .factory | .powerCycle => instDecidableTrue

/-- A label that is cut short, a pace, an own address, a host and its unbinding. -/
theorem tables_survive :
    Always (step board) (RoundTrip board) (bleHidEmuInit board erasedPage : Keyboard 3)
      [.setName 0 (ascii ['P', 'C', '!']), .setPace 0 50, .setMac 0 host, .btPair pairBle1,
        .linkEstablished 0 host 0, .btUnbind pairBle1] := by
  rw [slotmap_round_trip (by decide)]
  decide +kernel

/-- A static random address with 0xFF as its first and last byte. -/
def macFF : Addr := List.get [0xFF, 0x11, 0x22, 0x33, 0x44, 0xFF]

/-- The address is accepted for BLE1, and the load replaces it by the default one. -/
theorem mac_not_restored :
    ¬ ∀ es : List Event, Always (step board) (RoundTrip board)
      (bleHidEmuInit board erasedPage : Keyboard 3) es := by
  intro hall
  have hlast := (hall [.setMac 0 macFF]).final
  have hbyte := congrFun (congrFun (congrArg Tables.slotmac hlast) 0) 1
  exact absurd hbyte (by decide +kernel)

end AtNode.Ble
