import AtNode.Ch582.AdvertName
import AtNode.Ch582.SingleLink

/-!
# The advertising policy

`kbd_adv_update` states when the keyboard advertises: in general while a pairing window is open, not
at all while a link is up, directed at the host of the active slot while that host is away. Three
places do not follow it. `kb_ble_apply_addr` switches the last kind of advertising on again, whatever
it was; nothing is commanded when a link comes up; and in a single-host build the directed kind is
also commanded for a slot without a host.

It is proved for which events the policy is in force once they are handled.
-/

namespace AtNode.Ble

open Memory Router Run

variable {n : ℕ}

inductive Advert where
  | off
  | general
  | directed (type : UInt8) (addr : Addr)
  deriving DecidableEq

/-- What was commanded last. -/
def commanded (a : Air) : Advert :=
  if a.advertEnabled = false then .off
  else if a.advEventType = advHdcDirectInd then .directed a.advDirectType a.advDirectAddr
  else .general

/-- The policy as the comment of `kbd_adv_update` states it. -/
def policy (k : Keyboard n) : Advert :=
  if k.pairSlot.isSome then .general
  else if 0 < kbBleConnCount k then .off
  else match activeSlot n k.kbTarget with
    | none => .off
    | some s => if LooksFree (k.slotmap s) then .off else .directed (k.slottype s) (k.slotmap s)

/-- The policy is in force, and a directed advertisement has a host. -/
structure InForce (k : Keyboard n) : Prop where
  follows : commanded k.air = policy k
  hosted : ∀ type addr, commanded k.air = .directed type addr → ¬ LooksFree addr

/-- The events the policy is about: the two commands, the end of the window, and the links. -/
def PolicyEvent (k : Keyboard n) : Event → Prop
  | .linkEstablished handle _ _ => FreshHandle k handle
  | .linkTerminated .. | .pairWindowEvt | .dev _ | .btPair _ => True
  | _ => False

def FollowsPolicy (b : Board) (k : Keyboard n) (e : Event) : Prop :=
  PolicyEvent k e → InForce (step b k e)

section Conditions

/-- A single-host build is pointed at its slot, which has no host. -/
def Unhosted (k : Keyboard n) : Prop :=
  ¬ 1 < n ∧ kbBleConnCount k = 0 ∧ ∃ s ∈ activeSlot n k.kbTarget, LooksFree (k.slotmap s)

def Accepted (k : Keyboard n) (addr : Addr) : Prop :=
  kbdPolicyDrop k addr = false ∧
    ((∃ s, slotmapFind k.toTables addr = some s ∧ ConnFree k s) ∨ AnyFree k)

/-- Switching on what was commanded last is right for the slot. -/
def Resumes (k : Keyboard n) (s : Fin n) : Prop :=
  (k.pairSlot.isSome ∧ k.air.advEventType ≠ advHdcDirectInd) ∨
    (k.pairSlot = none ∧ kbBleConnCount k = 0 ∧ ¬ LooksFree (k.slotmap s) ∧
      k.air.advEventType = advHdcDirectInd ∧ k.air.advDirectType = k.slottype s ∧
      k.air.advDirectAddr = k.slotmap s)

/-- What an event has to meet for the policy to be in force after it. -/
def MeetsPolicy (k : Keyboard n) : Event → Prop
  | .linkEstablished handle addr _ => FreshHandle k handle →
      (Accepted k addr → commanded k.air = if k.pairSlot.isSome then .general else .off) ∧
      (¬ Accepted k addr → commanded k.air = policy k)
  | .linkTerminated handle newState =>
      (k.pairSlot = none → ¬ Unhosted (unlink k handle)) ∧
      (newState &&& 0xF = gaproleStarted → 0 < n → policy (unlink k handle) ≠ .off)
  | .pairWindowEvt => ¬ Unhosted k
  | .dev argv => match devTarget n argv with
      | none => commanded k.air = policy k
      | some m => match activeSlot n m with
        | some s =>
          if 1 < n ∨ ConnFree k s then Resumes k s
          else commanded k.air = policy { k with kbTarget := m }
        | none => m &&& kbTgtBleAll ≠ 0 → commanded k.air = policy { k with kbTarget := m }
  | .btPair argv => PairRefused k argv → commanded k.air = policy k
  | _ => True

end Conditions

section Commanding

variable {k k' : Keyboard n}

structure SameAdvert (k k' : Keyboard n) : Prop where
  enabled : k'.air.advertEnabled = k.air.advertEnabled
  event : k'.air.advEventType = k.air.advEventType
  type : k'.air.advDirectType = k.air.advDirectType
  addr : k'.air.advDirectAddr = k.air.advDirectAddr

theorem SameAdvert.commanded (h : SameAdvert k k') : commanded k'.air = commanded k.air := by
  unfold Ble.commanded
  rw [h.enabled, h.event, h.type, h.addr]

structure SamePolicy (k k' : Keyboard n) : Prop where
  conns : k'.conns = k.conns
  pairSlot : k'.pairSlot = k.pairSlot
  kbTarget : k'.kbTarget = k.kbTarget
  slotmap : k'.slotmap = k.slotmap
  slottype : k'.slottype = k.slottype

theorem connCount_congr (h : k'.conns = k.conns) : kbBleConnCount k' = kbBleConnCount k := by
  unfold kbBleConnCount ConnFree
  rw [h]

theorem SamePolicy.policy (h : SamePolicy k k') : policy k' = policy k := by
  unfold Ble.policy
  rw [connCount_congr h.conns, h.pairSlot, h.kbTarget, h.slotmap, h.slottype]

theorem samePolicy_air {k k' : Keyboard n} (h : ∃ a, k' = { k with air := a }) :
    SamePolicy k k' := by
  obtain ⟨a, rfl⟩ := h
  exact ⟨rfl, rfl, rfl, rfl, rfl⟩

/-- The second half of `InForce` follows from the first. -/
theorem inForce_iff : InForce k ↔ commanded k.air = policy k := by
  refine ⟨fun h => h.follows, fun h => ⟨h, fun type addr hd => ?_⟩⟩
  rw [h, policy] at hd
  split at hd
  · cases hd
  split at hd
  · cases hd
  split at hd
  · cases hd
  split at hd
  · cases hd
  · rename_i hf
    obtain ⟨-, rfl⟩ := Advert.directed.inj hd
    exact hf

/-- A pairing window is open only while the target is a slot. -/
structure PolicyInv (k : Keyboard n) : Prop where
  linked : Linked k
  target : k.kbTarget ∈ targets
  window : k.pairSlot.isSome → kbBleAdvertWanted k.kbTarget = true

theorem wanted_of_selected {m : UInt8} (hm : m ∈ targets) {s : Fin n} (h : m &&& slotBit s ≠ 0) :
    kbBleAdvertWanted m = true := by
  have hfin : ∀ m ∈ targets, ∀ i < 7, m &&& slotBit i ≠ 0 → kbBleAdvertWanted m = true := by
    decide +kernel
  exact hfin m hm s (lt_seven_of_and_slotBit h) h

/-- The policy function commands the policy, except in a single-host build whose slot has no host. -/
theorem commanded_advUpdate (ht : k.kbTarget ∈ targets)
    (hw : k.pairSlot.isSome → kbBleAdvertWanted k.kbTarget = true) :
    commanded (kbdAdvUpdate k).air = policy k ↔ (k.pairSlot = none → ¬ Unhosted k) := by
  unfold kbdAdvUpdate policy
  by_cases hp : k.pairSlot.isSome
  · rw [if_pos ⟨hp, hw hp⟩, if_pos hp]
    refine ⟨fun _ hno => ?_, fun _ => rfl⟩
    rw [hno] at hp
    cases hp
  rw [if_neg (fun h => hp h.1), if_neg hp]
  by_cases hc : 0 < kbBleConnCount k
  · rw [if_pos hc, if_pos hc]
    exact ⟨fun _ _ hu => absurd hu.2.1 (by omega), fun _ => rfl⟩
  rw [if_neg hc, if_neg hc]
  have hnone : k.pairSlot = none := Option.not_isSome_iff_eq_none.mp hp
  have hzero : kbBleConnCount k = 0 := by omega
  cases ha : activeSlot n k.kbTarget with
  | none =>
    refine ⟨fun _ _ hu => ?_, fun _ => rfl⟩
    obtain ⟨s, hs, -⟩ := hu.2.2
    rw [ha] at hs
    cases hs
  | some s =>
    have hwant : kbBleAdvertWanted k.kbTarget = true :=
      wanted_of_selected ht (selected_of_activeSlot ha)
    dsimp only
    by_cases hf : LooksFree (k.slotmap s)
    · rw [if_pos hf]
      by_cases hn : 1 < n
      · rw [if_neg fun h => h.1 hn hf]
        exact ⟨fun _ _ hu => hu.1 hn, fun _ => rfl⟩
      · rw [if_pos ⟨fun h => absurd h hn, hwant⟩]
        exact ⟨nofun, fun h => absurd ⟨hn, hzero, s, ha, hf⟩ (h hnone)⟩
    · rw [if_neg hf, if_pos ⟨fun _ => hf, hwant⟩]
      refine ⟨fun _ _ hu => ?_, fun _ => rfl⟩
      obtain ⟨t, ht', hft⟩ := hu.2.2
      obtain rfl := Option.some.inj (ha.symm.trans ht')
      exact hf hft

theorem policy_unhosted (hp : k.pairSlot = none) (h : Unhosted k) : policy k = .off := by
  obtain ⟨-, hc, s, hs, hf⟩ := h
  unfold policy
  rw [hp, if_neg (by simp), if_neg (by omega), Option.mem_def.mp hs]
  exact if_pos hf

/-- What `kb_ble_apply_addr` switches on. -/
def resumed (a : Air) : Advert :=
  if a.advEventType = advHdcDirectInd then .directed a.advDirectType a.advDirectAddr else .general

theorem resumed_ne_off (a : Air) : resumed a ≠ .off := by
  unfold resumed
  split
  · nofun
  · nofun

theorem resumed_eq (a : Air) (h : commanded a ≠ .off) : resumed a = commanded a := by
  unfold commanded at h ⊢
  split
  · rename_i hoff
    rw [if_pos hoff] at h
    exact absurd rfl h
  · rfl

theorem commanded_applyAddr (b : Board) (k : Keyboard n) (slot : Option (Fin n)) (hn : 0 < n) :
    commanded (kbBleApplyAddr b k slot).air = resumed k.air := by
  unfold kbBleApplyAddr
  cases hs : slot.or (List.finRange n).head? with
  | some s => rfl
  | none =>
    rw [Option.or_eq_none_iff, List.head?_eq_none_iff] at hs
    have hmem : (⟨0, hn⟩ : Fin n) ∈ List.finRange n := List.mem_finRange _
    rw [hs.2] at hmem
    cases hmem

theorem commanded_applyAddr_zero (b : Board) (k : Keyboard n) (slot : Option (Fin n))
    (hn : ¬ 0 < n) : commanded (kbBleApplyAddr b k slot).air = commanded k.air := by
  unfold kbBleApplyAddr
  cases hs : slot.or (List.finRange n).head? with
  | some s => exact absurd s.pos hn
  | none => rfl

/-- The role state decides whether the address is applied after the policy. -/
theorem inForce_roleSwitch (b : Board) (ht : k.kbTarget ∈ targets)
    (hw : k.pairSlot.isSome → kbBleAdvertWanted k.kbTarget = true) (newState : UInt8) :
    InForce (roleSwitch b (kbdAdvUpdate k) newState) ↔
      (k.pairSlot = none → ¬ Unhosted k) ∧
        (newState &&& 0xF = gaproleStarted → 0 < n → policy k ≠ .off) := by
  have hpol : policy (roleSwitch b (kbdAdvUpdate k) newState) = policy k := by
    rw [(samePolicy_air (roleSwitch_eq b _ newState)).policy,
      (samePolicy_air (kbdAdvUpdate_eq k)).policy]
  have hupd := commanded_advUpdate ht hw
  rw [inForce_iff, hpol]
  unfold roleSwitch
  by_cases hst : newState &&& 0xF = gaproleStarted
  · rw [if_pos hst]
    by_cases hn : 0 < n
    · rw [commanded_applyAddr b _ _ hn]
      constructor
      · intro h
        have hne : policy k ≠ .off := fun ho => resumed_ne_off _ (h.trans ho)
        exact ⟨fun hp hu => hne (policy_unhosted hp hu), fun _ _ => hne⟩
      · rintro ⟨hhost, hne⟩
        have hc := hupd.mpr hhost
        rw [resumed_eq _ (by rw [hc]; exact hne hst hn), hc]
    · rw [commanded_applyAddr_zero b _ _ hn, hupd]
      exact ⟨fun h => ⟨h, fun _ h' => absurd h' hn⟩, fun h => h.1⟩
  · rw [if_neg hst]
    have hrest : (k.pairSlot = none → ¬ Unhosted k) ↔ (k.pairSlot = none → ¬ Unhosted k) ∧
        (newState &&& 0xF = gaproleStarted → 0 < n → policy k ≠ .off) :=
      ⟨fun h => ⟨h, fun h' => absurd h' hst⟩, fun h => h.1⟩
    rw [← hrest]
    split
    · obtain ⟨a, ha⟩ := kbdAdvUpdate_eq k
      have htwice := commanded_advUpdate (k := kbdAdvUpdate k) (by rw [ha]; exact ht)
        (by rw [ha]; exact hw)
      rw [(samePolicy_air (kbdAdvUpdate_eq k)).policy] at htwice
      rw [htwice, ha]
      exact Iff.rfl
    · exact hupd

end Commanding

section Events

variable {b : Board} {k : Keyboard n}

theorem sameAdvert_setType (b : Board) (k : Keyboard n) (s : Fin n) (type : UInt8) :
    SameAdvert k (kbdSlotSetType b k s type) := by
  unfold kbdSlotSetType
  split
  · exact ⟨rfl, rfl, rfl, rfl⟩
  · exact ⟨rfl, rfl, rfl, rfl⟩

theorem connCount_pos {k : Keyboard n} {s : Fin n} (h : ¬ ConnFree k s) : 0 < kbBleConnCount k := by
  rw [kbBleConnCount, List.countP_pos_iff]
  exact ⟨s, List.mem_finRange s, by simpa using h⟩

/-- With a link up, the policy is in force if it was commanded for one already. -/
theorem inForce_linked {k k' : Keyboard n} (ha : SameAdvert k k') (hp : k'.pairSlot = k.pairSlot)
    {s : Fin n} (hs : ¬ ConnFree k' s) :
    InForce k' ↔ commanded k.air = if k.pairSlot.isSome then .general else .off := by
  rw [inForce_iff, ha.commanded, policy, if_pos (connCount_pos hs), hp]

theorem inForce_same {k k' : Keyboard n} (ha : SameAdvert k k') (hp : SamePolicy k k') :
    InForce k' ↔ commanded k.air = policy k := by
  rw [inForce_iff, ha.commanded, hp.policy]

theorem inForce_established (hk : Linked k) {handle : UInt16} (hf : FreshHandle k handle)
    (addr : Addr) (addrType : UInt8) :
    InForce (step b k (.linkEstablished handle addr addrType)) ↔
      (Accepted k addr → commanded k.air = if k.pairSlot.isSome then .general else .off) ∧
        (¬ Accepted k addr → commanded k.air = policy k) := by
  have hocc : ∀ (k' : Keyboard n) s, k'.conns = Function.update k.conns s ⟨handle, addr⟩ →
      ¬ ConnFree k' s := by
    intro k' s hc hfree
    rw [ConnFree, hc, Function.update_self] at hfree
    exact hf.1 hfree
  have haccepted : ∀ k', Accepted k addr → SameAdvert k k' → k'.pairSlot = k.pairSlot →
      (∃ s, k'.conns = Function.update k.conns s ⟨handle, addr⟩) → (InForce k' ↔
        (Accepted k addr → commanded k.air = if k.pairSlot.isSome then .general else .off) ∧
          (¬ Accepted k addr → commanded k.air = policy k)) := by
    rintro k' hacc ha hp ⟨s, hc⟩
    rw [inForce_linked ha hp (hocc k' s hc)]
    exact ⟨fun h => ⟨fun _ => h, fun hno => absurd hacc hno⟩, fun h => h.1 hacc⟩
  have hrefused : ∀ k', ¬ Accepted k addr → SameAdvert k k' → SamePolicy k k' → (InForce k' ↔
        (Accepted k addr → commanded k.air = if k.pairSlot.isSome then .general else .off) ∧
          (¬ Accepted k addr → commanded k.air = policy k)) := by
    intro k' hno ha hp
    rw [inForce_same ha hp]
    exact ⟨fun h => ⟨fun hacc => absurd hacc hno, fun _ => h⟩, fun h => h.2 hno⟩
  rcases established_cases b hk hf addr addrType with ⟨hd, he⟩ | ⟨hd, s, hs, hfree, he⟩ |
    ⟨hd, hno, s, hs, he⟩ | ⟨hd, hno, hs, he⟩
  · rw [he]
    refine hrefused _ (fun hacc => ?_) ⟨rfl, rfl, rfl, rfl⟩ ⟨rfl, rfl, rfl, rfl, rfl⟩
    cases hd.symm.trans hacc.1
  · obtain ⟨ha, hb, hc, hd'⟩ := sameAdvert_setType b (occupy (addLink k handle) s handle addr) s addrType
    obtain ⟨ty, p, a, hty⟩ := kbdSlotSetType_eq b (occupy (addLink k handle) s handle addr) s addrType
    rw [he]
    refine haccepted _ ⟨hd, Or.inl ⟨s, hs, hfree⟩⟩ ⟨ha, hb, hc, hd'⟩ ?_ ⟨s, ?_⟩
    · rw [hty]
      rfl
    · rw [hty]
      rfl
  · obtain ⟨ha, hb, hc, hd'⟩ := sameAdvert_setType b
      (slotmapSave b (reserve (addLink k handle) s handle addr)) s addrType
    obtain ⟨ty, p, a, hty⟩ := kbdSlotSetType_eq b
      (slotmapSave b (reserve (addLink k handle) s handle addr)) s addrType
    rw [he]
    refine haccepted _ ⟨hd, Or.inr ⟨s, kbdNextPairSlot_some hs⟩⟩ ⟨ha, hb, hc, hd'⟩ ?_ ⟨s, ?_⟩
    · rw [hty]
      rfl
    · rw [hty]
      rfl
  · rw [he]
    refine hrefused _ (fun hacc => ?_) ⟨rfl, rfl, rfl, rfl⟩ ⟨rfl, rfl, rfl, rfl, rfl⟩
    rcases hacc.2 with ⟨t, hts, ht⟩ | hany
    · exact hno t hts ht
    · have hsome := (kbdNextPairSlot_isSome k).mpr hany
      rw [hs] at hsome
      cases hsome

theorem unlink_pairSlot (k : Keyboard n) (handle : UInt16) :
    (unlink k handle).pairSlot = k.pairSlot := by
  cases hs : kbdSlotOf k handle <;> rw [unlink, hs] <;> rfl

theorem inForce_terminated (hk : PolicyInv k) (handle : UInt16) (newState : UInt8) :
    InForce (step b k (.linkTerminated handle newState)) ↔
      (k.pairSlot = none → ¬ Unhosted (unlink k handle)) ∧
        (newState &&& 0xF = gaproleStarted → 0 < n → policy (unlink k handle) ≠ .off) := by
  have ht : (unlink k handle).kbTarget ∈ targets := by
    rw [unlink_kbTarget]
    exact hk.target
  have hw : (unlink k handle).pairSlot.isSome →
      kbBleAdvertWanted (unlink k handle).kbTarget = true := by
    rw [unlink_kbTarget, unlink_pairSlot]
    exact hk.window
  have h := inForce_roleSwitch b ht hw newState
  rwa [unlink_pairSlot] at h

/-- Pointing the keyboard at a slot resumes the advertising commanded last. -/
theorem resumes_iff {m : UInt8} {s : Fin n} (ha : activeSlot n m = some s) :
    resumed k.air = policy { k with kbTarget := m } ↔ Resumes k s := by
  have hcount : kbBleConnCount { k with kbTarget := m } = kbBleConnCount k := rfl
  unfold resumed policy Resumes
  rw [hcount, ha]
  dsimp only
  by_cases hp : k.pairSlot.isSome
  · rw [if_pos hp]
    have hne : k.pairSlot ≠ none := Option.isSome_iff_ne_none.mp hp
    by_cases he : k.air.advEventType = advHdcDirectInd
    · simp [he, hne]
    · simp [he, hp]
  · rw [if_neg hp]
    have hnone : k.pairSlot = none := Option.not_isSome_iff_eq_none.mp hp
    by_cases hc : 0 < kbBleConnCount k
    · rw [if_pos hc]
      refine ⟨fun h => absurd h (resumed_ne_off k.air), ?_⟩
      rintro (⟨h, -⟩ | ⟨-, h, -⟩)
      · exact absurd h hp
      · omega
    · have hzero : kbBleConnCount k = 0 := by omega
      rw [if_neg hc]
      by_cases hf : LooksFree (k.slotmap s)
      · rw [if_pos hf]
        refine ⟨fun h => absurd h (resumed_ne_off k.air), ?_⟩
        rintro (⟨h, -⟩ | ⟨-, -, h, -⟩)
        · exact absurd h hp
        · exact absurd hf h
      · rw [if_neg hf]
        by_cases he : k.air.advEventType = advHdcDirectInd
        · rw [if_pos he, Advert.directed.injEq]
          constructor
          · rintro ⟨hty, haddr⟩
            exact Or.inr ⟨hnone, hzero, hf, he, hty, haddr⟩
          · rintro (⟨h, -⟩ | ⟨-, -, -, -, hty, haddr⟩)
            · exact absurd h hp
            · exact ⟨hty, haddr⟩
        · rw [if_neg he]
          refine ⟨nofun, ?_⟩
          rintro (⟨h, -⟩ | ⟨-, -, -, h, -⟩)
          · exact absurd h hp
          · exact absurd h he

theorem inForce_pointAt_none (b : Board) (k : Keyboard n) (ht : k.kbTarget ∈ targets)
    (ha : activeSlot n k.kbTarget = none) :
    InForce (pointAt b k none) ∧ (pointAt b k none).pairSlot = none := by
  have hclosed : ∀ k' : Keyboard n, k'.kbTarget = k.kbTarget → k'.pairSlot = none →
      InForce (kbdAdvUpdate k') ∧ (kbdAdvUpdate k').pairSlot = none := by
    intro k' hm hp
    have hupd := commanded_advUpdate (k := k') (by rwa [hm]) (by rw [hp]; nofun)
    rw [inForce_iff, (samePolicy_air (kbdAdvUpdate_eq k')).policy, hupd]
    constructor
    · rintro - ⟨-, -, s, hs, -⟩
      rw [hm, ha] at hs
      cases hs
    · obtain ⟨a, ha'⟩ := kbdAdvUpdate_eq k'
      rw [ha']
      exact hp
  by_cases hp : k.pairSlot.isSome
  · rw [pointAt, if_pos hp]
    exact hclosed _ rfl rfl
  · rw [pointAt, if_neg hp]
    exact hclosed k rfl (Option.not_isSome_iff_eq_none.mp hp)

theorem inForce_activate_none (b : Board) (k : Keyboard n) (ht : k.kbTarget ∈ targets)
    (ha : activeSlot n k.kbTarget = none) :
    InForce (kbBleActivateSlot b k none) ∧ (kbBleActivateSlot b k none).pairSlot = none := by
  unfold kbBleActivateSlot
  split
  · exact inForce_pointAt_none b _ ht ha
  · exact inForce_pointAt_none b k ht ha

theorem inForce_pointAt_some (b : Board) {k k' : Keyboard n} {m : UInt8} {s : Fin n}
    (ha : activeSlot n m = some s) (had : SameAdvert k k')
    (hp : SamePolicy { k with kbTarget := m } k') : InForce (pointAt b k' (some s)) ↔ Resumes k s := by
  have hres : resumed k'.air = resumed k.air := by
    unfold resumed
    rw [had.event, had.type, had.addr]
  rw [← resumes_iff ha, inForce_iff, pointAt, commanded_applyAddr b _ _ s.pos,
    (samePolicy_air (kbBleApplyAddr_eq b k' (some s))).policy, hp.policy, hres]

theorem inForce_dev (argv : List (List UInt8)) :
    InForce (step b k (.dev argv)) ↔ MeetsPolicy k (.dev argv) := by
  rw [step, MeetsPolicy]
  cases hd : devTarget n argv with
  | none => rw [atCmdDev_none b hd, inForce_iff]
  | some m =>
    dsimp only
    rcases atCmdDev_activate b k hd with ⟨hble, he⟩ | ⟨hble, hnone, he⟩
    · rw [he]
      cases ha : activeSlot n m with
      | none =>
        refine ⟨fun _ h => absurd (hble ha) h, fun _ => ?_⟩
        exact (inForce_activate_none b { k with kbTarget := m } (devTarget_some hd).2.1 ha).1
      | some s =>
        dsimp only [kbBleActivateSlot]
        by_cases hn : 1 < n
        · rw [if_pos hn, if_pos (Or.inl hn)]
          exact inForce_pointAt_some b ha ⟨rfl, rfl, rfl, rfl⟩ ⟨rfl, rfl, rfl, rfl, rfl⟩
        · rw [if_neg hn]
          by_cases hf : ConnFree k s
          · rw [if_pos (show ConnFree { k with kbTarget := m } s from hf), if_pos (Or.inr hf)]
            exact inForce_pointAt_some b ha ⟨rfl, rfl, rfl, rfl⟩ ⟨rfl, rfl, rfl, rfl, rfl⟩
          · rw [if_neg (show ¬ ConnFree { k with kbTarget := m } s from hf),
              if_neg (not_or.mpr ⟨hn, hf⟩), inForce_iff]
            exact Iff.rfl
    · rw [he, hnone, inForce_iff]
      exact ⟨fun h _ => h, fun h => h hble⟩

theorem pairTarget_selected (hk : PolicyInv k) {argv : List (List UInt8)} {s : Fin n}
    (h : pairTarget k argv = some s) : ∃ m ∈ targets, m &&& slotBit s ≠ 0 := by
  unfold pairTarget named at h
  split at h
  · exact ⟨k.kbTarget, hk.target, selected_of_activeSlot h⟩
  · split at h
    · cases h
    · exact ⟨_, devTargetParse_mem _, mem_bleSlots.mp (List.mem_of_getLast? h)⟩

theorem targetOf_window (slot : Option (Fin n))
    (h : ∀ s, slot = some s → ∃ m ∈ targets, m &&& slotBit s ≠ 0) :
    (targetOf slot) ∈ targets ∧
      (slot.isSome → kbBleAdvertWanted (targetOf slot) = true) ∧
      (slot = none → activeSlot n (targetOf slot) = none) := by
  cases slot with
  | none =>
    refine ⟨List.mem_cons_self, nofun, fun _ => ?_⟩
    rw [activeSlot_eq_none]
    exact fun s => UInt8.zero_and
  | some s =>
    obtain ⟨m, hm, hs⟩ := h s rfl
    have htgt : slotBit s ∈ targets := slotBit_mem_targets hm hs
    refine ⟨htgt, fun _ => wanted_of_selected htgt (s := s) ?_, nofun⟩
    change slotBit s &&& slotBit s ≠ 0
    rw [UInt8.and_self]
    exact slotBit_ne_zero hs

theorem inForce_pairInto (b : Board) (k : Keyboard n) (slot : Option (Fin n))
    (h : ∀ s, slot = some s → ∃ m ∈ targets, m &&& slotBit s ≠ 0) :
    InForce (pairInto b k slot) := by
  obtain ⟨ht, hw, hnone⟩ := targetOf_window slot h
  obtain ⟨p, a, ha⟩ := kbBleActivateSlot_eq b { k with kbTarget := targetOf slot } slot
  rw [inForce_iff, pairInto, kbBlePairOpen, ha]
  dsimp only
  have hupd := commanded_advUpdate (k := { k with
    kbTarget := targetOf slot
    links := (terminateLinks k (dropped k slot)).links
    pairSlot := slot
    air := a }) ht hw
  have hpol := (samePolicy_air (kbdAdvUpdate_eq { k with
    kbTarget := targetOf slot
    links := (terminateLinks k (dropped k slot)).links
    pairSlot := slot
    air := a })).policy
  refine Eq.trans (hupd.mpr ?_) hpol.symm
  rintro hs ⟨-, -, s, hact, -⟩
  rw [show activeSlot n (targetOf slot) = none from hnone hs] at hact
  cases hact

theorem inForce_btPair (hk : PolicyInv k) (argv : List (List UInt8)) :
    InForce (step b k (.btPair argv)) ↔ MeetsPolicy k (.btPair argv) := by
  rw [step, MeetsPolicy]
  rcases btPairKbd_target b k argv with ⟨hr, he, -, -⟩ | ⟨hr, he⟩
  · rw [he, inForce_iff]
    exact ⟨fun h _ => h, fun h => h hr⟩
  · rw [he]
    exact ⟨fun _ h => absurd h hr,
      fun _ => inForce_pairInto b _ _ fun s hs => pairTarget_selected hk hs⟩

theorem inForce_window (hk : PolicyInv k) :
    InForce (step b k .pairWindowEvt) ↔ ¬ Unhosted k := by
  have hupd := commanded_advUpdate
    (k := { k with pairSlot := none, air := { k.air with pairWindowEvt := false } }) hk.target nofun
  rw [step, inForce_iff, (samePolicy_air (kbdAdvUpdate_eq _)).policy, hupd]
  exact ⟨fun h => h rfl, fun h _ => h⟩

theorem followsPolicy_iff (hk : PolicyInv k) (e : Event) :
    FollowsPolicy b k e ↔ MeetsPolicy k e := by
  cases e with
  | linkEstablished handle addr addrType =>
    exact forall_congr' fun hf => inForce_established hk.linked hf addr addrType
  | linkTerminated handle newState =>
    exact (forall_prop_of_true trivial).trans (inForce_terminated hk handle newState)
  | pairWindowEvt => exact (forall_prop_of_true trivial).trans (inForce_window hk)
  | dev argv => exact (forall_prop_of_true trivial).trans (inForce_dev argv)
  | btPair argv => exact (forall_prop_of_true trivial).trans (inForce_btPair hk argv)
  | _ => exact ⟨fun _ => trivial, fun _ h => h.elim⟩

end Events

section Invariant

variable {b : Board} {k : Keyboard n}

theorem policyInv_boot (b : Board) (page : ℕ → UInt8) :
    PolicyInv (bleHidEmuInit b page : Keyboard n) := by
  refine ⟨linked_boot b page, ?_, ?_⟩
  · exact List.mem_cons_of_mem _ (List.mem_cons_of_mem _ List.mem_cons_self)
  · obtain ⟨a, ha⟩ := bleHidEmuInit_eq (n := n) b page
    rw [ha]
    nofun

theorem PolicyInv.same {k' : Keyboard n} (hk : PolicyInv k) (hl : Linked k')
    (ht : k'.kbTarget = k.kbTarget) (hp : k'.pairSlot = k.pairSlot ∨ k'.pairSlot = none) :
    PolicyInv k' := by
  refine ⟨hl, by rw [ht]; exact hk.target, fun h => ?_⟩
  rw [ht]
  rcases hp with hp | hp
  · exact hk.window (hp ▸ h)
  · rw [hp] at h
    cases h

theorem pairSlot_unbind (b : Board) (k : Keyboard n) (s : Fin n) :
    (kbBleUnbindSlot b k s).1.pairSlot = k.pairSlot := by
  by_cases h : k.slotmap s 0 = 0xFF
  · rw [kbBleUnbindSlot_free h]
  · obtain ⟨handles, a, he⟩ := kbBleUnbindSlot_bound b h
    rw [he]

theorem pairSlot_disc (k : Keyboard n) (argv : List (List UInt8)) :
    (btDiscKbd k argv).1.pairSlot = k.pairSlot := by
  have hslot : ∀ (k' : Keyboard n) (s : Fin n), k'.pairSlot = k.pairSlot →
      (kbBleDisconnectSlot k' s).1.pairSlot = k.pairSlot := by
    intro k' s hk
    unfold kbBleDisconnectSlot
    split
    · exact hk
    · exact hk
  unfold btDiscKbd kbBleDisconnect
  split
  · split
    · rfl
    · rfl
  · dsimp only
    split
    · rfl
    · exact overSlots_inv hslot rfl _

theorem pairSlot_setters (b : Board) (k : Keyboard n) :
    (∀ slot name, (kbBleSlotSetName b k slot name).1.pairSlot = k.pairSlot) ∧
    (∀ slot ms, (kbBleSlotSetPace b k slot ms).1.pairSlot = k.pairSlot) ∧
    ∀ slot addr, (kbBleSlotSetMac b k slot addr).1.pairSlot = k.pairSlot := by
  refine ⟨fun slot name => ?_, fun slot ms => ?_, fun slot addr => ?_⟩
  · unfold kbBleSlotSetName
    split
    · rfl
    · dsimp only
      split <;> rfl
  · unfold kbBleSlotSetPace
    split
    · rfl
    · split <;> rfl
  · unfold kbBleSlotSetMac
    split
    · rfl
    · split <;> rfl

theorem pairSlot_quiet (b : Board) (k : Keyboard n) {e : Event} (he : e.quiet = true) :
    (step b k e).pairSlot = k.pairSlot ∨ (step b k e).pairSlot = none := by
  cases e with
  | linkEstablished | linkTerminated | dev | btPair | factory | powerCycle =>
    exact absurd he Bool.false_ne_true
  | roleState newState => exact Or.inl (samePolicy_air (roleSwitch_eq b k newState)).pairSlot
  | pairWindowEvt =>
    obtain ⟨a, ha⟩ := kbdAdvUpdate_eq
      { k with pairSlot := none, air := { k.air with pairWindowEvt := false } }
    rw [step, ha]
    exact Or.inr rfl
  | advRearmEvt => exact Or.inl (samePolicy_air (kbdAdvUpdate_eq k)).pairSlot
  | btUnbind argv =>
    rw [step, btUnbindKbd_eq]
    exact Or.inl (overSlots_inv (P := fun k' => k'.pairSlot = k.pairSlot)
      (fun k' s h => (pairSlot_unbind b k' s).trans h) rfl _)
  | btDisc argv => exact Or.inl (pairSlot_disc k argv)
  | setName slot name => exact Or.inl ((pairSlot_setters b k).1 slot name)
  | setPace slot ms => exact Or.inl ((pairSlot_setters b k).2.1 slot ms)
  | setMac slot addr => exact Or.inl ((pairSlot_setters b k).2.2 slot addr)
  | factoryReset =>
    left
    rw [step]
    unfold kbBleFactoryReset slotmapLoad
    rfl

theorem pairSlot_established (hk : Linked k) {handle : UInt16} (hf : FreshHandle k handle)
    (addr : Addr) (addrType : UInt8) :
    (step b k (.linkEstablished handle addr addrType)).pairSlot = k.pairSlot := by
  rcases established_cases b hk hf addr addrType with
    ⟨-, he⟩ | ⟨-, s, -, -, he⟩ | ⟨-, -, s, -, he⟩ | ⟨-, -, -, he⟩
  · rw [he]
    rfl
  · obtain ⟨ty, p, a, hty⟩ := kbdSlotSetType_eq b (occupy (addLink k handle) s handle addr) s addrType
    rw [he, hty]
    rfl
  · obtain ⟨ty, p, a, hty⟩ := kbdSlotSetType_eq b
      (slotmapSave b (reserve (addLink k handle) s handle addr)) s addrType
    rw [he, hty]
    rfl
  · rw [he]
    rfl

theorem policyInv_dev (hk : PolicyInv k) (argv : List (List UInt8)) :
    PolicyInv (step b k (.dev argv)) := by
  have hl := linked_step b k (.dev argv) hk.linked
  rw [step] at hl ⊢
  cases hd : devTarget n argv with
  | none =>
    rw [atCmdDev_none b hd]
    exact hk
  | some m =>
    obtain ⟨-, ht, -⟩ := devTarget_some hd
    obtain ⟨p, a, he⟩ := atCmdDev_some b k hd
    have hm : (atCmdDev b k argv).1.kbTarget = m := by rw [he]
    refine ⟨hl, by rwa [hm], fun h => ?_⟩
    rw [hm]
    rcases atCmdDev_activate b k hd with ⟨hnone, he'⟩ | ⟨hble, -, -⟩
    · cases ha : activeSlot n m with
      | some s => exact wanted_of_selected ht (selected_of_activeSlot ha)
      | none =>
        rw [he', ha, (inForce_activate_none b { k with kbTarget := m } ht ha).2] at h
        cases h
    · exact decide_eq_true hble

theorem policyInv_btPair (hk : PolicyInv k) (argv : List (List UInt8)) :
    PolicyInv (step b k (.btPair argv)) := by
  have hl := linked_step b k (.btPair argv) hk.linked
  rw [step] at hl ⊢
  rcases btPairKbd_target b k argv with ⟨-, he, -, -⟩ | ⟨-, he⟩
  · rw [he]
    exact hk
  · obtain ⟨a, ha⟩ := pairInto_eq b (unbindNamed b k (named n argv).getLast?) (pairTarget k argv)
    obtain ⟨ht, hw, -⟩ := targetOf_window (pairTarget k argv)
      fun s hs => pairTarget_selected hk hs
    rw [he, ha] at hl ⊢
    exact ⟨hl, ht, hw⟩

theorem policyInv_step (b : Board) (k : Keyboard n) (e : Event) (hk : PolicyInv k) :
    PolicyInv (step b k e) := by
  have hl := linked_step b k e hk.linked
  cases e with
  | linkEstablished handle addr addrType =>
    by_cases hf : FreshHandle k handle
    · exact hk.same hl (established_kbTarget b hk.linked hf addr addrType)
        (Or.inl (pairSlot_established hk.linked hf addr addrType))
    · rw [step, if_neg hf]
      exact hk
  | linkTerminated handle newState =>
    obtain ⟨a, ha⟩ := terminated_eq b k handle newState
    rw [ha] at hl ⊢
    exact hk.same hl (unlink_kbTarget k handle) (Or.inl (unlink_pairSlot k handle))
  | dev argv => exact policyInv_dev hk argv
  | btPair argv => exact policyInv_btPair hk argv
  | factory => exact policyInv_boot b _
  | powerCycle => exact policyInv_boot b _
  | _ => exact hk.same hl (ends_quiet b k rfl).kbTarget (pairSlot_quiet b k rfl)

end Invariant

/-- After each of its events the policy is in force exactly when the event meets the condition. -/
theorem advertising_policy_iff (b : Board) (page : ℕ → UInt8) (es : List Event) :
    Along (step b) (FollowsPolicy b) (bleHidEmuInit b page : Keyboard n) es ↔
      Along (step b) MeetsPolicy (bleHidEmuInit b page : Keyboard n) es :=
  along_iff_of_inv (fun k e hk => policyInv_step b k e hk) (fun _ e hk => followsPolicy_iff hk e)
    (policyInv_boot b page)

/-- A slot without a host is selected, and general advertising is switched on without a window. -/
theorem free_slot_advertises :
    commanded (step board (bleHidEmuInit board erasedPage : Keyboard 3) (.dev devBle2)).air =
        .general ∧
      ¬ Along (step board) (FollowsPolicy board) (bleHidEmuInit board erasedPage : Keyboard 3)
        [.dev devBle2] := by
  have hon : commanded (step board (bleHidEmuInit board erasedPage : Keyboard 3)
      (.dev devBle2)).air = .general := by decide +kernel
  have hoff : policy (step board (bleHidEmuInit board erasedPage : Keyboard 3)
      (.dev devBle2)) = .off := by decide +kernel
  refine ⟨hon, fun h => ?_⟩
  have hin := (h.1 trivial).follows
  rw [hon, hoff] at hin
  cases hin

end AtNode.Ble
