import AtNode.Ch582.HidDev
import AtNode.Lib.Past
import Mathlib.Data.List.Perm.Subperm

/-!
# Who gets the reports

The flags of the link table say what happened on the link since it came up: handles are used again, and
nothing of the link before is left. So a report goes out exactly to a host that paired, that asked for the
characteristic of the protocol mode, and whose link has been up since then.

The protocol mode is one for all hosts: any host sets it, and the end of any link sets it back.
-/

namespace AtNode.HidDev

open Past (Since)

variable {n : ℕ} {k : Hid n} {s t : Fin n} {h : UInt16}

section Slots

theorem handles_of_slotOf (hs : slotOf k h = some s) : k.handles s = h := by
  simpa using List.find?_some hs

theorem slotOf_eq_none : slotOf k h = none ↔ ∀ s, k.handles s ≠ h := by
  simp [slotOf]

/-- The table has the links of the stack and no others. -/
structure Linked (k : Hid n) : Prop where
  up : ∀ s, k.handles s ≠ noHandle → k.handles s ∈ k.links
  known : ∀ h ∈ k.links, ∃ s, k.handles s = h
  inj : ∀ s t, k.handles s ≠ noHandle → k.handles s = k.handles t → s = t
  handle : noHandle ∉ k.links
  free : ∀ s, k.handles s = noHandle → k.secure s = false

theorem slotOf_eq (hk : Linked k) (hs : k.handles s = h) (hh : h ≠ noHandle) : slotOf k h = some s := by
  cases ht : slotOf k h with
  | none => exact absurd hs (slotOf_eq_none.mp ht s)
  | some t =>
    have hth := handles_of_slotOf ht
    rw [hk.inj s t (hs ▸ hh) (hs.trans hth.symm)]

def Secure (k : Hid n) (h : UInt16) : Prop := ∃ s, k.handles s = h ∧ k.secure s = true

theorem connSecure_iff (hk : Linked k) : connSecure k h = true ↔ Secure k h := by
  unfold connSecure
  cases hs : slotOf k h with
  | none =>
    refine iff_of_false Bool.false_ne_true ?_
    rintro ⟨t, ht, -⟩
    exact slotOf_eq_none.mp hs t ht
  | some s =>
    have hhandle := handles_of_slotOf hs
    refine ⟨fun hsec => ⟨s, hhandle, hsec⟩, ?_⟩
    rintro ⟨t, ht, hsec⟩
    by_cases hh : h = noHandle
    · exact absurd hsec (by rw [hk.free t (ht.trans hh)]; exact Bool.false_ne_true)
    · obtain rfl := hk.inj s t (hhandle ▸ hh) (hhandle.trans ht.symm)
      exact hsec

/-- There is a slot for a link that the stack still lets in. -/
theorem exists_free (hk : Linked k) (hlen : k.links.length < n) : ∃ s, k.handles s = noHandle := by
  by_contra hnone
  have hup (s : Fin n) : k.handles s ≠ noHandle := fun hs => hnone ⟨s, hs⟩
  have hnodup : ((List.finRange n).map k.handles).Nodup := by
    apply (List.nodup_finRange n).map
    exact fun s t => hk.inj s t (hup s)
  have hsub : (List.finRange n).map k.handles ⊆ k.links := by
    intro h hmem
    obtain ⟨s, -, rfl⟩ := List.mem_map.mp hmem
    exact hk.up s (hup s)
  have hle := (List.subperm_of_subset hnodup hsub).length_le
  rw [List.length_map, List.length_finRange] at hle
  omega

theorem linked_hidDevInit : Linked (hidDevInit n) where
  up _ hs := absurd rfl hs
  known _ hh := absurd hh List.not_mem_nil
  inj _ _ hs := absurd rfl hs
  handle := List.not_mem_nil
  free _ _ := rfl

end Slots

section Steps

structure SameLinks (k k' : Hid n) : Prop where
  handles : k'.handles = k.handles
  secure : k'.secure = k.secure
  links : k'.links = k.links

structure SameChoices (k k' : Hid n) : Prop where
  mode : k'.mode = k.mode
  cfg : k'.cfg = k.cfg

structure SameNews (k k' : Hid n) : Prop where
  sent : k'.sent = k.sent
  told : k'.told = k.told
  level : k'.level = k.level
  timer : k'.timer = k.timer
  due : k'.due = k.due

theorem SameLinks.linked {k' : Hid n} (h : SameLinks k k') (hk : Linked k) : Linked k' := by
  obtain ⟨h1, h2, h3⟩ := h
  constructor
  · rw [h1, h3]
    exact hk.up
  · rw [h1, h3]
    exact hk.known
  · rw [h1]
    exact hk.inj
  · rw [h3]
    exact hk.handle
  · rw [h1, h2]
    exact hk.free

theorem SameLinks.secure_iff {k' : Hid n} (h' : SameLinks k k') : Secure k' h ↔ Secure k h := by
  rw [Secure, h'.handles, h'.secure]
  rfl

variable {conn : UInt16}

theorem sameLinks_sendNoti (attr : Attr) (data : List UInt8) (noti : UInt8) :
    SameLinks k (sendNoti k conn attr data noti).1 ∧ SameChoices k (sendNoti k conn attr data noti).1 := by
  unfold sendNoti
  split_ifs <;> exact ⟨⟨rfl, rfl, rfl⟩, ⟨rfl, rfl⟩⟩

theorem sameLinks_sendReport (id type : UInt8) (data : List UInt8) (noti : UInt8) :
    SameLinks k (sendReport k conn id type data noti).1 ∧
      SameChoices k (sendReport k conn id type data noti).1 := by
  unfold sendReport
  split
  · split_ifs
    · exact sameLinks_sendNoti _ data noti
    · exact ⟨⟨rfl, rfl, rfl⟩, ⟨rfl, rfl⟩⟩
  · exact ⟨⟨rfl, rfl, rfl⟩, ⟨rfl, rfl⟩⟩

theorem sameLinks_report (id type : UInt8) (data : List UInt8) (noti bonds : UInt8) :
    SameLinks k (report k conn id type data noti bonds).1 ∧
      SameChoices k (report k conn id type data noti bonds).1 := by
  unfold report
  by_cases hsecure : connSecure k conn = true
  · rw [if_pos hsecure]
    exact sameLinks_sendReport id type data noti
  · rw [if_neg hsecure]
    split_ifs <;> exact ⟨⟨rfl, rfl, rfl⟩, ⟨rfl, rfl⟩⟩

theorem sameLinks_measLevel (measured : UInt8) (ok : UInt16 → Bool) :
    SameLinks k (measLevel k measured ok) ∧ SameChoices k (measLevel k measured ok) := by
  unfold measLevel
  split_ifs <;> exact ⟨⟨rfl, rfl, rfl⟩, ⟨rfl, rfl⟩⟩

theorem same_setParam (type : UInt8) (uuid : UInt16) (value : List UInt8) :
    SameLinks k (setParam k type uuid value).1 ∧ SameChoices k (setParam k type uuid value).1 ∧
      SameNews k (setParam k type uuid value).1 := by
  unfold setParam
  split_ifs <;> exact ⟨⟨rfl, rfl, rfl⟩, ⟨rfl, rfl⟩, ⟨rfl, rfl, rfl, rfl, rfl⟩⟩

theorem same_rptCbWrite (type : UInt8) (uuid : UInt16) (value : List UInt8) :
    SameLinks k (rptCbWrite k type uuid value).1 ∧ SameChoices k (rptCbWrite k type uuid value).1 ∧
      SameNews k (rptCbWrite k type uuid value).1 := by
  unfold rptCbWrite
  split_ifs
  · exact ⟨⟨rfl, rfl, rfl⟩, ⟨rfl, rfl⟩, ⟨rfl, rfl, rfl, rfl, rfl⟩⟩
  · exact same_setParam type uuid value

theorem same_writeAttr (attr : Attr) (value : List UInt8) (offset : ℕ) (ccc : UInt8) :
    SameLinks k (writeAttr k conn attr value offset ccc).1 ∧
      SameNews k (writeAttr k conn attr value offset ccc).1 := by
  have hrefl : SameLinks k k ∧ SameNews k k := ⟨⟨rfl, rfl, rfl⟩, ⟨rfl, rfl, rfl, rfl, rfl⟩⟩
  unfold writeAttr
  split_ifs
  · exact hrefl
  · split
    · exact ⟨(same_rptCbWrite _ attr.uuid value).1, (same_rptCbWrite _ attr.uuid value).2.2⟩
    · exact hrefl
  · split <;> exact hrefl
  · exact ⟨⟨rfl, rfl, rfl⟩, ⟨rfl, rfl, rfl, rfl, rfl⟩⟩
  · exact hrefl
  · split
    · split_ifs <;> exact ⟨⟨rfl, rfl, rfl⟩, ⟨rfl, rfl, rfl, rfl, rfl⟩⟩
    · exact hrefl
  · exact hrefl

theorem sameLinks_battWrite (attr : Attr) (value : List UInt8) (ccc : UInt8) :
    SameLinks k (battWrite k conn attr value ccc).1 := by
  unfold battWrite
  split_ifs <;> exact ⟨rfl, rfl, rfl⟩

theorem foldl_initCharCfg (l : List Attr) : l.foldl (fun k c => initCharCfg k c conn) k =
    { k with cfg := fun a h => if h = conn ∧ a ∈ l then 0 else k.cfg a h } := by
  induction l generalizing k with
  | nil => simp
  | cons c l ih =>
    rw [List.foldl_cons, ih, initCharCfg]
    congr 1
    funext a h
    by_cases hh : h = conn <;> by_cases hc : a = c <;> simp [hh, hc]

theorem linkTerminated_eq (hconn : conn ≠ loopbackHandle) (bonds : UInt8) :
    (linkTerminated k conn bonds).handles = (freeSlot k conn).handles ∧
      (linkTerminated k conn bonds).secure = (freeSlot k conn).secure ∧
      (linkTerminated k conn bonds).mode = modeReport ∧
      ∀ a h, (linkTerminated k conn bonds).cfg a h =
        if h = conn ∧ (a = .keyInCccd ∨ a = .bootKeyInCccd ∨ a = .battCccd) then 0 else k.cfg a h := by
  have hfree (k : Hid n) : (freeSlot k conn).cfg = k.cfg := by
    unfold freeSlot
    split <;> rfl
  obtain ⟨cfg, heq, hcfg⟩ : ∃ cfg, handleConnStatus (battHandleConnStatus k conn) conn = { k with cfg } ∧
      ∀ a h, cfg a h =
        if h = conn ∧ (a = .keyInCccd ∨ a = .bootKeyInCccd ∨ a = .battCccd) then 0 else k.cfg a h := by
    rw [battHandleConnStatus, if_pos hconn, handleConnStatus, if_pos hconn]
    refine ⟨_, foldl_initCharCfg (.battCccd :: hidRptMap.filterMap RptMap.cccd), fun a h => ?_⟩
    have hmem : a ∈ Attr.battCccd :: hidRptMap.filterMap RptMap.cccd ↔
        a = .keyInCccd ∨ a = .bootKeyInCccd ∨ a = .battCccd := by
      cases a <;> decide
    exact if_congr (and_congr_right fun _ => hmem) rfl rfl
  have hslot : (freeSlot { k with cfg } conn).handles = (freeSlot k conn).handles ∧
      (freeSlot { k with cfg } conn).secure = (freeSlot k conn).secure := by
    have hsame : slotOf { k with cfg } conn = slotOf k conn := rfl
    unfold freeSlot
    rw [hsame]
    split <;> exact ⟨rfl, rfl⟩
  unfold linkTerminated disconnected
  dsimp only
  rw [heq]
  split_ifs <;> exact ⟨hslot.1, hslot.2, rfl, fun a h => (congrFun (congrFun (hfree _) a) h).trans (hcfg a h)⟩

theorem news_linkEstablished (intv lat : UInt16) : SameNews k (linkEstablished k conn intv lat) := by
  have halloc : SameNews k (slotAlloc k conn).1 := by
    unfold slotAlloc
    split
    · exact ⟨rfl, rfl, rfl, rfl, rfl⟩
    · split <;> exact ⟨rfl, rfl, rfl, rfl, rfl⟩
  unfold linkEstablished
  dsimp only
  split <;> exact ⟨halloc.sent, halloc.told, halloc.level, halloc.timer, halloc.due⟩

theorem news_linkTerminated (bonds : UInt8) : SameNews k (linkTerminated k conn bonds) := by
  have hcfg : SameNews k (handleConnStatus (battHandleConnStatus k conn) conn) := by
    unfold handleConnStatus battHandleConnStatus
    split_ifs
    · rw [foldl_initCharCfg]
      exact ⟨rfl, rfl, rfl, rfl, rfl⟩
    · exact ⟨rfl, rfl, rfl, rfl, rfl⟩
  have hfree (k : Hid n) : SameNews k (freeSlot k conn) := by
    unfold freeSlot
    split <;> exact ⟨rfl, rfl, rfl, rfl, rfl⟩
  unfold linkTerminated disconnected
  dsimp only
  generalize handleConnStatus (battHandleConnStatus k conn) conn = k₁ at hcfg ⊢
  have hboth : SameNews k (freeSlot k₁ conn) :=
    ⟨(hfree k₁).sent.trans hcfg.sent, (hfree k₁).told.trans hcfg.told, (hfree k₁).level.trans hcfg.level,
      (hfree k₁).timer.trans hcfg.timer, (hfree k₁).due.trans hcfg.due⟩
  split_ifs <;> exact ⟨hboth.sent, hboth.told, hboth.level, hboth.timer, hboth.due⟩

theorem news_paramUpdate (intv lat : UInt16) : SameNews k (paramUpdate k conn intv lat) := by
  unfold paramUpdate
  split <;> exact ⟨rfl, rfl, rfl, rfl, rfl⟩

theorem news_pairState (state status : UInt8) : SameNews k (pairState k conn state status) := by
  have hset : SameNews k (setSecure k conn status) := by
    unfold setSecure
    split_ifs
    · split <;> exact ⟨rfl, rfl, rfl, rfl, rfl⟩
    · exact ⟨rfl, rfl, rfl, rfl, rfl⟩
  unfold pairState
  split_ifs
  · exact ⟨hset.sent, hset.told, hset.level, hset.timer, hset.due⟩
  · exact hset
  · exact ⟨rfl, rfl, rfl, rfl, rfl⟩

end Steps

section Table

variable {conn : UInt16} {e : Event}

theorem established_eq (hk : Linked k) (hconn : conn ∉ k.links) (hno : conn ≠ noHandle)
    (hlen : k.links.length < n) (intv lat gapState : _) :
    ∃ s, k.handles s = noHandle ∧
      (step k (.established conn intv lat gapState)).handles = (fun t => if t = s then conn else k.handles t) ∧
      (step k (.established conn intv lat gapState)).secure = (fun t => if t = s then false else k.secure t) ∧
      (step k (.established conn intv lat gapState)).links = k.links ++ [conn] ∧
      SameChoices k (step k (.established conn intv lat gapState)) := by
  have hnone : slotOf k conn = none := by
    refine slotOf_eq_none.mpr fun s hs => hconn ?_
    exact hs ▸ hk.up s (hs ▸ hno)
  obtain ⟨s, hs⟩ : ∃ s, slotOf k noHandle = some s := by
    obtain ⟨t, ht⟩ := exists_free hk hlen
    cases hs : slotOf k noHandle with
    | none => exact absurd ht (slotOf_eq_none.mp hs t)
    | some s => exact ⟨s, rfl⟩
  have halloc : slotAlloc k conn =
      ({ k with handles := fun t => if t = s then conn else k.handles t }, some s) := by
    unfold slotAlloc
    rw [hnone]
    dsimp only
    rw [hs]
  refine ⟨s, handles_of_slotOf hs, ?_⟩
  unfold step linkEstablished
  dsimp only
  rw [halloc]
  exact ⟨rfl, rfl, rfl, ⟨rfl, rfl⟩⟩

theorem linked_established (hk : Linked k) (hconn : conn ∉ k.links) (hno : conn ≠ noHandle)
    (hlen : k.links.length < n) (intv lat gapState : _) :
    Linked (step k (.established conn intv lat gapState)) := by
  obtain ⟨s, hs, hhandles, hsecure, hlinks, -⟩ := established_eq hk hconn hno hlen intv lat gapState
  constructor
  · rw [hhandles, hlinks]
    intro t ht
    dsimp only at ht ⊢
    split_ifs at ht ⊢
    · simp
    · exact List.mem_append_left _ (hk.up t ht)
  · rw [hhandles, hlinks]
    intro h hh
    rcases List.mem_append.mp hh with hh | hh
    · obtain ⟨t, ht⟩ := hk.known h hh
      refine ⟨t, ?_⟩
      dsimp only
      rw [if_neg, ht]
      rintro rfl
      exact hk.handle (hs ▸ ht ▸ hh)
    · exact ⟨s, by simpa using (List.mem_singleton.mp hh).symm⟩
  · rw [hhandles]
    intro t u ht hu
    dsimp only at ht hu
    split_ifs at ht hu with h1 h2 h2
    · rw [h1, h2]
    · exact absurd (hk.up u (hu ▸ hno)) (hu ▸ hconn)
    · exact absurd (hk.up t ht) (hu ▸ hconn)
    · exact hk.inj t u ht hu
  · rw [hlinks]
    intro hmem
    rcases List.mem_append.mp hmem with hmem | hmem
    · exact hk.handle hmem
    · exact hno (List.mem_singleton.mp hmem).symm
  · rw [hhandles, hsecure]
    intro t ht
    dsimp only at ht ⊢
    split_ifs at ht ⊢
    · rfl
    · exact hk.free t ht

theorem terminated_eq (hk : Linked k) (hconn : conn ∈ k.links) (gapState bonds : UInt8) :
    ∃ s, k.handles s = conn ∧
      (step k (.terminated conn gapState bonds)).handles = (fun t => if t = s then noHandle else k.handles t) ∧
      (step k (.terminated conn gapState bonds)).secure = (fun t => if t = s then false else k.secure t) ∧
      (step k (.terminated conn gapState bonds)).links = k.links.filter (· ≠ conn) := by
  have hno : conn ≠ noHandle := fun h => hk.handle (h ▸ hconn)
  obtain ⟨s, hs⟩ := hk.known conn hconn
  obtain ⟨hhandles, hsecure, -, -⟩ := linkTerminated_eq (k := k) hno bonds
  refine ⟨s, hs, ?_⟩
  rw [freeSlot, slotOf_eq hk hs hno] at hhandles hsecure
  exact ⟨hhandles, hsecure, rfl⟩

theorem linked_terminated (hk : Linked k) (hconn : conn ∈ k.links) (gapState bonds : UInt8) :
    Linked (step k (.terminated conn gapState bonds)) := by
  have hno : conn ≠ noHandle := fun h => hk.handle (h ▸ hconn)
  obtain ⟨s, hs, hhandles, hsecure, hlinks⟩ := terminated_eq hk hconn gapState bonds
  constructor
  · rw [hhandles, hlinks]
    intro t ht
    dsimp only at ht ⊢
    split_ifs at ht ⊢ with hts
    · exact absurd rfl ht
    · refine List.mem_filter.mpr ⟨hk.up t ht, decide_eq_true fun he => hts ?_⟩
      exact hk.inj t s ht (he.trans hs.symm)
  · rw [hhandles, hlinks]
    intro h hh
    obtain ⟨hmem, hne⟩ := List.mem_filter.mp hh
    obtain ⟨t, ht⟩ := hk.known h hmem
    refine ⟨t, ?_⟩
    dsimp only
    rw [if_neg, ht]
    rintro rfl
    exact of_decide_eq_true hne (ht.symm.trans hs)
  · rw [hhandles]
    intro t u ht hu
    dsimp only at ht hu
    split_ifs at ht hu with h1 h2 h2
    · exact absurd rfl ht
    · exact absurd rfl ht
    · exact absurd hu ht
    · exact hk.inj t u ht hu
  · rw [hlinks]
    exact fun hmem => hk.handle (List.mem_filter.mp hmem).1
  · rw [hhandles, hsecure]
    intro t ht
    dsimp only at ht ⊢
    split_ifs at ht ⊢
    · rfl
    · exact hk.free t ht

theorem pairState_eq (hk : Linked k) (hconn : conn ∈ k.links) (state status : UInt8) :
    ∃ s, k.handles s = conn ∧
      (pairState k conn state status).handles = k.handles ∧
      (pairState k conn state status).links = k.links ∧ SameChoices k (pairState k conn state status) ∧
      (pairState k conn state status).secure = fun t =>
        if t = s ∧ (state = pairingComplete ∨ state = pairingBonded) ∧ status = success then true
        else k.secure t := by
  have hno : conn ≠ noHandle := fun h => hk.handle (h ▸ hconn)
  obtain ⟨s, hs⟩ := hk.known conn hconn
  refine ⟨s, hs, ?_⟩
  unfold pairState setSecure
  rw [slotOf_eq hk hs hno]
  by_cases hcomplete : state = pairingComplete
  · rw [if_pos hcomplete]
    by_cases hstatus : status = success
    · rw [if_pos hstatus]
      exact ⟨rfl, rfl, ⟨rfl, rfl⟩, by simp [hcomplete, hstatus]⟩
    · rw [if_neg hstatus]
      exact ⟨rfl, rfl, ⟨rfl, rfl⟩, by simp [hstatus]⟩
  · rw [if_neg hcomplete]
    by_cases hbonded : state = pairingBonded
    · rw [if_pos hbonded]
      by_cases hstatus : status = success
      · rw [if_pos hstatus]
        exact ⟨rfl, rfl, ⟨rfl, rfl⟩, by simp [hbonded, hstatus]⟩
      · rw [if_neg hstatus]
        exact ⟨rfl, rfl, ⟨rfl, rfl⟩, by simp [hstatus]⟩
    · rw [if_neg hbonded]
      exact ⟨rfl, rfl, ⟨rfl, rfl⟩, by simp [hcomplete, hbonded]⟩

def Rises (h : UInt16) : Event → Prop
  | .established conn _ _ _ => conn = h
  | _ => False

def Falls (h : UInt16) : Event → Prop
  | .terminated conn _ _ => conn = h
  | _ => False

def Pairs (h : UInt16) : Event → Prop
  | .paired conn state status =>
    conn = h ∧ (state = pairingComplete ∨ state = pairingBonded) ∧ status = success
  | _ => False

instance : DecidablePred (Rises h)
  | .established conn _ _ _ => inferInstanceAs (Decidable (conn = h))
  | .terminated .. | .gapState _ | .params .. | .paired .. | .read .. | .write .. | .report ..
  | .close | .setCritical .. | .expire | .battTurn .. => instDecidableFalse

instance : DecidablePred (Falls h)
  | .terminated conn _ _ => inferInstanceAs (Decidable (conn = h))
  | .established .. | .gapState _ | .params .. | .paired .. | .read .. | .write .. | .report ..
  | .close | .setCritical .. | .expire | .battTurn .. => instDecidableFalse

instance : DecidablePred (Pairs h)
  | .paired _ _ _ => inferInstanceAs (Decidable (_ ∧ (_ ∨ _) ∧ _))
  | .established .. | .terminated .. | .gapState _ | .params .. | .read .. | .write ..
  | .report .. | .close | .setCritical .. | .expire | .battTurn .. => instDecidableFalse

theorem step_cases (e : Event) : (∃ conn intv lat gapState, e = .established conn intv lat gapState) ∨
    (∃ conn gapState bonds, e = .terminated conn gapState bonds) ∨
    (∃ conn state status, e = .paired conn state status) ∨
    SameLinks k (step k e) ∧ ∀ h, ¬ Rises h e ∧ ¬ Falls h e ∧ ¬ Pairs h e := by
  cases e with
  | established conn intv lat gapState => exact Or.inl ⟨_, _, _, _, rfl⟩
  | terminated conn gapState bonds => exact Or.inr (Or.inl ⟨_, _, _, rfl⟩)
  | paired conn state status => exact Or.inr (Or.inr (Or.inl ⟨_, _, _, rfl⟩))
  | gapState gapState => exact Or.inr (Or.inr (Or.inr ⟨⟨rfl, rfl, rfl⟩, fun _ => ⟨id, id, id⟩⟩))
  | params conn intv lat =>
    refine Or.inr (Or.inr (Or.inr ⟨?_, fun _ => ⟨id, id, id⟩⟩))
    change SameLinks k (paramUpdate k conn intv lat)
    unfold paramUpdate
    split <;> exact ⟨rfl, rfl, rfl⟩
  | read conn attr offset maxLen measured =>
    refine Or.inr (Or.inr (Or.inr ⟨?_, fun _ => ⟨id, id, id⟩⟩))
    unfold step battRead
    dsimp only
    split_ifs <;> exact ⟨rfl, rfl, rfl⟩
  | write conn attr value offset ccc =>
    refine Or.inr (Or.inr (Or.inr ⟨?_, fun _ => ⟨id, id, id⟩⟩))
    unfold step
    dsimp only
    split_ifs
    · exact sameLinks_battWrite attr value ccc
    · exact (same_writeAttr attr value offset ccc).1
  | report conn rid type data noti bonds =>
    refine Or.inr (Or.inr (Or.inr ⟨?_, fun _ => ⟨id, id, id⟩⟩))
    exact (sameLinks_report rid type data noti bonds).1
  | close => exact Or.inr (Or.inr (Or.inr ⟨⟨rfl, rfl, rfl⟩, fun _ => ⟨id, id, id⟩⟩))
  | setCritical critical ok =>
    refine Or.inr (Or.inr (Or.inr ⟨?_, fun _ => ⟨id, id, id⟩⟩))
    unfold step setCritical
    dsimp only
    split_ifs <;> exact ⟨rfl, rfl, rfl⟩
  | expire =>
    refine Or.inr (Or.inr (Or.inr ⟨?_, fun _ => ⟨id, id, id⟩⟩))
    unfold step
    dsimp only
    split_ifs <;> exact ⟨rfl, rfl, rfl⟩
  | battTurn measured ok =>
    refine Or.inr (Or.inr (Or.inr ⟨?_, fun _ => ⟨id, id, id⟩⟩))
    unfold step
    dsimp only
    split_ifs
    · have hmeas := (sameLinks_measLevel (k := { k with due := false }) measured ok).1
      exact ⟨hmeas.handles, hmeas.secure, hmeas.links⟩
    · exact ⟨rfl, rfl, rfl⟩

theorem linked_step (hk : Linked k) (he : Told k e) : Linked (step k e) := by
  rcases step_cases (k := k) e with ⟨conn, intv, lat, gapState, rfl⟩ | ⟨conn, gapState, bonds, rfl⟩ |
    ⟨conn, state, status, rfl⟩ | ⟨hsame, -⟩
  · exact linked_established hk he.1 he.2.1 he.2.2 intv lat gapState
  · exact linked_terminated hk he gapState bonds
  · obtain ⟨s, hs, hhandles, hlinks, -, hsecure⟩ := pairState_eq hk he state status
    have hno : conn ≠ noHandle := fun h => hk.handle (h ▸ he)
    change Linked (pairState k conn state status)
    constructor
    · rw [hhandles, hlinks]
      exact hk.up
    · rw [hhandles, hlinks]
      exact hk.known
    · rw [hhandles]
      exact hk.inj
    · rw [hlinks]
      exact hk.handle
    · rw [hhandles, hsecure]
      intro t ht
      dsimp only
      rw [if_neg, hk.free t ht]
      rintro ⟨rfl, -⟩
      exact hno (hs.symm.trans ht)
  · exact hsame.linked hk

theorem mem_links_step (e : Event) : h ∈ (step k e).links ↔ Rises h e ∨ h ∈ k.links ∧ ¬ Falls h e := by
  rcases step_cases (k := k) e with ⟨conn, intv, lat, gapState, rfl⟩ | ⟨conn, gapState, bonds, rfl⟩ |
    ⟨conn, state, status, rfl⟩ | ⟨hsame, hcalm⟩
  · change h ∈ k.links ++ [conn] ↔ _
    simp only [Rises, Falls, List.mem_append, List.mem_singleton, not_false_eq_true, and_true]
    exact ⟨fun h => h.symm.imp Eq.symm id, fun h => h.symm.imp id Eq.symm⟩
  · change h ∈ k.links.filter (· ≠ conn) ↔ _
    simp only [Rises, Falls, List.mem_filter, decide_eq_true_iff, false_or]
    exact and_congr_right fun _ => not_congr eq_comm
  · have hlinks : (pairState k conn state status).links = k.links := by
      unfold pairState setSecure
      split_ifs <;> first | rfl | (split <;> rfl)
    change h ∈ (pairState k conn state status).links ↔ _
    simp [Rises, Falls, hlinks]
  · rw [hsame.links]
    simp [hcalm h]

def Changes (h : UInt16) (e : Event) : Prop := Rises h e ∨ Falls h e

instance : DecidablePred (Changes h) := fun _ => inferInstanceAs (Decidable (_ ∨ _))

theorem secure_step (hk : Linked k) (he : Told k e) :
    Secure (step k e) h ↔ Pairs h e ∨ Secure k h ∧ ¬ Changes h e := by
  rcases step_cases (k := k) e with ⟨conn, intv, lat, gapState, rfl⟩ | ⟨conn, gapState, bonds, rfl⟩ |
    ⟨conn, state, status, rfl⟩ | ⟨hsame, hcalm⟩
  · obtain ⟨s, hs, hhandles, hsecure, -⟩ := established_eq hk he.1 he.2.1 he.2.2 intv lat gapState
    have hfresh : ¬ Secure k conn := by
      rintro ⟨t, ht, -⟩
      exact he.1 (ht ▸ hk.up t (ht ▸ he.2.1))
    have hchange : Changes h (.established conn intv lat gapState) ↔ conn = h := iff_of_eq (or_false _)
    rw [hchange, Secure, hhandles, hsecure]
    simp only [Pairs, false_or]
    constructor
    · rintro ⟨t, ht, hsec⟩
      split_ifs at ht hsec with hts
      refine ⟨⟨t, ht, hsec⟩, ?_⟩
      rintro rfl
      exact hfresh ⟨t, ht, hsec⟩
    · rintro ⟨⟨t, ht, hsec⟩, hne⟩
      have hts : t ≠ s := by
        rintro rfl
        rw [hk.free t hs] at hsec
        exact Bool.false_ne_true hsec
      exact ⟨t, by rwa [if_neg hts], by rwa [if_neg hts]⟩
  · obtain ⟨s, hs, hhandles, hsecure, -⟩ := terminated_eq hk he gapState bonds
    have hno : conn ≠ noHandle := fun h => hk.handle (h ▸ he)
    have hchange : Changes h (.terminated conn gapState bonds) ↔ conn = h := iff_of_eq (false_or _)
    rw [hchange, Secure, hhandles, hsecure]
    simp only [Pairs, false_or]
    constructor
    · rintro ⟨t, ht, hsec⟩
      split_ifs at ht hsec with hts
      refine ⟨⟨t, ht, hsec⟩, ?_⟩
      rintro rfl
      exact hts (hk.inj t s (ht ▸ hno) (ht.trans hs.symm))
    · rintro ⟨⟨t, ht, hsec⟩, hne⟩
      have hts : t ≠ s := by
        rintro rfl
        exact hne (hs.symm.trans ht)
      exact ⟨t, by rwa [if_neg hts], by rwa [if_neg hts]⟩
  · obtain ⟨s, hs, hhandles, hlinks, -, hsecure⟩ := pairState_eq hk he state status
    have hno : conn ≠ noHandle := fun h => hk.handle (h ▸ he)
    have hchange : ¬ Changes h (.paired conn state status) := fun h => h.elim id id
    change Secure (pairState k conn state status) h ↔ _
    rw [Secure, hhandles, hsecure]
    simp only [Pairs, hchange, not_false_eq_true, and_true]
    constructor
    · rintro ⟨t, ht, hsec⟩
      split_ifs at hsec with hp
      · exact Or.inl ⟨hs.symm.trans (hp.1 ▸ ht), hp.2⟩
      · exact Or.inr ⟨t, ht, hsec⟩
    · rintro (⟨rfl, hp⟩ | ⟨t, ht, hsec⟩)
      · exact ⟨s, hs, if_pos ⟨rfl, hp⟩⟩
      · refine ⟨t, ht, ?_⟩
        split_ifs
        · rfl
        · exact hsec
  · rw [hsame.secure_iff]
    simp [Changes, hcalm h]

end Table

section Choices

def Boots : Event → Prop
  | .write _ attr value offset _ => attr = .protocolMode ∧ value = [modeBoot] ∧ offset = 0
  | _ => False

/-- A host sets the report protocol, or some link ends. -/
def Unboots : Event → Prop
  | .write _ attr value offset _ => attr = .protocolMode ∧ value = [modeReport] ∧ offset = 0
  | .terminated _ _ _ => True
  | _ => False

/-- The host writes a client configuration, and the server takes it. -/
def Configures (h : UInt16) (c : Attr) (notify : Bool) : Event → Prop
  | .write conn attr value offset ccc =>
    conn = h ∧ attr = c ∧ (offset = 0 ∨ attr.battery = true) ∧ ccc = success ∧
      decide (charCfg value &&& 0x0001 ≠ 0) = notify
  | _ => False

def Subscribes (h : UInt16) (c : Attr) : Event → Prop := Configures h c true

def Unsubscribes (h : UInt16) (c : Attr) (e : Event) : Prop := Configures h c false e ∨ Falls h e

instance : DecidablePred Boots
  | .write _ _ _ _ _ => inferInstanceAs (Decidable (_ ∧ _ ∧ _))
  | .established .. | .terminated .. | .gapState _ | .params .. | .paired .. | .read ..
  | .report .. | .close | .setCritical .. | .expire | .battTurn .. => instDecidableFalse

instance : DecidablePred Unboots
  | .write _ _ _ _ _ => inferInstanceAs (Decidable (_ ∧ _ ∧ _))
  | .terminated .. => instDecidableTrue
  | .established .. | .gapState _ | .params .. | .paired .. | .read .. | .report .. | .close
  | .setCritical .. | .expire | .battTurn .. => instDecidableFalse

instance (c : Attr) (notify : Bool) : DecidablePred (Configures h c notify)
  | .write _ _ _ _ _ => inferInstanceAs (Decidable (_ ∧ _ ∧ (_ ∨ _) ∧ _ ∧ _))
  | .established .. | .terminated .. | .gapState _ | .params .. | .paired .. | .read ..
  | .report .. | .close | .setCritical .. | .expire | .battTurn .. => instDecidableFalse

instance (c : Attr) : DecidablePred (Subscribes h c) := fun e =>
  inferInstanceAs (Decidable (Configures h c true e))

instance (c : Attr) : DecidablePred (Unsubscribes h c) := fun _ => inferInstanceAs (Decidable (_ ∨ _))

def Modes (k : Hid n) : Prop := k.mode = modeBoot ∨ k.mode = modeReport

theorem choices_cases (e : Event) : (∃ conn attr value offset ccc, e = .write conn attr value offset ccc) ∨
    (∃ conn gapState bonds, e = .terminated conn gapState bonds) ∨
    (Told k e → Linked k → SameChoices k (step k e)) ∧ ¬ Boots e ∧ ¬ Unboots e ∧
      (∀ h c b, ¬ Configures h c b e) ∧ ∀ h, ¬ Falls h e := by
  cases e with
  | write conn attr value offset ccc => exact Or.inl ⟨_, _, _, _, _, rfl⟩
  | terminated conn gapState bonds => exact Or.inr (Or.inl ⟨_, _, _, rfl⟩)
  | established conn intv lat gapState =>
    refine Or.inr (Or.inr ⟨fun he hk => ?_, id, id, fun _ _ _ => id, fun _ => id⟩)
    obtain ⟨s, -, -, -, -, hsame⟩ := established_eq hk he.1 he.2.1 he.2.2 intv lat gapState
    exact hsame
  | paired conn state status =>
    refine Or.inr (Or.inr ⟨fun he hk => ?_, id, id, fun _ _ _ => id, fun _ => id⟩)
    obtain ⟨s, -, -, -, hsame, -⟩ := pairState_eq hk he state status
    exact hsame
  | gapState gapState =>
    exact Or.inr (Or.inr ⟨fun _ _ => ⟨rfl, rfl⟩, id, id, fun _ _ _ => id, fun _ => id⟩)
  | params conn intv lat =>
    refine Or.inr (Or.inr ⟨fun _ _ => ?_, id, id, fun _ _ _ => id, fun _ => id⟩)
    change SameChoices k (paramUpdate k conn intv lat)
    unfold paramUpdate
    split <;> exact ⟨rfl, rfl⟩
  | read conn attr offset maxLen measured =>
    refine Or.inr (Or.inr ⟨fun _ _ => ?_, id, id, fun _ _ _ => id, fun _ => id⟩)
    unfold step battRead
    dsimp only
    split_ifs <;> exact ⟨rfl, rfl⟩
  | report conn rid type data noti bonds =>
    refine Or.inr (Or.inr ⟨fun _ _ => ?_, id, id, fun _ _ _ => id, fun _ => id⟩)
    exact (sameLinks_report rid type data noti bonds).2
  | close => exact Or.inr (Or.inr ⟨fun _ _ => ⟨rfl, rfl⟩, id, id, fun _ _ _ => id, fun _ => id⟩)
  | setCritical critical ok =>
    refine Or.inr (Or.inr ⟨fun _ _ => ?_, id, id, fun _ _ _ => id, fun _ => id⟩)
    unfold step setCritical
    dsimp only
    split_ifs <;> exact ⟨rfl, rfl⟩
  | expire =>
    refine Or.inr (Or.inr ⟨fun _ _ => ?_, id, id, fun _ _ _ => id, fun _ => id⟩)
    unfold step
    dsimp only
    split_ifs <;> exact ⟨rfl, rfl⟩
  | battTurn measured ok =>
    refine Or.inr (Or.inr ⟨fun _ _ => ?_, id, id, fun _ _ _ => id, fun _ => id⟩)
    unfold step
    dsimp only
    split_ifs
    · have hmeas := (sameLinks_measLevel (k := { k with due := false }) measured ok).2
      exact ⟨hmeas.mode, hmeas.cfg⟩
    · exact ⟨rfl, rfl⟩

theorem uuid_protocolMode (a : Attr) : a.uuid = Attr.protocolMode.uuid ↔ a = .protocolMode := by
  cases a <;> decide

theorem uuid_cccd (a : Attr) :
    a.uuid = Attr.keyInCccd.uuid ↔ a = .keyInCccd ∨ a = .bootKeyInCccd ∨ a = .battCccd := by
  cases a <;> decide

section Writes

variable {conn : UInt16} {a : Attr} {value : List UInt8} {offset : ℕ} {ccc : UInt8}

theorem writeAttr_of_offset (ho : 0 < offset) : writeAttr k conn a value offset ccc = (k, attrNotLong) :=
  if_pos ho

theorem writeAttr_protocolMode : (writeAttr k conn .protocolMode value 0 ccc).1 =
    if value = [modeBoot] ∨ value = [modeReport] then { k with mode := value.headD 0 } else k := by
  unfold writeAttr
  rw [if_neg (Nat.lt_irrefl 0), if_neg (by decide), if_neg (by decide), if_neg (by decide), if_pos rfl]
  match value with
  | [] => rfl
  | [b] =>
    dsimp only
    by_cases hb : b = modeBoot ∨ b = modeReport
    · rw [if_pos hb, if_pos (by simpa using hb)]
      rfl
    · rw [if_neg hb, if_neg (by simpa using hb)]
  | b :: c :: l => simp

theorem writeAttr_cccd (ha : a.uuid = Attr.keyInCccd.uuid) :
    (writeAttr k conn a value 0 ccc).1 = if ccc = success then writeCfg k a conn value else k := by
  unfold writeAttr
  rw [ha, if_neg (Nat.lt_irrefl 0), if_neg (by decide), if_neg (by decide), if_pos rfl]

theorem writeAttr_other (ha : a ≠ .protocolMode) (hc : a.uuid ≠ Attr.keyInCccd.uuid) :
    SameChoices k (writeAttr k conn a value offset ccc).1 := by
  unfold writeAttr
  split_ifs with h1 h2 h3 h4
  · exact ⟨rfl, rfl⟩
  · split
    · exact (same_rptCbWrite _ _ _).2.1
    · exact ⟨rfl, rfl⟩
  · split <;> exact ⟨rfl, rfl⟩
  · exact absurd ((uuid_protocolMode a).mp h4) ha
  · exact ⟨rfl, rfl⟩

theorem battWrite_mode : (battWrite k conn a value ccc).1.mode = k.mode := by
  unfold battWrite
  split_ifs <;> rfl

theorem battWrite_cfg {c : Attr} (hc : c ≠ a) : (battWrite k conn a value ccc).1.cfg c = k.cfg c := by
  unfold battWrite
  split_ifs
  · exact funext fun h => if_neg fun he => hc he.1
  · rfl
  · rfl

theorem write_mode : (step k (.write conn a value offset ccc)).mode =
    if a = .protocolMode ∧ offset = 0 ∧ (value = [modeBoot] ∨ value = [modeReport]) then value.headD 0
    else k.mode := by
  change (if a.battery then (battWrite k conn a value ccc).1
    else (writeAttr k conn a value offset ccc).1).mode = _
  by_cases hbatt : a.battery = true
  · have ha : a ≠ .protocolMode := by
      rintro rfl
      exact Bool.false_ne_true hbatt
    rw [if_pos hbatt, if_neg fun h => ha h.1, battWrite_mode]
  rw [if_neg hbatt]
  by_cases ho : 0 < offset
  · rw [writeAttr_of_offset ho, if_neg fun h => ho.ne' h.2.1]
  obtain rfl : offset = 0 := Nat.eq_zero_of_not_pos ho
  by_cases ha : a = .protocolMode
  · subst ha
    rw [writeAttr_protocolMode]
    by_cases hv : value = [modeBoot] ∨ value = [modeReport]
    · rw [if_pos hv, if_pos ⟨rfl, rfl, hv⟩]
    · rw [if_neg hv, if_neg fun h => hv h.2.2]
  rw [if_neg fun h => ha h.1]
  by_cases hc : a.uuid = Attr.keyInCccd.uuid
  · rw [writeAttr_cccd hc]
    split_ifs <;> rfl
  · exact (writeAttr_other ha hc).mode

def Cccd (c : Attr) : Prop := c = .keyInCccd ∨ c = .bootKeyInCccd ∨ c = .battCccd

theorem write_cfg {c : Attr} (hc : Cccd c) (h : UInt16) :
    (step k (.write conn a value offset ccc)).cfg c h =
      if conn = h ∧ a = c ∧ (offset = 0 ∨ a.battery = true) ∧ ccc = success then charCfg value
      else k.cfg c h := by
  change (if a.battery then (battWrite k conn a value ccc).1
    else (writeAttr k conn a value offset ccc).1).cfg c h = _
  have huuid : c.uuid = Attr.keyInCccd.uuid := (uuid_cccd c).mpr hc
  have hwrite : (writeCfg k a conn value).cfg c h = if conn = h ∧ a = c then charCfg value else k.cfg c h :=
    if_congr ⟨fun h => ⟨h.2.symm, h.1.symm⟩, fun h => ⟨h.2.symm, h.1.symm⟩⟩ rfl rfl
  by_cases hbatt : a.battery = true
  · rw [if_pos hbatt]
    by_cases hac : a = c
    · subst hac
      rw [battWrite, if_pos (show a.uuid = Attr.battCccd.uuid from huuid)]
      by_cases hccc : ccc = success
      · rw [if_pos hccc]
        simpa [hccc, hbatt] using hwrite
      · rw [if_neg hccc, if_neg fun h => hccc h.2.2.2]
    · rw [battWrite_cfg (Ne.symm hac), if_neg fun h => hac h.2.1]
  rw [if_neg hbatt]
  by_cases ho : 0 < offset
  · rw [writeAttr_of_offset ho, if_neg fun h => h.2.2.1.elim ho.ne' hbatt]
  obtain rfl : offset = 0 := Nat.eq_zero_of_not_pos ho
  by_cases hcccd : a.uuid = Attr.keyInCccd.uuid
  · rw [writeAttr_cccd hcccd]
    by_cases hccc : ccc = success
    · rw [if_pos hccc]
      simpa [hccc] using hwrite
    · rw [if_neg hccc, if_neg fun h => hccc h.2.2.2]
  · have hac : a ≠ c := by
      rintro rfl
      exact hcccd huuid
    rw [if_neg fun h => hac h.2.1]
    by_cases ha : a = .protocolMode
    · subst ha
      rw [writeAttr_protocolMode]
      split_ifs <;> rfl
    · rw [(writeAttr_other ha hcccd).cfg]

end Writes

theorem modes_step (hk : Linked k) (he : Told k e) (hm : Modes k) : Modes (step k e) := by
  rcases choices_cases (k := k) e with ⟨conn, a, value, offset, ccc, rfl⟩ | ⟨conn, gapState, bonds, rfl⟩ |
    ⟨hsame, -⟩
  · rw [Modes, write_mode]
    split_ifs with hw
    · obtain ⟨-, -, rfl | rfl⟩ := hw
      · exact Or.inl rfl
      · exact Or.inr rfl
    · exact hm
  · have hno : conn ≠ noHandle := fun h => hk.handle (h ▸ he)
    exact Or.inr (linkTerminated_eq (k := k) hno bonds).2.2.1
  · rw [Modes, (hsame he hk).mode]
    exact hm

theorem boots_step (hk : Linked k) (he : Told k e) :
    (step k e).mode = modeBoot ↔ Boots e ∨ k.mode = modeBoot ∧ ¬ Unboots e := by
  rcases choices_cases (k := k) e with ⟨conn, a, value, offset, ccc, rfl⟩ | ⟨conn, gapState, bonds, rfl⟩ |
    ⟨hsame, hboots, hunboots, -⟩
  · rw [write_mode]
    change _ ↔ a = .protocolMode ∧ value = [modeBoot] ∧ offset = 0 ∨
      k.mode = modeBoot ∧ ¬ (a = .protocolMode ∧ value = [modeReport] ∧ offset = 0)
    by_cases hw : a = .protocolMode ∧ offset = 0 ∧ (value = [modeBoot] ∨ value = [modeReport])
    · rw [if_pos hw]
      obtain ⟨rfl, rfl, rfl | rfl⟩ := hw
      · exact iff_of_true rfl (Or.inl ⟨rfl, rfl, rfl⟩)
      · exact iff_of_false (by decide) fun h => h.elim (fun h => absurd h.2.1 (by decide))
          fun h => h.2 ⟨rfl, rfl, rfl⟩
    · rw [if_neg hw]
      constructor
      · exact fun h => Or.inr ⟨h, fun h => hw ⟨h.1, h.2.2, Or.inr h.2.1⟩⟩
      · rintro (h | h)
        · exact absurd ⟨h.1, h.2.2, Or.inl h.2.1⟩ hw
        · exact h.1
  · have hno : conn ≠ noHandle := fun h => hk.handle (h ▸ he)
    have hmode : (step k (.terminated conn gapState bonds)).mode = modeReport :=
      (linkTerminated_eq (k := k) hno bonds).2.2.1
    rw [hmode]
    exact iff_of_false (by decide) fun h => h.elim id fun h => h.2 trivial
  · rw [(hsame he hk).mode]
    simp [hboots, hunboots]

theorem notifies_step (hk : Linked k) (he : Told k e) {c : Attr} (hc : Cccd c) :
    notifies (step k e) c h = true ↔ Subscribes h c e ∨ notifies k c h = true ∧ ¬ Unsubscribes h c e := by
  unfold notifies
  rw [decide_eq_true_iff, decide_eq_true_iff]
  rcases choices_cases (k := k) e with ⟨conn, a, value, offset, ccc, rfl⟩ | ⟨conn, gapState, bonds, rfl⟩ |
    ⟨hsame, -, -, hcfg, hfalls⟩
  · rw [write_cfg hc]
    by_cases hw : conn = h ∧ a = c ∧ (offset = 0 ∨ a.battery = true) ∧ ccc = success
    · rw [if_pos hw]
      obtain ⟨rfl, rfl, hserved, rfl⟩ := hw
      simp [Subscribes, Unsubscribes, Configures, Falls, hserved]
    · rw [if_neg hw]
      have hnot (b : Bool) : ¬ Configures h c b (.write conn a value offset ccc) :=
        fun h => hw ⟨h.1, h.2.1, h.2.2.1, h.2.2.2.1⟩
      simp [Subscribes, Unsubscribes, hnot, Falls]
  · have hno : conn ≠ noHandle := fun h => hk.handle (h ▸ he)
    have hcfg : (step k (.terminated conn gapState bonds)).cfg c h = _ :=
      (linkTerminated_eq (k := k) hno bonds).2.2.2 c h
    rw [hcfg]
    by_cases hh : h = conn
    · rw [if_pos ⟨hh, hc⟩]
      refine iff_of_false (by decide) fun hn => hn.elim id fun hn => hn.2 (Or.inr hh.symm)
    · rw [if_neg fun h => hh h.1]
      have hfalls : ¬ Falls h (.terminated conn gapState bonds) := fun h => hh h.symm
      simp [Subscribes, Unsubscribes, Configures, hfalls]
  · rw [(hsame he hk).cfg]
    simp [Subscribes, Unsubscribes, hcfg, hfalls]

end Choices

section Links

variable {es : List Event}

def bootHost : List Event :=
  [.established 1 24 0 4, .paired 1 pairingBonded success, .write 1 .keyInCccd [1, 0] 0 success,
   .write 1 .protocolMode [modeBoot] 0 success, .write 1 .bootKeyInCccd [1, 0] 0 success,
   .report 1 0 typeInput [4] success 1, .established 2 24 0 4, .report 2 0 typeInput [5] success 1,
   .terminated 2 4 1, .report 1 0 typeInput [6] success 1]

/-- The table says of each link whether it is up, and whether its host paired since it came up. -/
theorem link_secure_iff (hes : Run.Along step Told (hidDevInit n) es) (hh : h ≠ noHandle) :
    ((slotOf (Run.final step (hidDevInit n) es) h).isSome = true ↔ Since (Rises h) (Falls h) es) ∧
      (connSecure (Run.final step (hidDevInit n) es) h = true ↔ Since (Pairs h) (Changes h) es) := by
  have hinv (k : Hid n) (e : Event) : Linked k → Told k e → Linked (step k e) := linked_step
  have hlinked := (Run.always_of_along hinv linked_hidDevInit hes).final
  constructor
  · rw [← Past.iff_since (fun k => h ∈ k.links) hinv (fun _ e _ _ => mem_links_step e) linked_hidDevInit
      List.not_mem_nil hes, Option.isSome_iff_exists]
    constructor
    · rintro ⟨s, hs⟩
      have hhandle := handles_of_slotOf hs
      exact hhandle ▸ hlinked.up s (hhandle ▸ hh)
    · intro hmem
      obtain ⟨s, hs⟩ := hlinked.known h hmem
      exact ⟨s, slotOf_eq hlinked hs hh⟩
  · rw [connSecure_iff hlinked]
    refine Past.iff_since (fun k => Secure k h) hinv (fun _ _ => secure_step) linked_hidDevInit ?_ hes
    rintro ⟨s, -, hs⟩
    exact Bool.false_ne_true hs

theorem boot_host_known : (slotOf (Run.final step (hidDevInit 3) bootHost) 1).isSome = true ∧
    connSecure (Run.final step (hidDevInit 3) bootHost) 1 = true := by
  have hknown := link_secure_iff (h := 1) (show Run.Along step Told (hidDevInit 3) bootHost by decide)
    (by decide)
  exact ⟨hknown.1.mpr (by decide), hknown.2.mpr (by decide)⟩

/-- The protocol mode after the events. -/
def modeOf (past : List Event) : UInt8 := if Since Boots Unboots past then modeBoot else modeReport

/-- What goes out: the host of the link paired since it came up, and it asked for the characteristic of
the protocol mode. -/
def justified (past : List Event) : Event → List Noti
  | .report conn id type data noti _ =>
    match rptById id type (modeOf past) with
    | some ⟨some attr, some c, _, _, _⟩ =>
      if Since (Pairs conn) (Changes conn) past ∧ Since (Subscribes conn c) (Unsubscribes conn c) past ∧
          noti = success then [⟨conn, attr, data⟩]
      else []
    | _ => []
  | _ => []

/-- What goes out in a run. -/
def reports : List Event → List Event → List Noti
  | _, [] => []
  | past, e :: es => justified past e ++ reports (past ++ [e]) es

theorem sent_measLevel (measured : UInt8) (ok : UInt16 → Bool) :
    (measLevel k measured ok).sent = k.sent := by
  unfold measLevel
  split_ifs <;> rfl

theorem sent_step (e : Event) : (∃ conn id type data noti bonds, e = .report conn id type data noti bonds) ∨
    (step k e).sent = k.sent ∧ ∀ past, justified past e = [] := by
  cases e with
  | report conn id type data noti bonds => exact Or.inl ⟨_, _, _, _, _, _, rfl⟩
  | established conn intv lat gapState =>
    exact Or.inr ⟨(news_linkEstablished (k := k) intv lat).sent, fun _ => rfl⟩
  | terminated conn gapState bonds => exact Or.inr ⟨(news_linkTerminated (k := k) bonds).sent, fun _ => rfl⟩
  | paired conn state status => exact Or.inr ⟨(news_pairState state status).sent, fun _ => rfl⟩
  | gapState gapState => exact Or.inr ⟨rfl, fun _ => rfl⟩
  | params conn intv lat => exact Or.inr ⟨(news_paramUpdate intv lat).sent, fun _ => rfl⟩
  | read conn attr offset maxLen measured =>
    refine Or.inr ⟨?_, fun _ => rfl⟩
    unfold step battRead
    dsimp only
    split_ifs <;> rfl
  | write conn attr value offset ccc =>
    refine Or.inr ⟨?_, fun _ => rfl⟩
    unfold step
    dsimp only
    split_ifs
    · unfold battWrite
      split_ifs <;> rfl
    · exact (same_writeAttr attr value offset ccc).2.sent
  | close => exact Or.inr ⟨rfl, fun _ => rfl⟩
  | setCritical critical ok =>
    refine Or.inr ⟨?_, fun _ => rfl⟩
    unfold step setCritical
    dsimp only
    split_ifs <;> rfl
  | expire =>
    refine Or.inr ⟨?_, fun _ => rfl⟩
    unfold step
    dsimp only
    split_ifs <;> rfl
  | battTurn measured ok =>
    refine Or.inr ⟨?_, fun _ => rfl⟩
    unfold step
    dsimp only
    split_ifs
    · exact sent_measLevel measured ok
    · rfl

theorem sent_sendReport (conn : UInt16) (id type : UInt8) (data : List UInt8) (noti : UInt8) :
    (sendReport k conn id type data noti).1.sent = k.sent ++
      match rptById id type k.mode with
      | some ⟨some attr, some c, _, _, _⟩ =>
        if notifies k c conn = true ∧ noti = success then [⟨conn, attr, data⟩] else []
      | _ => [] := by
  unfold sendReport
  generalize rptById id type k.mode = r
  rcases r with _ | ⟨_ | attr, _ | c, _, _, _⟩
  · exact (List.append_nil _).symm
  · exact (List.append_nil _).symm
  · exact (List.append_nil _).symm
  · exact (List.append_nil _).symm
  dsimp only
  by_cases hnotify : notifies k c conn = true
  · rw [if_pos hnotify, sendNoti]
    by_cases hnoti : noti = success
    · rw [if_pos hnoti, if_pos ⟨hnotify, hnoti⟩]
    · rw [if_neg hnoti, if_neg fun h => hnoti h.2, List.append_nil]
  · rw [if_neg hnotify, if_neg fun h => hnotify h.1, List.append_nil]

/-- The table and the choices say what the past says. -/
structure Reads (k : Hid n) (past : List Event) : Prop where
  secure : ∀ h, connSecure k h = true ↔ Since (Pairs h) (Changes h) past
  mode : k.mode = modeOf past
  notifies : ∀ h c, Cccd c → (notifies k c h = true ↔ Since (Subscribes h c) (Unsubscribes h c) past)

theorem cccd_of_rptById {id type mode : UInt8} {attr c : Attr} {i t m : UInt8}
    (hr : rptById id type mode = some ⟨some attr, some c, i, t, m⟩) : Cccd c := by
  have hall : ∀ p ∈ hidRptMap, ∀ c, p.cccd = some c → Cccd c := by
    simp [hidRptMap, Cccd]
  exact hall _ (List.mem_of_find?_eq_some hr) c rfl

theorem reads_run {past : List Event} (hpast : Run.Along step Told (hidDevInit n) past) :
    Reads (Run.final step (hidDevInit n) past) past := by
  have hinv (k : Hid n) (e : Event) : Linked k ∧ Modes k → Told k e → Linked (step k e) ∧ Modes (step k e) :=
    fun h he => ⟨linked_step h.1 he, modes_step h.1 he h.2⟩
  have hinit : Linked (hidDevInit n) ∧ Modes (hidDevInit n) := ⟨linked_hidDevInit, Or.inr rfl⟩
  have hfinal := (Run.always_of_along hinv hinit hpast).final
  refine ⟨fun h => ?_, ?_, fun h c hc => ?_⟩
  · rw [connSecure_iff hfinal.1]
    refine Past.iff_since (fun k => Secure k h) hinv (fun _ _ hk => secure_step hk.1) hinit ?_ hpast
    rintro ⟨s, -, hs⟩
    exact Bool.false_ne_true hs
  · have hboot := Past.iff_since (fun k : Hid n => k.mode = modeBoot) hinv (fun _ _ hk => boots_step hk.1)
      hinit (show ¬ modeReport = modeBoot by decide) hpast
    unfold modeOf
    split_ifs with hs
    · exact hboot.mpr hs
    · exact hfinal.2.resolve_left fun hm => hs (hboot.mp hm)
  · have hnone : ¬ notifies (hidDevInit n) c h = true := (by decide : ¬ decide ((0 : UInt16) &&& 1 ≠ 0) = true)
    exact Past.iff_since (fun k : Hid n => notifies k c h = true) hinv
      (fun _ _ hk he => notifies_step hk.1 he hc) hinit hnone hpast

theorem sent_report {past : List Event} (hr : Reads k past) (conn : UInt16) (id type : UInt8)
    (data : List UInt8) (noti bonds : UInt8) :
    (step k (.report conn id type data noti bonds)).sent =
      k.sent ++ justified past (.report conn id type data noti bonds) := by
  change (report k conn id type data noti bonds).1.sent = _
  unfold report justified
  dsimp only
  by_cases hsecure : connSecure k conn = true
  · rw [if_pos hsecure, sent_sendReport, hr.mode]
    cases hrpt : rptById id type (modeOf past) with
    | none => rfl
    | some p =>
      rcases p with ⟨_ | attr, _ | c, _, _, _⟩
      · rfl
      · rfl
      · rfl
      · have hnotify := hr.notifies conn c (cccd_of_rptById hrpt)
        have hpaired := (hr.secure conn).mp hsecure
        exact congrArg (k.sent ++ ·) (if_congr (by simp [hnotify, hpaired]) rfl rfl)
  · have hpaired : ¬ Since (Pairs conn) (Changes conn) past := fun h => hsecure ((hr.secure conn).mpr h)
    have hnil : (match rptById id type (modeOf past) with
        | some ⟨some attr, some c, _, _, _⟩ =>
          if Since (Pairs conn) (Changes conn) past ∧ Since (Subscribes conn c) (Unsubscribes conn c) past ∧
            noti = success then [⟨conn, attr, data⟩]
          else []
        | _ => ([] : List Noti)) = [] := by
      split
      · exact if_neg fun h => hpaired h.1
      · rfl
    rw [if_neg hsecure, hnil, List.append_nil]
    split_ifs <;> rfl

theorem sent_run (past es : List Event)
    (hes : Run.Along step Told (hidDevInit n) (past ++ es)) :
    (Run.final step (hidDevInit n) (past ++ es)).sent =
      (Run.final step (hidDevInit n) past).sent ++ reports past es := by
  induction es generalizing past with
  | nil => rw [List.append_nil, reports, List.append_nil]
  | cons e es ih =>
    have happend : past ++ e :: es = (past ++ [e]) ++ es := by simp
    have hpast := (Run.along_append.mp hes).1
    rw [happend] at hes ⊢
    rw [ih _ hes, reports, ← List.append_assoc, Run.final_append]
    congr 1
    change (step (Run.final step (hidDevInit n) past) e).sent = _
    rcases sent_step (k := Run.final step (hidDevInit n) past) e with
      ⟨conn, id, type, data, noti, bonds, rfl⟩ | ⟨hsame, hnone⟩
    · exact sent_report (reads_run hpast) conn id type data noti bonds
    · rw [hsame, hnone past, List.append_nil]

/-- In every run the hosts get exactly the reports that their past justifies. -/
theorem reports_justified {es : List Event} (hes : Run.Along step Told (hidDevInit n) es) :
    (Run.final step (hidDevInit n) es).sent = reports [] es :=
  sent_run [] es hes

/-- The host gets boot keys until the link of the other host ends. -/
theorem boot_host_falls_back : (Run.final step (hidDevInit 3) bootHost).sent =
    [⟨1, .bootKeyIn, [4]⟩, ⟨1, .keyIn, [6]⟩] := by
  rw [reports_justified (show Run.Along step Told (hidDevInit 3) bootHost by decide)]
  decide

end Links

end AtNode.HidDev
