import AtNode.Ch582.Dongle
import AtNode.Lib.Run
import Mathlib.Data.List.TakeWhile

/-!
# The scan list of the CH582 dongle

During a scan the list is filled from two kinds of report. `dgl_add_scan_rec` merges a report into
the entry with its address, with the new RSSI and in its old place, or inserts a new entry by RSSI
and drops the last one of a full list. A directed advertisement is appended.

The list stays in order exactly as long as no merge and no append breaks the order, and then only
the weakest entry is dropped, for a stronger one.
-/

namespace AtNode.Central

open Run

/-- A report of the stack during a scan; a scan response is a `device` report as well. -/
inductive ScanReport where
  | device (info : DeviceInfo)
  | direct (addr : Addr) (addrType : UInt8) (rssi : Int8)

def ScanReport.event : ScanReport → Event
  | .device info => .deviceInfo info
  | .direct addr addrType rssi => .directDeviceInfo addr addrType rssi

def ScanReport.rssi : ScanReport → Int8
  | .device info => info.rssi
  | .direct _ _ rssi => rssi

def ScanReport.addr : ScanReport → Addr
  | .device info => info.addr
  | .direct addr _ _ => addr

def report (o : Build) (d : Dongle) (r : ScanReport) : Dongle := step o d r.event

/-- A scan begins with an empty list. -/
def scanStart (d : Dongle) : Dongle := { d with scanList := [], state := .scanning }

structure ScanOk (list : List ScanRec) : Prop where
  length_le : list.length ≤ dglMaxScanRes
  distinct : list.Pairwise fun r q => r.addr ≠ q.addr
  sorted : list.Pairwise fun r q => q.rssi ≤ r.rssi

/-- An entry is dropped only for a stronger one, and only as the weakest. -/
def EvictsWeakest (o : Build) (d : Dongle) (r : ScanReport) : Prop :=
  ∀ x ∈ d.scanList, (∀ y ∈ (report o d r).scanList, y.addr ≠ x.addr) →
    x.rssi < r.rssi ∧ ∀ y ∈ d.scanList, x.rssi ≤ y.rssi

/-- The report gets past the filters of `dgl_add_scan_rec`. -/
def Listed (d : Dongle) (info : DeviceInfo) : Prop :=
  d.state = .scanning ∧ ¬ (info.isHid = false ∧ info.name = []) ∧ passesFilter d.filter info = true

def Appended (d : Dongle) (addr : Addr) : Prop :=
  d.state = .scanning ∧ d.scanList.length < dglMaxScanRes ∧ ∀ r ∈ d.scanList, r.addr ≠ addr

/-- The new RSSI of a listed device lies between those of its neighbours, and an appended device is
no stronger than those before it. -/
def KeepsOrder (d : Dongle) : ScanReport → Prop
  | .device info => Listed d info → ∀ l₁ x l₂, d.scanList = l₁ ++ x :: l₂ → x.addr = info.addr →
      (∀ q ∈ l₁, info.rssi ≤ q.rssi) ∧ ∀ q ∈ l₂, q.rssi ≤ info.rssi
  | .direct addr _ rssi => Appended d addr → ∀ q ∈ d.scanList, rssi ≤ q.rssi

section Updates

variable {list : List ScanRec} {info : DeviceInfo}

theorem modify_split {i : ℕ} (h : list.findIdx? (sameAddr info) = some i) :
    ∃ l₁ x l₂, list = l₁ ++ x :: l₂ ∧ x.addr = info.addr ∧
      list.modify i (merge info) = l₁ ++ merge info x :: l₂ := by
  induction list generalizing i with
  | nil => simp at h
  | cons y list ih =>
    rw [List.findIdx?_cons] at h
    by_cases hy : sameAddr info y = true
    · rw [if_pos hy, Option.some.injEq] at h
      subst h
      exact ⟨[], y, list, rfl, (by simpa [sameAddr] using hy : info.addr = y.addr).symm, rfl⟩
    · rw [if_neg hy, Option.map_eq_some_iff] at h
      obtain ⟨j, hj, rfl⟩ := h
      obtain ⟨l₁, x, l₂, rfl, hx, hm⟩ := ih hj
      exact ⟨y :: l₁, x, l₂, rfl, hx, congrArg (y :: ·) hm⟩

theorem not_listed_of_findIdx? (h : list.findIdx? (sameAddr info) = none) :
    ∀ x ∈ list, x.addr ≠ info.addr := by
  intro x hx he
  have hno := List.findIdx?_eq_none_iff.mp h x hx
  simp [sameAddr, he] at hno

/-- The entry goes behind those that are at least as strong. -/
theorem insert_split (list : List ScanRec) (info : DeviceInfo) :
    ∃ l₁ l₂, list = l₁ ++ l₂ ∧ (∀ q ∈ l₁, info.rssi ≤ q.rssi) ∧
      (∀ q ∈ l₂.head?, q.rssi < info.rssi) ∧
      insertRec list info =
        (l₁ ++ ⟨info.addr, info.addrType, info.rssi, info.name⟩ :: l₂).take dglMaxScanRes := by
  refine ⟨list.takeWhile fun r => info.rssi ≤ r.rssi, list.dropWhile fun r => info.rssi ≤ r.rssi,
    (List.takeWhile_append_dropWhile ..).symm, ?_, ?_, ?_⟩
  · intro q hq
    simpa using List.mem_takeWhile_imp hq
  · intro q hq
    have hhead := List.head?_dropWhile_not (fun r : ScanRec => decide (info.rssi ≤ r.rssi)) list
    rw [Option.mem_def.mp hq] at hhead
    exact Int8.not_le.mp (by simpa using hhead)
  · rw [insertRec, scanPos]
    congr 1
    induction list with
    | nil => rfl
    | cons y list ih =>
      by_cases hy : info.rssi ≤ y.rssi
      · simpa [hy] using ih
      · simp [hy]

end Updates

section Step

variable {o : Build} {d : Dongle} {info : DeviceInfo}

/-- A full list whose last entry is at least as strong takes no new device. -/
def Refuses (d : Dongle) (info : DeviceInfo) : Prop :=
  dglMaxScanRes ≤ d.scanList.length ∧ ∃ r ∈ d.scanList.getLast?, info.rssi ≤ r.rssi

theorem scanList_device (o : Build) (d : Dongle) (info : DeviceInfo) :
    (¬ Listed d info ∧ (report o d (.device info)).scanList = d.scanList) ∨
    (Listed d info ∧ ∃ l₁ x l₂, d.scanList = l₁ ++ x :: l₂ ∧ x.addr = info.addr ∧
      (report o d (.device info)).scanList = l₁ ++ merge info x :: l₂) ∨
    (Listed d info ∧ (∀ x ∈ d.scanList, x.addr ≠ info.addr) ∧ Refuses d info ∧
      (report o d (.device info)).scanList = d.scanList) ∨
    (Listed d info ∧ (∀ x ∈ d.scanList, x.addr ≠ info.addr) ∧ ¬ Refuses d info ∧
      (report o d (.device info)).scanList = insertRec d.scanList info) := by
  by_cases hs : d.state = .scanning
  case neg => exact Or.inl ⟨fun h => hs h.1, by simp [report, ScanReport.event, step, hs]⟩
  by_cases hn : info.isHid = false ∧ info.name = []
  case pos => exact Or.inl ⟨fun h => h.2.1 hn, by
    simp [report, ScanReport.event, step, hs, dglAddScanRec, hn]⟩
  by_cases hf : passesFilter d.filter info = true
  case neg => exact Or.inl ⟨fun h => hf h.2.2, by
    simp [report, ScanReport.event, step, hs, dglAddScanRec, hn, hf]⟩
  have hl : Listed d info := ⟨hs, hn, hf⟩
  refine Or.inr ?_
  cases hi : d.scanList.findIdx? (sameAddr info) with
  | some i =>
    obtain ⟨l₁, x, l₂, hsplit, hx, hm⟩ := modify_split hi
    refine Or.inl ⟨hl, l₁, x, l₂, hsplit, hx, ?_⟩
    simp [report, ScanReport.event, step, hs, dglAddScanRec, hn, hf, hi, hm]
  | none =>
    refine Or.inr ?_
    by_cases hr : Refuses d info
    · refine Or.inl ⟨hl, not_listed_of_findIdx? hi, hr, ?_⟩
      have hr' := hr
      unfold Refuses at hr'
      simp only [report, ScanReport.event, step, hs, if_true, dglAddScanRec, hn, if_false, hf, hi,
        if_pos hr', Bool.true_eq_false]
    · refine Or.inr ⟨hl, not_listed_of_findIdx? hi, hr, ?_⟩
      have hr' := hr
      unfold Refuses at hr'
      simp only [report, ScanReport.event, step, hs, if_true, dglAddScanRec, hn, if_false, hf, hi,
        if_neg hr', Bool.true_eq_false]
      split <;> rfl

theorem scanList_direct (o : Build) (d : Dongle) (addr : Addr) (addrType : UInt8) (rssi : Int8) :
    (¬ Appended d addr ∧ (report o d (.direct addr addrType rssi)).scanList = d.scanList) ∨
    (Appended d addr ∧
      (report o d (.direct addr addrType rssi)).scanList =
        d.scanList ++ [⟨addr, addrType, rssi, []⟩]) := by
  by_cases h : d.state = .scanning ∧ d.scanList.length < dglMaxScanRes ∧
      ∀ r ∈ d.scanList, r.addr ≠ addr
  · refine Or.inr ⟨h, ?_⟩
    simp only [report, ScanReport.event, step, directDeviceInfo, if_pos h]
  · refine Or.inl ⟨h, ?_⟩
    simp only [report, ScanReport.event, step, directDeviceInfo, if_neg h]

end Step

section Invariant

variable {o : Build} {d : Dongle} {list : List ScanRec} {info : DeviceInfo}

@[simp] theorem merge_addr (info : DeviceInfo) (x : ScanRec) : (merge info x).addr = x.addr := rfl

@[simp] theorem merge_rssi (info : DeviceInfo) (x : ScanRec) : (merge info x).rssi = info.rssi := rfl

theorem scanOk_merge {l₁ l₂ : List ScanRec} {x : ScanRec} (h : ScanOk (l₁ ++ x :: l₂)) :
    ScanOk (l₁ ++ merge info x :: l₂) ↔
      (∀ q ∈ l₁, info.rssi ≤ q.rssi) ∧ ∀ q ∈ l₂, q.rssi ≤ info.rssi := by
  have hd := h.distinct
  have hs := h.sorted
  have hlen := h.length_le
  rw [List.pairwise_append, List.pairwise_cons] at hd hs
  constructor
  · intro h'
    have hs' := h'.sorted
    rw [List.pairwise_append, List.pairwise_cons] at hs'
    exact ⟨fun q hq => hs'.2.2 q hq _ List.mem_cons_self, hs'.2.1.1⟩
  · rintro ⟨hl, hr⟩
    constructor
    · simpa using hlen
    · rw [List.pairwise_append, List.pairwise_cons]
      refine ⟨hd.1, ⟨hd.2.1.1, hd.2.1.2⟩, ?_⟩
      intro q hq y hy
      rcases List.mem_cons.mp hy with rfl | hy
      · exact hd.2.2 q hq x List.mem_cons_self
      · exact hd.2.2 q hq y (List.mem_cons_of_mem x hy)
    · rw [List.pairwise_append, List.pairwise_cons]
      refine ⟨hs.1, ⟨hr, hs.2.1.2⟩, ?_⟩
      intro q hq y hy
      rcases List.mem_cons.mp hy with rfl | hy
      · exact hl q hq
      · exact hs.2.2 q hq y (List.mem_cons_of_mem x hy)

theorem scanOk_insert (h : ScanOk list) (hnew : ∀ x ∈ list, x.addr ≠ info.addr) :
    ScanOk (insertRec list info) := by
  obtain ⟨l₁, l₂, rfl, hl₁, hl₂, hins⟩ := insert_split list info
  have hd := List.pairwise_append.mp h.distinct
  have hs := List.pairwise_append.mp h.sorted
  have hweak : ∀ q ∈ l₂, q.rssi ≤ info.rssi := by
    intro q hq
    cases l₂ with
    | nil => simp at hq
    | cons y l₂ =>
      have hy : y.rssi < info.rssi := hl₂ y rfl
      rcases List.mem_cons.mp hq with rfl | hq
      · exact Int8.le_of_lt hy
      · exact Int8.le_trans ((List.pairwise_cons.mp hs.2.1).1 q hq) (Int8.le_of_lt hy)
  rw [hins]
  constructor
  · exact List.length_take_le _ _
  · apply List.Pairwise.sublist (List.take_sublist _ _)
    rw [List.pairwise_append, List.pairwise_cons]
    refine ⟨hd.1, ⟨fun y hy => (hnew y (List.mem_append_right _ hy)).symm, hd.2.1⟩, ?_⟩
    intro q hq y hy
    rcases List.mem_cons.mp hy with rfl | hy
    · exact hnew q (List.mem_append_left _ hq)
    · exact hd.2.2 q hq y hy
  · apply List.Pairwise.sublist (List.take_sublist _ _)
    rw [List.pairwise_append, List.pairwise_cons]
    refine ⟨hs.1, ⟨hweak, hs.2.1⟩, ?_⟩
    intro q hq y hy
    rcases List.mem_cons.mp hy with rfl | hy
    · exact hl₁ q hq
    · exact hs.2.2 q hq y hy

theorem scanOk_append (h : ScanOk list) {addr : Addr} {addrType : UInt8} {rssi : Int8}
    (hlen : list.length < dglMaxScanRes) (hnew : ∀ r ∈ list, r.addr ≠ addr) :
    ScanOk (list ++ [⟨addr, addrType, rssi, []⟩]) ↔ ∀ q ∈ list, rssi ≤ q.rssi := by
  constructor
  · intro h' q hq
    exact (List.pairwise_append.mp h'.sorted).2.2 q hq _ List.mem_cons_self
  · intro hweak
    constructor
    · rw [List.length_append, List.length_singleton]
      omega
    · refine List.pairwise_append.mpr ⟨h.distinct, List.pairwise_singleton _ _, ?_⟩
      intro q hq y hy
      rw [List.mem_singleton.mp hy]
      exact hnew q hq
    · refine List.pairwise_append.mpr ⟨h.sorted, List.pairwise_singleton _ _, ?_⟩
      intro q hq y hy
      rw [List.mem_singleton.mp hy]
      exact hweak q hq

theorem split_unique {l₁ l₂ m₁ m₂ : List ScanRec} {x y : ScanRec}
    (h : (l₁ ++ x :: l₂).Pairwise fun r q => r.addr ≠ q.addr)
    (he : l₁ ++ x :: l₂ = m₁ ++ y :: m₂) (hxy : x.addr = y.addr) : l₁ = m₁ ∧ x = y ∧ l₂ = m₂ := by
  induction l₁ generalizing m₁ with
  | nil =>
    cases m₁ with
    | nil => simpa using he
    | cons z m₁ =>
      obtain ⟨rfl, rfl⟩ : x = z ∧ l₂ = m₁ ++ y :: m₂ := by simpa using he
      have hy := (List.pairwise_cons.mp h).1 y (by simp)
      exact absurd hxy hy
  | cons z l₁ ih =>
    cases m₁ with
    | nil =>
      obtain ⟨rfl, rfl⟩ : z = y ∧ l₁ ++ x :: l₂ = m₂ := by simpa using he
      have hx := (List.pairwise_cons.mp h).1 x (by simp)
      exact absurd hxy.symm hx
    | cons w m₁ =>
      obtain ⟨rfl, htail⟩ : z = w ∧ l₁ ++ x :: l₂ = m₁ ++ y :: m₂ := by simpa using he
      obtain ⟨rfl, hrest⟩ := ih (List.pairwise_cons.mp h).2 htail
      exact ⟨rfl, hrest⟩

theorem scanOk_report (h : ScanOk d.scanList) (r : ScanReport) :
    ScanOk (report o d r).scanList ↔ KeepsOrder d r := by
  cases r with
  | device info =>
    rcases scanList_device o d info with ⟨hl, he⟩ | ⟨hl, l₁, x, l₂, hsplit, hx, he⟩ |
      ⟨hl, hnew, hr, he⟩ | ⟨hl, hnew, hr, he⟩
    · rw [he]
      exact ⟨fun _ hl' => absurd hl' hl, fun _ => h⟩
    · rw [he, scanOk_merge (hsplit ▸ h)]
      constructor
      · rintro hfit - m₁ y m₂ hsplit' hy
        obtain ⟨rfl, rfl, rfl⟩ := split_unique (hsplit ▸ h.distinct) (hsplit.symm.trans hsplit')
          (hx.trans hy.symm)
        exact hfit
      · intro hk
        exact hk hl l₁ x l₂ hsplit hx
    · rw [he]
      refine ⟨fun _ _ l₁ x l₂ hsplit hx => ?_, fun _ => h⟩
      exact absurd hx (hnew x (hsplit ▸ by simp))
    · rw [he]
      refine ⟨fun _ _ l₁ x l₂ hsplit hx => ?_, fun _ => scanOk_insert h hnew⟩
      exact absurd hx (hnew x (hsplit ▸ by simp))
  | direct addr addrType rssi =>
    rcases scanList_direct o d addr addrType rssi with ⟨hl, he⟩ | ⟨hl, he⟩
    · rw [he]
      exact ⟨fun _ hl' => absurd hl' hl, fun _ => h⟩
    · rw [he, scanOk_append h hl.2.1 hl.2.2]
      exact ⟨fun hw _ => hw, fun hk => hk hl⟩

/-- A new device drops the last entry of a full list, and no other. -/
theorem insert_full {init : List ScanRec} {y : ScanRec}
    (hlen : (init ++ [y]).length = dglMaxScanRes) (hy : y.rssi < info.rssi) {x : ScanRec}
    (hx : x ∈ init) : x ∈ insertRec (init ++ [y]) info := by
  obtain ⟨l₁, l₂, hsplit, hl₁, -, hins⟩ := insert_split (init ++ [y]) info
  obtain ⟨t, rfl⟩ : ∃ t, l₂ = t ++ [y] := by
    rcases List.eq_nil_or_concat' l₂ with rfl | ⟨t, z, rfl⟩
    · have hmem : y ∈ l₁ := by
        rw [List.append_nil] at hsplit
        rw [← hsplit]
        simp
      exact absurd (hl₁ y hmem) (Int8.not_le.mpr hy)
    · rw [← List.append_assoc] at hsplit
      exact ⟨t, by rw [(List.append_inj_right' hsplit rfl)]⟩
  rw [← List.append_assoc] at hsplit
  obtain rfl := List.append_cancel_right hsplit
  rw [hins, ← List.cons_append, ← List.append_assoc, List.take_left']
  · rcases List.mem_append.mp hx with hx | hx
    · exact List.mem_append_left _ hx
    · exact List.mem_append_right _ (List.mem_cons_of_mem _ hx)
  · simp only [List.length_append, List.length_cons] at hlen ⊢
    omega

theorem mem_insert_room (hlen : list.length < dglMaxScanRes) {x : ScanRec} (hx : x ∈ list) :
    x ∈ insertRec list info := by
  obtain ⟨l₁, l₂, rfl, -, -, hins⟩ := insert_split list info
  rw [hins, List.take_of_length_le]
  · rcases List.mem_append.mp hx with hx | hx
    · exact List.mem_append_left _ hx
    · exact List.mem_append_right _ (List.mem_cons_of_mem _ hx)
  · simp only [List.length_append, List.length_cons] at hlen ⊢
    omega

/-- From a list in order only the weakest entry is dropped. -/
theorem evicts_insert (h : ScanOk list) (hr : ¬ ∃ r ∈ list.getLast?, info.rssi ≤ r.rssi)
    (hfull : list.length = dglMaxScanRes) {x : ScanRec} (hx : x ∈ list)
    (hgone : x ∉ insertRec list info) : x.rssi < info.rssi ∧ ∀ y ∈ list, x.rssi ≤ y.rssi := by
  rcases List.eq_nil_or_concat' list with rfl | ⟨init, y, rfl⟩
  · simp at hx
  · have hy : y.rssi < info.rssi := by
      by_contra hle
      exact hr ⟨y, List.getLast?_concat, Int8.not_lt.mp hle⟩
    obtain rfl : x = y := by
      rcases List.mem_append.mp hx with hx | hx
      · exact absurd (insert_full hfull hy hx) hgone
      · exact List.mem_singleton.mp hx
    refine ⟨hy, fun q hq => ?_⟩
    rcases List.mem_append.mp hq with hq | hq
    · exact (List.pairwise_append.mp h.sorted).2.2 q hq x List.mem_cons_self
    · rw [List.mem_singleton.mp hq]
      exact Int8.le_refl _

theorem evictsWeakest_report (h : ScanOk d.scanList) (r : ScanReport) : EvictsWeakest o d r := by
  intro x hx hgone
  cases r with
  | device info =>
    rcases scanList_device o d info with ⟨-, he⟩ | ⟨-, l₁, z, l₂, hsplit, -, he⟩ |
      ⟨-, -, -, he⟩ | ⟨-, -, hr, he⟩
    · exact absurd rfl (hgone x (he ▸ hx))
    · rw [he] at hgone
      rw [hsplit] at hx
      rcases List.mem_append.mp hx with hx | hx
      · exact absurd rfl (hgone x (List.mem_append_left _ hx))
      · rcases List.mem_cons.mp hx with rfl | hx
        · exact absurd (merge_addr info x) (hgone _ (by simp))
        · exact absurd rfl (hgone x (by simp [hx]))
    · exact absurd rfl (hgone x (he ▸ hx))
    · have hout : x ∉ insertRec d.scanList info := fun hin => hgone x (he ▸ hin) rfl
      have hfull : d.scanList.length = dglMaxScanRes := by
        apply le_antisymm h.length_le
        by_contra hlt
        exact hout (mem_insert_room (by omega) hx)
      exact evicts_insert h (fun hlast => hr ⟨hfull.ge, hlast⟩) hfull hx hout
  | direct addr addrType rssi =>
    rcases scanList_direct o d addr addrType rssi with ⟨-, he⟩ | ⟨-, he⟩
    · exact absurd rfl (hgone x (he ▸ hx))
    · exact absurd rfl (hgone x (he ▸ List.mem_append_left _ hx))

end Invariant

theorem scanOk_start (d : Dongle) : ScanOk (scanStart d).scanList :=
  ⟨Nat.zero_le _, List.Pairwise.nil, List.Pairwise.nil⟩

/-- In the scan the list is in order throughout, and only its weakest entry makes room, exactly when
each report keeps the order. -/
theorem scan_list_iff (o : Build) (d : Dongle) (rs : List ScanReport) :
    Always (report o) (fun d => ScanOk d.scanList) (scanStart d) rs ∧
        Along (report o) (EvictsWeakest o) (scanStart d) rs ↔
      Along (report o) KeepsOrder (scanStart d) rs := by
  have hiff : Always (report o) (fun d => ScanOk d.scanList) (scanStart d) rs ↔
      Along (report o) KeepsOrder (scanStart d) rs :=
    always_iff_along (I := fun d : Dongle => ScanOk d.scanList) (fun _ h => h)
      (fun d r h hk => (scanOk_report h r).mpr hk)
      (fun d r h hk hok => hk ((scanOk_report h r).mp hok)) (scanOk_start d)
  constructor
  · intro h
    exact hiff.mp h.1
  · intro h
    refine ⟨hiff.mpr h, ?_⟩
    exact along_of_inv (fun d r hok hk => (scanOk_report hok r).mpr hk)
      (fun d r hok _ => evictsWeakest_report hok r) (scanOk_start d) h

def nearAddr : Addr := fun _ => 1

def farAddr : Addr := fun _ => 2

/-- The nearer device is reported first and then fades: it stays at index 0. -/
def fading : List ScanReport :=
  [.device ⟨nearAddr, 0, -40, true, []⟩, .device ⟨farAddr, 0, -60, true, []⟩,
    .device ⟨nearAddr, 0, -90, true, []⟩]

theorem fading_breaks_order :
    ((final (report ⟨true, true⟩) (scanStart (boot ⟨true, true⟩)) fading).scanList.map
        fun r => r.rssi) = [-90, -60] ∧
      ¬ Always (report ⟨true, true⟩) (fun d => ScanOk d.scanList)
        (scanStart (boot ⟨true, true⟩)) fading := by
  have hlist : (final (report ⟨true, true⟩) (scanStart (boot ⟨true, true⟩)) fading).scanList =
      [⟨nearAddr, 0, -90, []⟩, ⟨farAddr, 0, -60, []⟩] := by rfl
  refine ⟨by rw [hlist]; rfl, fun h => ?_⟩
  have hs := h.final.sorted
  rw [hlist] at hs
  exact absurd ((List.pairwise_cons.mp hs).1 _ List.mem_cons_self) (by decide)

end AtNode.Central
