import AtNode.Ch582.DongleWatch
import AtNode.Ch582.NameMatch
import AtNode.Ch582.ScanList

/-!
# The reports of a watch scan

`dgl_add_scan_rec` tests for the watched device behind all its early returns, so a device that is
listed already, one that a full list does not take, and one without a name and without the HID service
get no test; directed advertisements are never tested. The name that is tested is a C string of at
most 20 characters.
-/

namespace AtNode.Central

open AtCmds Occurs Run

/-- What a watch looks for. -/
inductive WatchTarget where
  | mac (addr : Addr)
  | name (text : Text)

/-- A report of the air, with the whole of the name in its payload. -/
inductive AdvReport where
  | advert (addr : Addr) (addrType : UInt8) (rssi : Int8) (isHid : Bool) (name : Text)
  | directed (addr : Addr) (addrType : UInt8) (rssi : Int8)

/-- The name as `dgl_adv_get_name` copies it and the string functions read it. -/
def foundName (name : Text) : Text := (name.take dglNameLen).takeWhile (· ≠ 0)

namespace AdvReport

def addr : AdvReport → Addr
  | .advert addr .. => addr
  | .directed addr .. => addr

def name : AdvReport → Text
  | .advert _ _ _ _ name => name
  | .directed .. => []

def scan : AdvReport → ScanReport
  | .advert addr addrType rssi isHid name =>
    .device ⟨addr, addrType, rssi, isHid, foundName name⟩
  | .directed addr addrType rssi => .direct addr addrType rssi

end AdvReport

def advReport (o : Build) (d : Dongle) (r : AdvReport) : Dongle := report o d r.scan

/-- A watch scan begins. -/
def watchStart (d : Dongle) : WatchTarget → Dongle
  | .mac addr =>
    { scanStart d with filter := [], watchActive := true, watchIsMac := true, watchAddr := addr }
  | .name text => { scanStart (watching d text) with filter := [] }

/-- The report is the one the watch waits for. -/
def Wanted (w : WatchTarget) (r : AdvReport) : Prop :=
  match w with
  | .mac addr => r.addr = addr
  | .name text => r.name ≠ [] ∧ Stands text r.name

structure Initiated (d : Dongle) (addr : Addr) : Prop where
  idle : d.state = .idle
  due : d.connEvt = true
  index : 0 ≤ d.pendConnIdx
  listed : ∃ r, d.scanList[d.pendConnIdx.toNatClampNeg]? = some r ∧ r.addr = addr

/-- While the watch scan runs, a report that is wanted leads to the connection. -/
def ConnectsAt (o : Build) (w : WatchTarget) (d : Dongle) (r : AdvReport) : Prop :=
  d.state = .scanning → d.watchActive = true → Wanted w r → Initiated (advReport o d r) r.addr

/-- The text as the watch stores it stands in the name as it is found. -/
def FoundText (w : WatchTarget) (r : AdvReport) : Prop :=
  match w with
  | .mac _ => True
  | .name text => foundName r.name ≠ [] ∧ Stands (text.take dglNameLen) (foundName r.name)

def Tested (d : Dongle) : AdvReport → Prop
  | .advert addr _ rssi isHid name =>
    (isHid = true ∨ foundName name ≠ []) ∧
      (∀ r ∈ d.scanList, r.addr ≠ addr) ∧
      (d.scanList.length = dglMaxScanRes → ∀ r ∈ d.scanList.getLast?, r.rssi < rssi)
  | .directed .. => False

def ReachesTest (w : WatchTarget) (d : Dongle) (r : AdvReport) : Prop :=
  d.state = .scanning → d.watchActive = true → Wanted w r → Tested d r ∧ FoundText w r

/-- The watch is the one that was asked for, and the list is within its bound. -/
structure Watches (w : WatchTarget) (d : Dongle) : Prop where
  filter : d.filter = []
  target : match w with
    | .mac addr => d.watchIsMac = true ∧ d.watchAddr = addr
    | .name text => d.watchIsMac = false ∧ d.watchName = text.take dglNameLen
  room : d.scanList.length ≤ dglMaxScanRes

section Start

variable {d : Dongle}

/-- `AT+BT_CONN=mac` or `AT+BT_CONN=name`. -/
def connectWatch (d : Dongle) (w : WatchTarget) (timeoutS : UInt8) : Dongle :=
  match w with
  | .mac addr => (bleDongleConnectWatch d true addr [] timeoutS).1
  | .name text => (bleDongleConnectWatch d false (fun _ => 0) text timeoutS).1

/-- The command and the event that starts the scan lead to the beginning of the watch. -/
theorem watchStart_command (a : GapAnswers) (hs : d.state = .idle) (hw : d.watchActive = false)
    (w : WatchTarget) (timeoutS : UInt8) :
    watchStart (scanEvent a (connectWatch d w timeoutS)) w =
      scanEvent a (connectWatch d w timeoutS) := by
  have hsec : 0 ≤ (if max 1 (min timeoutS 30) = 0 then 5 else max 1 (min timeoutS 30)).toInt8 := by
    split
    · decide
    · exact (seconds_byte (seconds_watch timeoutS).1 (seconds_watch timeoutS).2).2.1
  have hgo : ¬ (d.state ≠ .idle ∨ d.watchActive = true) := by simp [hs, hw]
  cases w with
  | mac addr =>
    rw [connectWatch, bleDongleConnectWatch, if_neg hgo, bleDongleScan, if_neg (not_not.mpr hs),
      scanEvent, if_pos ⟨hs, hsec⟩]
    rfl
  | name text =>
    rw [connectWatch, bleDongleConnectWatch, if_neg hgo, bleDongleScan, if_neg (not_not.mpr hs),
      scanEvent, if_pos ⟨hs, hsec⟩]
    rfl

end Start

section Step

variable {o : Build} {d : Dongle} {w : WatchTarget} {r : AdvReport}

theorem watches_start (w : WatchTarget) (d : Dongle) : Watches w (watchStart d w) := by
  cases w with
  | mac addr => exact ⟨rfl, ⟨rfl, rfl⟩, Nat.zero_le _⟩
  | name text => exact ⟨rfl, ⟨rfl, rfl⟩, Nat.zero_le _⟩

theorem length_insertRec_le (list : List ScanRec) (info : DeviceInfo) :
    (insertRec list info).length ≤ dglMaxScanRes := List.length_take_le _ _

theorem sameTarget_report (o : Build) (d : Dongle) (r : ScanReport) :
    (report o d r).filter = d.filter ∧ (report o d r).watchIsMac = d.watchIsMac ∧
      (report o d r).watchAddr = d.watchAddr ∧ (report o d r).watchName = d.watchName := by
  cases r with
  | device info =>
    rw [report, ScanReport.event, step]
    split
    · unfold dglAddScanRec
      split
      · exact ⟨rfl, rfl, rfl, rfl⟩
      split
      · exact ⟨rfl, rfl, rfl, rfl⟩
      split
      · exact ⟨rfl, rfl, rfl, rfl⟩
      split
      · exact ⟨rfl, rfl, rfl, rfl⟩
      dsimp only
      split
      · exact ⟨rfl, rfl, rfl, rfl⟩
      · exact ⟨rfl, rfl, rfl, rfl⟩
    · exact ⟨rfl, rfl, rfl, rfl⟩
  | direct addr addrType rssi =>
    rw [report, ScanReport.event, step, directDeviceInfo]
    split
    · exact ⟨rfl, rfl, rfl, rfl⟩
    · exact ⟨rfl, rfl, rfl, rfl⟩

theorem length_report (o : Build) {d : Dongle} (h : d.scanList.length ≤ dglMaxScanRes)
    (r : ScanReport) : (report o d r).scanList.length ≤ dglMaxScanRes := by
  cases r with
  | device info =>
    rcases scanList_device o d info with ⟨-, he⟩ | ⟨-, l₁, x, l₂, hsplit, -, he⟩ | ⟨-, -, -, he⟩ |
      ⟨-, -, -, he⟩
    · rwa [he]
    · rw [he]
      rw [hsplit] at h
      simpa using h
    · rwa [he]
    · rw [he]
      exact length_insertRec_le _ _
  | direct addr addrType rssi =>
    rcases scanList_direct o d addr addrType rssi with ⟨-, he⟩ | ⟨ha, he⟩
    · rwa [he]
    · rw [he, List.length_append, List.length_singleton]
      exact ha.2.1

theorem watches_report (h : Watches w d) (r : AdvReport) : Watches w (advReport o d r) := by
  obtain ⟨hf, hm, ha, hn⟩ := sameTarget_report o d r.scan
  refine ⟨?_, ?_, length_report o h.room r.scan⟩
  · rw [advReport, hf, h.filter]
  · rw [advReport, hm, ha, hn]
    exact h.target

theorem insertRec_getElem {list : List ScanRec} {info : DeviceInfo}
    (h : scanPos list info.rssi < dglMaxScanRes) :
    (insertRec list info)[scanPos list info.rssi]? =
      some ⟨info.addr, info.addrType, info.rssi, info.name⟩ := by
  have hle : scanPos list info.rssi ≤ list.length := (List.takeWhile_prefix _).length_le
  rw [insertRec, List.getElem?_take_of_lt h, List.getElem?_insertIdx_self, if_pos hle]

theorem scanPos_lt {info : DeviceInfo} (hroom : d.scanList.length ≤ dglMaxScanRes)
    (hr : ¬ Refuses d info) : scanPos d.scanList info.rssi < dglMaxScanRes := by
  have hle : scanPos d.scanList info.rssi ≤ d.scanList.length := (List.takeWhile_prefix _).length_le
  by_contra hge
  have hfull : d.scanList.length = dglMaxScanRes := by omega
  have hall : d.scanList.takeWhile (fun r => decide (info.rssi ≤ r.rssi)) = d.scanList := by
    apply (List.takeWhile_prefix _).eq_of_length
    change scanPos d.scanList info.rssi = d.scanList.length
    omega
  refine hr ⟨hfull.ge, ?_⟩
  rcases List.eq_nil_or_concat' d.scanList with hnil | ⟨init, y, hy⟩
  · rw [hnil] at hfull
    cases hfull
  · refine ⟨y, by rw [hy]; exact List.getLast?_concat, ?_⟩
    have hmem : y ∈ d.scanList.takeWhile (fun r => decide (info.rssi ≤ r.rssi)) := by
      rw [hall, hy]
      simp
    simpa using List.mem_takeWhile_imp hmem

theorem index_byte (k : ℕ) (h : k < dglMaxScanRes) :
    0 ≤ Int8.ofNat k ∧ (Int8.ofNat k).toNatClampNeg = k := by
  revert k
  decide

/-- A hit ends the scan and asks for the connection. -/
theorem initiated_hit {info : DeviceInfo} (hroom : d.scanList.length ≤ dglMaxScanRes)
    (hl : Listed d info) (hnew : ∀ x ∈ d.scanList, x.addr ≠ info.addr) (hr : ¬ Refuses d info)
    (hw : d.watchActive = true) (hhit : watchHit d info = true) :
    Initiated (report o d (.device info)) info.addr := by
  have hpos := scanPos_lt hroom hr
  have hi : d.scanList.findIdx? (sameAddr info) = none := by
    rw [List.findIdx?_eq_none_iff]
    intro x hx
    simpa [sameAddr] using (hnew x hx).symm
  have hr' := hr
  unfold Refuses at hr'
  have he : report o d (.device info) =
      { d with
        scanList := insertRec d.scanList info
        watchActive := false
        air := { d.air with discovering := false }
        state := .idle
        pendConnIdx := Int8.ofNat (scanPos d.scanList info.rssi)
        connEvt := true } := by
    simp only [report, ScanReport.event, step, hl.1, if_true, dglAddScanRec, if_neg hl.2.1, hl.2.2,
      Bool.true_eq_false, if_false, hi, if_neg hr', hw, hhit, Bool.and_true]
  obtain ⟨hpos', hidx⟩ := index_byte _ hpos
  rw [he]
  refine ⟨rfl, rfl, hpos', ⟨info.addr, info.addrType, info.rssi, info.name⟩, ?_, rfl⟩
  dsimp only
  rw [hidx]
  exact insertRec_getElem hpos

/-- Where the test is not reached, or fails, the scan goes on. -/
theorem state_no_hit {info : DeviceInfo} (hs : d.state = .scanning)
    (h : ¬ (Listed d info ∧ (∀ x ∈ d.scanList, x.addr ≠ info.addr) ∧ ¬ Refuses d info ∧
      watchHit d info = true)) : (report o d (.device info)).state = .scanning := by
  rw [report, ScanReport.event, step, if_pos hs, dglAddScanRec]
  by_cases hn : info.isHid = false ∧ info.name = []
  · rwa [if_pos hn]
  rw [if_neg hn]
  by_cases hf : passesFilter d.filter info = false
  · rwa [if_pos hf]
  rw [if_neg hf]
  cases hi : d.scanList.findIdx? (sameAddr info) with
  | some i => exact hs
  | none =>
    by_cases hr : dglMaxScanRes ≤ d.scanList.length ∧
        ∃ r ∈ d.scanList.getLast?, info.rssi ≤ r.rssi
    · simp only [if_pos hr, hs]
    · have hmiss : watchHit d info = false := by
        rw [Bool.eq_false_iff]
        intro hhit
        exact h ⟨⟨hs, hn, Bool.not_eq_false _ ▸ hf⟩, not_listed_of_findIdx? hi, hr, hhit⟩
      simp only [if_neg hr, hmiss, Bool.and_false, Bool.false_eq_true, if_false, hs]

theorem tested_iff {addr : Addr} {addrType : UInt8} {rssi : Int8} {isHid : Bool} {name : Text}
    (h : Watches w d) (hs : d.state = .scanning) :
    Tested d (.advert addr addrType rssi isHid name) ↔
      Listed d ⟨addr, addrType, rssi, isHid, foundName name⟩ ∧
        (∀ x ∈ d.scanList, x.addr ≠ addr) ∧
        ¬ Refuses d ⟨addr, addrType, rssi, isHid, foundName name⟩ := by
  have hl : Listed d ⟨addr, addrType, rssi, isHid, foundName name⟩ ↔
      isHid = true ∨ foundName name ≠ [] := by
    have hf : passesFilter d.filter ⟨addr, addrType, rssi, isHid, foundName name⟩ = true := by
      rw [h.filter]
      rfl
    constructor
    · intro hl
      by_contra hno
      rw [not_or, Bool.not_eq_true, not_not] at hno
      exact hl.2.1 hno
    · intro hname
      refine ⟨hs, fun hno => ?_, hf⟩
      rcases hname with hhid | hname
      · exact absurd (hno.1.symm.trans hhid) Bool.false_ne_true
      · exact hname hno.2
  have hfull : ¬ Refuses d ⟨addr, addrType, rssi, isHid, foundName name⟩ ↔
      (d.scanList.length = dglMaxScanRes → ∀ x ∈ d.scanList.getLast?, x.rssi < rssi) := by
    have hroom := h.room
    constructor
    · intro hr hlen x hx
      by_contra hle
      exact hr ⟨hlen.ge, x, hx, Int8.not_lt.mp hle⟩
    · rintro hweak ⟨hlen, x, hx, hle⟩
      exact Int8.not_le.mpr (hweak (by omega) x hx) hle
  rw [hl, hfull]
  exact Iff.rfl

theorem watchHit_iff {addr : Addr} {addrType : UInt8} {rssi : Int8} {isHid : Bool} {name : Text}
    (h : Watches w d) (hw : Wanted w (.advert addr addrType rssi isHid name)) :
    watchHit d ⟨addr, addrType, rssi, isHid, foundName name⟩ = true ↔
      FoundText w (.advert addr addrType rssi isHid name) := by
  cases w with
  | mac a =>
    obtain ⟨hm, ha⟩ := h.target
    rw [watchHit, if_pos hm, ha]
    exact ⟨fun _ => trivial, fun _ => decide_eq_true hw⟩
  | name text =>
    obtain ⟨hm, hn⟩ := h.target
    rw [watchHit, if_neg (Bool.eq_false_iff.mp hm), hn, Bool.and_eq_true, decide_eq_true_eq,
      dglStrcasestr_isSome]
    exact Iff.rfl

/-- A wanted report leads to the connection exactly when it gets to the test and passes it. -/
theorem connectsAt_iff (h : Watches w d) (r : AdvReport) :
    ConnectsAt o w d r ↔ ReachesTest w d r := by
  refine forall_congr' fun hs => forall_congr' fun hact => forall_congr' fun hw => ?_
  cases r with
  | advert addr addrType rssi isHid name =>
    rw [tested_iff h hs, ← watchHit_iff h hw]
    constructor
    · intro hin
      by_contra hno
      have hst := state_no_hit (o := o) hs fun hall => hno ⟨⟨hall.1, hall.2.1, hall.2.2.1⟩, hall.2.2.2⟩
      exact absurd (hst.symm.trans hin.idle) nofun
    · rintro ⟨⟨hl, hnew, hr⟩, hhit⟩
      exact initiated_hit h.room hl hnew hr hact hhit
  | directed addr addrType rssi =>
    refine ⟨fun hin => ?_, fun ht => ht.1.elim⟩
    have hst : (advReport o d (.directed addr addrType rssi)).state = .scanning := by
      rw [advReport, AdvReport.scan, report, ScanReport.event, step, directDeviceInfo]
      split
      · exact hs
      · exact hs
    exact absurd (hst.symm.trans hin.idle) nofun

end Step

/-- In the run of a watch scan each wanted report leads to the connection exactly when each gets to
the test and passes it. -/
theorem watch_complete_iff (o : Build) (d : Dongle) (w : WatchTarget) (rs : List AdvReport) :
    Along (advReport o) (ConnectsAt o w) (watchStart d w) rs ↔
      Along (advReport o) (ReachesTest w) (watchStart d w) rs :=
  along_iff_of_inv (fun _ r hi => watches_report hi r) (fun _ r hi => connectsAt_iff hi r)
    (watches_start w d)

def nameLater : List AdvReport :=
  [.advert nearAddr 0 (-40) true [], .advert nearAddr 0 (-40) false (AtCmds.bytes "RK-S75")]

theorem listed_device_is_missed :
    Wanted (.name (AtCmds.bytes "rk")) (.advert nearAddr 0 (-40) false (AtCmds.bytes "RK-S75")) ∧
      ¬ Along (advReport ⟨true, true⟩) (ConnectsAt ⟨true, true⟩ (.name (AtCmds.bytes "rk")))
        (watchStart (boot ⟨true, true⟩) (.name (AtCmds.bytes "rk"))) nameLater := by
  have hw : Wanted (.name (AtCmds.bytes "rk"))
      (.advert nearAddr 0 (-40) false (AtCmds.bytes "RK-S75")) := by
    refine ⟨by decide, ?_⟩
    rw [← dglStrcasestr_isSome]
    decide
  refine ⟨hw, fun h => ?_⟩
  have hidle := (h.2.1 rfl rfl hw).idle
  exact absurd hidle (by decide)

end AtNode.Central
