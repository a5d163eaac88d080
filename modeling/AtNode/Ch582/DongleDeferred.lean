import AtNode.Ch582.WatchReports

/-!
# The deferred commands of the dongle

A scan, a watch or a connection that is answered OK leaves its parameters in one variable each and sets
an event of the dongle's task, which begins the discovery or the establish attempt later; the hit of a
watch asks for its connection in the same way, and a disconnect during the automatic reconnection has
the task abort the attempt. The task looks at the state, and at the list of devices, as they are then.

`History` adds to the dongle the commands that were answered OK and are not carried out yet, each with
its own parameters. An event carries out one command at most, so every command needs an event of its
own that is still set. A watch asks for a discovery, and with its hit for a connection; the end of its
discovery says that there was no hit.
-/

namespace AtNode.Central.Deferred

open Run

section Law

structure Request where
  seconds : ℤ
  filter : List UInt8
  deriving DecidableEq

structure Target where
  addr : Addr
  addrType : UInt8
  deriving DecidableEq

def target (x : ScanRec) : Target := ⟨x.addr, x.addrType⟩

/-- The event that the next call of the task handles. -/
inductive Turn where
  | svcDisc
  | auto
  | linkTimeout
  | scan
  | conn
  | rest
  deriving DecidableEq

def turn (d : Dongle) : Turn :=
  if d.client.svcDiscEvt.isSet then .svcDisc
  else if d.autoEvt.isSet then .auto
  else if d.linkTimeoutEvt.isSet then .linkTimeout
  else if d.scanEvt then .scan
  else if d.connEvt then .conn
  else .rest

/-- The discovery that a call of the task begins, or has refused by the stack with the line for it. -/
def begun (d : Dongle) : Option Request :=
  if turn d = .scan ∧ d.state = .idle ∧ 0 ≤ d.pendScanSec then
    some ⟨d.pendScanSec.toInt, d.filter⟩
  else none

/-- Whom a call of the task tries to connect to. -/
def attempted (d : Dongle) : Option Target :=
  if turn d = .conn ∧ d.state = .idle ∧ 0 ≤ d.pendConnIdx then
    (d.scanList[d.pendConnIdx.toNatClampNeg]?).map target
  else none

/-- A call of the task aborts the automatic reconnection. -/
def Aborts (d : Dongle) : Prop :=
  turn d = .auto ∧ d.state = .autoconn ∧ (d.auto = false ∨ d.autoHold = true)

instance (d : Dongle) : Decidable (Aborts d) := inferInstanceAs (Decidable (_ ∧ _))

/-- The report is one at which the watch asks for its connection. -/
def Hits (d : Dongle) (info : DeviceInfo) : Prop :=
  Listed d info ∧ (∀ x ∈ d.scanList, x.addr ≠ info.addr) ∧ ¬ Refuses d info ∧
    d.watchActive = true ∧ watchHit d info = true

instance (d : Dongle) (info : DeviceInfo) : Decidable (Hits d info) :=
  inferInstanceAs (Decidable ((_ ∧ ¬ (_ ∧ _) ∧ _) ∧ (∀ x ∈ _, _) ∧ ¬ (_ ∧ ∃ r ∈ _, _) ∧ _))

/-- The dongle with the commands that are not carried out yet; `abort` is the attempt that a disconnect
was to end. -/
structure History where
  dongle : Dongle
  scans : List Request
  conns : List Target
  abort : Option ℕ

def scansAfter (d : Dongle) (scans : List Request) : Event → List Request
  | .btScan sec filter =>
    if (btScanDgl d sec filter).2 = 0 then scans ++ [⟨max 1 (min sec 30), filter⟩] else scans
  | .btConnWatch isMac addr name timeoutS =>
    if (bleDongleConnectWatch d isMac addr name timeoutS).2 = 0 then
      scans ++ [⟨(max 1 (min timeoutS 30)).toNat, []⟩]
    else scans
  | .task _ => (begun d).elim scans scans.erase
  | _ => scans

def connsAfter (d : Dongle) (conns : List Target) : Event → List Target
  | .btConnIndex index =>
    if (bleDongleConnect d index).2 = 0 then
      conns ++ ((d.scanList[index.toNat]?).map target).toList
    else conns
  | .deviceInfo info => if Hits d info then conns ++ [⟨info.addr, info.addrType⟩] else conns
  | .task _ => (attempted d).elim conns conns.erase
  | _ => conns

/-- A failed result of the attempt ends it too, with a line that says so. -/
def abortAfter (d : Dongle) (abort : Option ℕ) : Event → Option ℕ
  | .btDisc a =>
    if d.state = .autoconn ∧ (bleDongleDisconnect a d).2 = 0 then some (d.air.started - 1)
    else abort
  | .linkEstablished t status _ =>
    if abort = some t.number ∧ t ∈ d.air.attempts ∧ status ≠ success then none else abort
  | .task _ => if Aborts d then none else abort
  | _ => abort

def deferStep (o : Build) (w : History) (e : Event) : History where
  dongle := step o w.dongle e
  scans := scansAfter w.dongle w.scans e
  conns := connsAfter w.dongle w.conns e
  abort := abortAfter w.dongle w.abort e

def start (o : Build) : History := ⟨boot o, [], [], none⟩

/-- No command is lost: each of those not carried out has an event of its own. -/
structure Kept (w : History) : Prop where
  scans : w.scans.length ≤ w.dongle.scanEvt.toNat
  conns : w.conns.length ≤ w.dongle.connEvt.toNat
  abort : w.abort ≠ none → w.dongle.autoEvt.isSet = true

/-- No command is taken while the event of another one is set, and the task finds what the command was
answered for. -/
def AsAnswered (w : History) : Event → Prop
  | .btScan _ _ => w.dongle.state = .idle → w.dongle.scanEvt = false
  | .btConnWatch _ _ _ _ =>
    w.dongle.state = .idle → w.dongle.watchActive = false → w.dongle.scanEvt = false
  | .btConnIndex index =>
    w.dongle.state = .idle → index.toNat < w.dongle.scanList.length → w.dongle.connEvt = false
  | .deviceInfo info => Hits w.dongle info → w.dongle.connEvt = false
  | .task _ =>
    (turn w.dongle = .auto → w.abort ≠ none →
      w.dongle.state = .autoconn ∧ (w.dongle.auto = false ∨ w.dongle.autoHold = true)) ∧
    (turn w.dongle = .scan →
      w.dongle.state = .idle ∧ ∀ r ∈ w.scans, r.filter.length ≤ dglNameLen) ∧
    (turn w.dongle = .conn →
      w.dongle.state = .idle ∧ ∀ t ∈ w.conns,
        (w.dongle.scanList[w.dongle.pendConnIdx.toNatClampNeg]?).map target = some t)
  | _ => True

end Law

section Frame

variable {o : Build} {a : GapAnswers} {d d' : Dongle}

structure SameRequests (d d' : Dongle) : Prop where
  scanEvt : d'.scanEvt = d.scanEvt
  pendScanSec : d'.pendScanSec = d.pendScanSec
  filter : d'.filter = d.filter
  connEvt : d'.connEvt = d.connEvt
  pendConnIdx : d'.pendConnIdx = d.pendConnIdx
  autoEvt : d.autoEvt.isSet = true → d'.autoEvt.isSet = true
  room : d.scanList.length ≤ dglMaxScanRes → d'.scanList.length ≤ dglMaxScanRes

theorem SameRequests.refl (d : Dongle) : SameRequests d d := ⟨rfl, rfl, rfl, rfl, rfl, id, id⟩

def quiet : Event → Bool
  | .deviceInfo _ | .task _ | .btScan .. | .btConnWatch .. | .btConnIndex _ => false
  | _ => true

theorem sameRequests_disconnect (a : GapAnswers) (d : Dongle) :
    SameRequests d (bleDongleDisconnect a d).1 := by
  unfold bleDongleDisconnect terminateLink
  split
  · exact ⟨rfl, rfl, rfl, rfl, rfl, fun _ => rfl, id⟩
  split
  · exact .refl d
  split
  · exact ⟨rfl, rfl, rfl, rfl, rfl, id, id⟩
  · exact ⟨rfl, rfl, rfl, rfl, rfl, id, id⟩

theorem sameRequests_step {e : Event} (he : quiet e = true) : SameRequests d (step o d e) := by
  cases e with
  | gatt m last a =>
    obtain ⟨p, en, hrec⟩ := received_eq d m last
    obtain ⟨s, c, f, u, hg, -⟩ := gatt_eq o a (received d m last) m
    rw [step, hg, hrec]
    exact ⟨rfl, rfl, rfl, rfl, rfl, id, id⟩
  | deviceInitDone | discoveryDone => exact ⟨rfl, rfl, rfl, rfl, rfl, id, id⟩
  | directDeviceInfo addr addrType rssi =>
    have hroom := length_report o (d := d) (r := .direct addr addrType rssi)
    rw [report, ScanReport.event, step, directDeviceInfo] at hroom
    rw [step, directDeviceInfo]
    split
    · rename_i h
      rw [if_pos h] at hroom
      exact ⟨rfl, rfl, rfl, rfl, rfl, id, hroom⟩
    · exact .refl d
  | linkEstablished t status handle =>
    rw [step]
    split
    · by_cases hs : status = success
      · rw [hs, linkEstablished_success]
        exact ⟨rfl, rfl, rfl, rfl, rfl, id, id⟩
      · obtain ⟨f, hold, -, h⟩ := linkEstablished_failed (reported d t status handle) hs handle
        rw [h]
        exact ⟨rfl, rfl, rfl, rfl, rfl, id, id⟩
    · exact .refl d
  | linkTerminated handle reason =>
    rw [step]
    split
    · obtain ⟨f, hold, -, h⟩ := linkTerminated_eq (ended d handle)
      rw [h]
      exact ⟨rfl, rfl, rfl, rfl, rfl, fun _ => rfl, id⟩
    · exact .refl d
  | pairState state status =>
    rw [step]
    unfold dglPairStateCb
    split
    · exact ⟨rfl, rfl, rfl, rfl, rfl, id, id⟩
    · exact .refl d
  | expire t =>
    cases t with
    | svcDisc | linkTimeout => exact ⟨rfl, rfl, rfl, rfl, rfl, id, id⟩
    | auto =>
      refine ⟨rfl, rfl, rfl, rfl, rfl, fun hset => ?_, id⟩
      change d.autoEvt.expire.isSet = true
      unfold TaskEvent.expire
      split
      · rfl
      · exact hset
  | btDisc a => exact sameRequests_disconnect a d
  | btAuto mode => exact ⟨rfl, rfl, rfl, rfl, rfl, fun _ => rfl, id⟩
  | btPair a =>
    have h := sameRequests_disconnect a d
    exact ⟨h.scanEvt, h.pendScanSec, h.filter, h.connEvt, h.pendConnIdx, h.autoEvt, h.room⟩
  | btBatt a =>
    rw [step]
    unfold bleDongleBattRead
    split
    · exact .refl d
    split
    · exact ⟨rfl, rfl, rfl, rfl, rfl, id, id⟩
    · exact .refl d
  | deviceInfo | task | btScan | btConnWatch | btConnIndex => exact absurd he Bool.false_ne_true

theorem device_cases (o : Build) (d : Dongle) (info : DeviceInfo) :
    (Hits d info ∧ step o d (.deviceInfo info) =
      { d with
        scanList := insertRec d.scanList info
        watchActive := false
        air := { d.air with discovering := false }
        state := .idle
        pendConnIdx := Int8.ofNat (scanPos d.scanList info.rssi)
        connEvt := true }) ∨
    (¬ Hits d info ∧ ∃ list, step o d (.deviceInfo info) = { d with scanList := list }) := by
  rw [step]
  by_cases hs : d.state = .scanning
  case neg => exact Or.inr ⟨fun h => hs h.1.1, d.scanList, if_neg hs⟩
  rw [if_pos hs, dglAddScanRec]
  by_cases hn : info.isHid = false ∧ info.name = []
  case pos => exact Or.inr ⟨fun h => h.1.2.1 hn, d.scanList, if_pos hn⟩
  rw [if_neg hn]
  by_cases hf : passesFilter d.filter info = false
  case pos =>
    refine Or.inr ⟨fun h => ?_, d.scanList, if_pos hf⟩
    exact Bool.false_ne_true (hf.symm.trans h.1.2.2)
  rw [if_neg hf]
  cases hi : d.scanList.findIdx? (sameAddr info) with
  | some i =>
    refine Or.inr ⟨fun h => ?_, _, rfl⟩
    obtain ⟨l₁, x, l₂, hsplit, hx, -⟩ := modify_split hi
    refine h.2.1 x ?_ hx
    rw [hsplit]
    exact List.mem_append_right _ List.mem_cons_self
  | none =>
    dsimp only
    by_cases hr : dglMaxScanRes ≤ d.scanList.length ∧
        ∃ r ∈ d.scanList.getLast?, info.rssi ≤ r.rssi
    · exact Or.inr ⟨fun h => h.2.2.1 hr, d.scanList, if_pos hr⟩
    rw [if_neg hr]
    by_cases hw : d.watchActive = true ∧ watchHit d info = true
    · refine Or.inl ⟨⟨⟨hs, hn, Bool.not_eq_false _ ▸ hf⟩, not_listed_of_findIdx? hi, hr, hw⟩, ?_⟩
      rw [if_pos (by rw [hw.1]; exact hw.2)]
    · refine Or.inr ⟨fun h => hw h.2.2.2, insertRec d.scanList info, ?_⟩
      rw [if_neg (by rwa [Bool.and_eq_true])]

theorem room_device (o : Build) (info : DeviceInfo) (h : d.scanList.length ≤ dglMaxScanRes) :
    (step o d (.deviceInfo info)).scanList.length ≤ dglMaxScanRes :=
  length_report o h (.device info)

theorem sameRequests_device {info : DeviceInfo} (h : ¬ Hits d info) :
    SameRequests d (step o d (.deviceInfo info)) := by
  have hroom := room_device (d := d) o info
  rcases device_cases o d info with ⟨hhit, -⟩ | ⟨-, list, he⟩
  · exact absurd hhit h
  · rw [he] at hroom ⊢
    exact ⟨rfl, rfl, rfl, rfl, rfl, id, hroom⟩

/-- What the task does in its turn. -/
theorem processEvent_eq (a : GapAnswers) (d : Dongle) :
    dglProcessEvent a d =
      match turn d with
      | .svcDisc =>
        { d with
          client :=
            if d.state = .connected ∧ d.client.link.discState = .idle then
              dglStartSvcDiscovery a.toAnswers
                { d.client with svcDiscEvt := d.client.svcDiscEvt.clear } true
            else { d.client with svcDiscEvt := d.client.svcDiscEvt.clear } }
      | .auto => autoEvent a { d with autoEvt := d.autoEvt.clear }
      | .linkTimeout => linkTimeoutEvent { d with linkTimeoutEvt := d.linkTimeoutEvt.clear }
      | .scan => scanEvent a { d with scanEvt := false }
      | .conn => connEvent a { d with connEvt := false }
      | .rest => d := by
  unfold dglProcessEvent turn
  split
  · dsimp only
    split
    · rfl
    · rfl
  split
  · rfl
  split
  · rfl
  split
  · rfl
  split
  · rfl
  · rfl

theorem turn_scan (h : turn d = .scan) : d.scanEvt = true := by
  unfold turn at h
  split_ifs at h
  assumption

theorem turn_conn (h : turn d = .conn) : d.connEvt = true := by
  unfold turn at h
  split_ifs at h
  assumption

theorem sameRequests_task (a : GapAnswers) (hauto : turn d ≠ .auto) (hscan : turn d ≠ .scan)
    (hconn : turn d ≠ .conn) : SameRequests d (dglProcessEvent a d) := by
  rw [processEvent_eq]
  cases ht : turn d with
  | svcDisc => exact ⟨rfl, rfl, rfl, rfl, rfl, id, id⟩
  | auto => exact absurd ht hauto
  | linkTimeout =>
    obtain ⟨st, air, he⟩ := linkTimeoutEvent_eq { d with linkTimeoutEvt := d.linkTimeoutEvt.clear }
    dsimp only
    rw [he]
    exact ⟨rfl, rfl, rfl, rfl, rfl, id, id⟩
  | scan => exact absurd ht hscan
  | conn => exact absurd ht hconn
  | rest => exact .refl d

end Frame



section Invariant

variable {o : Build} {a : GapAnswers} {d d' : Dongle} {scans : List Request} {conns : List Target}
  {abort abort' : Option ℕ} {w : History}

/-- Each event that is set is for one command, and the variables of a scan hold what is left of its
parameters. -/
structure Held (w : History) : Prop where
  scan : w.dongle.scanEvt = false ∧ w.scans = [] ∨
    w.dongle.scanEvt = true ∧ ∃ r, w.scans = [r] ∧ 0 ≤ w.dongle.pendScanSec ∧
      w.dongle.pendScanSec.toInt = r.seconds ∧ w.dongle.filter = r.filter.take dglNameLen
  conn : w.dongle.connEvt = false ∧ w.conns = [] ∨
    w.dongle.connEvt = true ∧ 0 ≤ w.dongle.pendConnIdx ∧ ∃ t, w.conns = [t]
  abort : w.abort ≠ none → w.dongle.autoEvt.isSet = true
  room : w.dongle.scanList.length ≤ dglMaxScanRes

theorem held_start (o : Build) : Held (start o) :=
  ⟨Or.inl ⟨rfl, rfl⟩, Or.inl ⟨rfl, rfl⟩, fun h => absurd rfl h, Nat.zero_le _⟩

theorem Held.kept (hi : Held w) : Kept w where
  scans := by
    rcases hi.scan with ⟨he, hs⟩ | ⟨he, r, hs, -⟩
    · rw [hs, he]
      exact Nat.le_refl 0
    · rw [hs, he]
      exact Nat.le_refl 1
  conns := by
    rcases hi.conn with ⟨he, hc⟩ | ⟨he, -, t, hc⟩
    · rw [hc, he]
      exact Nat.le_refl 0
    · rw [hc, he]
      exact Nat.le_refl 1
  abort := hi.abort

theorem Held.scanEvt_of (hi : Held w) (h : w.dongle.scanEvt = true) :
    ∃ r, w.scans = [r] ∧ 0 ≤ w.dongle.pendScanSec ∧ w.dongle.pendScanSec.toInt = r.seconds ∧
      w.dongle.filter = r.filter.take dglNameLen := by
  rcases hi.scan with ⟨he, -⟩ | ⟨-, hr⟩
  · exact absurd (he.symm.trans h) Bool.false_ne_true
  · exact hr

theorem Held.connEvt_of (hi : Held w) (h : w.dongle.connEvt = true) :
    0 ≤ w.dongle.pendConnIdx ∧ ∃ t, w.conns = [t] := by
  rcases hi.conn with ⟨he, -⟩ | ⟨-, ht⟩
  · exact absurd (he.symm.trans h) Bool.false_ne_true
  · exact ht

theorem held_same (hi : Held ⟨d, scans, conns, abort⟩) (h : SameRequests d d')
    (habort : abort' ≠ none → abort ≠ none ∨ d'.autoEvt.isSet = true) :
    Held ⟨d', scans, conns, abort'⟩ where
  scan := by
    dsimp only
    rw [h.scanEvt, h.pendScanSec, h.filter]
    exact hi.scan
  conn := by
    dsimp only
    rw [h.connEvt, h.pendConnIdx]
    exact hi.conn
  abort hne := by
    rcases habort hne with hold | hset
    · exact h.autoEvt (hi.abort hold)
    · exact hset
  room := h.room hi.room

theorem held_quiet {e : Event} (he : quiet e = true) (hi : Held w) : Held (deferStep o w e) := by
  have hsame := sameRequests_step (o := o) (d := w.dongle) he
  have hscans : scansAfter w.dongle w.scans e = w.scans := by
    cases e <;> first | rfl | exact absurd he Bool.false_ne_true
  have hconns : connsAfter w.dongle w.conns e = w.conns := by
    cases e <;> first | rfl | exact absurd he Bool.false_ne_true
  rw [deferStep, hscans, hconns]
  refine held_same hi hsame fun hne => ?_
  unfold abortAfter at hne
  split at hne
  · split at hne
    · rename_i h
      refine Or.inr ?_
      rw [step, bleDongleDisconnect, if_pos h.1]
      rfl
    · exact Or.inl hne
  · split at hne
    · exact absurd rfl hne
    · exact Or.inl hne
  · exact absurd he Bool.false_ne_true
  · exact Or.inl hne

theorem scan_accepted {s : UInt8} (hpos : 1 ≤ s.toNat) (hle : s.toNat ≤ 30) (filter : List UInt8)
    (hidle : d.state = .idle) : bleDongleScan d s filter =
      ({ d with filter := filter.take dglNameLen, pendScanSec := s.toInt8, scanEvt := true }, 0) := by
  rw [bleDongleScan, if_neg (not_not.mpr hidle), if_neg (seconds_byte hpos hle).1]

theorem held_scan (hi : Held ⟨d, scans, conns, abort⟩) (hfree : d.scanEvt = false) {s : UInt8}
    (hpos : 1 ≤ s.toNat) (hle : s.toNat ≤ 30) {sec : ℤ} (hsec : (s.toNat : ℤ) = sec)
    (filter : List UInt8) :
    Held ⟨{ d with filter := filter.take dglNameLen, pendScanSec := s.toInt8, scanEvt := true },
      scans ++ [⟨sec, filter⟩], conns, abort⟩ := by
  have hnone : scans = [] := by
    rcases hi.scan with ⟨-, h⟩ | ⟨he, -⟩
    · exact h
    · exact absurd (hfree.symm.trans he) Bool.false_ne_true
  obtain ⟨-, hnonneg, hint⟩ := seconds_byte hpos hle
  refine ⟨Or.inr ⟨rfl, ⟨sec, filter⟩, ?_, hnonneg, hint.trans hsec, rfl⟩, hi.conn, hi.abort, hi.room⟩
  rw [hnone]
  rfl

/-- One that is taken while the event of another one is set is one too many. -/
theorem scanEvt_of_kept (hi : Held ⟨d, scans, conns, abort⟩) {r : Request}
    (hk : Kept ⟨d', scans ++ [r], conns, abort⟩) : d.scanEvt = false := by
  rcases hi.scan with ⟨he, -⟩ | ⟨-, r', hs, -⟩
  · exact he
  · have hlen := hk.scans
    have hle := Bool.toNat_le d'.scanEvt
    rw [List.length_append, show scans.length = 1 from congrArg List.length hs,
      List.length_singleton] at hlen
    exact absurd (hlen.trans hle) (by decide)

theorem seconds_scan (sec : ℤ) :
    1 ≤ (UInt8.ofNat (max 1 (min sec 30)).toNat).toNat ∧
      (UInt8.ofNat (max 1 (min sec 30)).toNat).toNat ≤ 30 ∧
      ((UInt8.ofNat (max 1 (min sec 30)).toNat).toNat : ℤ) = max 1 (min sec 30) := by
  have hlt : (max 1 (min sec 30)).toNat < UInt8.size := by
    change (max 1 (min sec 30)).toNat < 256
    omega
  rw [UInt8.toNat_ofNat_of_lt' hlt]
  omega

theorem btScan_iff (hi : Held w) (sec : ℤ) (filter : List UInt8) :
    (AsAnswered w (.btScan sec filter) → Held (deferStep o w (.btScan sec filter))) ∧
      (Kept (deferStep o w (.btScan sec filter)) → AsAnswered w (.btScan sec filter)) := by
  obtain ⟨d, scans, conns, abort⟩ := w
  obtain ⟨hpos, hle, hint⟩ := seconds_scan sec
  by_cases hidle : d.state = .idle
  · have hacc : btScanDgl d sec filter = _ := scan_accepted hpos hle filter hidle
    have hstep : deferStep o ⟨d, scans, conns, abort⟩ (.btScan sec filter) =
        ⟨(btScanDgl d sec filter).1, scans ++ [⟨max 1 (min sec 30), filter⟩], conns, abort⟩ := by
      rw [deferStep, scansAfter, step, if_pos (congrArg Prod.snd hacc)]
      rfl
    rw [hstep, hacc]
    exact ⟨fun hfree => held_scan hi (hfree hidle) hpos hle hint filter,
      fun hk _ => scanEvt_of_kept hi hk⟩
  · have hrefuse : btScanDgl d sec filter = (d, -1) := if_pos hidle
    have hstep : deferStep o ⟨d, scans, conns, abort⟩ (.btScan sec filter) =
        ⟨d, scans, conns, abort⟩ := by
      rw [deferStep, scansAfter, step, hrefuse, if_neg (show ¬ (-1 : Int) = 0 by decide)]
      rfl
    rw [hstep]
    exact ⟨fun _ => hi, fun _ h => absurd h hidle⟩

theorem btConnWatch_iff (hi : Held w) (isMac : Bool) (addr : Addr) (name : List UInt8)
    (timeoutS : UInt8) :
    (AsAnswered w (.btConnWatch isMac addr name timeoutS) →
      Held (deferStep o w (.btConnWatch isMac addr name timeoutS))) ∧
      (Kept (deferStep o w (.btConnWatch isMac addr name timeoutS)) →
        AsAnswered w (.btConnWatch isMac addr name timeoutS)) := by
  obtain ⟨d, scans, conns, abort⟩ := w
  obtain ⟨hpos, hle⟩ := seconds_watch timeoutS
  by_cases hno : d.state ≠ .idle ∨ d.watchActive = true
  · have hrefuse : bleDongleConnectWatch d isMac addr name timeoutS = (d, -1) := if_pos hno
    have hstep : deferStep o ⟨d, scans, conns, abort⟩ (.btConnWatch isMac addr name timeoutS) =
        ⟨d, scans, conns, abort⟩ := by
      rw [deferStep, scansAfter, step, hrefuse, if_neg (show ¬ (-1 : Int) = 0 by decide)]
      rfl
    rw [hstep]
    refine ⟨fun _ => hi, fun _ hidle hoff => ?_⟩
    rcases hno with h | h
    · exact absurd hidle h
    · exact absurd (hoff.symm.trans h) Bool.false_ne_true
  · have hidle : d.state = .idle := not_not.mp fun h => hno (Or.inl h)
    let d₁ : Dongle := { d with
      watchActive := true
      watchIsMac := isMac
      watchAddr := if isMac then addr else d.watchAddr
      watchName := if isMac then d.watchName else name.take dglNameLen }
    have hi₁ : Held ⟨d₁, scans, conns, abort⟩ := ⟨hi.scan, hi.conn, hi.abort, hi.room⟩
    have hacc : bleDongleConnectWatch d isMac addr name timeoutS = _ :=
      (if_neg hno).trans (scan_accepted (d := d₁) hpos hle [] hidle)
    have hstep : deferStep o ⟨d, scans, conns, abort⟩ (.btConnWatch isMac addr name timeoutS) =
        ⟨(bleDongleConnectWatch d isMac addr name timeoutS).1,
          scans ++ [⟨(max 1 (min timeoutS 30)).toNat, []⟩], conns, abort⟩ := by
      rw [deferStep, scansAfter, step, if_pos (congrArg Prod.snd hacc)]
      rfl
    rw [hstep, hacc]
    refine ⟨fun hfree => held_scan hi₁ (hfree hidle ?_) hpos hle rfl [],
      fun hk _ _ => scanEvt_of_kept hi hk⟩
    exact Bool.eq_false_iff.mpr fun h => hno (Or.inr h)

theorem connEvt_of_kept (hi : Held ⟨d, scans, conns, abort⟩) {t : Target}
    (hk : Kept ⟨d', scans, conns ++ [t], abort⟩) : d.connEvt = false := by
  rcases hi.conn with ⟨he, -⟩ | ⟨-, -, t', hc⟩
  · exact he
  · have hlen := hk.conns
    have hle := Bool.toNat_le d'.connEvt
    rw [List.length_append, show conns.length = 1 from congrArg List.length hc,
      List.length_singleton] at hlen
    exact absurd (hlen.trans hle) (by decide)

theorem conns_nil (hi : Held ⟨d, scans, conns, abort⟩) (hfree : d.connEvt = false) : conns = [] := by
  rcases hi.conn with ⟨-, h⟩ | ⟨he, -⟩
  · exact h
  · exact absurd (hfree.symm.trans he) Bool.false_ne_true

theorem index_toInt8 {index : UInt8} (h : index.toNat < dglMaxScanRes) : 0 ≤ index.toInt8 := by
  have hint : index.toInt8.toInt = index.toNat :=
    BitVec.toInt_eq_toNat_of_lt (Nat.lt_of_lt_of_le (Nat.mul_lt_mul_of_pos_left h (by decide))
      (by decide))
  rw [Int8.le_iff_toInt_le, hint]
  exact Int.natCast_nonneg _

theorem btConnIndex_iff (hi : Held w) (index : UInt8) :
    (AsAnswered w (.btConnIndex index) → Held (deferStep o w (.btConnIndex index))) ∧
      (Kept (deferStep o w (.btConnIndex index)) → AsAnswered w (.btConnIndex index)) := by
  obtain ⟨d, scans, conns, abort⟩ := w
  by_cases hno : d.state ≠ .idle ∨ d.scanList.length ≤ index.toNat
  · have hrefuse : bleDongleConnect d index = (d, -1) := if_pos hno
    have hstep : deferStep o ⟨d, scans, conns, abort⟩ (.btConnIndex index) =
        ⟨d, scans, conns, abort⟩ := by
      rw [deferStep, connsAfter, step, hrefuse, if_neg (show ¬ (-1 : Int) = 0 by decide)]
      rfl
    rw [hstep]
    refine ⟨fun _ => hi, fun _ hidle hlt => ?_⟩
    rcases hno with h | h
    · exact absurd hidle h
    · exact absurd h (Nat.not_le_of_lt hlt)
  · have hacc : bleDongleConnect d index =
        ({ d with pendConnIdx := index.toInt8, connEvt := true }, 0) := if_neg hno
    rw [not_or, not_not, Nat.not_le] at hno
    obtain ⟨hidle, hlt⟩ := hno
    have hstep : deferStep o ⟨d, scans, conns, abort⟩ (.btConnIndex index) =
        ⟨{ d with pendConnIdx := index.toInt8, connEvt := true }, scans,
          conns ++ [target d.scanList[index.toNat]], abort⟩ := by
      rw [deferStep, connsAfter, step, hacc, if_pos rfl, List.getElem?_eq_getElem hlt]
      rfl
    rw [hstep]
    constructor
    · intro hfree
      refine ⟨hi.scan, Or.inr ⟨rfl, index_toInt8 (hlt.trans_le hi.room), target d.scanList[index.toNat],
        ?_⟩, hi.abort, hi.room⟩
      rw [conns_nil hi (hfree hidle hlt)]
      rfl
    · exact fun hk _ _ => connEvt_of_kept hi hk

theorem deviceInfo_iff (hi : Held w) (info : DeviceInfo) :
    (AsAnswered w (.deviceInfo info) → Held (deferStep o w (.deviceInfo info))) ∧
      (Kept (deferStep o w (.deviceInfo info)) → AsAnswered w (.deviceInfo info)) := by
  obtain ⟨d, scans, conns, abort⟩ := w
  have hroom := room_device o info hi.room
  rcases device_cases o d info with ⟨hhit, he⟩ | ⟨hno, -⟩
  · have hstep : deferStep o ⟨d, scans, conns, abort⟩ (.deviceInfo info) =
        ⟨step o d (.deviceInfo info), scans, conns ++ [⟨info.addr, info.addrType⟩], abort⟩ := by
      rw [deferStep, connsAfter, if_pos hhit]
      rfl
    rw [hstep]
    constructor
    · intro hfree
      rw [conns_nil hi (hfree hhit)]
      dsimp only at hroom
      rw [he] at hroom ⊢
      exact ⟨hi.scan, Or.inr ⟨rfl, (index_byte _ (scanPos_lt hi.room hhit.2.2.1)).1, _, rfl⟩, hi.abort,
        hroom⟩
    · exact fun hk _ => connEvt_of_kept hi hk
  · have hstep : deferStep o ⟨d, scans, conns, abort⟩ (.deviceInfo info) =
        ⟨step o d (.deviceInfo info), scans, conns, abort⟩ := by
      rw [deferStep, connsAfter, if_neg hno]
      rfl
    rw [hstep]
    exact ⟨fun _ => held_same hi (sameRequests_device hno) Or.inl, fun _ hhit => absurd hhit hno⟩

theorem task_eq (o : Build) (a : GapAnswers) (w : History) :
    deferStep o w (.task a) =
      ⟨dglProcessEvent a w.dongle, (begun w.dongle).elim w.scans w.scans.erase,
        (attempted w.dongle).elim w.conns w.conns.erase,
        if Aborts w.dongle then none else w.abort⟩ := rfl

theorem begun_eq_none (h : turn d ≠ .scan) : begun d = none := if_neg fun hd => h hd.1

theorem attempted_eq_none (h : turn d ≠ .conn) : attempted d = none := if_neg fun hd => h hd.1

theorem task_auto (hi : Held w) (a : GapAnswers) (ht : turn w.dongle = .auto) :
    (AsAnswered w (.task a) → Held (deferStep o w (.task a))) ∧
      (Kept (deferStep o w (.task a)) → AsAnswered w (.task a)) := by
  obtain ⟨d, scans, conns, abort⟩ := w
  change turn d = .auto at ht
  obtain ⟨st, t, air, he, hset⟩ := autoEvent_eq a { d with autoEvt := d.autoEvt.clear }
  have hscan : turn d ≠ .scan := by rw [ht]; decide
  have hconn : turn d ≠ .conn := by rw [ht]; decide
  rw [task_eq, processEvent_eq, begun_eq_none hscan, attempted_eq_none hconn]
  dsimp only [Option.elim]
  rw [ht]
  dsimp only
  rw [he]
  constructor
  · intro hans
    have hnone : (if Aborts d then none else abort) = none := by
      split_ifs with habort
      · rfl
      · by_contra hne
        obtain ⟨hs, hheld⟩ := hans.1 ht hne
        exact habort ⟨ht, hs, hheld⟩
    rw [hnone]
    exact ⟨hi.scan, hi.conn, fun h => absurd rfl h, hi.room⟩
  · intro hk
    refine ⟨fun _ hne => ?_, fun h => absurd h hscan, fun h => absurd h hconn⟩
    by_contra hno
    have hstays : (if Aborts d then none else abort) = abort := if_neg fun habort => hno habort.2
    have hevt := hk.abort (by rw [hstays]; exact hne)
    exact Bool.false_ne_true (hset.symm.trans hevt)

theorem erase_singleton_iff {α : Type*} [DecidableEq α] {x y : α} : [x].erase y = [] ↔ x = y := by
  by_cases h : x = y
  · simp [h]
  · simp [h]

theorem task_scan (hi : Held w) (a : GapAnswers) (ht : turn w.dongle = .scan) :
    (AsAnswered w (.task a) → Held (deferStep o w (.task a))) ∧
      (Kept (deferStep o w (.task a)) → AsAnswered w (.task a)) := by
  obtain ⟨d, scans, conns, abort⟩ := w
  change turn d = .scan at ht
  have hauto : turn d ≠ .auto := by rw [ht]; decide
  have hconn : turn d ≠ .conn := by rw [ht]; decide
  obtain ⟨r, hs, hnonneg, hsec, hfilter⟩ := hi.scanEvt_of (turn_scan ht)
  change scans = [r] at hs
  subst hs
  change d.filter = r.filter.take dglNameLen at hfilter
  have hbegun (hidle : d.state = .idle) : begun d = some ⟨r.seconds, r.filter.take dglNameLen⟩ := by
    rw [begun, if_pos ⟨ht, hidle, hnonneg⟩, hfilter, ← hsec]
  rw [task_eq, processEvent_eq, attempted_eq_none hconn,
    if_neg (show ¬ Aborts _ from fun h => hauto h.1)]
  dsimp only [Option.elim]
  rw [ht]
  dsimp only
  constructor
  · intro hans
    obtain ⟨hidle, hshort⟩ := hans.2.1 ht
    have hown : r.filter.take dglNameLen = r.filter :=
      List.take_of_length_le (hshort r (List.mem_singleton_self r))
    rw [hbegun hidle, hown, scanEvent, if_pos ⟨hidle, hnonneg⟩]
    exact ⟨Or.inl ⟨rfl, erase_singleton_iff.mpr rfl⟩, hi.conn, hi.abort, Nat.zero_le _⟩
  · intro hk
    obtain ⟨st, list, air, p, he⟩ := scanEvent_eq a { d with scanEvt := false }
    rw [he] at hk
    have hgone := List.length_eq_zero_iff.mp (Nat.le_zero.mp hk.scans)
    refine ⟨fun h => absurd h hauto, fun _ => ?_, fun h => absurd h hconn⟩
    have hidle : d.state = .idle := by
      by_contra hne
      have hnone : begun d = none := if_neg fun h => hne h.2.1
      rw [hnone] at hgone
      exact absurd hgone (List.cons_ne_nil r [])
    refine ⟨hidle, fun r' hr' => ?_⟩
    rw [hbegun hidle] at hgone
    have hown := congrArg Request.filter (erase_singleton_iff.mp hgone)
    rw [List.mem_singleton.mp hr']
    exact List.take_eq_self_iff _ |>.mp hown.symm

theorem task_conn (hi : Held w) (a : GapAnswers) (ht : turn w.dongle = .conn) :
    (AsAnswered w (.task a) → Held (deferStep o w (.task a))) ∧
      (Kept (deferStep o w (.task a)) → AsAnswered w (.task a)) := by
  obtain ⟨d, scans, conns, abort⟩ := w
  change turn d = .conn at ht
  have hauto : turn d ≠ .auto := by rw [ht]; decide
  have hscan : turn d ≠ .scan := by rw [ht]; decide
  obtain ⟨hnonneg, t, hc⟩ := hi.connEvt_of (turn_conn ht)
  change conns = [t] at hc
  subst hc
  obtain ⟨st, timeout, air, p, hconn, -⟩ := connEvent_eq a { d with connEvt := false }
  rw [task_eq, processEvent_eq, begun_eq_none hscan,
    if_neg (show ¬ Aborts d from fun h => hauto h.1)]
  dsimp only [Option.elim]
  rw [ht]
  dsimp only
  rw [hconn]
  constructor
  · intro hans
    obtain ⟨hidle, hentry⟩ := hans.2.2 ht
    have hown : attempted d = some t := by
      rw [attempted, if_pos ⟨ht, hidle, hnonneg⟩]
      exact hentry t (List.mem_singleton_self t)
    rw [hown]
    exact ⟨hi.scan, Or.inl ⟨rfl, erase_singleton_iff.mpr rfl⟩, hi.abort, hi.room⟩
  · intro hk
    have hgone := List.length_eq_zero_iff.mp (Nat.le_zero.mp hk.conns)
    refine ⟨fun h => absurd h hauto, fun h => absurd h hscan, fun _ => ?_⟩
    have hidle : d.state = .idle := by
      by_contra hne
      have hnone : attempted d = none := if_neg fun h => hne h.2.1
      dsimp only at hgone
      rw [hnone] at hgone
      exact absurd hgone (List.cons_ne_nil t [])
    refine ⟨hidle, fun t' ht' => ?_⟩
    rw [List.mem_singleton.mp ht']
    have hatt : attempted d = (d.scanList[d.pendConnIdx.toNatClampNeg]?).map target :=
      if_pos ⟨ht, hidle, hnonneg⟩
    dsimp only at hgone ⊢
    rw [← hatt]
    cases hx : attempted d with
    | none =>
      rw [hx] at hgone
      exact absurd hgone (List.cons_ne_nil t [])
    | some x =>
      rw [hx] at hgone
      rw [erase_singleton_iff.mp hgone]

theorem task_iff (hi : Held w) (a : GapAnswers) :
    (AsAnswered w (.task a) → Held (deferStep o w (.task a))) ∧
      (Kept (deferStep o w (.task a)) → AsAnswered w (.task a)) := by
  by_cases hauto : turn w.dongle = .auto
  · exact task_auto hi a hauto
  by_cases hscan : turn w.dongle = .scan
  · exact task_scan hi a hscan
  by_cases hconn : turn w.dongle = .conn
  · exact task_conn hi a hconn
  refine ⟨fun _ => ?_, fun _ =>
    ⟨fun h => absurd h hauto, fun h => absurd h hscan, fun h => absurd h hconn⟩⟩
  rw [task_eq, begun_eq_none hscan, attempted_eq_none hconn,
    if_neg (show ¬ Aborts _ from fun h => hauto h.1)]
  exact held_same hi (sameRequests_task a hauto hscan hconn) Or.inl

/-- A step keeps the commands exactly when it meets the condition. -/
theorem step_iff (hi : Held w) (e : Event) :
    (AsAnswered w e → Held (deferStep o w e)) ∧ (Kept (deferStep o w e) → AsAnswered w e) := by
  cases e with
  | deviceInfo info => exact deviceInfo_iff hi info
  | task a => exact task_iff hi a
  | btScan sec filter => exact btScan_iff hi sec filter
  | btConnWatch isMac addr name timeoutS => exact btConnWatch_iff hi isMac addr name timeoutS
  | btConnIndex index => exact btConnIndex_iff hi index
  | gatt | deviceInitDone | directDeviceInfo | discoveryDone | linkEstablished | linkTerminated
  | pairState | expire | btDisc | btAuto | btPair | btBatt =>
    exact ⟨fun _ => held_quiet rfl hi, fun _ => trivial⟩

end Invariant

section Turns

variable {o : Build} {d : Dongle}

/-- How many events of the task are set. -/
def waiting (d : Dongle) : ℕ :=
  d.client.svcDiscEvt.isSet.toNat + d.autoEvt.isSet.toNat + d.linkTimeoutEvt.isSet.toNat +
    d.scanEvt.toNat + d.connEvt.toNat

theorem isSet_startSvcDiscovery (a : Answers) (c : Client) (connected : Bool) :
    (dglStartSvcDiscovery a c connected).svcDiscEvt.isSet = c.svcDiscEvt.isSet := by
  unfold dglStartSvcDiscovery dglDiscoveryFailed
  dsimp only
  split
  · rfl
  split
  · rfl
  · rfl

theorem waiting_task (a : GapAnswers) (d : Dongle) :
    waiting (dglProcessEvent a d) = waiting d - 1 := by
  unfold dglProcessEvent waiting
  split
  · rename_i h
    dsimp only
    split
    · rw [isSet_startSvcDiscovery, h]
      simp only [TaskEvent.clear, Bool.toNat_true, Bool.toNat_false]
      omega
    · rw [h]
      simp only [TaskEvent.clear, Bool.toNat_true, Bool.toNat_false]
      omega
  rename_i hsvc
  split
  · rename_i h
    obtain ⟨st, t, air, he, hset⟩ := autoEvent_eq a { d with autoEvt := d.autoEvt.clear }
    rw [he]
    dsimp only
    rw [hset, h]
    simp only [TaskEvent.clear, Bool.toNat_true, Bool.toNat_false]
    omega
  rename_i hauto
  split
  · rename_i h
    obtain ⟨st, air, he⟩ := linkTimeoutEvent_eq { d with linkTimeoutEvt := d.linkTimeoutEvt.clear }
    rw [he]
    dsimp only
    rw [h]
    simp only [TaskEvent.clear, Bool.toNat_true, Bool.toNat_false]
    omega
  rename_i htimeout
  split
  · rename_i h
    obtain ⟨st, list, air, p, he⟩ := scanEvent_eq a { d with scanEvt := false }
    rw [he]
    dsimp only
    rw [h]
    simp only [Bool.toNat_true, Bool.toNat_false]
    omega
  rename_i hscan
  split
  · rename_i h
    obtain ⟨st, t, air, p, he, hset⟩ := connEvent_eq a { d with connEvt := false }
    rw [he]
    dsimp only
    rw [hset, h]
    simp only [Bool.toNat_true, Bool.toNat_false]
    omega
  · rename_i hconn
    simp [hsvc, hauto, htimeout, hscan, hconn]

def calls (as : List GapAnswers) : List Event := as.map .task

theorem waiting_calls (o : Build) (w : History) (as : List GapAnswers) :
    waiting (final (deferStep o) w (calls as)).dongle = waiting w.dongle - as.length := by
  induction as generalizing w with
  | nil => rfl
  | cons a as ih =>
    rw [calls, List.map_cons, final_cons, ← calls, ih]
    change waiting (dglProcessEvent a w.dongle) - as.length = _
    rw [waiting_task, List.length_cons]
    omega

theorem waiting_le (d : Dongle) : waiting d ≤ 5 := by
  unfold waiting
  have h₁ := Bool.toNat_le d.client.svcDiscEvt.isSet
  have h₂ := Bool.toNat_le d.autoEvt.isSet
  have h₃ := Bool.toNat_le d.linkTimeoutEvt.isSet
  have h₄ := Bool.toNat_le d.scanEvt
  have h₅ := Bool.toNat_le d.connEvt
  omega

/-- Nothing that was answered OK is outstanding. -/
def CarriedOut (w : History) : Prop := w.scans = [] ∧ w.conns = [] ∧ w.abort = none

/-- A command that is kept is carried out when every event had its turn. -/
theorem carriedOut_calls {o : Build} {w : History} {as : List GapAnswers} (h5 : 5 ≤ as.length)
    (hk : Kept (final (deferStep o) w (calls as))) :
    CarriedOut (final (deferStep o) w (calls as)) := by
  have hnone : waiting (final (deferStep o) w (calls as)).dongle = 0 := by
    rw [waiting_calls]
    have := waiting_le w.dongle
    omega
  generalize final (deferStep o) w (calls as) = v at hk hnone
  unfold waiting at hnone
  have hscans := hk.scans
  have hconns := hk.conns
  refine ⟨List.length_eq_zero_iff.mp (by omega), List.length_eq_zero_iff.mp (by omega), ?_⟩
  by_contra hne
  rw [hk.abort hne] at hnone
  simp only [Bool.toNat_true] at hnone
  omega

end Turns

/-- No command is lost throughout a run if and only if none is taken while the event of another one
is set, and the task finds each as it was answered. Then five calls of the task carry all of them
out. -/
theorem deferred_commands_iff (o : Build) (es : List Event) :
    (Always (deferStep o) Kept (start o) es ↔ Along (deferStep o) AsAnswered (start o) es) ∧
      ∀ as : List GapAnswers, 5 ≤ as.length →
        Along (deferStep o) AsAnswered (start o) (es ++ calls as) →
        CarriedOut (final (deferStep o) (start o) (es ++ calls as)) := by
  have hiff (es : List Event) :
      Always (deferStep o) Kept (start o) es ↔ Along (deferStep o) AsAnswered (start o) es :=
    always_iff_along (fun _ hi => hi.kept) (fun _ e hi hP => (step_iff hi e).1 hP)
      (fun _ e hi hP hk => hP ((step_iff hi e).2 hk)) (held_start o)
  refine ⟨hiff es, fun as h5 hP => ?_⟩
  have hk := ((hiff (es ++ calls as)).mpr hP).final
  rw [final_append] at hk ⊢
  exact carriedOut_calls h5 hk

section Runs

def scanFirstRun : List Event :=
  [.btScan 5 [], .task {}, .deviceInfo ⟨fun _ => 1, 0, -40, true, []⟩, .discoveryDone,
    .btConnIndex 0, .btScan 5 [], .task {}, .task {}]

def kickedScanRun : List Event := [.btAuto true, .btScan 5 [], .task {}, .task {}]

/-- The connection and the scan are dropped. -/
theorem commands_are_lost :
    ¬ Kept (final (deferStep dglRelease) (start dglRelease) scanFirstRun) ∧
      ¬ Kept (final (deferStep dglRelease) (start dglRelease) kickedScanRun) := by
  constructor
  · intro h
    exact absurd h.conns (by decide +kernel)
  · intro h
    exact absurd h.scans (by decide +kernel)

end Runs

end AtNode.Central.Deferred
