import AtNode.Ch582.Dongle

/-!
# The watch flag of the dongle

`AT+BT_CONN` with an address or a name sets `dgl_watch_active` and asks for a scan; the task starts
the scan later, and the first device that fits is connected to. The end of the discovery and the
hit clear the flag. The other ways out of a scan, or out of the wait for its start, leave it set:
the automatic reconnection, the result of an old attempt, the end of a link, a plain `AT+BT_SCAN`
that takes the place of the request, and a discovery that the stack refuses.

`WatchHist` adds to the dongle for whom the pending scan was requested and the last discovery was
started.
-/

namespace AtNode.Central

open Run

variable {o : Build} {a : GapAnswers} {d d' : Dongle}

structure WatchHist where
  dongle : Dongle
  pendWatch : Bool
  scanWatch : Bool

def watchStep (o : Build) (w : WatchHist) (e : Event) : WatchHist where
  dongle := step o w.dongle e
  pendWatch :=
    match e with
    | .btConnWatch _ _ _ _ =>
      w.pendWatch || (w.dongle.state = .idle && !w.dongle.watchActive)
    | .btScan _ _ => w.pendWatch && w.dongle.state ≠ .idle
    | _ => w.pendWatch
  scanWatch :=
    match e with
    | .task a =>
      if scanDue w.dongle then w.pendWatch && a.startDiscovery = success else w.scanWatch
    | _ => w.scanWatch

/-- The flag is set only while the scan of a watch runs or is about to start. -/
def WatchLive (w : WatchHist) : Prop :=
  w.dongle.watchActive = true →
    (w.dongle.state = .scanning ∧ w.dongle.air.discovering = true ∧ w.scanWatch = true) ∨
    (w.dongle.state = .idle ∧ w.dongle.scanEvt = true ∧ 0 ≤ w.dongle.pendScanSec ∧
      w.pendWatch = true)

/-- While the flag is set, no other route leaves the scan or the wait for its start. -/
def KeepsWatch (d : Dongle) : Event → Prop
  | .task a => d.watchActive = true →
      ¬ (d.client.svcDiscEvt.isSet = false ∧ d.autoEvt.isSet = true ∧ kicks a d = true) ∧
      (scanDue d = true → a.startDiscovery = success)
  | .linkEstablished t status handle => d.watchActive = true →
      t ∈ d.air.attempts → (status = success → FreshHandle d handle) →
      status ≠ success ∧ d.state ≠ .scanning
  | .linkTerminated handle _ => d.watchActive = true →
      (∃ l ∈ d.air.links, l.handle = handle) → d.state ≠ .scanning
  | .btScan _ _ => d.watchActive = true → d.state ≠ .idle
  | _ => True

structure SameWatch (d d' : Dongle) : Prop where
  state : d'.state = d.state
  watchActive : d'.watchActive = d.watchActive
  scanEvt : d'.scanEvt = d.scanEvt
  pendScanSec : d'.pendScanSec = d.pendScanSec
  discovering : d'.air.discovering = d.air.discovering

theorem SameWatch.refl (d : Dongle) : SameWatch d d := ⟨rfl, rfl, rfl, rfl, rfl⟩

theorem live_same {p s : Bool} (hl : WatchLive ⟨d, p, s⟩) (h : SameWatch d d') :
    WatchLive ⟨d', p, s⟩ := by
  intro hact
  have hold := hl (h.watchActive ▸ hact)
  dsimp only at hold ⊢
  rw [h.state, h.discovering, h.scanEvt, h.pendScanSec]
  exact hold

theorem live_off {p s : Bool} (h : d.watchActive = false) : WatchLive ⟨d, p, s⟩ :=
  fun hact => nomatch h.symm.trans hact

def Event.noWatch : Event → Bool
  | .deviceInitDone | .directDeviceInfo .. | .pairState .. | .expire _ | .btConnIndex _ | .btDisc _
  | .btAuto _ | .btPair _ | .btBatt _ => true
  | _ => false

theorem sameWatch_disconnect (a : GapAnswers) (d : Dongle) :
    SameWatch d (bleDongleDisconnect a d).1 := by
  unfold bleDongleDisconnect terminateLink
  split
  · exact ⟨rfl, rfl, rfl, rfl, rfl⟩
  split
  · exact .refl d
  split
  · exact ⟨rfl, rfl, rfl, rfl, rfl⟩
  · exact ⟨rfl, rfl, rfl, rfl, rfl⟩

theorem sameWatch_step {e : Event} (he : e.noWatch = true) : SameWatch d (step o d e) := by
  cases e with
  | deviceInitDone => exact ⟨rfl, rfl, rfl, rfl, rfl⟩
  | directDeviceInfo addr addrType rssi =>
    rw [step]
    unfold directDeviceInfo
    split
    · exact ⟨rfl, rfl, rfl, rfl, rfl⟩
    · exact .refl d
  | pairState state status =>
    rw [step]
    unfold dglPairStateCb
    split
    · exact ⟨rfl, rfl, rfl, rfl, rfl⟩
    · exact .refl d
  | expire t =>
    cases t with
    | svcDisc | auto | linkTimeout => exact ⟨rfl, rfl, rfl, rfl, rfl⟩
  | btConnIndex index =>
    rw [step]
    unfold bleDongleConnect
    split
    · exact .refl d
    · exact ⟨rfl, rfl, rfl, rfl, rfl⟩
  | btDisc a => exact sameWatch_disconnect a d
  | btAuto mode => exact ⟨rfl, rfl, rfl, rfl, rfl⟩
  | btPair a =>
    have h := sameWatch_disconnect a d
    exact ⟨h.state, h.watchActive, h.scanEvt, h.pendScanSec, h.discovering⟩
  | btBatt a =>
    rw [step]
    unfold bleDongleBattRead
    split
    · exact .refl d
    split
    · exact ⟨rfl, rfl, rfl, rfl, rfl⟩
    · exact .refl d
  | gatt | deviceInfo | discoveryDone | linkEstablished | linkTerminated | task | btScan
  | btConnWatch => exact absurd he Bool.false_ne_true

theorem sameWatch_gatt (m : GattMsg) (last : Bool) (hr : DownReset d)
    (hdown : d.state.linkUp = false) : SameWatch d (step o d (.gatt m last a)) := by
  obtain ⟨p, en, hrec⟩ := received_eq d m last
  rw [step, gatt_down o a m last hr hdown, hrec]
  exact ⟨rfl, rfl, rfl, rfl, rfl⟩

/-- A running scan has taken its request. -/
def ScanTaken (d : Dongle) : Prop := d.state = .scanning → d.scanEvt = false

theorem scanTaken_of_state (hs : d.state ≠ .scanning) : ScanTaken d := fun h => absurd h hs

theorem scanTaken_same (hi : ScanTaken d) (h : SameWatch d d') : ScanTaken d' := by
  intro hs
  rw [h.scanEvt]
  exact hi (h.state ▸ hs)

theorem scanTaken_scan (hi : ScanTaken d) (seconds : UInt8) (filter : List UInt8) :
    ScanTaken (bleDongleScan d seconds filter).1 := by
  unfold bleDongleScan
  split
  · exact hi
  · rename_i h
    refine scanTaken_of_state ?_
    rw [show d.state = .idle from not_not.mp h]
    exact nofun

theorem scanTaken_addScanRec (hi : ScanTaken d) (info : DeviceInfo) :
    ScanTaken (dglAddScanRec d info) := by
  unfold dglAddScanRec
  split
  · exact hi
  split
  · exact hi
  split
  · exact hi
  split
  · exact hi
  dsimp only
  split
  · exact scanTaken_of_state nofun
  · exact hi

theorem scanTaken_task (hi : ScanTaken d) : ScanTaken (dglProcessEvent a d) := by
  rcases task_eq a d with ⟨-, c, h⟩ | ⟨-, -, h⟩ | ⟨-, -, -, h⟩ | ⟨-, -, -, -, h⟩ | ⟨-, -, h⟩ |
    ⟨-, h⟩
  · rw [h]
    exact hi
  · rw [h]
    unfold autoEvent
    split
    · exact scanTaken_of_state nofun
    rcases autoKick_cases a { d with autoEvt := d.autoEvt.clear } with ⟨-, -, hk⟩ | ⟨-, t, hk⟩
    · rw [hk]
      exact scanTaken_of_state nofun
    · rw [hk]
      exact hi
  · rw [h]
    unfold linkTimeoutEvent
    split
    · exact scanTaken_of_state nofun
    · exact hi
  · rw [h]
    unfold scanEvent
    split
    · exact fun _ => rfl
    · exact fun _ => rfl
  · rw [h]
    unfold connEvent establishLink
    split
    · split
      · exact scanTaken_of_state nofun
      · exact scanTaken_of_state nofun
    · exact hi
  · rw [h]
    exact hi

theorem scanTaken_linkEstablished (d : Dongle) (status : UInt8) (handle : UInt16) :
    ScanTaken (linkEstablished d status handle) := by
  by_cases hs : status = success
  · rw [hs, linkEstablished_success]
    exact scanTaken_of_state nofun
  · obtain ⟨f, hold, -, h⟩ := linkEstablished_failed d hs handle
    rw [h]
    exact scanTaken_of_state nofun

theorem scanTaken_linkTerminated (d : Dongle) : ScanTaken (linkTerminated d) := by
  obtain ⟨f, hold, -, h⟩ := linkTerminated_eq d
  rw [h]
  exact scanTaken_of_state nofun

theorem scanTaken_discoveryDone (d : Dongle) : ScanTaken (discoveryDone d) := by
  refine scanTaken_of_state ?_
  change (if d.state = .scanning then DglState.idle else d.state) ≠ .scanning
  split
  · exact nofun
  · assumption

theorem scanTaken_gatt (hi : ScanTaken d) (m : GattMsg) (last : Bool) :
    ScanTaken (dglProcessGattMsg o a (received d m last) m) := by
  obtain ⟨p, en, hrec⟩ := received_eq d m last
  obtain ⟨s, c, f, u, he, hs, -⟩ := gatt_eq o a (received d m last) m
  rw [he, hrec]
  rcases hs with h | ⟨h, -⟩
  · rw [h, hrec]
    exact hi
  · rw [h]
    exact scanTaken_of_state nofun

theorem scanTaken_step (o : Build) (d : Dongle) (e : Event) (hi : ScanTaken d) :
    ScanTaken (step o d e) := by
  cases e with
  | gatt m last a => exact scanTaken_gatt hi m last
  | deviceInfo info =>
    rw [step]
    split
    · exact scanTaken_addScanRec hi info
    · exact hi
  | discoveryDone => exact scanTaken_discoveryDone _
  | linkEstablished t status handle =>
    rw [step]
    split
    · exact scanTaken_linkEstablished _ status handle
    · exact hi
  | linkTerminated handle reason =>
    rw [step]
    split
    · exact scanTaken_linkTerminated _
    · exact hi
  | task a => exact scanTaken_task hi
  | btScan sec filter => exact scanTaken_scan hi _ filter
  | btConnWatch isMac addr name timeoutS =>
    rw [step]
    unfold bleDongleConnectWatch
    split
    · exact hi
    · refine scanTaken_scan ?_ _ _
      exact hi
  | deviceInitDone | directDeviceInfo | pairState | expire | btConnIndex | btDisc | btAuto | btPair
  | btBatt => exact scanTaken_same hi (sameWatch_step rfl)

structure WatchInv (w : WatchHist) : Prop where
  live : WatchLive w
  taken : ScanTaken w.dongle
  reset : DownReset w.dongle

theorem seconds_byte {s : UInt8} (hpos : 1 ≤ s.toNat) (hle : s.toNat ≤ 30) :
    s ≠ 0 ∧ 0 ≤ s.toInt8 ∧ s.toInt8.toInt = s.toNat := by
  have hint : s.toInt8.toInt = s.toNat :=
    BitVec.toInt_eq_toNat_of_lt (Nat.lt_of_le_of_lt (Nat.mul_le_mul_left 2 hle) (by decide))
  refine ⟨?_, ?_, hint⟩
  · rintro rfl
    exact absurd hpos (by decide)
  · rw [Int8.le_iff_toInt_le, hint]
    exact Int.natCast_nonneg _

theorem seconds_watch (timeoutS : UInt8) :
    1 ≤ (max 1 (min timeoutS 30)).toNat ∧ (max 1 (min timeoutS 30)).toNat ≤ 30 := by
  have hmin : (min timeoutS 30).toNat ≤ 30 := by
    change (if timeoutS ≤ 30 then timeoutS else 30).toNat ≤ 30
    split
    · rename_i h
      exact UInt8.le_iff_toNat_le.mp h
    · exact Nat.le_refl 30
  change 1 ≤ (if 1 ≤ min timeoutS 30 then min timeoutS 30 else 1).toNat ∧
    (if 1 ≤ min timeoutS 30 then min timeoutS 30 else 1).toNat ≤ 30
  split
  · rename_i h
    exact ⟨UInt8.le_iff_toNat_le.mp h, hmin⟩
  · decide

section Live

variable {p s : Bool}

theorem live_linkDown (hl : WatchLive ⟨d, p, s⟩) (hact : d.watchActive = true) :
    d.state.linkUp = false := by
  rcases hl hact with ⟨hs, -⟩ | ⟨hs, -⟩
  · rw [show d.state = .scanning from hs]
    rfl
  · rw [show d.state = .idle from hs]
    rfl

theorem live_addScanRec (hl : WatchLive ⟨d, p, s⟩) (info : DeviceInfo) :
    WatchLive ⟨dglAddScanRec d info, p, s⟩ := by
  unfold dglAddScanRec
  split
  · exact hl
  split
  · exact hl
  split
  · exact live_same hl ⟨rfl, rfl, rfl, rfl, rfl⟩
  split
  · exact hl
  dsimp only
  split
  · exact live_off rfl
  · exact live_same hl ⟨rfl, rfl, rfl, rfl, rfl⟩

theorem live_connectWatch (hl : WatchLive ⟨d, p, s⟩) (isMac : Bool) (addr : Addr)
    (name : List UInt8) (timeoutS : UInt8) :
    WatchLive ⟨(bleDongleConnectWatch d isMac addr name timeoutS).1,
      p || (d.state = .idle && !d.watchActive), s⟩ := by
  unfold bleDongleConnectWatch
  split
  · rename_i hno
    have hghost : (p || (d.state = .idle && !d.watchActive)) = p := by
      rcases hno with h | h
      · rw [decide_eq_false h, Bool.false_and, Bool.or_false]
      · rw [h, Bool.not_true, Bool.and_false, Bool.or_false]
    rw [hghost]
    exact hl
  · rename_i hgo
    rw [not_or, not_not, Bool.not_eq_true] at hgo
    unfold bleDongleScan
    rw [if_neg (not_not.mpr hgo.1)]
    intro _
    refine Or.inr ⟨hgo.1, rfl, ?_, ?_⟩
    · change 0 ≤ (if max 1 (min timeoutS 30) = 0 then 5 else max 1 (min timeoutS 30)).toInt8
      split
      · decide
      · obtain ⟨hpos, hle⟩ := seconds_watch timeoutS
        exact (seconds_byte hpos hle).2.1
    · change (p || (decide (d.state = .idle) && !d.watchActive)) = true
      rw [hgo.1, hgo.2]
      exact Bool.or_true p

theorem watchActive_task (a : GapAnswers) (d : Dongle) :
    (dglProcessEvent a d).watchActive = d.watchActive := by
  rcases task_eq a d with ⟨-, c, h⟩ | ⟨-, -, h⟩ | ⟨-, -, -, h⟩ | ⟨-, -, -, -, h⟩ | ⟨-, -, h⟩ |
    ⟨-, h⟩
  · rw [h]
  · obtain ⟨st, t, air, he, -⟩ := autoEvent_eq a { d with autoEvt := d.autoEvt.clear }
    rw [h, he]
  · obtain ⟨st, air, he⟩ := linkTimeoutEvent_eq { d with linkTimeoutEvt := d.linkTimeoutEvt.clear }
    rw [h, he]
  · obtain ⟨st, list, air, p, he⟩ := scanEvent_eq a { d with scanEvt := false }
    rw [h, he]
  · obtain ⟨st, t, air, p, he, -⟩ := connEvent_eq a { d with connEvt := false }
    rw [h, he]
  · rw [h]

theorem sameWatch_task_scanning (a : GapAnswers) (hs : d.state = .scanning) (ht : ScanTaken d) :
    SameWatch d (dglProcessEvent a d) := by
  rcases task_eq a d with ⟨-, c, h⟩ | ⟨-, -, h⟩ | ⟨-, -, -, h⟩ | ⟨-, -, -, hscan, h⟩ | ⟨-, -, h⟩ |
    ⟨-, h⟩
  · rw [h]
    exact ⟨rfl, rfl, rfl, rfl, rfl⟩
  · have hne : d.state ≠ .autoconn := by rw [hs]; decide
    rw [h, autoEvent_of_ne]
    · rcases autoKick_cases a { d with autoEvt := d.autoEvt.clear } with ⟨-, hidle, -⟩ | ⟨-, t, hk⟩
      · exact nomatch hs.symm.trans hidle
      · rw [hk]
        exact ⟨rfl, rfl, rfl, rfl, rfl⟩
    · exact hne
  · have hne : d.state ≠ .connecting := by rw [hs]; decide
    rw [h, linkTimeoutEvent_of_ne]
    · exact ⟨rfl, rfl, rfl, rfl, rfl⟩
    · exact hne
  · exact nomatch (ht hs).symm.trans hscan
  · have hne : d.state ≠ .idle := by rw [hs]; decide
    rw [h, connEvent_of_ne]
    · exact ⟨rfl, rfl, rfl, rfl, rfl⟩
    · exact hne
  · rw [h]
    exact .refl d

theorem keepsWatch_task_iff (hact : d.watchActive = true) :
    KeepsWatch d (.task a) ↔
      ¬ (d.client.svcDiscEvt.isSet = false ∧ d.autoEvt.isSet = true ∧ kicks a d = true) ∧
      (scanDue d = true → a.startDiscovery = success) :=
  ⟨fun h => h hact, fun h _ => h⟩

theorem kicks_idle (hk : kicks a d = true) : d.state = .idle := by
  unfold kicks at hk
  simp only [Bool.and_eq_true, decide_eq_true_eq] at hk
  exact hk.1.1.2

/-- One call of the task keeps the flag live unless it begins an attempt or is refused the scan. -/
theorem live_task (hl : WatchLive ⟨d, p, s⟩) (ht : ScanTaken d) :
    WatchLive ⟨dglProcessEvent a d, p,
        if scanDue d then p && a.startDiscovery = success else s⟩ ↔
      KeepsWatch d (.task a) := by
  by_cases hact : d.watchActive = true
  swap
  · have hoff : (dglProcessEvent a d).watchActive = false := by
      rw [watchActive_task]
      exact Bool.eq_false_iff.mpr hact
    exact iff_of_true (live_off hoff) fun h => absurd h hact
  rw [keepsWatch_task_iff hact]
  rcases hl hact with ⟨hs, -⟩ | ⟨hs, hevt, hsec, hp⟩
  · change d.state = .scanning at hs
    have hdue : scanDue d = false := by
      rw [Bool.eq_false_iff]
      intro hdue
      exact nomatch hs.symm.trans (scanDue_iff.mp hdue).2.2.2.2.1
    rw [hdue, if_neg Bool.false_ne_true]
    refine iff_of_true (live_same hl (sameWatch_task_scanning a hs ht)) ⟨?_, nofun⟩
    rintro ⟨-, -, hk⟩
    exact nomatch hs.symm.trans (kicks_idle hk)
  change d.state = .idle at hs
  change d.scanEvt = true at hevt
  rcases task_eq a d with ⟨hsvc, c, h⟩ | ⟨hsvc, hauto, h⟩ | ⟨hsvc, hauto, htimeout, h⟩ |
    ⟨hsvc, hauto, htimeout, -, h⟩ | ⟨hno, -⟩ | ⟨hno, -⟩
  · have hdue : scanDue d = false := by rw [scanDue, hsvc]; rfl
    rw [h, hdue, if_neg Bool.false_ne_true, hsvc]
    exact iff_of_true (live_same hl ⟨rfl, rfl, rfl, rfl, rfl⟩) ⟨nofun, nofun⟩
  · have hdue : scanDue d = false := by rw [scanDue, hsvc, hauto]; rfl
    have hne : d.state ≠ .autoconn := by rw [hs]; decide
    have hkick : autoEvent a { d with autoEvt := d.autoEvt.clear } =
        dglAutoKick a { d with autoEvt := d.autoEvt.clear } := autoEvent_of_ne hne
    rw [h, hdue, if_neg Bool.false_ne_true, hkick]
    rcases autoKick_cases a { d with autoEvt := d.autoEvt.clear } with ⟨hk, -, he⟩ | ⟨hk, t, he⟩
    · rw [he]
      refine iff_of_false ?_ fun hkeep => hkeep.1 ⟨hsvc, hauto, hk⟩
      intro hlive
      rcases hlive hact with ⟨hst, -⟩ | ⟨hst, -⟩
      · cases hst
      · cases hst
    · rw [he]
      refine iff_of_true (live_same hl ⟨rfl, rfl, rfl, rfl, rfl⟩) ⟨?_, nofun⟩
      rintro ⟨-, -, hk'⟩
      exact nomatch hk.symm.trans hk'
  · have hdue : scanDue d = false := by rw [scanDue, hsvc, hauto, htimeout]; rfl
    have hne : d.state ≠ .connecting := by rw [hs]; decide
    have htime : linkTimeoutEvent { d with linkTimeoutEvt := d.linkTimeoutEvt.clear } =
        { d with linkTimeoutEvt := d.linkTimeoutEvt.clear } := linkTimeoutEvent_of_ne hne
    rw [h, hdue, if_neg Bool.false_ne_true, htime, hauto]
    exact iff_of_true (live_same hl ⟨rfl, rfl, rfl, rfl, rfl⟩) ⟨nofun, nofun⟩
  · have hdue : scanDue d = true := scanDue_iff.mpr ⟨hsvc, hauto, htimeout, hevt, hs, hsec⟩
    rw [h, hdue, if_pos rfl, scanEvent, if_pos ⟨hs, hsec⟩, hauto]
    constructor
    · intro hlive
      refine ⟨nofun, fun _ => ?_⟩
      rcases hlive hact with ⟨-, -, hghost⟩ | ⟨hst, -⟩
      · change (p && decide (a.startDiscovery = success)) = true at hghost
        rw [Bool.and_eq_true, decide_eq_true_eq] at hghost
        exact hghost.2
      · cases hst
    · rintro ⟨-, hgo⟩ -
      refine Or.inl ⟨rfl, if_pos (hgo rfl), ?_⟩
      change (p && decide (a.startDiscovery = success)) = true
      rw [Bool.and_eq_true, decide_eq_true_eq]
      exact ⟨hp, hgo rfl⟩
  · exact nomatch hno.symm.trans hevt
  · exact nomatch hno.symm.trans hevt

theorem live_iff_off (hs : d.state ≠ .scanning) (hi : d.state ≠ .idle) :
    WatchLive ⟨d, p, s⟩ ↔ d.watchActive = false := by
  constructor
  · intro hl
    rw [Bool.eq_false_iff]
    intro hact
    rcases hl hact with ⟨h, -⟩ | ⟨h, -⟩
    · exact hs h
    · exact hi h
  · exact live_off

theorem live_idle (hl : WatchLive ⟨d, p, s⟩) (ht : ScanTaken d) (hs : d'.state = .idle)
    (hact : d'.watchActive = d.watchActive) (hevt : d'.scanEvt = d.scanEvt)
    (hsec : d'.pendScanSec = d.pendScanSec) :
    WatchLive ⟨d', p, s⟩ ↔ (d.watchActive = true → d.state ≠ .scanning) := by
  constructor
  · intro hl' hon hscan
    rcases hl' (hact.trans hon) with ⟨h, -⟩ | ⟨-, h, -⟩
    · exact nomatch hs.symm.trans h
    · exact nomatch (ht hscan).symm.trans (hevt.symm.trans h)
  · intro hne hon
    have hon' : d.watchActive = true := hact.symm.trans hon
    rcases hl hon' with ⟨h, -⟩ | ⟨-, h, h', h''⟩
    · exact absurd h (hne hon')
    · exact Or.inr ⟨hs, hevt.trans h, by rw [hsec]; exact h', h''⟩

theorem live_success (d : Dongle) (handle : UInt16) (p s : Bool) :
    WatchLive ⟨linkEstablished d success handle, p, s⟩ ↔ d.watchActive = false := by
  rw [linkEstablished_success]
  exact live_iff_off nofun nofun

theorem live_linkEstablished (hl : WatchLive ⟨d, p, s⟩) (ht : ScanTaken d) (t : Attempt)
    (status : UInt8) (handle : UInt16) :
    WatchLive ⟨step o d (.linkEstablished t status handle), p, s⟩ ↔
      KeepsWatch d (.linkEstablished t status handle) := by
  rw [step]
  split
  · rename_i hgo
    by_cases hs : status = success
    · rw [hs] at hgo ⊢
      refine Iff.trans (live_success _ handle p s) ?_
      constructor
      · intro hoff hact
        exact absurd (hoff.symm.trans hact) Bool.false_ne_true
      · intro hkeep
        rw [Bool.eq_false_iff]
        intro hact
        exact (hkeep hact hgo.1 hgo.2).1 rfl
    · obtain ⟨f, hold, -, h⟩ := linkEstablished_failed (reported d t status handle) hs handle
      rw [h]
      refine Iff.trans (live_idle hl ht rfl rfl rfl rfl) ?_
      constructor
      · intro hne hact _ _
        exact ⟨hs, hne hact⟩
      · intro hkeep hact
        exact (hkeep hact hgo.1 hgo.2).2
  · rename_i hno
    exact iff_of_true hl fun _ hmem hfresh => absurd ⟨hmem, hfresh⟩ hno

theorem live_linkTerminated (hl : WatchLive ⟨d, p, s⟩) (ht : ScanTaken d) (handle : UInt16)
    (reason : UInt8) :
    WatchLive ⟨step o d (.linkTerminated handle reason), p, s⟩ ↔
      KeepsWatch d (.linkTerminated handle reason) := by
  rw [step]
  split
  · rename_i hgo
    obtain ⟨f, hold, -, h⟩ := linkTerminated_eq (ended d handle)
    rw [h]
    refine Iff.trans (live_idle hl ht rfl rfl rfl rfl) ?_
    constructor
    · intro hne hact _
      exact hne hact
    · intro hkeep hact
      exact hkeep hact hgo
  · rename_i hno
    exact iff_of_true hl fun _ hmem => absurd hmem hno

theorem live_scan (hl : WatchLive ⟨d, p, s⟩) (sec : ℤ) (filter : List UInt8) :
    WatchLive ⟨step o d (.btScan sec filter), p && d.state ≠ .idle, s⟩ ↔
      KeepsWatch d (.btScan sec filter) := by
  rw [step, btScanDgl, bleDongleScan]
  split
  · rename_i hs
    have hghost : (p && decide (d.state ≠ .idle)) = p := by
      rw [decide_eq_true hs, Bool.and_true]
    rw [hghost]
    exact iff_of_true hl fun _ => hs
  · rename_i hs
    have hidle : d.state = .idle := not_not.mp hs
    constructor
    · intro hl' hact
      rcases hl' hact with ⟨h, -⟩ | ⟨-, -, -, h⟩
      · exact absurd (hidle.symm.trans h) (by decide)
      · change (p && decide (d.state ≠ .idle)) = true at h
        rw [Bool.and_eq_true, decide_eq_true_eq] at h
        exact h.2
    · intro hkeep
      refine live_off (Bool.eq_false_iff.mpr fun hact => ?_)
      exact hkeep hact hidle

theorem live_gatt (hl : WatchLive ⟨d, p, s⟩) (hr : DownReset d) (m : GattMsg) (last : Bool) :
    WatchLive ⟨step o d (.gatt m last a), p, s⟩ := by
  by_cases hact : d.watchActive = true
  · exact live_same hl (sameWatch_gatt m last hr (live_linkDown hl hact))
  · obtain ⟨q, en, hrec⟩ := received_eq d m last
    obtain ⟨st, c, f, u, he, -⟩ := gatt_eq o a (received d m last) m
    refine live_off ?_
    rw [step, he, hrec]
    exact Bool.eq_false_iff.mpr hact

theorem live_step {w : WatchHist} (hi : WatchInv w) (e : Event) :
    WatchLive (watchStep o w e) ↔ KeepsWatch w.dongle e := by
  cases e with
  | gatt m last a => exact iff_of_true (live_gatt hi.live hi.reset m last) trivial
  | deviceInfo info =>
    refine iff_of_true ?_ trivial
    unfold watchStep
    rw [step]
    split
    · exact live_addScanRec hi.live info
    · exact hi.live
  | discoveryDone => exact iff_of_true (live_off rfl) trivial
  | linkEstablished t status handle => exact live_linkEstablished hi.live hi.taken t status handle
  | linkTerminated handle reason => exact live_linkTerminated hi.live hi.taken handle reason
  | task a => exact live_task hi.live hi.taken
  | btScan sec filter => exact live_scan hi.live sec filter
  | btConnWatch isMac addr name timeoutS =>
    exact iff_of_true (live_connectWatch hi.live isMac addr name timeoutS) trivial
  | deviceInitDone | directDeviceInfo | pairState | expire | btConnIndex | btDisc | btAuto | btPair
  | btBatt => exact iff_of_true (live_same hi.live (sameWatch_step rfl)) trivial

/-- The flag is live throughout a run if and only if, while it is set, no other route leaves the
scan or the wait for its start. -/
theorem watch_live_iff (o : Build) (es : List Event) :
    Always (watchStep o) WatchLive ⟨boot o, false, false⟩ es ↔
      Along (watchStep o) (fun w e => KeepsWatch w.dongle e) ⟨boot o, false, false⟩ es := by
  have hboot : WatchInv ⟨boot o, false, false⟩ :=
    ⟨live_off rfl, scanTaken_of_state nofun, fun _ => rfl⟩
  refine always_iff_along (fun w hi => hi.live) ?_ ?_ hboot
  · intro w e hi hP
    exact ⟨(live_step hi e).mpr hP, scanTaken_step o w.dongle e hi.taken,
      downReset_step o w.dongle e hi.reset⟩
  · intro w e hi hP hl
    exact hP ((live_step hi e).mp hl)

def kickedWatchRun : List Event :=
  [.btAuto true, .btConnWatch false (fun _ => 0) [0x4B] 10, .task {}]

/-- The flag stays set while the dongle connects to the bonded keyboard. -/
theorem watch_flag_stale :
    ¬ WatchLive (final (watchStep dglRelease) ⟨boot dglRelease, false, false⟩ kickedWatchRun) := by
  intro h
  have hauto : (final (watchStep dglRelease) ⟨boot dglRelease, false, false⟩
      kickedWatchRun).dongle.state = .autoconn := by decide +kernel
  rcases h (by decide +kernel) with ⟨hs, -⟩ | ⟨hs, -⟩
  · exact nomatch hauto.symm.trans hs
  · exact nomatch hauto.symm.trans hs

end Live

end AtNode.Central
