import AtNode.Ch582.Dongle

/-!
# What the dongle waits for

While it brings a link up the dongle waits for the answer to a procedure of the stack, or for its
own start or retry event; while it scans it waits for the end of a discovery. Only the start of the
service discovery looks at what the stack returns, so a call refused anywhere else leaves the dongle
waiting for an answer that does not come. So does an answer by which the dongle does not see that a
procedure has ended.
-/

namespace AtNode.Central

open Run

variable {o : Build} {a : GapAnswers} {d : Dongle}

section Client

variable {c : Client} {m : GattMsg}

def Procedure.isWrite : Procedure → Bool
  | .writeCharValue _ _ _ => true
  | _ => false

def WritesCccd (c : Client) : Prop :=
  ∀ p ∈ c.procedure, p.isWrite = true → c.link.discState = .cccd ∧ c.link.cccdList ≠ []

/-- The client of a link that is being brought up. -/
structure Waits (c : Client) : Prop where
  outstanding : c.link.discState ≠ .idle → c.procedure ≠ none
  write : WritesCccd c
  reading : c.link.battReading = false

/-- The stack accepts what the bring-up asks for. -/
structure Granted (a : Answers) : Prop where
  readUsingCharUuid : a.readUsingCharUuid = success
  bmAlloc : a.bmAlloc = true
  writeCharValue : a.writeCharValue = success

instance (a : Answers) : Decidable (Granted a) :=
  decidable_of_iff (a.readUsingCharUuid = success ∧ a.bmAlloc = true ∧ a.writeCharValue = success)
    ⟨fun h => ⟨h.1, h.2.1, h.2.2⟩, fun h => ⟨h.1, h.2, h.3⟩⟩

theorem findChar_granted {a : Answers} (hg : Granted a) (c : Client) (uuid : UInt16)
    (next : DiscState) :
    dglFindChar a c uuid next =
      { c with
        link := { c.link with discState := next }
        procedure := some (.readUsingCharUuid uuid) } := by
  unfold dglFindChar Client.submit
  rw [if_pos hg.readUsingCharUuid]

theorem writeHandle_granted {a : Answers} (hg : Granted a) (c : Client) (handle value : UInt16)
    (len : UInt8) :
    dglWriteHandle a c handle value len =
      { c with procedure := some (.writeCharValue handle value len) } := by
  unfold dglWriteHandle Client.submit
  rw [if_pos hg.bmAlloc, if_pos hg.writeCharValue]

theorem waits_findChar {a : Answers} (hg : Granted a) (hr : c.link.battReading = false)
    (uuid : UInt16) (next : DiscState) : Waits (dglFindChar a c uuid next) := by
  rw [findChar_granted hg]
  refine ⟨fun _ => Option.some_ne_none _, ?_, hr⟩
  intro p hp hw
  cases hp
  cases hw

theorem waits_writeHandle {a : Answers} (hg : Granted a) (hr : c.link.battReading = false)
    (hd : c.link.discState = .cccd) (hne : c.link.cccdList ≠ []) (handle value : UInt16)
    (len : UInt8) : Waits (dglWriteHandle a c handle value len) := by
  rw [writeHandle_granted hg]
  exact ⟨fun _ => Option.some_ne_none _, fun _ _ _ => ⟨hd, hne⟩, hr⟩

theorem not_isWrite (hw : WritesCccd c) (hd : c.link.discState ≠ .cccd ∨ c.link.cccdList = []) :
    ∀ p ∈ c.procedure, p.isWrite = false := by
  intro p hp
  by_contra hwrite
  obtain ⟨hc, hne⟩ := hw p hp (Bool.eq_true_of_not_eq_false hwrite)
  rcases hd with hd | hd
  · exact hd hc
  · exact hne hd

theorem waits_idle (hd : c.link.discState = .idle) (hr : c.link.battReading = false)
    (hp : ∀ p ∈ c.procedure, p.isWrite = false) : Waits c :=
  ⟨fun hne => absurd hd hne, fun p h hw => absurd hw (by rw [hp p h]; decide), hr⟩

theorem waits_discoveryFailed (connected : Bool) (hr : c.link.battReading = false)
    (hp : ∀ p ∈ c.procedure, p.isWrite = false) : Waits (dglDiscoveryFailed c connected) := by
  obtain ⟨n, evt, h⟩ := discoveryFailed_eq c connected
  rw [h]
  exact waits_idle rfl hr hp

theorem waits_advance {a : Answers} (hg : Granted a) (connected : Bool)
    (hd : c.link.discState ≠ .idle) (hw : WritesCccd c) (hr : c.link.battReading = false) :
    Waits (advance a connected c) := by
  unfold advance
  split
  · rename_i hs
    have hp := not_isWrite hw (Or.inl (by rw [hs]; decide))
    split
    · refine waits_findChar hg ?_ _ _
      exact hr
    · exact waits_discoveryFailed connected hr hp
  · split
    · refine waits_findChar hg ?_ _ _
      exact hr
    · refine waits_findChar hg ?_ _ _
      exact hr
  · rename_i hs
    have hp := not_isWrite hw (Or.inl (by rw [hs]; decide))
    split
    · refine waits_findChar hg ?_ _ _
      exact hr
    · exact waits_discoveryFailed connected hr hp
  · refine waits_findChar hg ?_ _ _
    exact hr
  · rename_i hs
    split
    · rename_i hne
      split
      · refine waits_writeHandle hg ?_ ?_ ?_ _ _ _
        · exact hr
        · exact hs
        · exact hne
      · refine waits_writeHandle hg ?_ ?_ ?_ _ _ _
        · exact hr
        · exact hs
        · exact hne
    · rename_i hne
      exact waits_discoveryFailed connected hr (not_isWrite hw (Or.inr (not_not.mp hne)))
  · rename_i hs
    have hp := not_isWrite hw (Or.inl (by rw [hs]; decide))
    split
    · refine waits_findChar hg ?_ _ _
      exact hr
    · exact waits_idle rfl hr hp
  · rename_i hs
    have hp := not_isWrite hw (Or.inl (by rw [hs]; decide))
    exact waits_idle rfl hr hp
  · rename_i hs
    exact absurd hs hd

end Client

section Link

/-- The message ends the outstanding procedure where the dongle sees it end. -/
def EndSeen (p : Option Procedure) (m : GattMsg) : Prop :=
  ∀ q ∈ p, if q.isWrite then m.isWriteRsp = true ∨ m.isErrorRsp = true else m.complete = true

instance (p : Option Procedure) (m : GattMsg) : Decidable (EndSeen p m) :=
  inferInstanceAs (Decidable (∀ q ∈ p, _))

/-- A link that is being brought up. -/
def BringUp (d : Dongle) : Prop := d.state = .connected → Waits d.client

theorem bringUp_of_state (hs : d.state ≠ .connected) : BringUp d := fun h => absurd h hs

theorem bringUp_leavesLink {d' : Dongle} (hi : BringUp d) (h : LeavesLink d d') : BringUp d' := by
  intro hs
  rw [h.client]
  rcases h.state with he | ⟨-, hup⟩
  · exact hi (he ▸ hs)
  · rw [hs] at hup
    cases hup

theorem waits_cccdWriteNext (hg : Granted a.toAnswers) (hd : d.client.link.discState = .cccd)
    (hne : d.client.link.cccdList ≠ []) (hr : d.client.link.battReading = false) :
    BringUp (dglCccdWriteNext o a d) := by
  rcases cccdWriteNext_cases o a d with ⟨-, h⟩ | ⟨-, -, h⟩ | ⟨-, -, h⟩
  · rw [h]
    intro _
    refine waits_writeHandle hg ?_ ?_ ?_ _ _ _
    · exact hr
    · exact hd
    · exact hne
  · rw [h]
    intro _
    refine waits_writeHandle hg ?_ ?_ ?_ _ _ _
    · exact hr
    · exact hd
    · exact hne
  · obtain ⟨i, p, ha⟩ := arm_eq o a { d with
      client := { d.client with
        link := { d.client.link with cccdWr := d.client.link.cccdWr + 1 } } }
    rw [h, ha]
    exact bringUp_of_state nofun

theorem waits_discoveryEvent {c : Client} {m : GattMsg} (hg : Granted a.toAnswers)
    (connected : Bool) (hd : c.link.discState ≠ .idle) (hw : WritesCccd c)
    (hr : c.link.battReading = false)
    (hno : m.isErrorRsp = true → ∀ p ∈ c.procedure, p.isWrite = false)
    (hp : c.procedure ≠ none ∨ m.complete = true) :
    Waits (dglDiscoveryEvent a.toAnswers connected m c) := by
  obtain ⟨hcd, hcr, -, hcl⟩ := collect_frame c.link m
  have hcw : WritesCccd { c with link := collect c.link m } := by
    intro p h hwrite
    obtain ⟨hc, hne⟩ := hw p h hwrite
    exact ⟨hcd.trans hc, hcl hne⟩
  unfold dglDiscoveryEvent
  split
  · rename_i hauth
    have herr : m.isErrorRsp = true := by
      unfold GattMsg.isAuthenError at hauth
      unfold GattMsg.isErrorRsp
      split at hauth
      · rfl
      · cases hauth
    exact waits_idle rfl hr (hno herr)
  dsimp only
  split
  · exact waits_advance hg connected (by rwa [hcd]) hcw (hcr.trans hr)
  · rename_i hcomplete
    exact ⟨fun _ => hp.resolve_right hcomplete, hcw, hcr.trans hr⟩

theorem received_procedure (d : Dongle) (m : GattMsg) (last : Bool) :
    (last = true ∧ (received d m last).client.procedure = none) ∨
      (last = false ∧ (received d m last).client.procedure = d.client.procedure) := by
  cases last with
  | true => exact Or.inl ⟨rfl, rfl⟩
  | false => exact Or.inr ⟨rfl, rfl⟩

theorem received_writes (hw : WritesCccd d.client) (m : GattMsg) (last : Bool) :
    WritesCccd (received d m last).client := by
  intro p hp hwrite
  have hlink : (received d m last).client.link = d.client.link := by
    obtain ⟨q, en, he⟩ := received_eq d m last
    rw [he]
  rw [hlink]
  rcases received_procedure d m last with ⟨-, h⟩ | ⟨-, h⟩
  · rw [h] at hp
    cases hp
  · rw [h] at hp
    exact hw p hp hwrite

theorem answersWrite_of_cccd {m : GattMsg} (hd : d.client.link.discState = .cccd)
    (hne : d.client.link.cccdList ≠ []) (hm : m.isWriteRsp = true ∨ m.isErrorRsp = true) :
    answersWrite d m = true := by
  unfold answersWrite
  rw [Bool.and_eq_true, Bool.and_eq_true, Bool.or_eq_true, decide_eq_true_eq, decide_eq_true_eq]
  exact ⟨⟨hm, hne⟩, hd⟩

theorem bringUp_gatt {m : GattMsg} {last : Bool} (hi : BringUp d)
    (hP : d.state = .connected →
      Granted a.toAnswers ∧ (last = true → EndSeen d.client.procedure m)) :
    BringUp (dglProcessGattMsg o a (received d m last) m) := by
  obtain ⟨p, en, hrec⟩ := received_eq d m last
  have hstate : (received d m last).state = d.state := by rw [hrec]
  have hlink : (received d m last).client.link = d.client.link := by rw [hrec]
  by_cases hs : d.state = .connected
  swap
  · obtain ⟨s, c, f, u, he, hs', -⟩ := gatt_eq o a (received d m last) m
    rw [he]
    refine bringUp_of_state ?_
    rcases hs' with h | ⟨h, -⟩
    · rw [h, hstate]
      exact hs
    · rw [h]
      exact nofun
  obtain ⟨hg, hend⟩ := hP hs
  have hW := hi hs
  rcases gatt_cases o a (received d m last) m with ⟨h, r, -, harm, -⟩ | ⟨hw, he⟩ |
    ⟨hread, -⟩ | ⟨hno, hd, he⟩ | ⟨hd, he⟩
  · rw [hstate, hs] at harm
    cases harm
  · rw [he]
    obtain ⟨hd, hne⟩ := answersWrite_cccd hw
    exact waits_cccdWriteNext hg hd hne (hlink ▸ hW.reading)
  · rw [hlink, hW.reading, hstate, hs] at hread
    rcases hread with h | h
    · cases h
    · cases h
  · rw [he]
    intro _
    -- a write response or an error to an outstanding write is taken by the write branch
    have hnot : (m.isWriteRsp = true ∨ m.isErrorRsp = true) →
        ∀ q ∈ d.client.procedure, q.isWrite = false := by
      intro hm q hq
      by_contra hwrite
      obtain ⟨hc, hne⟩ := hW.write q hq (Bool.eq_true_of_not_eq_false hwrite)
      rw [← hlink] at hc hne
      rw [answersWrite_of_cccd hc hne hm] at hno
      cases hno
    refine waits_discoveryEvent hg _ hd (received_writes hW.write m last)
      (hlink ▸ hW.reading) ?_ ?_
    · intro herr q hq
      rcases received_procedure d m last with ⟨-, h⟩ | ⟨-, h⟩
      · rw [h] at hq
        cases hq
      · rw [h] at hq
        exact hnot (Or.inr herr) q hq
    · rw [hlink] at hd
      obtain ⟨q, hq⟩ := Option.ne_none_iff_exists'.mp (hW.outstanding hd)
      rcases received_procedure d m last with ⟨hlast, -⟩ | ⟨-, h⟩
      · right
        have hseen := hend hlast q hq
        cases hwr : q.isWrite with
        | true =>
          rw [if_pos hwr] at hseen
          exact nomatch hwr.symm.trans (hnot hseen q hq)
        | false =>
          rw [hwr, if_neg Bool.false_ne_true] at hseen
          exact hseen
      · left
        rw [h, hq]
        exact Option.some_ne_none _
  · rw [he]
    intro _
    refine ⟨fun hne => absurd hd hne, received_writes hW.write m last, ?_⟩
    rw [hlink]
    exact hW.reading

end Link

section Machine

/-- The dongle waits for an answer of the stack, for its own event, or not at all. -/
structure AwaitsAnswer (d : Dongle) : Prop where
  bringUp : d.state = .connected → d.client.link.discState ≠ .idle →
    d.client.procedure ≠ none ∨ d.client.svcDiscEvt.Scheduled
  scan : d.state = .scanning → d.air.discovering = true

/-- No call is refused where the dongle does not look, and the end of every procedure is seen. -/
def NoRefusal (d : Dongle) : Event → Prop
  | .gatt m last a => d.state = .connected →
      Granted a.toAnswers ∧ (last = true → EndSeen d.client.procedure m)
  | .task a => scanDue d = true → a.startDiscovery = success
  | _ => True

instance (d : Dongle) : ∀ e, Decidable (NoRefusal d e)
  | .gatt m last a => inferInstanceAs (Decidable (d.state = .connected →
      Granted a.toAnswers ∧ (last = true → EndSeen d.client.procedure m)))
  | .task a => inferInstanceAs (Decidable (scanDue d = true → a.startDiscovery = success))
  | .deviceInitDone | .deviceInfo _ | .directDeviceInfo _ _ _ | .discoveryDone
  | .linkEstablished _ _ _ | .linkTerminated _ _ | .pairState _ _ | .expire _
  | .btScan _ _ | .btConnWatch _ _ _ _ | .btConnIndex _ | .btDisc _ | .btAuto _ | .btPair _
  | .btBatt _ => isTrue trivial

/-- A scan has its discovery. -/
def ScanRuns (d : Dongle) : Prop := d.state = .scanning → d.air.discovering = true

structure Attended (d : Dongle) : Prop where
  link : BringUp d
  scan : ScanRuns d

theorem bringUp_task (hi : BringUp d) : BringUp (dglProcessEvent a d) := by
  rcases task_cases a d with ⟨-, hs, hd, h⟩ | ⟨-, -, h⟩ | ⟨-, h⟩
  · rw [h]
    intro _
    have hW := hi hs
    rcases startSvcDiscovery_cases a.toAnswers
      { d.client with svcDiscEvt := d.client.svcDiscEvt.clear } true with he | ⟨n, evt, he⟩
    · rw [he]
      refine ⟨fun _ => Option.some_ne_none _, ?_, hW.reading⟩
      intro p hp hw
      cases hp
      cases hw
    · rw [he]
      have hp := not_isWrite hW.write (Or.inl (by rw [hd]; decide))
      exact waits_idle rfl hW.reading hp
  · rw [h]
    exact fun hs => ⟨(hi hs).outstanding, (hi hs).write, (hi hs).reading⟩
  · exact bringUp_leavesLink hi h

theorem scanRuns_of_state (hs : d.state ≠ .scanning) : ScanRuns d := fun h => absurd h hs

theorem scanRuns_addScanRec (hi : ScanRuns d) (info : DeviceInfo) :
    ScanRuns (dglAddScanRec d info) := by
  unfold dglAddScanRec
  split
  · exact hi
  split
  · exact hi
  split
  · exact hi
  split
  · exact hi
  dsimp only
  split
  · exact scanRuns_of_state nofun
  · exact hi

theorem scanRuns_autoEvent (hi : ScanRuns d) : ScanRuns (autoEvent a d) := by
  unfold autoEvent dglAutoKick
  split
  · exact scanRuns_of_state nofun
  split
  · exact hi
  split
  · exact hi
  split
  · exact scanRuns_of_state nofun
  · exact hi

theorem scanRuns_linkTimeoutEvent (hi : ScanRuns d) : ScanRuns (linkTimeoutEvent d) := by
  unfold linkTimeoutEvent
  split
  · exact scanRuns_of_state nofun
  · exact hi

theorem scanRuns_scanEvent (hi : ScanRuns d)
    (hP : d.state = .idle → 0 ≤ d.pendScanSec → a.startDiscovery = success) :
    ScanRuns (scanEvent a d) := by
  unfold scanEvent
  split
  · rename_i h
    exact fun _ => if_pos (hP h.1 h.2)
  · exact hi

theorem scanRuns_connEvent (hi : ScanRuns d) : ScanRuns (connEvent a d) := by
  unfold connEvent establishLink
  split
  · split
    · exact scanRuns_of_state nofun
    · exact scanRuns_of_state nofun
  · exact hi

theorem scanRuns_task (hi : ScanRuns d) (hP : scanDue d = true → a.startDiscovery = success) :
    ScanRuns (dglProcessEvent a d) := by
  rcases task_eq a d with ⟨-, c, h⟩ | ⟨-, -, h⟩ | ⟨-, -, -, h⟩ | ⟨hsvc, hauto, htimeout, hscan, h⟩ |
    ⟨-, -, h⟩ | ⟨-, h⟩
  · rw [h]
    exact hi
  · rw [h]
    exact scanRuns_autoEvent hi
  · rw [h]
    exact scanRuns_linkTimeoutEvent hi
  · rw [h]
    refine scanRuns_scanEvent hi fun hidle hsec => hP ?_
    exact scanDue_iff.mpr ⟨hsvc, hauto, htimeout, hscan, hidle, hsec⟩
  · rw [h]
    exact scanRuns_connEvent hi
  · rw [h]
    exact hi

theorem scanRuns_scan (hi : ScanRuns d) (seconds : UInt8) (filter : List UInt8) :
    ScanRuns (bleDongleScan d seconds filter).1 := by
  unfold bleDongleScan
  split
  · exact hi
  · exact hi

theorem scanRuns_disconnect (hi : ScanRuns d) : ScanRuns (bleDongleDisconnect a d).1 := by
  unfold bleDongleDisconnect terminateLink
  split
  · exact hi
  split
  · exact hi
  split
  · exact hi
  · exact hi

theorem scanRuns_gatt (hi : ScanRuns d) (m : GattMsg) (last : Bool) :
    ScanRuns (dglProcessGattMsg o a (received d m last) m) := by
  obtain ⟨p, en, hrec⟩ := received_eq d m last
  obtain ⟨s, c, f, u, he, hs, -⟩ := gatt_eq o a (received d m last) m
  rw [he, hrec]
  rcases hs with h | ⟨h, -⟩
  · rw [h, hrec]
    exact hi
  · rw [h]
    exact scanRuns_of_state nofun

theorem scanRuns_discoveryDone (d : Dongle) : ScanRuns (discoveryDone d) := by
  refine scanRuns_of_state ?_
  change (if d.state = .scanning then DglState.idle else d.state) ≠ .scanning
  split
  · exact nofun
  · assumption

theorem attended_linkEstablished (d : Dongle) (status : UInt8) (handle : UInt16) :
    Attended (linkEstablished d status handle) := by
  by_cases hs : status = success
  · rw [hs, linkEstablished_success]
    exact ⟨fun _ => ⟨fun h => absurd rfl h, nofun, rfl⟩, scanRuns_of_state nofun⟩
  · obtain ⟨f, hold, -, h⟩ := linkEstablished_failed d hs handle
    rw [h]
    exact ⟨bringUp_of_state nofun, scanRuns_of_state nofun⟩

theorem attended_linkTerminated (d : Dongle) : Attended (linkTerminated d) := by
  obtain ⟨f, hold, -, h⟩ := linkTerminated_eq d
  rw [h]
  exact ⟨bringUp_of_state nofun, scanRuns_of_state nofun⟩

theorem attended_battRead (hi : Attended d) : Attended (bleDongleBattRead a d).1 := by
  unfold bleDongleBattRead
  split
  · exact hi
  rename_i h
  have harm : d.state = .armed := by
    by_contra hne
    exact h (Or.inl hne)
  split
  · refine ⟨bringUp_of_state ?_, hi.scan⟩
    rw [harm]
    exact nofun
  · exact hi

theorem attended_step (o : Build) (d : Dongle) (e : Event) (hi : Attended d)
    (hP : NoRefusal d e) : Attended (step o d e) := by
  cases e with
  | gatt m last a => exact ⟨bringUp_gatt hi.link hP, scanRuns_gatt hi.scan m last⟩
  | task a => exact ⟨bringUp_task hi.link, scanRuns_task hi.scan hP⟩
  | deviceInfo info =>
    refine ⟨bringUp_leavesLink hi.link (leavesLink_step rfl), ?_⟩
    rw [step]
    split
    · exact scanRuns_addScanRec hi.scan info
    · exact hi.scan
  | directDeviceInfo addr addrType rssi =>
    refine ⟨bringUp_leavesLink hi.link (leavesLink_step rfl), ?_⟩
    rw [step]
    unfold directDeviceInfo
    split
    · exact hi.scan
    · exact hi.scan
  | discoveryDone =>
    exact ⟨bringUp_leavesLink hi.link (leavesLink_step rfl), scanRuns_discoveryDone _⟩
  | linkEstablished t status handle =>
    rw [step]
    split
    · exact attended_linkEstablished _ status handle
    · exact hi
  | linkTerminated handle reason =>
    rw [step]
    split
    · exact attended_linkTerminated _
    · exact hi
  | pairState state status =>
    rw [step]
    unfold dglPairStateCb
    split
    · exact ⟨fun hs => ⟨(hi.link hs).outstanding, (hi.link hs).write, (hi.link hs).reading⟩,
        hi.scan⟩
    · exact hi
  | btBatt a => exact attended_battRead hi
  | expire t =>
    cases t with
    | svcDisc =>
      exact ⟨fun hs => ⟨(hi.link hs).outstanding, (hi.link hs).write, (hi.link hs).reading⟩,
        hi.scan⟩
    | auto | linkTimeout => exact ⟨hi.link, hi.scan⟩
  | btScan sec filter =>
    exact ⟨bringUp_leavesLink hi.link (leavesLink_step rfl), scanRuns_scan hi.scan _ filter⟩
  | btConnWatch isMac addr name timeoutS =>
    refine ⟨bringUp_leavesLink hi.link (leavesLink_step rfl), ?_⟩
    rw [step]
    unfold bleDongleConnectWatch
    split
    · exact hi.scan
    · refine scanRuns_scan ?_ _ _
      exact hi.scan
  | btConnIndex index =>
    refine ⟨bringUp_leavesLink hi.link (leavesLink_step rfl), ?_⟩
    rw [step]
    unfold bleDongleConnect
    split
    · exact hi.scan
    · exact hi.scan
  | btDisc a =>
    exact ⟨bringUp_leavesLink hi.link (leavesLink_step rfl), scanRuns_disconnect hi.scan⟩
  | btPair a =>
    exact ⟨bringUp_leavesLink hi.link (leavesLink_step rfl), scanRuns_disconnect hi.scan⟩
  | deviceInitDone | btAuto =>
    exact ⟨bringUp_leavesLink hi.link (leavesLink_step rfl), hi.scan⟩

/-- Where no call is refused unseen and the end of every procedure is seen, the dongle never waits
for nothing. -/
theorem awaitsAnswer_of_noRefusal (o : Build) (es : List Event)
    (h : Along (step o) NoRefusal (boot o) es) : Always (step o) AwaitsAnswer (boot o) es := by
  have hboot : Attended (boot o) := ⟨bringUp_of_state nofun, scanRuns_of_state nofun⟩
  refine (always_of_along (attended_step o) hboot h).mono fun d hi => ⟨?_, hi.scan⟩
  exact fun hs hd => Or.inl ((hi.link hs).outstanding hd)

def serviceRun : List Event :=
  connectRun ++ [.expire .svcDisc, .task {},
    answer success (.findByTypeValueRsp 1 (bytes [0x01, 0x00, 0x20, 0x00])) false]

theorem service_found_awaits :
    Always (step dglRelease) AwaitsAnswer (boot dglRelease)
      (serviceRun ++ [answer bleProcedureComplete (.findByTypeValueRsp 0 (bytes [])) true]) :=
  awaitsAnswer_of_noRefusal dglRelease _ (by decide +kernel)

abbrev blePending : UInt8 := 0x16

def refusedCharRun : List Event :=
  serviceRun ++ [.gatt ⟨bleProcedureComplete, .findByTypeValueRsp 0 (bytes [])⟩ true
    { readUsingCharUuid := blePending }]

def refusedScanRun : List Event := [.btScan 5 [], .task { startDiscovery := blePending }]

/-- Each refusal leaves the dongle waiting: for an answer, and for the end of a scan. -/
theorem refused_call_waits :
    ¬ AwaitsAnswer (final (step dglRelease) (boot dglRelease) refusedCharRun) ∧
      ¬ AwaitsAnswer (final (step dglRelease) (boot dglRelease) refusedScanRun) := by
  constructor
  · intro h
    have hnone : (final (step dglRelease) (boot dglRelease) refusedCharRun).client.procedure =
        none := by decide +kernel
    have hevt : (final (step dglRelease) (boot dglRelease) refusedCharRun).client.svcDiscEvt =
        ⟨false, false⟩ := by decide +kernel
    rcases h.bringUp (by decide +kernel) (by decide +kernel) with hp | hp
    · exact hp hnone
    · rw [hevt] at hp
      rcases hp with ht | ht
      · cases ht
      · cases ht
  · intro h
    have hrun := h.scan (by decide +kernel)
    have hno : (final (step dglRelease) (boot dglRelease) refusedScanRun).air.discovering =
        false := by decide +kernel
    rw [hno] at hrun
    cases hrun

end Machine

end AtNode.Central
