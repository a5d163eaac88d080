import AtNode.Lib.Run
import AtNode.Ch582.DongleGatt

/-!
# The BLE dongle of the CH582 firmware

The dongle is a BLE central that scans for a keyboard, connects to it and forwards its reports to
the USB host. `step` takes one event: a message or a GAP event of the BLE stack, a timer, a call of
the task function `dgl_process_event`, or an AT command. Scans and connects are asked for by the AT
commands and begun by the task.

`Air` is what the stack has in hand: the accepted discovery, the establish attempts whose result has
not been reported, numbered in the order in which they were accepted, and the links. A cancelled
attempt still reports its result. Stack calls may be refused; the answers come with the event.
-/

namespace AtNode.Central

abbrev Addr := Fin 6 → UInt8

abbrev dglMaxScanRes : ℕ := 16

abbrev dglNameLen : ℕ := 20

abbrev dglAutoMaxFails : UInt8 := 5

inductive DglState where
  | idle
  | scanning
  | connecting
  | connected
  | armed
  | autoconn
  deriving DecidableEq

structure ScanRec where
  addr : Addr
  addrType : UInt8
  rssi : Int8
  name : List UInt8

/-- An advertisement; `isHid` and `name` are what `dgl_adv_is_hid` and `dgl_adv_get_name` find. -/
structure DeviceInfo where
  addr : Addr
  addrType : UInt8
  rssi : Int8
  isHid : Bool
  name : List UInt8

structure Attempt where
  number : ℕ
  cancelled : Bool
  deriving DecidableEq

structure AirLink where
  handle : UInt16
  terminating : Bool
  deriving DecidableEq

structure Air where
  discovering : Bool
  attempts : List Attempt
  started : ℕ
  links : List AirLink

structure GapAnswers extends Answers where
  startDiscovery : UInt8 := success
  establishLink : UInt8 := success
  terminateLink : UInt8 := success
  bondCount : UInt8 := 1
  snvRead : UInt8 := success

structure Report where
  mods : UInt8
  keys : List UInt8
  deriving DecidableEq

structure Dongle where
  state : DglState
  client : Client
  watchActive : Bool
  watchIsMac : Bool
  watchAddr : Addr
  watchName : List UInt8
  auto : Bool
  autoHold : Bool
  autoFails : UInt8
  pendScanSec : Int8
  pendConnIdx : Int8
  scanList : List ScanRec
  filter : List UInt8
  autoEvt : TaskEvent
  linkTimeoutEvt : TaskEvent
  scanEvt : Bool
  connEvt : Bool
  air : Air
  usb : List Report

structure Build where
  debug : Bool
  auto : Bool

section Auto

variable (a : GapAnswers) (d : Dongle)

def dglAutoFailCount : Dongle :=
  if dglAutoMaxFails ≤ d.autoFails + 1 then { d with autoFails := 0, autoHold := true }
  else { d with autoFails := d.autoFails + 1 }

def dglResetLinkState : Dongle := { d with client := { d.client with
  link := Link.reset, procedure := none, enabled := [] } }

def establishLink : Dongle :=
  if a.establishLink = success then
    { d with air := { d.air with
        attempts := d.air.attempts ++ [⟨d.air.started, false⟩], started := d.air.started + 1 } }
  else d

def cancelEstablish : Dongle :=
  { d with air := { d.air with
      attempts := d.air.attempts.map fun t => { t with cancelled := true } } }

def terminateLink (handle : UInt16) : Dongle :=
  if a.terminateLink = success then
    { d with air := { d.air with
        links := d.air.links.map fun l =>
          if l.handle = handle then { l with terminating := true } else l } }
  else d

def dglAutoKick : Dongle :=
  if d.auto = false ∨ d.autoHold = true ∨ a.bondCount = 0 ∨ d.state ≠ .idle then d
  else if a.snvRead ≠ success then { d with autoEvt := d.autoEvt.start }
  else if a.establishLink = success then { establishLink a d with state := .autoconn }
  else { d with autoEvt := d.autoEvt.start }

end Auto

section Scan

def dglTolower (c : UInt8) : UInt8 := if 0x41 ≤ c ∧ c ≤ 0x5A then c - 0x41 + 0x61 else c

/-- The inner loop of `dgl_strcasestr`; `none` where the haystack ends first. -/
def matchesAt : List UInt8 → List UInt8 → Option Bool
  | _, [] => some true
  | [], _ :: _ => none
  | a :: hay, b :: needle =>
    if dglTolower a = dglTolower b then matchesAt hay needle else some false

/-- What is left of the haystack at the match. -/
def dglStrcasestr (needle : List UInt8) : List UInt8 → Option (List UInt8)
  | [] => if needle = [] then some [] else none
  | c :: hay =>
    match matchesAt (c :: hay) needle with
    | some true => some (c :: hay)
    | some false => dglStrcasestr needle hay
    | none => none

def hidFilter : List UInt8 := ['h', 'i', 'd'].map Char.toUInt8

def passesFilter (filter : List UInt8) (info : DeviceInfo) : Bool :=
  if filter = [] then true
  else if filter.map dglTolower = hidFilter then info.isHid
  else info.name ≠ [] && (dglStrcasestr filter info.name).isSome

def sameAddr (info : DeviceInfo) (r : ScanRec) : Bool := info.addr = r.addr

def merge (info : DeviceInfo) (r : ScanRec) : ScanRec :=
  { r with name := if r.name = [] then info.name else r.name, rssi := info.rssi }

/-- The place of a new entry, the strongest first. -/
def scanPos (list : List ScanRec) (rssi : Int8) : ℕ :=
  (list.takeWhile fun r => rssi ≤ r.rssi).length

def insertRec (list : List ScanRec) (info : DeviceInfo) : List ScanRec :=
  (list.insertIdx (scanPos list info.rssi)
    ⟨info.addr, info.addrType, info.rssi, info.name⟩).take dglMaxScanRes

def watchHit (d : Dongle) (info : DeviceInfo) : Bool :=
  if d.watchIsMac then info.addr = d.watchAddr
  else info.name ≠ [] && (dglStrcasestr d.watchName info.name).isSome

def dglAddScanRec (d : Dongle) (info : DeviceInfo) : Dongle :=
  if info.isHid = false ∧ info.name = [] then d
  else if passesFilter d.filter info = false then d
  else match d.scanList.findIdx? (sameAddr info) with
    | some i => { d with scanList := d.scanList.modify i (merge info) }
    | none =>
      if dglMaxScanRes ≤ d.scanList.length ∧
          ∃ r ∈ d.scanList.getLast?, info.rssi ≤ r.rssi then d
      else
        let d' := { d with scanList := insertRec d.scanList info }
        if d.watchActive && watchHit d info then
          { d' with
            watchActive := false
            air := { d.air with discovering := false }
            state := .idle
            pendConnIdx := Int8.ofNat (scanPos d.scanList info.rssi)
            connEvt := true }
        else d'

end Scan

section Messages

variable (o : Build) (a : GapAnswers)

/-- The diagnostic read of a report characteristic. -/
def readReport (c : Client) (i : ℕ) : Client :=
  c.submit a.readCharValue (.readCharValue (c.link.rptHdls.getD i 0))

def arm (d : Dongle) : Dongle :=
  let c : Client := { d.client with link := { d.client.link with discState := .battSvc } }
  let c' := c.submit a.discPrimaryService (.discPrimaryService battServUuid)
  let c'' : Client := { c' with link := { c'.link with rdIdx := 0 } }
  { d with
    state := .armed
    autoFails := 0
    client :=
      if o.debug then if c.link.rptHdls ≠ [] then readReport a c'' 0 else c''
      else c' }

def dglCccdWriteNext (d : Dongle) : Dongle :=
  let l := d.client.link
  if l.protoPending then
    let c := { d.client with link := { l with protoPending := false } }
    { d with
      client := dglWriteHandle a.toAnswers c (l.cccdList.headD 0) gattClientCfgNotify 2 }
  else
    let c := { d.client with link := { l with cccdWr := l.cccdWr + 1 } }
    if c.link.cccdWr < l.cccdList.length then
      { d with
        client := dglWriteHandle a.toAnswers c (l.cccdList.getD c.link.cccdWr 0)
          gattClientCfgNotify 2 }
    else arm o a { d with client := c }

def Link.matches (l : Link) (h : UInt16) : Bool := h = l.bootHdl || h ∈ l.rptHdls

def forward (d : Dongle) (h : UInt16) (r : List UInt8) : Dongle :=
  if d.client.link.matches h ∧ 8 ≤ r.length then
    { d with usb := d.usb ++ [⟨r.getD 0 0, (r.drop 2).take 6⟩] }
  else d

def readNext (d : Dongle) : Dongle :=
  let l := d.client.link
  let c : Client := { d.client with link := { l with rdIdx := l.rdIdx + 1 } }
  { d with client := if l.rdIdx + 1 < l.rptHdls.length then readReport a c (l.rdIdx + 1) else c }

def GattMsg.isReadRsp (m : GattMsg) : Bool :=
  match m.body with
  | .readRsp _ => true
  | _ => false

def answersWrite (d : Dongle) (m : GattMsg) : Bool :=
  (m.isWriteRsp || m.isErrorRsp) && d.client.link.cccdList ≠ [] && d.client.link.discState = .cccd

def dglProcessGattMsg (d : Dongle) (m : GattMsg) : Dongle :=
  match m.body, d.state with
  | .handleValueNoti h r, .armed => forward d h r
  | _, _ =>
    if answersWrite d m then dglCccdWriteNext o a d
    else if (m.isReadRsp || m.isErrorRsp) && d.client.link.battReading then
      { d with client := { d.client with link := { d.client.link with battReading := false } } }
    else if o.debug && (m.isReadRsp || m.isErrorRsp) && d.state = .armed &&
        d.client.link.rdIdx < d.client.link.rptHdls.length then
      readNext a d
    else if d.client.link.discState ≠ .idle then
      { d with client := dglDiscoveryEvent a.toAnswers (d.state = .connected) m d.client }
    else d

end Messages

section Gap

def directDeviceInfo (d : Dongle) (addr : Addr) (addrType : UInt8) (rssi : Int8) : Dongle :=
  if d.state = .scanning ∧ d.scanList.length < dglMaxScanRes ∧ ∀ r ∈ d.scanList, r.addr ≠ addr then
    { d with scanList := d.scanList ++ [⟨addr, addrType, rssi, []⟩] }
  else d

def discoveryDone (d : Dongle) : Dongle :=
  { d with
    watchActive := false
    state := if d.state = .scanning then .idle else d.state }

def linkEstablished (d : Dongle) (status : UInt8) (handle : UInt16) : Dongle :=
  let d' := dglResetLinkState { d with linkTimeoutEvt := d.linkTimeoutEvt.stop }
  if status = success then
    { d' with
      client := { d'.client with
        link := { d'.client.link with connHandle := handle, discRetries := 2 }
        svcDiscEvt := d'.client.svcDiscEvt.start }
      state := .connected
      autoHold := false }
  else
    let d'' := dglAutoFailCount { d' with state := .idle }
    { d'' with autoEvt := d''.autoEvt.start }

def linkTerminated (d : Dongle) : Dongle :=
  let d' := { dglResetLinkState d with state := .idle }
  let d'' := if d.state = .armed then d' else dglAutoFailCount d'
  { d'' with autoEvt := d''.autoEvt.set }

abbrev gapbondPairingStateComplete : UInt8 := 0x01

abbrev gapbondPairingStateBonded : UInt8 := 0x02

def dglPairStateCb (d : Dongle) (state status : UInt8) : Dongle :=
  if (state = gapbondPairingStateComplete ∧ status = success ∨ state = gapbondPairingStateBonded) ∧
      d.state = .connected then
    { d with client := { d.client with svcDiscEvt := d.client.svcDiscEvt.set } }
  else d

end Gap

section Task

variable (a : GapAnswers) (d : Dongle)

def autoEvent : Dongle :=
  if d.state = .autoconn ∧ (d.auto = false ∨ d.autoHold = true) then
    { cancelEstablish d with state := .idle }
  else dglAutoKick a d

def linkTimeoutEvent : Dongle :=
  if d.state = .connecting then { cancelEstablish d with state := .idle } else d

def scanEvent : Dongle :=
  if d.state = .idle ∧ 0 ≤ d.pendScanSec then
    { d with
      scanList := []
      state := .scanning
      air := { d.air with
        discovering := if a.startDiscovery = success then true else d.air.discovering }
      pendScanSec := -1 }
  else { d with pendScanSec := -1 }

def connEvent : Dongle :=
  if d.state = .idle ∧ 0 ≤ d.pendConnIdx ∧ d.pendConnIdx.toNatClampNeg < d.scanList.length then
    { establishLink a { d with state := .connecting } with
      linkTimeoutEvt := d.linkTimeoutEvt.start
      pendConnIdx := -1 }
  else { d with pendConnIdx := -1 }

/-- `dgl_process_event` handles one of the set events, in this order. -/
def dglProcessEvent : Dongle :=
  if d.client.svcDiscEvt.isSet then
    let c := { d.client with svcDiscEvt := d.client.svcDiscEvt.clear }
    if d.state = .connected ∧ c.link.discState = .idle then
      { d with client := dglStartSvcDiscovery a.toAnswers c true }
    else { d with client := c }
  else if d.autoEvt.isSet then autoEvent a { d with autoEvt := d.autoEvt.clear }
  else if d.linkTimeoutEvt.isSet then
    linkTimeoutEvent { d with linkTimeoutEvt := d.linkTimeoutEvt.clear }
  else if d.scanEvt then scanEvent a { d with scanEvt := false }
  else if d.connEvt then connEvent a { d with connEvt := false }
  else d

end Task

section Commands

variable (a : GapAnswers) (d : Dongle)

def bleDongleScan (seconds : UInt8) (filter : List UInt8) : Dongle × Int :=
  if d.state ≠ .idle then (d, -1)
  else
    let seconds := if seconds = 0 then 5 else seconds
    ({ d with filter := filter.take dglNameLen, pendScanSec := seconds.toInt8, scanEvt := true }, 0)

def btScanDgl (sec : ℤ) (filter : List UInt8) : Dongle × Int :=
  bleDongleScan d (UInt8.ofNat (max 1 (min sec 30)).toNat) filter

def bleDongleConnectWatch (isMac : Bool) (addr : Addr) (name : List UInt8) (timeoutS : UInt8) :
    Dongle × Int :=
  if d.state ≠ .idle ∨ d.watchActive = true then (d, -1)
  else bleDongleScan
    { d with
      watchActive := true
      watchIsMac := isMac
      watchAddr := if isMac then addr else d.watchAddr
      watchName := if isMac then d.watchName else name.take dglNameLen }
    (max 1 (min timeoutS 30)) []

def bleDongleConnect (index : UInt8) : Dongle × Int :=
  if d.state ≠ .idle ∨ d.scanList.length ≤ index.toNat then (d, -1)
  else ({ d with pendConnIdx := index.toInt8, connEvt := true }, 0)

def bleDongleDisconnect : Dongle × Int :=
  if d.state = .autoconn then ({ d with autoHold := true, autoEvt := d.autoEvt.set }, 0)
  else if d.client.link.connHandle = connHandleInit then (d, -1)
  else (terminateLink a { d with autoHold := true } d.client.link.connHandle, 0)

def bleDongleAuto (mode : Bool) : Dongle :=
  { d with
    auto := mode
    autoHold := if mode then false else d.autoHold
    autoEvt := d.autoEvt.set }

def bleDongleForgetBonds : Dongle := { d with autoFails := 0 }

def btPairDgl : Dongle := bleDongleForgetBonds (bleDongleDisconnect a d).1

def bleDongleBattRead : Dongle × Int :=
  if d.state ≠ .armed ∨ d.client.link.battHdl = 0 ∨ d.client.link.battReading = true then (d, -1)
  else if a.readCharValue = success then
    ({ d with client := { d.client with
        link := { d.client.link with battReading := true }
        procedure := some (.readCharValue d.client.link.battHdl) } }, 0)
  else (d, -1)

end Commands

section Machine

inductive Timer where
  | svcDisc
  | auto
  | linkTimeout

/-- `last` marks the message with which the stack ends the procedure it had accepted. -/
inductive Event where
  | gatt (m : GattMsg) (last : Bool) (a : GapAnswers)
  | deviceInitDone
  | deviceInfo (info : DeviceInfo)
  | directDeviceInfo (addr : Addr) (addrType : UInt8) (rssi : Int8)
  | discoveryDone
  | linkEstablished (attempt : Attempt) (status : UInt8) (handle : UInt16)
  | linkTerminated (handle : UInt16) (reason : UInt8)
  | pairState (state status : UInt8)
  | expire (t : Timer)
  | task (a : GapAnswers)
  | btScan (sec : ℤ) (filter : List UInt8)
  | btConnWatch (isMac : Bool) (addr : Addr) (name : List UInt8) (timeoutS : UInt8)
  | btConnIndex (index : UInt8)
  | btDisc (a : GapAnswers)
  | btAuto (mode : Bool)
  | btPair (a : GapAnswers)
  | btBatt (a : GapAnswers)

/-- What the peer's answer to the outstanding write enables. -/
def answered (c : Client) (m : GattMsg) : Client :=
  match c.procedure with
  | some (.writeCharValue handle value _) =>
    if m.isWriteRsp ∧ value = gattClientCfgNotify then { c with enabled := handle :: c.enabled }
    else c
  | _ => c

def received (d : Dongle) (m : GattMsg) (last : Bool) : Dongle :=
  if last then { d with client := { answered d.client m with procedure := none } } else d

def expire (d : Dongle) : Timer → Dongle
  | .svcDisc => { d with client := { d.client with svcDiscEvt := d.client.svcDiscEvt.expire } }
  | .auto => { d with autoEvt := d.autoEvt.expire }
  | .linkTimeout => { d with linkTimeoutEvt := d.linkTimeoutEvt.expire }

def FreshHandle (d : Dongle) (handle : UInt16) : Prop :=
  handle ≠ connHandleInit ∧ ∀ l ∈ d.air.links, l.handle ≠ handle

instance (d : Dongle) (handle : UInt16) : Decidable (FreshHandle d handle) :=
  inferInstanceAs (Decidable (_ ∧ _))

/-- The stack reports the result of an attempt. -/
def reported (d : Dongle) (t : Attempt) (status : UInt8) (handle : UInt16) : Dongle :=
  { d with air := { d.air with
      attempts := d.air.attempts.erase t
      links := if status = success then ⟨handle, false⟩ :: d.air.links else d.air.links } }

/-- The stack reports the end of a link. -/
def ended (d : Dongle) (handle : UInt16) : Dongle :=
  { d with air := { d.air with links := d.air.links.filter fun l => l.handle ≠ handle } }

def step (o : Build) (d : Dongle) : Event → Dongle
  | .gatt m last a => dglProcessGattMsg o a (received d m last) m
  | .deviceInitDone => { d with autoEvt := d.autoEvt.start }
  | .deviceInfo info => if d.state = .scanning then dglAddScanRec d info else d
  | .directDeviceInfo addr addrType rssi => directDeviceInfo d addr addrType rssi
  | .discoveryDone => discoveryDone { d with air := { d.air with discovering := false } }
  | .linkEstablished t status handle =>
    if t ∈ d.air.attempts ∧ (status = success → FreshHandle d handle) then
      linkEstablished (reported d t status handle) status handle
    else d
  | .linkTerminated handle _ =>
    if ∃ l ∈ d.air.links, l.handle = handle then linkTerminated (ended d handle) else d
  | .pairState state status => dglPairStateCb d state status
  | .expire t => expire d t
  | .task a => dglProcessEvent a d
  | .btScan sec filter => (btScanDgl d sec filter).1
  | .btConnWatch isMac addr name timeoutS => (bleDongleConnectWatch d isMac addr name timeoutS).1
  | .btConnIndex index => (bleDongleConnect d index).1
  | .btDisc a => (bleDongleDisconnect a d).1
  | .btAuto mode => bleDongleAuto d mode
  | .btPair a => btPairDgl a d
  | .btBatt a => (bleDongleBattRead a d).1

def boot (o : Build) : Dongle where
  state := .idle
  client := ⟨Link.reset, .none, none, []⟩
  watchActive := false
  watchIsMac := false
  watchAddr := fun _ => 0
  watchName := []
  auto := o.auto
  autoHold := false
  autoFails := 0
  pendScanSec := -1
  pendConnIdx := -1
  scanList := []
  filter := []
  autoEvt := .none
  linkTimeoutEvt := .none
  scanEvt := false
  connEvt := false
  air := ⟨false, [], 0, []⟩
  usb := []

end Machine

section Effects

variable {o : Build} {a : GapAnswers} {d : Dongle}

/-- The dongle believes a link is up. -/
def DglState.linkUp : DglState → Bool
  | .connected | .armed => true
  | _ => false

/-- The link, its reports and whether there is one are left alone. -/
structure LeavesLink (d d' : Dongle) : Prop where
  client : d'.client = d.client
  usb : d'.usb = d.usb
  state : d'.state = d.state ∨ d.state.linkUp = false ∧ d'.state.linkUp = false

theorem LeavesLink.refl (d : Dongle) : LeavesLink d d := ⟨rfl, rfl, Or.inl rfl⟩

theorem leavesLink_addScanRec (d : Dongle) (info : DeviceInfo) (hs : d.state = .scanning) :
    LeavesLink d (dglAddScanRec d info) := by
  unfold dglAddScanRec
  split
  · exact .refl d
  split
  · exact .refl d
  split
  · exact ⟨rfl, rfl, Or.inl rfl⟩
  split
  · exact .refl d
  dsimp only
  split
  · exact ⟨rfl, rfl, Or.inr ⟨by rw [hs]; rfl, rfl⟩⟩
  · exact ⟨rfl, rfl, Or.inl rfl⟩

theorem leavesLink_autoKick (a : GapAnswers) (d : Dongle) : LeavesLink d (dglAutoKick a d) := by
  unfold dglAutoKick
  split
  · exact .refl d
  rename_i hgo
  have hidle : d.state = .idle := by
    by_contra hne
    exact hgo (Or.inr (Or.inr (Or.inr hne)))
  split
  · exact ⟨rfl, rfl, Or.inl rfl⟩
  split
  · rename_i he
    rw [establishLink, if_pos he]
    exact ⟨rfl, rfl, Or.inr ⟨by rw [hidle]; rfl, rfl⟩⟩
  · exact ⟨rfl, rfl, Or.inl rfl⟩

theorem leavesLink_autoEvent (a : GapAnswers) (d : Dongle) : LeavesLink d (autoEvent a d) := by
  unfold autoEvent
  split
  · rename_i h
    exact ⟨rfl, rfl, Or.inr ⟨by rw [h.1]; rfl, rfl⟩⟩
  · exact leavesLink_autoKick a d

theorem leavesLink_linkTimeoutEvent (d : Dongle) : LeavesLink d (linkTimeoutEvent d) := by
  unfold linkTimeoutEvent
  split
  · rename_i h
    exact ⟨rfl, rfl, Or.inr ⟨by rw [h]; rfl, rfl⟩⟩
  · exact .refl d

theorem leavesLink_scanEvent (a : GapAnswers) (d : Dongle) : LeavesLink d (scanEvent a d) := by
  unfold scanEvent
  split
  · rename_i h
    exact ⟨rfl, rfl, Or.inr ⟨by rw [h.1]; rfl, rfl⟩⟩
  · exact ⟨rfl, rfl, Or.inl rfl⟩

theorem leavesLink_connEvent (a : GapAnswers) (d : Dongle) : LeavesLink d (connEvent a d) := by
  unfold connEvent establishLink
  split
  · rename_i h
    split
    · exact ⟨rfl, rfl, Or.inr ⟨by rw [h.1]; rfl, rfl⟩⟩
    · exact ⟨rfl, rfl, Or.inr ⟨by rw [h.1]; rfl, rfl⟩⟩
  · exact ⟨rfl, rfl, Or.inl rfl⟩

theorem leavesLink_discoveryDone (d : Dongle) : LeavesLink d (discoveryDone d) := by
  by_cases h : d.state = .scanning
  · exact ⟨rfl, rfl, Or.inr ⟨by rw [h]; rfl, by rw [discoveryDone, if_pos h]; rfl⟩⟩
  · exact ⟨rfl, rfl, Or.inl (if_neg h)⟩

theorem leavesLink_directDeviceInfo (d : Dongle) (addr : Addr) (addrType : UInt8) (rssi : Int8) :
    LeavesLink d (directDeviceInfo d addr addrType rssi) := by
  unfold directDeviceInfo
  split
  · exact ⟨rfl, rfl, Or.inl rfl⟩
  · exact .refl d

theorem leavesLink_scan (d : Dongle) (seconds : UInt8) (filter : List UInt8) :
    LeavesLink d (bleDongleScan d seconds filter).1 := by
  unfold bleDongleScan
  split
  · exact .refl d
  · exact ⟨rfl, rfl, Or.inl rfl⟩

theorem leavesLink_connectWatch (d : Dongle) (isMac : Bool) (addr : Addr) (name : List UInt8)
    (timeoutS : UInt8) : LeavesLink d (bleDongleConnectWatch d isMac addr name timeoutS).1 := by
  unfold bleDongleConnectWatch
  split
  · exact .refl d
  · have h := leavesLink_scan { d with
      watchActive := true
      watchIsMac := isMac
      watchAddr := if isMac then addr else d.watchAddr
      watchName := if isMac then d.watchName else name.take dglNameLen }
      (max 1 (min timeoutS 30)) []
    exact ⟨h.client, h.usb, h.state⟩

theorem leavesLink_connect (d : Dongle) (index : UInt8) :
    LeavesLink d (bleDongleConnect d index).1 := by
  unfold bleDongleConnect
  split
  · exact .refl d
  · exact ⟨rfl, rfl, Or.inl rfl⟩

theorem leavesLink_disconnect (a : GapAnswers) (d : Dongle) :
    LeavesLink d (bleDongleDisconnect a d).1 := by
  unfold bleDongleDisconnect terminateLink
  split
  · exact ⟨rfl, rfl, Or.inl rfl⟩
  split
  · exact .refl d
  split
  · exact ⟨rfl, rfl, Or.inl rfl⟩
  · exact ⟨rfl, rfl, Or.inl rfl⟩

def Event.gapOnly : Event → Bool
  | .deviceInitDone | .deviceInfo _ | .directDeviceInfo .. | .discoveryDone | .expire .auto
  | .expire .linkTimeout | .btScan .. | .btConnWatch .. | .btConnIndex _ | .btDisc _ | .btAuto _
  | .btPair _ => true
  | _ => false

theorem leavesLink_step {e : Event} (he : e.gapOnly = true) : LeavesLink d (step o d e) := by
  cases e with
  | deviceInitDone => exact ⟨rfl, rfl, Or.inl rfl⟩
  | deviceInfo info =>
    by_cases h : d.state = .scanning
    · rw [step, if_pos h]
      exact leavesLink_addScanRec d info h
    · rw [step, if_neg h]
      exact .refl d
  | directDeviceInfo addr addrType rssi => exact leavesLink_directDeviceInfo d addr addrType rssi
  | discoveryDone =>
    have h := leavesLink_discoveryDone { d with air := { d.air with discovering := false } }
    exact ⟨h.client, h.usb, h.state⟩
  | expire t =>
    cases t with
    | svcDisc => exact absurd he Bool.false_ne_true
    | auto => exact ⟨rfl, rfl, Or.inl rfl⟩
    | linkTimeout => exact ⟨rfl, rfl, Or.inl rfl⟩
  | btScan sec filter => exact leavesLink_scan d _ filter
  | btConnWatch isMac addr name timeoutS => exact leavesLink_connectWatch d isMac addr name timeoutS
  | btConnIndex index => exact leavesLink_connect d index
  | btDisc a => exact leavesLink_disconnect a d
  | btAuto mode => exact ⟨rfl, rfl, Or.inl rfl⟩
  | btPair a =>
    have h := leavesLink_disconnect a d
    exact ⟨h.client, h.usb, h.state⟩
  | gatt | linkEstablished | linkTerminated | pairState | task | btBatt =>
    exact absurd he Bool.false_ne_true

theorem task_cases (a : GapAnswers) (d : Dongle) :
    (d.client.svcDiscEvt.isSet = true ∧ d.state = .connected ∧ d.client.link.discState = .idle ∧
      dglProcessEvent a d =
        { d with
          client := dglStartSvcDiscovery a.toAnswers
            { d.client with svcDiscEvt := d.client.svcDiscEvt.clear } true }) ∨
    (d.client.svcDiscEvt.isSet = true ∧
      ¬ (d.state = .connected ∧ d.client.link.discState = .idle) ∧
      dglProcessEvent a d =
        { d with client := { d.client with svcDiscEvt := d.client.svcDiscEvt.clear } }) ∨
    (d.client.svcDiscEvt.isSet = false ∧ LeavesLink d (dglProcessEvent a d)) := by
  by_cases hset : d.client.svcDiscEvt.isSet = true
  · rw [dglProcessEvent, if_pos hset]
    by_cases hgo : d.state = .connected ∧ d.client.link.discState = .idle
    · exact Or.inl ⟨hset, hgo.1, hgo.2, if_pos hgo⟩
    · exact Or.inr (Or.inl ⟨hset, hgo, if_neg hgo⟩)
  · refine Or.inr (Or.inr ⟨Bool.eq_false_iff.mpr hset, ?_⟩)
    rw [dglProcessEvent, if_neg hset]
    split
    · have h := leavesLink_autoEvent a { d with autoEvt := d.autoEvt.clear }
      exact ⟨h.client, h.usb, h.state⟩
    split
    · have h := leavesLink_linkTimeoutEvent { d with linkTimeoutEvt := d.linkTimeoutEvt.clear }
      exact ⟨h.client, h.usb, h.state⟩
    split
    · have h := leavesLink_scanEvent a { d with scanEvt := false }
      exact ⟨h.client, h.usb, h.state⟩
    split
    · have h := leavesLink_connEvent a { d with connEvt := false }
      exact ⟨h.client, h.usb, h.state⟩
    · exact .refl d

def scanDue (d : Dongle) : Bool :=
  !d.client.svcDiscEvt.isSet && !d.autoEvt.isSet && !d.linkTimeoutEvt.isSet && d.scanEvt &&
    d.state = .idle && 0 ≤ d.pendScanSec

theorem scanDue_iff : scanDue d = true ↔
    d.client.svcDiscEvt.isSet = false ∧ d.autoEvt.isSet = false ∧
      d.linkTimeoutEvt.isSet = false ∧ d.scanEvt = true ∧ d.state = .idle ∧
      0 ≤ d.pendScanSec := by
  unfold scanDue
  simp only [Bool.and_eq_true, Bool.not_eq_true', decide_eq_true_eq, and_assoc]

/-- One task call handles one event. -/
theorem task_eq (a : GapAnswers) (d : Dongle) :
    (d.client.svcDiscEvt.isSet = true ∧ ∃ c, dglProcessEvent a d = { d with client := c }) ∨
    (d.client.svcDiscEvt.isSet = false ∧ d.autoEvt.isSet = true ∧
      dglProcessEvent a d = autoEvent a { d with autoEvt := d.autoEvt.clear }) ∨
    (d.client.svcDiscEvt.isSet = false ∧ d.autoEvt.isSet = false ∧
      d.linkTimeoutEvt.isSet = true ∧
      dglProcessEvent a d =
        linkTimeoutEvent { d with linkTimeoutEvt := d.linkTimeoutEvt.clear }) ∨
    (d.client.svcDiscEvt.isSet = false ∧ d.autoEvt.isSet = false ∧
      d.linkTimeoutEvt.isSet = false ∧ d.scanEvt = true ∧
      dglProcessEvent a d = scanEvent a { d with scanEvt := false }) ∨
    (d.scanEvt = false ∧ d.connEvt = true ∧
      dglProcessEvent a d = connEvent a { d with connEvt := false }) ∨
    (d.scanEvt = false ∧ dglProcessEvent a d = d) := by
  unfold dglProcessEvent
  split
  · rename_i h
    dsimp only
    split
    · exact Or.inl ⟨h, _, rfl⟩
    · exact Or.inl ⟨h, _, rfl⟩
  rename_i hsvc
  rw [Bool.not_eq_true] at hsvc
  split
  · rename_i h
    exact Or.inr (Or.inl ⟨hsvc, h, rfl⟩)
  rename_i hauto
  rw [Bool.not_eq_true] at hauto
  split
  · rename_i h
    exact Or.inr (Or.inr (Or.inl ⟨hsvc, hauto, h, rfl⟩))
  rename_i htimeout
  rw [Bool.not_eq_true] at htimeout
  split
  · rename_i h
    exact Or.inr (Or.inr (Or.inr (Or.inl ⟨hsvc, hauto, htimeout, h, rfl⟩)))
  rename_i hscan
  rw [Bool.not_eq_true] at hscan
  split
  · rename_i h
    exact Or.inr (Or.inr (Or.inr (Or.inr (Or.inl ⟨hscan, h, rfl⟩))))
  · exact Or.inr (Or.inr (Or.inr (Or.inr (Or.inr ⟨hscan, rfl⟩))))

theorem autoEvent_of_ne (hs : d.state ≠ .autoconn) : autoEvent a d = dglAutoKick a d :=
  if_neg fun h => hs h.1

theorem linkTimeoutEvent_of_ne (hs : d.state ≠ .connecting) : linkTimeoutEvent d = d := if_neg hs

theorem connEvent_of_ne (hs : d.state ≠ .idle) : connEvent a d = { d with pendConnIdx := -1 } :=
  if_neg fun h => hs h.1

def kicks (a : GapAnswers) (d : Dongle) : Bool :=
  d.auto && !d.autoHold && a.bondCount ≠ 0 && d.state = .idle && a.snvRead = success &&
    a.establishLink = success

theorem autoKick_cases (a : GapAnswers) (d : Dongle) :
    (kicks a d = true ∧ d.state = .idle ∧ dglAutoKick a d =
      { d with
        state := .autoconn
        air := { d.air with
          attempts := d.air.attempts ++ [⟨d.air.started, false⟩]
          started := d.air.started + 1 } }) ∨
    (kicks a d = false ∧ ∃ t, dglAutoKick a d = { d with autoEvt := t }) := by
  unfold kicks dglAutoKick
  split
  · rename_i hno
    refine Or.inr ⟨?_, _, rfl⟩
    rw [Bool.eq_false_iff]
    intro hk
    simp only [Bool.and_eq_true, Bool.not_eq_true', decide_eq_true_eq] at hk
    obtain ⟨⟨⟨⟨⟨ha, hh⟩, hb⟩, hs⟩, -⟩, -⟩ := hk
    rcases hno with h | h | h | h
    · exact nomatch ha.symm.trans h
    · exact nomatch hh.symm.trans h
    · exact hb h
    · exact h hs
  rename_i hgo
  simp only [not_or, not_not, Bool.not_eq_false, Bool.not_eq_true] at hgo
  obtain ⟨ha, hh, hb, hs⟩ := hgo
  split
  · rename_i hsnv
    refine Or.inr ⟨?_, _, rfl⟩
    simp [hsnv]
  rename_i hsnv
  split
  · rename_i he
    refine Or.inl ⟨?_, hs, ?_⟩
    · simp [ha, hh, hb, hs, not_not.mp hsnv, he]
    · rw [establishLink, if_pos he]
  · rename_i he
    refine Or.inr ⟨?_, _, rfl⟩
    simp [he]

theorem autoEvent_eq (a : GapAnswers) (d : Dongle) :
    ∃ st t air, autoEvent a d = { d with state := st, autoEvt := t, air := air } ∧
      t.isSet = d.autoEvt.isSet := by
  unfold autoEvent dglAutoKick establishLink
  split
  · exact ⟨_, _, _, rfl, rfl⟩
  split
  · exact ⟨_, _, _, rfl, rfl⟩
  split
  · exact ⟨_, _, _, rfl, rfl⟩
  split
  · exact ⟨_, _, _, rfl, rfl⟩
  · exact ⟨_, _, _, rfl, rfl⟩

theorem linkTimeoutEvent_eq (d : Dongle) :
    ∃ st air, linkTimeoutEvent d = { d with state := st, air := air } := by
  unfold linkTimeoutEvent cancelEstablish
  split
  · exact ⟨_, _, rfl⟩
  · exact ⟨_, _, rfl⟩

theorem scanEvent_eq (a : GapAnswers) (d : Dongle) :
    ∃ st list air p, scanEvent a d =
      { d with state := st, scanList := list, air := air, pendScanSec := p } := by
  unfold scanEvent
  split
  · exact ⟨_, _, _, _, rfl⟩
  · exact ⟨_, _, _, _, rfl⟩

theorem connEvent_eq (a : GapAnswers) (d : Dongle) :
    ∃ st t air p, connEvent a d =
      { d with state := st, linkTimeoutEvt := t, air := air, pendConnIdx := p } ∧
      t.isSet = d.linkTimeoutEvt.isSet := by
  unfold connEvent establishLink
  split
  · split
    · exact ⟨_, _, _, _, rfl, rfl⟩
    · exact ⟨_, _, _, _, rfl, rfl⟩
  · exact ⟨_, _, _, _, rfl, rfl⟩

theorem cccdWriteNext_cases (o : Build) (a : GapAnswers) (d : Dongle) :
    (d.client.link.protoPending = true ∧
      dglCccdWriteNext o a d =
        { d with
          client := dglWriteHandle a.toAnswers
            { d.client with link := { d.client.link with protoPending := false } }
            (d.client.link.cccdList.headD 0) gattClientCfgNotify 2 }) ∨
    (d.client.link.protoPending = false ∧
      d.client.link.cccdWr + 1 < d.client.link.cccdList.length ∧
      dglCccdWriteNext o a d =
        { d with
          client := dglWriteHandle a.toAnswers
            { d.client with link := { d.client.link with cccdWr := d.client.link.cccdWr + 1 } }
            (d.client.link.cccdList.getD (d.client.link.cccdWr + 1) 0) gattClientCfgNotify 2 }) ∨
    (d.client.link.protoPending = false ∧
      d.client.link.cccdList.length ≤ d.client.link.cccdWr + 1 ∧
      dglCccdWriteNext o a d =
        arm o a { d with
          client := { d.client with
            link := { d.client.link with cccdWr := d.client.link.cccdWr + 1 } } }) := by
  by_cases hp : d.client.link.protoPending = true
  · exact Or.inl ⟨hp, if_pos hp⟩
  by_cases hw : d.client.link.cccdWr + 1 < d.client.link.cccdList.length
  · refine Or.inr (Or.inl ⟨Bool.eq_false_iff.mpr hp, hw, ?_⟩)
    exact (if_neg hp).trans (if_pos hw)
  · refine Or.inr (Or.inr ⟨Bool.eq_false_iff.mpr hp, Nat.le_of_not_lt hw, ?_⟩)
    exact (if_neg hp).trans (if_neg hw)

theorem arm_eq (o : Build) (a : GapAnswers) (d : Dongle) :
    ∃ i p, arm o a d =
      { d with
        state := .armed
        autoFails := 0
        client := { d.client with
          link := { d.client.link with discState := .battSvc, rdIdx := i }
          procedure := p } } := by
  unfold arm readReport Client.submit
  dsimp only
  split
  · split
    · exact ⟨_, _, rfl⟩
    · exact ⟨_, _, rfl⟩
  · exact ⟨_, _, rfl⟩

/-- The branches of `dgl_process_gatt_msg`; the reads touch only their own bookkeeping. -/
theorem gatt_cases (o : Build) (a : GapAnswers) (d : Dongle) (m : GattMsg) :
    (∃ h r, m.body = .handleValueNoti h r ∧ d.state = .armed ∧
      dglProcessGattMsg o a d m = forward d h r) ∨
    (answersWrite d m = true ∧ dglProcessGattMsg o a d m = dglCccdWriteNext o a d) ∨
    ((d.client.link.battReading = true ∨ d.state = .armed) ∧
      ∃ b i p, dglProcessGattMsg o a d m =
        { d with
          client := { d.client with
            link := { d.client.link with battReading := b, rdIdx := i }
            procedure := p } }) ∨
    (answersWrite d m = false ∧ d.client.link.discState ≠ .idle ∧
      dglProcessGattMsg o a d m =
        { d with client := dglDiscoveryEvent a.toAnswers (d.state = .connected) m d.client }) ∨
    (d.client.link.discState = .idle ∧ dglProcessGattMsg o a d m = d) := by
  unfold dglProcessGattMsg
  split
  · rename_i h r hb hs
    exact Or.inl ⟨h, r, hb, hs, rfl⟩
  by_cases hw : answersWrite d m = true
  · exact Or.inr (Or.inl ⟨hw, if_pos hw⟩)
  rw [if_neg hw]
  split
  · rename_i hb
    rw [Bool.and_eq_true] at hb
    exact Or.inr (Or.inr (Or.inl ⟨Or.inl hb.2, false, _, _, rfl⟩))
  split
  · rename_i hr
    rw [Bool.and_eq_true, Bool.and_eq_true, decide_eq_true_eq] at hr
    refine Or.inr (Or.inr (Or.inl ⟨Or.inr hr.1.2, d.client.link.battReading, ?_⟩))
    unfold readNext readReport Client.submit
    dsimp only
    split
    · exact ⟨_, _, rfl⟩
    · exact ⟨_, _, rfl⟩
  split
  · rename_i hd
    exact Or.inr (Or.inr (Or.inr (Or.inl ⟨Bool.eq_false_iff.mpr hw, hd, rfl⟩)))
  · rename_i hd
    exact Or.inr (Or.inr (Or.inr (Or.inr ⟨not_not.mp hd, rfl⟩)))

theorem linkEstablished_success (d : Dongle) (handle : UInt16) :
    linkEstablished d success handle =
      { d with
        client := ⟨{ Link.reset with connHandle := handle, discRetries := 2 },
          d.client.svcDiscEvt.start, none, []⟩
        linkTimeoutEvt := d.linkTimeoutEvt.stop
        state := .connected
        autoHold := false } := rfl

theorem linkEstablished_failed (d : Dongle) {status : UInt8} (hs : status ≠ success)
    (handle : UInt16) :
    ∃ f hold, (d.autoHold = true → hold = true) ∧ linkEstablished d status handle =
      { d with
        client := ⟨Link.reset, d.client.svcDiscEvt, none, []⟩
        linkTimeoutEvt := d.linkTimeoutEvt.stop
        state := .idle
        autoFails := f
        autoHold := hold
        autoEvt := d.autoEvt.start } := by
  unfold linkEstablished dglAutoFailCount
  rw [if_neg hs]
  dsimp only
  split
  · exact ⟨_, true, fun _ => rfl, rfl⟩
  · exact ⟨_, d.autoHold, id, rfl⟩

theorem linkTerminated_eq (d : Dongle) :
    ∃ f hold, (d.autoHold = true → hold = true) ∧ linkTerminated d =
      { d with
        client := ⟨Link.reset, d.client.svcDiscEvt, none, []⟩
        state := .idle
        autoFails := f
        autoHold := hold
        autoEvt := d.autoEvt.set } := by
  unfold linkTerminated dglAutoFailCount
  dsimp only
  split
  · exact ⟨_, d.autoHold, id, rfl⟩
  split
  · exact ⟨_, true, fun _ => rfl, rfl⟩
  · exact ⟨_, d.autoHold, id, rfl⟩

theorem answersWrite_cccd {m : GattMsg} (h : answersWrite d m = true) :
    d.client.link.discState = .cccd ∧ d.client.link.cccdList ≠ [] := by
  unfold answersWrite at h
  rw [Bool.and_eq_true, Bool.and_eq_true, decide_eq_true_eq, decide_eq_true_eq] at h
  exact ⟨h.2, h.1.2⟩

theorem gatt_eq (o : Build) (a : GapAnswers) (d : Dongle) (m : GattMsg) :
    ∃ s c f u, dglProcessGattMsg o a d m =
      { d with state := s, client := c, autoFails := f, usb := u } ∧
      (s = d.state ∨ s = .armed ∧ d.client.link.discState = .cccd) ∧
      c.link.connHandle = d.client.link.connHandle := by
  rcases gatt_cases o a d m with ⟨h, r, -, -, he⟩ | ⟨hw, he⟩ | ⟨-, b, i, p, he⟩ |
    ⟨-, -, he⟩ | ⟨-, he⟩
  · rw [he]
    unfold forward
    split
    · exact ⟨_, _, _, _, rfl, Or.inl rfl, rfl⟩
    · exact ⟨_, _, _, _, rfl, Or.inl rfl, rfl⟩
  · rw [he]
    rcases cccdWriteNext_cases o a d with ⟨-, h⟩ | ⟨-, -, h⟩ | ⟨-, -, h⟩
    · rw [h]
      refine ⟨_, _, _, _, rfl, Or.inl rfl, ?_⟩
      rw [(writeHandle_link _ _ _ _ _).1]
    · rw [h]
      refine ⟨_, _, _, _, rfl, Or.inl rfl, ?_⟩
      rw [(writeHandle_link _ _ _ _ _).1]
    · obtain ⟨i, p, ha⟩ := arm_eq o a _
      rw [h, ha]
      exact ⟨_, _, _, _, rfl, Or.inr ⟨rfl, (answersWrite_cccd hw).1⟩, rfl⟩
  · rw [he]
    exact ⟨_, _, _, _, rfl, Or.inl rfl, rfl⟩
  · rw [he]
    exact ⟨_, _, _, _, rfl, Or.inl rfl, discoveryEvent_connHandle _ m d.client⟩
  · rw [he]
    exact ⟨_, _, _, _, rfl, Or.inl rfl, rfl⟩

theorem received_eq (d : Dongle) (m : GattMsg) (last : Bool) :
    ∃ p en, received d m last =
      { d with client := { d.client with procedure := p, enabled := en } } := by
  unfold received answered
  split
  · split
    · split
      · exact ⟨_, _, rfl⟩
      · exact ⟨_, _, rfl⟩
    · exact ⟨_, _, rfl⟩
  · exact ⟨_, _, rfl⟩

/-- Without a link nothing is left of the last one. -/
def DownReset (d : Dongle) : Prop := d.state.linkUp = false → d.client.link = Link.reset

theorem downReset_leavesLink {d' : Dongle} (hi : DownReset d) (h : LeavesLink d d') :
    DownReset d' := by
  intro hdown
  rw [h.client]
  rcases h.state with he | ⟨hup, -⟩
  · exact hi (he ▸ hdown)
  · exact hi hup

theorem gatt_down (o : Build) (a : GapAnswers) (m : GattMsg) (last : Bool) (hi : DownReset d)
    (hdown : d.state.linkUp = false) :
    dglProcessGattMsg o a (received d m last) m = received d m last := by
  obtain ⟨p, en, hrec⟩ := received_eq d m last
  have hlink : (received d m last).client.link = Link.reset := by
    rw [hrec]
    exact hi hdown
  have hstate : (received d m last).state = d.state := by rw [hrec]
  have harmed : (received d m last).state ≠ .armed := by
    rw [hstate]
    intro hs
    rw [hs] at hdown
    cases hdown
  rcases gatt_cases o a (received d m last) m with ⟨h, r, -, hs, -⟩ | ⟨hw, -⟩ | ⟨hb, -⟩ |
    ⟨-, hd, -⟩ | ⟨-, he⟩
  · exact absurd hs harmed
  · have hd := (answersWrite_cccd hw).1
    rw [hlink] at hd
    cases hd
  · rw [hlink] at hb
    rcases hb with hb | hb
    · cases hb
    · exact absurd hb harmed
  · rw [hlink] at hd
    exact absurd rfl hd
  · exact he

theorem downReset_step (o : Build) (d : Dongle) (e : Event) (hi : DownReset d) :
    DownReset (step o d e) := by
  cases e with
  | gatt m last a =>
    obtain ⟨s, c, f, u, he, hs, -⟩ := gatt_eq o a (received d m last) m
    obtain ⟨p, en, hrec⟩ := received_eq d m last
    intro hdown
    have hdown' : d.state.linkUp = false := by
      rw [step, he] at hdown
      rcases hs with h | ⟨h, -⟩
      · rw [h, hrec] at hdown
        exact hdown
      · rw [h] at hdown
        cases hdown
    rw [step, gatt_down o a m last hi hdown', hrec]
    exact hi hdown'
  | linkEstablished t status handle =>
    rw [step]
    split
    · by_cases hs : status = success
      · rw [hs, linkEstablished_success]
        exact nofun
      · obtain ⟨f, hold, -, h⟩ := linkEstablished_failed (reported d t status handle) hs handle
        rw [h]
        exact fun _ => rfl
    · exact hi
  | linkTerminated handle reason =>
    rw [step]
    split
    · obtain ⟨f, hold, -, h⟩ := linkTerminated_eq (ended d handle)
      rw [h]
      exact fun _ => rfl
    · exact hi
  | task a =>
    rcases task_cases a d with ⟨-, hs, -, h⟩ | ⟨-, -, h⟩ | ⟨-, h⟩
    · rw [step, h]
      intro hdown
      change d.state.linkUp = false at hdown
      rw [hs] at hdown
      cases hdown
    · rw [step, h]
      exact hi
    · exact downReset_leavesLink hi h
  | pairState state status =>
    rw [step]
    unfold dglPairStateCb
    split
    · exact hi
    · exact hi
  | btBatt a =>
    rw [step]
    unfold bleDongleBattRead
    split
    · exact hi
    rename_i h
    have harm : d.state = .armed := by
      by_contra hne
      exact h (Or.inl hne)
    split
    · intro hdown
      change d.state.linkUp = false at hdown
      rw [harm] at hdown
      cases hdown
    · exact hi
  | expire t =>
    cases t with
    | svcDisc | auto | linkTimeout => exact hi
  | deviceInitDone | deviceInfo | directDeviceInfo | discoveryDone | btScan | btConnWatch
  | btConnIndex | btDisc | btAuto | btPair => exact downReset_leavesLink hi (leavesLink_step rfl)

end Effects

section Runs

def bytes (bs : List UInt8) (i : ℕ) : UInt8 := bs.getD i 0

def answer (status : UInt8) (body : Body) (last : Bool) : Event := .gatt ⟨status, body⟩ last {}

def dglRelease : Build := ⟨false, false⟩

/-- The user scans, selects the keyboard found and the link comes up. -/
def connectRun : List Event :=
  [.btScan 5 [], .task {}, .deviceInfo ⟨fun _ => 1, 0, -40, true, []⟩, .discoveryDone,
    .btConnIndex 0, .task {}, .linkEstablished ⟨0, false⟩ success 0x20]

end Runs

end AtNode.Central
