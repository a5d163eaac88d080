import AtNode.Lib.Run
import Mathlib.Data.List.FinRange

/-!
# The keyboard as a GATT server

The profile keeps a table of its links and of what each of them may be sent. A report goes out as a
notification of the characteristic that stands for it in the protocol mode, on a link that is secure and
whose host asked for it. The battery service tells its hosts of the level.

The stack keeps the links and what the hosts wrote into the client configurations; `links` and `cfg` are
its tables, `sent` has the reports it was given to notify and `told` the levels.
-/

namespace AtNode.HidDev

variable {n : ℕ}

section Source

def noHandle : UInt16 := 0xFFFE

def success : UInt8 := 0x00

def modeBoot : UInt8 := 0x00

def modeReport : UInt8 := 0x01

def typeInput : UInt8 := 1

def typeOutput : UInt8 := 2

def typeFeature : UInt8 := 3

def attrNotLong : UInt8 := 0x0B

def invalidOffset : UInt8 := 0x07

def attrNotFound : UInt8 := 0x0A

def invalidValueSize : UInt8 := 0x0D

def invalidValue : UInt8 := 0x80

def notReady : UInt8 := 0x10

def noResources : UInt8 := 0x15

/-- The attributes of the HID and of the battery service that have values. -/
inductive Attr where
  | info | controlPoint | protocolMode | reportMap | extReportRef
  | keyIn | keyInCccd | keyInRef | ledOut | ledOutRef
  | bootKeyIn | bootKeyInCccd | bootKeyOut | feature | featureRef
  | battLevel | battCccd | battRef
  deriving DecidableEq

def Attr.uuid : Attr → UInt16
  | .info => 0x2A4A
  | .controlPoint => 0x2A4C
  | .protocolMode => 0x2A4E
  | .reportMap => 0x2A4B
  | .extReportRef => 0x2907
  | .keyIn | .ledOut | .feature => 0x2A4D
  | .keyInCccd | .bootKeyInCccd | .battCccd => 0x2902
  | .keyInRef | .ledOutRef | .featureRef | .battRef => 0x2908
  | .bootKeyIn => 0x2A22
  | .bootKeyOut => 0x2A32
  | .battLevel => 0x2A19

def reportUuid : UInt16 := 0x2A4D

def bootKeyInputUuid : UInt16 := 0x2A22

def bootKeyOutputUuid : UInt16 := 0x2A32

def bootMouseInputUuid : UInt16 := 0x2A33

/-- The map from reports to characteristics. -/
structure RptMap where
  attr : Option Attr
  cccd : Option Attr
  id : UInt8
  type : UInt8
  mode : UInt8

/-- The last entry is never set. -/
def hidRptMap : List RptMap :=
  [⟨some .keyIn, some .keyInCccd, 0, typeInput, modeReport⟩,
   ⟨some .ledOut, none, 0, typeOutput, modeReport⟩,
   ⟨some .bootKeyIn, some .bootKeyInCccd, 0, typeInput, modeBoot⟩,
   ⟨some .bootKeyOut, none, 0, typeOutput, modeBoot⟩,
   ⟨some .feature, none, 0, typeFeature, modeReport⟩,
   ⟨some .battLevel, some .battCccd, 4, typeInput, modeReport⟩,
   ⟨none, none, 0, 0, modeBoot⟩]

structure Advert where
  intMin : ℕ
  intMax : ℕ
  timeout : ℕ
  enabled : Bool

structure Noti where
  conn : UInt16
  attr : Attr
  data : List UInt8
  deriving DecidableEq

structure Hid (n : ℕ) where
  handles : Fin n → UInt16
  secure : Fin n → Bool
  intv : Fin n → UInt16
  lat : Fin n → UInt16
  lastHandle : UInt16
  pairingStatus : UInt8
  gapState : UInt8
  mode : UInt8
  ledOut : UInt8
  feature : UInt8
  bootKeyOut : UInt8
  adv : Advert
  level : UInt8
  critical : UInt8
  /-- The timer of the battery task, and its event. -/
  timer : Bool
  due : Bool
  cfg : Attr → UInt16 → UInt16
  links : List UInt16
  sent : List Noti
  told : List (UInt16 × UInt8)

def slotOf (k : Hid n) (handle : UInt16) : Option (Fin n) :=
  (List.finRange n).find? fun s => k.handles s = handle

def slotAlloc (k : Hid n) (handle : UInt16) : Hid n × Option (Fin n) :=
  match slotOf k handle with
  | some s => (k, some s)
  | none =>
    match slotOf k noHandle with
    | some s => ({ k with handles := fun t => if t = s then handle else k.handles t }, some s)
    | none => (k, none)

def connSecure (k : Hid n) (conn : UInt16) : Bool :=
  match slotOf k conn with
  | some s => k.secure s
  | none => false

def connCount (k : Hid n) : ℕ := (List.finRange n).countP fun s => k.handles s ≠ noHandle

def rptById (id type mode : UInt8) : Option RptMap :=
  hidRptMap.find? fun p => p.id = id ∧ p.type = type ∧ p.mode = mode

def rptByHandle (attr : Attr) (mode : UInt8) : Option RptMap :=
  hidRptMap.find? fun p => p.attr = some attr ∧ p.mode = mode

/-- `GATTServApp_ReadCharCfg`: the host asked for notifications. -/
def notifies (k : Hid n) (cccd : Attr) (conn : UInt16) : Bool := k.cfg cccd conn &&& 0x0001 ≠ 0

/-- `noti` is what the stack says, or that it has no memory. -/
def sendNoti (k : Hid n) (conn : UInt16) (attr : Attr) (data : List UInt8) (noti : UInt8) :
    Hid n × UInt8 :=
  if noti = success then ({ k with sent := k.sent ++ [⟨conn, attr, data⟩] }, noti) else (k, noti)

def sendReport (k : Hid n) (conn : UInt16) (id type : UInt8) (data : List UInt8) (noti : UInt8) :
    Hid n × UInt8 :=
  match rptById id type k.mode with
  | some ⟨some attr, some c, _, _, _⟩ =>
    if notifies k c conn then sendNoti k conn attr data noti else (k, noResources)
  | _ => (k, noResources)

def highAdvertising (k : Hid n) : Hid n := { k with adv := ⟨32, 48, 5, true⟩ }

def lowAdvertising (k : Hid n) : Hid n := { k with adv := ⟨160, 160, 0, true⟩ }

def initialAdvertising (k : Hid n) : Hid n := { k with adv := ⟨48, 80, 60, true⟩ }

def gapAdvertising : UInt8 := 2

def report (k : Hid n) (conn : UInt16) (id type : UInt8) (data : List UInt8) (noti bonds : UInt8) :
    Hid n × UInt8 :=
  if connSecure k conn then sendReport k conn id type data noti
  else if connCount k = 0 ∧ k.gapState ≠ gapAdvertising then
    (if 0 < bonds then highAdvertising k else initialAdvertising k, notReady)
  else (k, notReady)

/-- `GATTServApp_InitCharCfg` for one link -/
def initCharCfg (k : Hid n) (cccd : Attr) (conn : UInt16) : Hid n :=
  { k with cfg := fun a h => if a = cccd ∧ h = conn then 0 else k.cfg a h }

def loopbackHandle : UInt16 := 0xFFFE

def handleConnStatus (k : Hid n) (conn : UInt16) : Hid n :=
  if conn ≠ loopbackHandle then
    (hidRptMap.filterMap RptMap.cccd).foldl (fun k c => initCharCfg k c conn) k
  else k

def battHandleConnStatus (k : Hid n) (conn : UInt16) : Hid n :=
  if conn ≠ loopbackHandle then initCharCfg k .battCccd conn else k

def freeSlot (k : Hid n) (conn : UInt16) : Hid n :=
  match slotOf k conn with
  | some s =>
    { k with
      handles := fun t => if t = s then noHandle else k.handles t
      secure := fun t => if t = s then false else k.secure t }
  | none => k

def disconnected (k : Hid n) (conn : UInt16) (bonds : UInt8) : Hid n :=
  let k := battHandleConnStatus k conn
  let k := handleConnStatus k conn
  let k := { freeSlot k conn with mode := modeReport }
  if 0 < bonds then lowAdvertising k else k

def linkEstablished (k : Hid n) (conn intv lat : UInt16) : Hid n :=
  let r := slotAlloc k conn
  let k := { r.1 with lastHandle := conn }
  let k := match r.2 with
    | some s =>
      { k with
        secure := fun t => if t = s then false else k.secure t
        intv := fun t => if t = s then intv else k.intv t
        lat := fun t => if t = s then lat else k.lat t }
    | none => k
  { k with adv := { k.adv with enabled := false } }

def confirmValueFailed : UInt8 := 0x04

def linkTerminated (k : Hid n) (conn : UInt16) (bonds : UInt8) : Hid n :=
  let k := disconnected k conn bonds
  if k.pairingStatus = confirmValueFailed then { initialAdvertising k with pairingStatus := success }
  else k

def paramUpdate (k : Hid n) (conn intv lat : UInt16) : Hid n :=
  match slotOf k conn with
  | some s =>
    { k with
      intv := fun t => if t = s then intv else k.intv t
      lat := fun t => if t = s then lat else k.lat t }
  | none => k

def pairingComplete : UInt8 := 0x01

def pairingBonded : UInt8 := 0x02

def setSecure (k : Hid n) (conn : UInt16) (status : UInt8) : Hid n :=
  if status = success then
    match slotOf k conn with
    | some s => { k with secure := fun t => if t = s then true else k.secure t }
    | none => k
  else k

def pairState (k : Hid n) (conn : UInt16) (state status : UInt8) : Hid n :=
  if state = pairingComplete then { setSecure k conn status with pairingStatus := status }
  else if state = pairingBonded then setSecure k conn status
  else k

def len8 (value : List UInt8) : UInt8 := UInt8.ofNat value.length

def setParam (k : Hid n) (type : UInt8) (uuid : UInt16) (value : List UInt8) : Hid n × UInt8 :=
  if uuid = reportUuid then
    if type = typeOutput then
      if len8 value = 1 then ({ k with ledOut := value.headD 0 }, success) else (k, invalidValueSize)
    else if type = typeFeature then
      if len8 value = 1 then ({ k with feature := value.headD 0 }, success) else (k, invalidValueSize)
    else (k, attrNotFound)
  else if uuid = bootKeyOutputUuid then
    if len8 value = 1 then ({ k with bootKeyOut := value.headD 0 }, success) else (k, invalidValueSize)
  else (k, success)

def getParam (k : Hid n) (type : UInt8) (uuid : UInt16) : List UInt8 :=
  if uuid = reportUuid then
    if type = typeOutput then [k.ledOut] else if type = typeFeature then [k.feature] else []
  else if uuid = bootKeyOutputUuid then [k.bootKeyOut]
  else []

/-- `ble_hid_emu_rpt_cb`, a write -/
def rptCbWrite (k : Hid n) (type : UInt8) (uuid : UInt16) (value : List UInt8) : Hid n × UInt8 :=
  if uuid = reportUuid ∧ type = typeOutput ∧ len8 value ≠ 1 then (k, invalidValueSize)
  else setParam k type uuid value

def hidInfo : List UInt8 := [0x11, 0x01, 0x00, 0x03]

def hidReportMap : List UInt8 :=
  [0x05, 0x01, 0x09, 0x06, 0xA1, 0x01, 0x05, 0x07, 0x19, 0xE0, 0x29, 0xE7, 0x15, 0x00, 0x25, 0x01,
   0x75, 0x01, 0x95, 0x08, 0x81, 0x02, 0x95, 0x01, 0x75, 0x08, 0x81, 0x01, 0x95, 0x05, 0x75, 0x01,
   0x05, 0x08, 0x19, 0x01, 0x29, 0x05, 0x91, 0x02, 0x95, 0x01, 0x75, 0x03, 0x91, 0x01, 0x95, 0x06,
   0x75, 0x08, 0x15, 0x00, 0x25, 0x65, 0x05, 0x07, 0x19, 0x00, 0x29, 0x65, 0x81, 0x00, 0xC0]

/-- The references to reports and what they are. -/
def refValue : Attr → List UInt8
  | .keyInRef => [0, typeInput]
  | .ledOutRef => [0, typeOutput]
  | .featureRef => [0, typeFeature]
  | .battRef => [4, typeInput]
  | _ => []

def readAttr (k : Hid n) (attr : Attr) (offset maxLen : ℕ) : Except UInt8 (List UInt8) :=
  if 0 < offset ∧ attr.uuid ≠ Attr.reportMap.uuid then .error attrNotLong
  else if attr.uuid ∈ [reportUuid, bootKeyInputUuid, bootKeyOutputUuid, bootMouseInputUuid] then
    match rptByHandle attr k.mode with
    | some p => .ok (getParam k p.type attr.uuid)
    | none => .ok []
  else if attr.uuid = Attr.reportMap.uuid then
    if hidReportMap.length ≤ offset then .error invalidOffset
    else .ok ((hidReportMap.drop offset).take maxLen)
  else if attr.uuid = Attr.info.uuid then .ok hidInfo
  else if attr.uuid = Attr.keyInRef.uuid then .ok (refValue attr)
  else if attr.uuid = Attr.protocolMode.uuid then .ok [k.mode]
  else if attr.uuid = Attr.extReportRef.uuid then .ok [0x19, 0x2A]
  else .ok []

def charCfg (value : List UInt8) : UInt16 :=
  (value.getD 0 0).toUInt16 ||| (value.getD 1 0).toUInt16 <<< 8

/-- `GATTServApp_ProcessCCCWriteReq` says whether it takes the value. -/
def writeCfg (k : Hid n) (attr : Attr) (conn : UInt16) (value : List UInt8) : Hid n :=
  { k with cfg := fun a h => if a = attr ∧ h = conn then charCfg value else k.cfg a h }

def writeAttr (k : Hid n) (conn : UInt16) (attr : Attr) (value : List UInt8) (offset : ℕ) (ccc : UInt8) :
    Hid n × UInt8 :=
  if 0 < offset then (k, attrNotLong)
  else if attr.uuid = reportUuid ∨ attr.uuid = bootKeyOutputUuid then
    match rptByHandle attr k.mode with
    | some p => rptCbWrite k p.type attr.uuid value
    | none => (k, success)
  else if attr.uuid = Attr.controlPoint.uuid then
    match value with
    | [b] => (k, if b = 0x00 ∨ b = 0x01 then success else invalidValue)
    | _ => (k, invalidValueSize)
  else if attr.uuid = Attr.keyInCccd.uuid then
    (if ccc = success then writeCfg k attr conn value else k, ccc)
  else if attr.uuid = Attr.protocolMode.uuid then
    match value with
    | [b] => if b = modeBoot ∨ b = modeReport then ({ k with mode := b }, success) else (k, invalidValue)
    | _ => (k, invalidValueSize)
  else (k, success)

/-- The links that a notification of the level reaches: `ok` says where the stack takes it. -/
def battHosts (k : Hid n) (ok : UInt16 → Bool) : List UInt16 :=
  k.links.filter fun h => notifies k .battCccd h && ok h

def battNotify (k : Hid n) (ok : UInt16 → Bool) : Hid n :=
  { k with told := k.told ++ (battHosts k ok).map (·, k.level) }

def measLevel (k : Hid n) (measured : UInt8) (ok : UInt16 → Bool) : Hid n :=
  if measured ≠ k.level then battNotify { k with level := measured } ok else k

def setCritical (k : Hid n) (critical : UInt8) (ok : UInt16 → Bool) : Hid n :=
  let k := { k with critical }
  if k.level < k.critical then battNotify k ok else k

def battRead (k : Hid n) (attr : Attr) (offset : ℕ) (measured : UInt8) :
    Hid n × Except UInt8 (List UInt8) :=
  if 0 < offset then (k, .error attrNotLong)
  else if attr.uuid = Attr.battLevel.uuid then ({ k with level := measured }, .ok [measured])
  else if attr.uuid = Attr.battRef.uuid then (k, .ok (refValue attr))
  else (k, .error attrNotFound)

/-- `battWriteAttrCB` with `hidDevBattCB` -/
def battWrite (k : Hid n) (conn : UInt16) (attr : Attr) (value : List UInt8) (ccc : UInt8) :
    Hid n × UInt8 :=
  if attr.uuid = Attr.battCccd.uuid then
    if ccc = success then ({ writeCfg k attr conn value with timer := charCfg value ≠ 0 }, ccc)
    else (k, ccc)
  else (k, attrNotFound)

def battPeriodic (k : Hid n) (measured : UInt8) (ok : UInt16 → Bool) : Hid n :=
  { measLevel k measured ok with timer := true }

/-- `ble_hid_dev_close` asks the stack to end the links. -/
def close (k : Hid n) : Hid n := { k with adv := { k.adv with enabled := false } }

def Attr.battery : Attr → Bool
  | .battLevel | .battCccd | .battRef => true
  | _ => false

inductive Event where
  | established (conn intv lat : UInt16) (gapState : UInt8)
  | terminated (conn : UInt16) (gapState bonds : UInt8)
  | gapState (gapState : UInt8)
  | params (conn intv lat : UInt16)
  | paired (conn : UInt16) (state status : UInt8)
  | read (conn : UInt16) (attr : Attr) (offset maxLen : ℕ) (measured : UInt8)
  | write (conn : UInt16) (attr : Attr) (value : List UInt8) (offset : ℕ) (ccc : UInt8)
  | report (conn : UInt16) (id type : UInt8) (data : List UInt8) (noti bonds : UInt8)
  | close
  | setCritical (critical : UInt8) (ok : UInt16 → Bool)
  /-- The timer of the battery task runs out, and the task has its turn. -/
  | expire
  | battTurn (measured : UInt8) (ok : UInt16 → Bool)

def step (k : Hid n) : Event → Hid n
  | .established conn intv lat gapState =>
    { linkEstablished k conn intv lat with gapState, links := k.links ++ [conn] }
  | .terminated conn gapState bonds =>
    { linkTerminated k conn bonds with gapState, links := k.links.filter (· ≠ conn) }
  | .gapState gapState => { k with gapState }
  | .params conn intv lat => paramUpdate k conn intv lat
  | .paired conn state status => pairState k conn state status
  | .read _ attr offset _ measured => if attr.battery then (battRead k attr offset measured).1 else k
  | .write conn attr value offset ccc =>
    if attr.battery then (battWrite k conn attr value ccc).1
    else (writeAttr k conn attr value offset ccc).1
  | .report conn id type data noti bonds => (report k conn id type data noti bonds).1
  | .close => close k
  | .setCritical critical ok => setCritical k critical ok
  | .expire => if k.timer then { k with timer := false, due := true } else k
  | .battTurn measured ok => if k.due then battPeriodic { k with due := false } measured ok else k

def hidDevInit (n : ℕ) : Hid n where
  handles := fun _ => noHandle
  secure := fun _ => false
  intv := fun _ => 0
  lat := fun _ => 0
  lastHandle := noHandle
  pairingStatus := success
  gapState := 0
  mode := modeReport
  ledOut := 0
  feature := 0
  bootKeyOut := 0
  adv := ⟨0, 0, 0, true⟩
  level := 100
  critical := 6
  timer := false
  due := false
  cfg := fun _ _ => 0
  links := []
  sent := []
  told := []

/-- What the stack may tell: a new link has a handle of its own and there is room for it, and what else it
tells is about a link it has. -/
def Told (k : Hid n) : Event → Prop
  | .established conn _ _ _ => conn ∉ k.links ∧ conn ≠ noHandle ∧ k.links.length < n
  | .terminated conn _ _ | .params conn _ _ | .paired conn _ _ | .read conn _ _ _ _
  | .write conn _ _ _ _ => conn ∈ k.links
  | _ => True

instance (k : Hid n) (e : Event) : Decidable (Told k e) := by
  unfold Told
  split <;> infer_instance

end Source

end AtNode.HidDev
