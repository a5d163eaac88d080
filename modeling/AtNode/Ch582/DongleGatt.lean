import Mathlib.Data.List.Basic
import Mathlib.Data.UInt

/-!
# The GATT client of the CH582 dongle

Once a link to a keyboard is up, the dongle looks for the HID service, for the boot keyboard input
report or else all report characteristics, and for the client characteristic configurations
(CCCDs), and then enables notifications by writing the CCCDs one after the other. Every answer of
the BLE stack moves `dgl_disc_state` on.

`Client` is what the dongle keeps for one link, together with the procedure the stack has accepted
on the link and not answered yet, and the CCCDs for which a write of the notify flag has been
answered with success. A stack call may be refused; `Answers` gives what the stack returns.
-/

namespace AtNode.Central

abbrev success : UInt8 := 0x00

abbrev bleProcedureComplete : UInt8 := 0x1A

abbrev attErrInsufficientAuthen : UInt8 := 0x05

abbrev hidServUuid : UInt16 := 0x1812

abbrev battServUuid : UInt16 := 0x180F

abbrev bootKeyInputUuid : UInt16 := 0x2A22

abbrev protocolModeUuid : UInt16 := 0x2A4E

abbrev reportUuid : UInt16 := 0x2A4D

abbrev gattClientCharCfgUuid : UInt16 := 0x2902

abbrev battLevelUuid : UInt16 := 0x2A19

abbrev gattClientCfgNotify : UInt16 := 0x0001

abbrev connHandleInit : UInt16 := 0xFFFE

abbrev dglMaxReports : ℕ := 8

abbrev dglMaxCccd : ℕ := 8

inductive DiscState where
  | idle
  | svc
  | bootChar
  | protoChar
  | rptChar
  | cccd
  | battSvc
  | battChar
  deriving DecidableEq

inductive Body where
  | findByTypeValueRsp (numInfo : UInt16) (pHandlesInfo : ℕ → UInt8)
  | readByTypeRsp (numPairs len : UInt16) (pDataList : ℕ → UInt8)
  | writeRsp
  | errorRsp (errCode : UInt8) (handle : UInt16)
  | readRsp (pValue : List UInt8)
  | handleValueNoti (handle : UInt16) (pValue : List UInt8)
  | other (method : UInt8)

structure GattMsg where
  status : UInt8
  body : Body

inductive Procedure where
  | discPrimaryService (uuid : UInt16)
  | readUsingCharUuid (uuid : UInt16)
  | writeCharValue (handle value : UInt16) (len : UInt8)
  | readCharValue (handle : UInt16)
  deriving DecidableEq

structure Answers where
  discPrimaryService : UInt8 := success
  readUsingCharUuid : UInt8 := success
  bmAlloc : Bool := true
  writeCharValue : UInt8 := success
  readCharValue : UInt8 := success

/-- The per-link state that `dgl_reset_link_state` resets. -/
structure Link where
  connHandle : UInt16
  discState : DiscState
  discRetries : UInt8
  svcStart : UInt16
  svcEnd : UInt16
  bootHdl : UInt16
  protoHdl : UInt16
  rptHdls : List UInt16
  cccdList : List UInt16
  cccdWr : ℕ
  battHdl : UInt16
  battReading : Bool
  protoPending : Bool
  rdIdx : ℕ

def Link.reset : Link where
  connHandle := connHandleInit
  discState := .idle
  discRetries := 0
  svcStart := 0
  svcEnd := 0
  bootHdl := 0
  protoHdl := 0
  rptHdls := []
  cccdList := []
  cccdWr := 0
  battHdl := 0
  battReading := false
  protoPending := false
  rdIdx := 0

/-- An event of the dongle's task: its timer, and whether it is set. -/
structure TaskEvent where
  timer : Bool
  isSet : Bool
  deriving DecidableEq

def TaskEvent.Scheduled (t : TaskEvent) : Prop := t.timer = true ∨ t.isSet = true

def TaskEvent.none : TaskEvent := ⟨false, false⟩

def TaskEvent.start (t : TaskEvent) : TaskEvent := { t with timer := true }

def TaskEvent.stop (t : TaskEvent) : TaskEvent := { t with timer := false }

def TaskEvent.set (t : TaskEvent) : TaskEvent := { t with isSet := true }

def TaskEvent.clear (t : TaskEvent) : TaskEvent := { t with isSet := false }

def TaskEvent.expire (t : TaskEvent) : TaskEvent :=
  if t.timer then ⟨false, true⟩ else t

structure Client where
  link : Link
  svcDiscEvt : TaskEvent
  procedure : Option Procedure
  enabled : List UInt16

section Calls

variable (a : Answers) (c : Client)

def Client.submit (c : Client) (status : UInt8) (p : Procedure) : Client :=
  { c with procedure := if status = success then some p else c.procedure }

def dglFindChar (uuid : UInt16) (next : DiscState) : Client :=
  { c with link := { c.link with discState := next } }.submit a.readUsingCharUuid
    (.readUsingCharUuid uuid)

def dglWriteHandle (handle value : UInt16) (len : UInt8) : Client :=
  if a.bmAlloc then c.submit a.writeCharValue (.writeCharValue handle value len) else c

def dglDiscoveryFailed (connected : Bool) : Client :=
  if 0 < c.link.discRetries ∧ connected then
    { c with
      link := { c.link with discRetries := c.link.discRetries - 1, discState := .idle }
      svcDiscEvt := c.svcDiscEvt.start }
  else { c with link := { c.link with discState := .idle } }

def dglStartSvcDiscovery (connected : Bool) : Client :=
  let c' := { c with link := { c.link with
    svcStart := 0, svcEnd := 0, bootHdl := 0, protoHdl := 0, discState := .svc } }
  if a.discPrimaryService = success then
    { c' with procedure := some (.discPrimaryService hidServUuid) }
  else dglDiscoveryFailed c' connected

end Calls

section Discovery

def buildUint16 (lo hi : UInt8) : UInt16 := lo.toUInt16 ||| hi.toUInt16 <<< 8

def dglRbtVhandle (len : UInt16) (pDataList : ℕ → UInt8) (idx : UInt8) : UInt16 :=
  buildUint16 (pDataList (idx.toNat * len.toNat)) (pDataList (idx.toNat * len.toNat + 1))

def Link.inService (l : Link) (h : UInt16) : Bool := l.svcStart < h && h ≤ l.svcEnd

def GattMsg.isErrorRsp (m : GattMsg) : Bool :=
  match m.body with
  | .errorRsp _ _ => true
  | _ => false

def GattMsg.isWriteRsp (m : GattMsg) : Bool :=
  match m.body with
  | .writeRsp => true
  | _ => false

def GattMsg.complete (m : GattMsg) : Bool := m.status = bleProcedureComplete || m.isErrorRsp

/-- The value handles of a Read By Type response in the order of its items. -/
def valueHandles (numPairs len : UInt16) (pDataList : ℕ → UInt8) : List UInt16 :=
  (List.range numPairs.toNat).map fun i => dglRbtVhandle len pDataList (UInt8.ofNat i)

/-- The first value handle of a response if it lies in the service. -/
def firstHandle (l : Link) (m : GattMsg) : Option UInt16 :=
  match m.body with
  | .readByTypeRsp numPairs len pDataList =>
    ((valueHandles numPairs len pDataList).head?).filter l.inService
  | _ => none

def foundService (l : Link) (m : GattMsg) : Link :=
  match m.body with
  | .findByTypeValueRsp numInfo info =>
    if 0 < numInfo then
      { l with svcStart := buildUint16 (info 0) (info 1), svcEnd := buildUint16 (info 2) (info 3) }
    else l
  | _ => l

def collectReport (l : Link) (h : UInt16) : Link :=
  if l.rptHdls.length < dglMaxReports ∧ l.inService h then { l with rptHdls := l.rptHdls ++ [h] }
  else l

/-- In boot mode the smallest CCCD behind the boot report is kept, in report mode all of them. -/
def collectCccd (l : Link) (h : UInt16) : Link :=
  if l.cccdList.length < dglMaxCccd ∧ l.inService h then
    if l.bootHdl ≠ 0 then
      if l.bootHdl < h ∧ (l.cccdList.headD 0 = 0 ∨ h < l.cccdList.headD 0) then
        { l with cccdList := [h] }
      else l
    else { l with cccdList := l.cccdList ++ [h] }
  else l

/-- What each state of the discovery takes from a message. -/
def collect (l : Link) (m : GattMsg) : Link :=
  match l.discState with
  | .svc | .battSvc => foundService l m
  | .bootChar => { l with bootHdl := (firstHandle l m).getD l.bootHdl }
  | .protoChar => { l with protoHdl := (firstHandle l m).getD l.protoHdl }
  | .battChar => { l with battHdl := (firstHandle l m).getD l.battHdl }
  | .rptChar =>
    match m.body with
    | .readByTypeRsp numPairs len p => (valueHandles numPairs len p).foldl collectReport l
    | _ => l
  | .cccd =>
    match m.body with
    | .readByTypeRsp numPairs len p => (valueHandles numPairs len p).foldl collectCccd l
    | _ => l
  | .idle => l

/-- What each state of the discovery does when its procedure is complete. -/
def advance (a : Answers) (connected : Bool) (c : Client) : Client :=
  match c.link.discState with
  | .svc =>
    if c.link.svcStart ≠ 0 then dglFindChar a c bootKeyInputUuid .bootChar
    else dglDiscoveryFailed c connected
  | .bootChar =>
    if c.link.bootHdl ≠ 0 then dglFindChar a c protocolModeUuid .protoChar
    else dglFindChar a { c with link := { c.link with rptHdls := [] } } reportUuid .rptChar
  | .rptChar =>
    if c.link.rptHdls ≠ [] then
      dglFindChar a { c with link := { c.link with cccdList := [] } } gattClientCharCfgUuid .cccd
    else dglDiscoveryFailed c connected
  | .protoChar =>
    dglFindChar a { c with link := { c.link with cccdList := [] } } gattClientCharCfgUuid .cccd
  | .cccd =>
    if c.link.cccdList ≠ [] then
      if c.link.bootHdl ≠ 0 ∧ c.link.protoHdl ≠ 0 then
        dglWriteHandle a { c with link := { c.link with cccdWr := 0, protoPending := true } }
          c.link.protoHdl 0 1
      else
        dglWriteHandle a { c with link := { c.link with cccdWr := 0 } }
          (c.link.cccdList.headD 0) gattClientCfgNotify 2
    else dglDiscoveryFailed c connected
  | .battSvc =>
    if c.link.svcStart ≠ 0 ∧ c.link.svcEnd ≠ 0 then dglFindChar a c battLevelUuid .battChar
    else { c with link := { c.link with discState := .idle } }
  | .battChar => { c with link := { c.link with discState := .idle } }
  | .idle => c

def GattMsg.isAuthenError (m : GattMsg) : Bool :=
  match m.body with
  | .errorRsp errCode _ => errCode = attErrInsufficientAuthen
  | _ => false

def dglDiscoveryEvent (a : Answers) (connected : Bool) (m : GattMsg) (c : Client) : Client :=
  if m.isAuthenError then { c with link := { c.link with discState := .idle } }
  else
    let c' := { c with link := collect c.link m }
    if m.complete then advance a connected c' else c'

end Discovery

section Effects

variable {l : Link} {c : Client} {a : Answers}

theorem foundService_eq (l : Link) (m : GattMsg) :
    ∃ s t, foundService l m = { l with svcStart := s, svcEnd := t } := by
  unfold foundService
  split
  · split
    · exact ⟨_, _, rfl⟩
    · exact ⟨_, _, rfl⟩
  · exact ⟨_, _, rfl⟩

theorem foldl_collectReport_eq (hs : List UInt16) (l : Link) :
    ∃ r, hs.foldl collectReport l = { l with rptHdls := r } := by
  induction hs generalizing l with
  | nil => exact ⟨_, rfl⟩
  | cons h hs ih =>
    obtain ⟨r, hr⟩ := ih (collectReport l h)
    have hone : ∃ r, collectReport l h = { l with rptHdls := r } := by
      unfold collectReport
      split
      · exact ⟨_, rfl⟩
      · exact ⟨_, rfl⟩
    obtain ⟨q, hq⟩ := hone
    rw [List.foldl_cons, hr, hq]
    exact ⟨_, rfl⟩

theorem foldl_collectCccd_eq (hs : List UInt16) (l : Link) :
    ∃ cs, hs.foldl collectCccd l = { l with cccdList := cs } ∧ (l.cccdList ≠ [] → cs ≠ []) := by
  induction hs generalizing l with
  | nil => exact ⟨_, rfl, id⟩
  | cons h hs ih =>
    obtain ⟨cs, he, hne⟩ := ih (collectCccd l h)
    have hone : ∃ cs, collectCccd l h = { l with cccdList := cs } ∧
        (l.cccdList ≠ [] → cs ≠ []) := by
      unfold collectCccd
      split
      · split
        · split
          · exact ⟨_, rfl, fun _ => List.cons_ne_nil _ _⟩
          · exact ⟨_, rfl, id⟩
        · exact ⟨_, rfl, fun hn => List.append_ne_nil_of_left_ne_nil hn _⟩
      · exact ⟨_, rfl, id⟩
    obtain ⟨cs', he', hne'⟩ := hone
    rw [he'] at he hne
    rw [List.foldl_cons, he', he]
    exact ⟨cs, rfl, fun hn => hne (hne' hn)⟩

theorem collect_handles (hd : l.discState ≠ .cccd) (m : GattMsg) :
    ∃ s t b p r k, collect l m =
      { l with
        svcStart := s, svcEnd := t, bootHdl := b, protoHdl := p, rptHdls := r, battHdl := k } := by
  unfold collect
  split
  · obtain ⟨s, t, h⟩ := foundService_eq l m
    exact ⟨s, t, _, _, _, _, h⟩
  · obtain ⟨s, t, h⟩ := foundService_eq l m
    exact ⟨s, t, _, _, _, _, h⟩
  · exact ⟨_, _, _, _, _, _, rfl⟩
  · exact ⟨_, _, _, _, _, _, rfl⟩
  · exact ⟨_, _, _, _, _, _, rfl⟩
  · split
    · rename_i n len p hb
      obtain ⟨r, h⟩ := foldl_collectReport_eq (valueHandles n len p) l
      exact ⟨_, _, _, _, r, _, h⟩
    · exact ⟨_, _, _, _, _, _, rfl⟩
  · rename_i hc
    exact absurd hc hd
  · exact ⟨_, _, _, _, _, _, rfl⟩

theorem collect_cccd (hd : l.discState = .cccd) (m : GattMsg) :
    (∃ hs, collect l m = List.foldl collectCccd l hs) ∨ collect l m = l := by
  unfold collect
  rw [hd]
  dsimp only
  split
  · exact Or.inl ⟨_, rfl⟩
  · exact Or.inr rfl

theorem collect_frame (l : Link) (m : GattMsg) :
    (collect l m).discState = l.discState ∧ (collect l m).battReading = l.battReading ∧
      (collect l m).connHandle = l.connHandle ∧
      (l.cccdList ≠ [] → (collect l m).cccdList ≠ []) := by
  by_cases hd : l.discState = .cccd
  · rcases collect_cccd hd m with ⟨hs, h⟩ | h
    · obtain ⟨cs, he, hne⟩ := foldl_collectCccd_eq hs l
      rw [h, he]
      exact ⟨rfl, rfl, rfl, hne⟩
    · rw [h]
      exact ⟨rfl, rfl, rfl, id⟩
  · obtain ⟨s, t, b, p, r, k, h⟩ := collect_handles hd m
    rw [h]
    exact ⟨rfl, rfl, rfl, id⟩

theorem writeHandle_link (a : Answers) (c : Client) (handle value : UInt16) (len : UInt8) :
    (dglWriteHandle a c handle value len).link = c.link ∧
      (dglWriteHandle a c handle value len).enabled = c.enabled := by
  unfold dglWriteHandle
  split
  · exact ⟨rfl, rfl⟩
  · exact ⟨rfl, rfl⟩

theorem discoveryFailed_eq (c : Client) (connected : Bool) :
    ∃ n evt, dglDiscoveryFailed c connected =
      { c with
        link := { c.link with discRetries := n, discState := .idle }
        svcDiscEvt := evt } := by
  unfold dglDiscoveryFailed
  split
  · exact ⟨_, _, rfl⟩
  · exact ⟨_, _, rfl⟩

/-- The discovery moves on on the same link and enables nothing by itself. -/
theorem advance_frame (connected : Bool) (c : Client) :
    (advance a connected c).enabled = c.enabled ∧
      (advance a connected c).link.connHandle = c.link.connHandle := by
  have hfail : (dglDiscoveryFailed c connected).enabled = c.enabled ∧
      (dglDiscoveryFailed c connected).link.connHandle = c.link.connHandle := by
    obtain ⟨n, evt, h⟩ := discoveryFailed_eq c connected
    rw [h]
    exact ⟨rfl, rfl⟩
  unfold advance
  split
  · split
    · exact ⟨rfl, rfl⟩
    · exact hfail
  · split
    · exact ⟨rfl, rfl⟩
    · exact ⟨rfl, rfl⟩
  · split
    · exact ⟨rfl, rfl⟩
    · exact hfail
  · exact ⟨rfl, rfl⟩
  · split
    · split
      · rw [(writeHandle_link _ _ _ _ _).1, (writeHandle_link _ _ _ _ _).2]
        exact ⟨rfl, rfl⟩
      · rw [(writeHandle_link _ _ _ _ _).1, (writeHandle_link _ _ _ _ _).2]
        exact ⟨rfl, rfl⟩
    · exact hfail
  · split
    · exact ⟨rfl, rfl⟩
    · exact ⟨rfl, rfl⟩
  · exact ⟨rfl, rfl⟩
  · exact ⟨rfl, rfl⟩

theorem discoveryEvent_connHandle (connected : Bool) (m : GattMsg) (c : Client) :
    (dglDiscoveryEvent a connected m c).link.connHandle = c.link.connHandle := by
  unfold dglDiscoveryEvent
  split
  · rfl
  dsimp only
  split
  · rw [(advance_frame _ _).2]
    exact (collect_frame c.link m).2.2.1
  · exact (collect_frame c.link m).2.2.1

theorem startSvcDiscovery_cases (a : Answers) (c : Client) (connected : Bool) :
    (dglStartSvcDiscovery a c connected =
      { c with
        link := { c.link with
          svcStart := 0, svcEnd := 0, bootHdl := 0, protoHdl := 0, discState := .svc }
        procedure := some (.discPrimaryService hidServUuid) }) ∨
    ∃ n evt, dglStartSvcDiscovery a c connected =
      { c with
        link := { c.link with
          svcStart := 0, svcEnd := 0, bootHdl := 0, protoHdl := 0, discRetries := n,
          discState := .idle }
        svcDiscEvt := evt } := by
  unfold dglStartSvcDiscovery
  dsimp only
  split
  · exact Or.inl rfl
  · obtain ⟨n, evt, h⟩ := discoveryFailed_eq { c with link := { c.link with
      svcStart := 0, svcEnd := 0, bootHdl := 0, protoHdl := 0, discState := .svc } } connected
    exact Or.inr ⟨n, evt, h⟩

end Effects

end AtNode.Central
