import AtNode.Lib.Run
import Mathlib.Algebra.Group.Nat.Defs

/-!
# Endpoint 0 of the CH582 USB device

The USB interrupt serves the control endpoint: a SETUP packet is decoded and the first packet of a
data stage is armed, each IN token that was answered with data arms the next one, a bus reset clears
the enumeration. `usb_ready` is the flag `kb_flush` asks.

The controller interrupts for an IN token only when it answered with a packet, so an endpoint that
is set to NAK or STALL leaves the state alone. Both directions of endpoint 0 stall together. What
lies behind the descriptor arrays in the flash is unknown and kept as a parameter. The registers of
the other endpoints are left out.
-/

namespace AtNode.Usb

abbrev ep0Size : ℕ := 0x40

abbrev ep1Size : UInt8 := 0x40

abbrev ep2Size : UInt8 := 8

abbrev ep3Size : UInt8 := 8

inductive BleMode where
  | kbd
  | kbdMulti
  | dongle
  | dual
  deriving DecidableEq

section Descriptors

def hidDescr : List UInt8 :=
  [0x05, 0x01, 0x09, 0x06, 0xA1, 0x01,
    0x05, 0x07, 0x19, 0xE0, 0x29, 0xE7, 0x15, 0x00, 0x25, 0x01,
    0x75, 0x01, 0x95, 0x08, 0x81, 0x02,
    0x95, 0x01, 0x75, 0x08, 0x81, 0x01,
    0x95, 0x06, 0x75, 0x08, 0x15, 0x00, 0x26, 0xFF, 0x00,
    0x05, 0x07, 0x19, 0x00, 0x29, 0xFF, 0x81, 0x00,
    0x05, 0x08, 0x19, 0x01, 0x29, 0x05, 0x15, 0x00, 0x25, 0x01,
    0x75, 0x01, 0x95, 0x05, 0x91, 0x02,
    0x95, 0x01, 0x75, 0x03, 0x91, 0x01, 0xC0]

def myDevDescr : List UInt8 :=
  [0x12, 0x01, 0x00, 0x02, 0xEF, 0x02, 0x01, UInt8.ofNat ep0Size,
    0x86, 0x1A, 0x07, 0x21, 0x00, 0x00, 0x01, 0x02, 0x00, 0x01]

def myCfgDescr : List UInt8 :=
  [0x09, 0x02, 0x6B, 0x00, 0x03, 0x01, 0x00, 0x80, 0x32,
    -- interfaces 0 and 1: CDC
    0x08, 0x0B, 0x00, 0x02, 0x02, 0x02, 0x01, 0x00,
    0x09, 0x04, 0x00, 0x00, 0x01, 0x02, 0x02, 0x01, 0x00,
    0x05, 0x24, 0x00, 0x10, 0x01,
    0x04, 0x24, 0x02, 0x02,
    0x05, 0x24, 0x06, 0x00, 0x01,
    0x05, 0x24, 0x01, 0x01, 0x00,
    0x07, 0x05, 0x83, 0x03, ep3Size, 0x00, 0x01,
    0x09, 0x04, 0x01, 0x00, 0x02, 0x0A, 0x00, 0x00, 0x00,
    0x07, 0x05, 0x01, 0x02, ep1Size, 0x00, 0x00,
    0x07, 0x05, 0x81, 0x02, ep1Size, 0x00, 0x00,
    -- interface 2: HID keyboard
    0x09, 0x04, 0x02, 0x00, 0x02, 0x03, 0x01, 0x01, 0x00,
    0x09, 0x21, 0x11, 0x01, 0x00, 0x01, 0x22, UInt8.ofNat hidDescr.length, 0x00,
    0x07, 0x05, 0x82, 0x03, ep2Size, 0x00, 0x0A,
    0x07, 0x05, 0x02, 0x03, ep2Size, 0x00, 0x0A]

/-- The characters of a string descriptor, each in two bytes. -/
def utf16 (s : List Char) : List UInt8 := s.flatMap fun c => [c.toUInt8, 0]

def langDescr : List UInt8 := [0x04, 0x03, 0x09, 0x04]

def manuInfo : List UInt8 := [0x0C, 0x03] ++ utf16 ['a', 't', '-', 'n', 'o', 'd', 'e']

def prodInfo : BleMode → List UInt8
  | .kbdMulti => [0x24, 0x03] ++
      utf16 ['A', 'T', '-', 'N', 'o', 'd', 'e', ' ', 'K', 'b', 'd', '-', 'M', 'u', 'l', 't', 'i']
  | .dongle => [0x1E, 0x03] ++
      utf16 ['A', 'T', '-', 'N', 'o', 'd', 'e', ' ', 'D', 'o', 'n', 'g', 'l', 'e']
  | .dual => [0x1A, 0x03] ++ utf16 ['A', 'T', '-', 'N', 'o', 'd', 'e', ' ', 'D', 'u', 'a', 'l']
  | .kbd => [0x18, 0x03] ++ utf16 ['A', 'T', '-', 'N', 'o', 'd', 'e', ' ', 'K', 'b', 'd']

def serialInfo : List UInt8 :=
  [0x1A, 0x03] ++ utf16 ['2', '0', '2', '6', '0', '7', '0', '1', 'A', 'B', 'C', 'D'] ++ [0, 0]

/-- `lineCoding`: 115200 baud, 1 stop bit, no parity, 8 data bits. Nothing writes it. -/
def lineCoding : List UInt8 := [0x00, 0xC2, 0x01, 0x00, 0x00, 0x00, 0x08]

end Descriptors

/-- The build and the flash behind the descriptor arrays. -/
structure Firmware where
  mode : BleMode
  behind : ℕ → UInt8

structure SetupReq where
  bRequestType : UInt8
  bRequest : UInt8
  wValue : UInt16
  wIndex : UInt16
  wLength : UInt16
  deriving DecidableEq

namespace SetupReq

variable (r : SetupReq)

def low (v : UInt16) : UInt8 := (v &&& 0xFF).toUInt8

def high (v : UInt16) : UInt8 := (v >>> 8).toUInt8

def packet : List UInt8 :=
  [r.bRequestType, r.bRequest, low r.wValue, high r.wValue, low r.wIndex, high r.wIndex,
    low r.wLength, high r.wLength]

def isIn : Bool := r.bRequestType &&& 0x80 ≠ 0

def isStandard : Bool := r.bRequestType &&& 0x60 = 0x00

def isClass : Bool := r.bRequestType &&& 0x60 = 0x20

def recipient : UInt8 := r.bRequestType &&& 0x1F

end SetupReq

section Requests

abbrev usbGetStatus : UInt8 := 0x00

abbrev usbClearFeature : UInt8 := 0x01

abbrev usbSetFeature : UInt8 := 0x03

abbrev usbSetAddress : UInt8 := 0x05

abbrev usbGetDescriptor : UInt8 := 0x06

abbrev usbGetConfiguration : UInt8 := 0x08

abbrev usbSetConfiguration : UInt8 := 0x09

abbrev usbGetInterface : UInt8 := 0x0A

abbrev usbSetInterface : UInt8 := 0x0B

abbrev defUsbGetReport : UInt8 := 0x01

abbrev defUsbGetIdle : UInt8 := 0x02

abbrev defUsbGetProtocol : UInt8 := 0x03

abbrev defUsbSetReport : UInt8 := 0x09

abbrev defUsbSetIdle : UInt8 := 0x0A

abbrev defUsbSetProtocol : UInt8 := 0x0B

abbrev cdcSetLineCoding : UInt8 := 0x20

abbrev cdcGetLineCoding : UInt8 := 0x21

abbrev cdcSetControlLine : UInt8 := 0x22

abbrev cdcSendBreak : UInt8 := 0x23

end Requests

/-- The response of endpoint 0 to an IN token. -/
inductive TRes where
  | ack
  | nak
  | stall
  deriving DecidableEq

/-- What the interrupt keeps. `pDescr` is the memory from the pointer on. -/
structure State where
  devConfig : UInt8
  ready : Bool
  cdcReady : Bool
  idleValue : UInt8
  setupReqCode : UInt8
  setupReqLen : UInt16
  pDescr : ℕ → UInt8
  ep0Buf : List UInt8
  devAd : UInt8
  tLen : ℕ
  tRes : TRes
  attached : Bool

def usbReady (s : State) : Bool := s.ready

/-- `memcpy` over the head of the buffer. -/
def overHead (buf src : List UInt8) : List UInt8 := src ++ buf.drop src.length

def fetch (p : ℕ → UInt8) (len : ℕ) : List UInt8 := (List.range len).map p

def advance (p : ℕ → UInt8) (len : ℕ) : ℕ → UInt8 := fun i => p (i + len)

section Setup

variable (fw : Firmware) (s : State) (r : SetupReq)

def pointTo (a : List UInt8) : ℕ → UInt8 := fun i => a.getD i (fw.behind (i - a.length))

/-- A descriptor that can be asked for: the array, where it starts in it, and its length. -/
def descriptor : Option (List UInt8 × ℕ × UInt8) :=
  let dt := SetupReq.high r.wValue
  if dt = 0x01 then some (myDevDescr, 0, myDevDescr.getD 0 0)
  else if dt = 0x02 then some (myCfgDescr, 0, myCfgDescr.getD 2 0)
  else if dt = 0x21 then some (myCfgDescr, 84, 9)
  else if dt = 0x22 then some (hidDescr, 0, UInt8.ofNat hidDescr.length)
  else if dt = 0x03 then
    let i := SetupReq.low r.wValue
    if i = 0 then some (langDescr, 0, langDescr.getD 0 0)
    else if i = 1 then some (manuInfo, 0, manuInfo.getD 0 0)
    else if i = 2 then some (prodInfo fw.mode, 0, (prodInfo fw.mode).getD 0 0)
    else if i = 3 then some (serialInfo, 0, serialInfo.getD 0 0)
    else none
  else none

/-- The requests of a type other than standard; `none` is the error flag. -/
def classRequest : Option State :=
  if r.recipient ≠ 0x01 then none
  else if SetupReq.low r.wIndex = 2 then
    if r.bRequest = defUsbSetIdle then some { s with idleValue := SetupReq.high r.wValue }
    else if r.bRequest = defUsbSetReport then some s
    else if r.bRequest = defUsbSetProtocol then some s
    else if r.bRequest = defUsbGetIdle then
      some { s with ep0Buf := overHead s.ep0Buf [s.idleValue] }
    else if r.bRequest = defUsbGetProtocol then some { s with ep0Buf := overHead s.ep0Buf [0] }
    else none
  else if SetupReq.low r.wIndex = 0 then
    if r.bRequest = cdcSetLineCoding ∨ r.bRequest = cdcSetControlLine then
      some { s with cdcReady := true }
    else if r.bRequest = cdcGetLineCoding then
      some { s with ep0Buf := overHead s.ep0Buf lineCoding }
    else if r.bRequest = cdcSendBreak then some s
    else none
  else none

/-- Of an endpoint only the four of CDC and HID can be halted or released. -/
def featureRequest : Option State :=
  if r.recipient ≠ 0x02 then some s
  else if SetupReq.low r.wIndex ∈ [0x81, 0x01, 0x82, 0x02] then some s
  else none

def standardRequest : Option State :=
  if r.bRequest = usbGetDescriptor then
    (descriptor fw r).map fun d =>
      let p := advance (pointTo fw d.1) d.2.1
      let reqLen := if d.2.2.toUInt16 < s.setupReqLen then d.2.2.toUInt16 else s.setupReqLen
      let len := min reqLen.toNat ep0Size
      { s with
        setupReqLen := reqLen
        ep0Buf := overHead s.ep0Buf (fetch p len)
        pDescr := advance p len }
  else if r.bRequest = usbSetAddress then some { s with setupReqLen := r.wValue &&& 0xFF }
  else if r.bRequest = usbGetConfiguration then
    some { s with
      ep0Buf := overHead s.ep0Buf [s.devConfig]
      setupReqLen := if 1 < s.setupReqLen then 1 else s.setupReqLen }
  else if r.bRequest = usbSetConfiguration then some { s with devConfig := 1, ready := true }
  else if r.bRequest = usbGetInterface then
    some { s with
      ep0Buf := overHead s.ep0Buf [0]
      setupReqLen := if 1 < s.setupReqLen then 1 else s.setupReqLen }
  else if r.bRequest = usbSetInterface then some s
  else if r.bRequest = usbClearFeature then featureRequest s r
  else if r.bRequest = usbSetFeature then featureRequest s r
  else if r.bRequest = usbGetStatus then
    some { s with
      ep0Buf := overHead s.ep0Buf [0x00, 0]
      setupReqLen := if 2 ≤ s.setupReqLen then 2 else s.setupReqLen }
  else none

def setupReceived : State :=
  { s with
    ep0Buf := overHead s.ep0Buf r.packet
    setupReqLen := r.wLength
    setupReqCode := r.bRequest
    tRes := .nak }

def decodeRequest : Option State :=
  if r.isStandard then standardRequest fw (setupReceived s r) r
  else classRequest (setupReceived s r) r

/-- The end of the SETUP processing: the first packet is armed, or both directions stall. -/
def setup : State :=
  match decodeRequest fw s r with
  | none => { setupReceived s r with tRes := .stall }
  | some t =>
    if r.isIn then
      let len := min t.setupReqLen.toNat ep0Size
      { t with setupReqLen := t.setupReqLen - UInt16.ofNat len, tLen := len, tRes := .ack }
    else { t with tLen := 0, tRes := .ack }

end Setup

section Tokens

variable (s : State)

def inToken : State :=
  if s.setupReqCode = usbGetDescriptor then
    let len := min s.setupReqLen.toNat ep0Size
    { s with
      ep0Buf := overHead s.ep0Buf (fetch s.pDescr len)
      setupReqLen := s.setupReqLen - UInt16.ofNat len
      pDescr := advance s.pDescr len
      tLen := len }
  else if s.setupReqCode = usbSetAddress then
    { s with devAd := (s.devAd &&& 0x80) ||| s.setupReqLen.toUInt8, tRes := .nak }
  else { s with tLen := 0, tRes := .nak, ready := true }

def busReset : State :=
  { s with devAd := 0, tRes := .nak, devConfig := 0, ready := false }

/-- `USB_DevDetach`: from here on there is no USB interrupt. -/
def usbDevDetach : State := { s with attached := false, devConfig := 0, cdcReady := false }

/-- `USB_Device_Setup`, and the USB interrupt enabled. -/
def usbDeviceSetup : State :=
  { s with attached := true, tRes := .nak, devAd := 0, devConfig := 0, cdcReady := false }

end Tokens

inductive Event where
  | busReset
  | setup (r : SetupReq)
  | inToken
  /-- An OUT token of endpoint 0; the data goes to the buffer, the handler reads its length. -/
  | outToken (data : List UInt8)
  /-- Any token of another endpoint, or a suspend. -/
  | other
  | detach
  | attach

def sent (s : State) : Event → Option (List UInt8)
  | .inToken => if s.attached ∧ s.tRes = .ack then some (s.ep0Buf.take s.tLen) else none
  | _ => none

def step (fw : Firmware) (s : State) (e : Event) : State :=
  match e with
  | .detach => usbDevDetach s
  | .attach => usbDeviceSetup s
  | .busReset => if s.attached then busReset s else s
  | .setup r => if s.attached then setup fw s r else s
  | .inToken => if s.attached ∧ s.tRes = .ack then inToken s else s
  | .outToken data =>
    if s.attached ∧ s.tRes ≠ .stall then { s with ep0Buf := overHead s.ep0Buf data } else s
  | .other => s

def boot : State where
  devConfig := 0
  ready := false
  cdcReady := false
  idleValue := 0
  setupReqCode := 0
  setupReqLen := 0
  pDescr := fun _ => 0
  ep0Buf := List.replicate ep0Size 0
  devAd := 0
  tLen := 0
  tRes := .nak
  attached := true

end AtNode.Usb
