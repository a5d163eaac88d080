import AtNode.Ch582.BleKeyboard
import AtNode.Ch582.Dongle
import AtNode.Ch582.Playback
import AtNode.Lib.ArgProgram

/-!
# The node behind the AT commands of the CH582 firmware

A node has the keyboard and the dongle side of the BLE stack, the key playback, the two configured
keys and the LED; what is left of it, pins, converters, busses and flash, is behind `Chip`. The
setters of the HWS layer check their arguments before the hardware sees them.

`taken` records what the setters were given and did not refuse.
-/

namespace AtNode.AtCmds

open Ble Router

abbrev Text := List UInt8

def bytes (s : String) : Text := s.toUTF8.data.toList

inductive Role where
  | kbd
  | dongle
  deriving DecidableEq

inductive BleMode where
  | kbd
  | dongle
  | dual
  deriving DecidableEq

structure Build where
  mode : BleMode
  gpio : Bool
  adc : Bool
  i2c : Bool
  usb : Bool
  verLib : Text

def Build.hasKbd (b : Build) : Bool := b.mode ≠ .dongle

def Build.hasDongle (b : Build) : Bool := b.mode ≠ .kbd

/-- There are `KEY_CFG_NUM` keys. -/
scoped instance keyCount : NeZero 2 := ⟨by decide⟩

/-- An address has `B_ADDR_LEN` bytes. -/
scoped instance addrLen : NeZero 6 := ⟨by decide⟩

/-- The hardware and the parts of the stack the handlers call. -/
structure Chip (n : ℕ) (σ : Type) where
  build : Build
  ble : Board
  gap : σ → Central.GapAnswers
  usbReady : σ → Bool
  send : σ → Fin n → ℕ → UInt8
  sendReport : List (Output n) → Hid.Report → σ → σ
  slotParams : σ → Fin n → ℕ × ℕ
  slotSecure : σ → Fin n → Bool
  slotNotify : σ → Fin n → Bool
  forgetBonds : σ → σ
  eraseBond : Addr → σ → σ
  wdgArmed : σ → Bool
  wdgArm : σ → σ
  wdgDisarm : σ → σ
  eepromRead : ℕ → ℕ → σ → Text
  eepromErase : ℕ → ℕ → σ → Bool × σ
  eepromWrite : ℕ → Text → σ → Bool × σ
  eraseApp : σ → σ
  gpioOut : UInt8 → UInt8 → Bool → σ → σ
  gpioIn : UInt8 → UInt8 → σ → Bool × σ
  adcSample : UInt8 → UInt8 → σ → UInt16 × σ
  temp : σ → UInt16
  celsius : UInt16 → ℤ
  battMv : σ → UInt16
  clock : σ → UInt32
  ledOnOff : UInt8 → σ → σ
  i2cInit : σ → σ
  i2cProbe : UInt8 → σ → Bool × σ
  i2cRead : UInt8 → UInt8 → ℕ → σ → Option Text × σ
  i2cWrite : UInt8 → UInt8 → Text → σ → Bool × σ
  sleep : ℕ → ℕ → σ → σ
  startStatus : σ → UInt8
  passkey : ℕ → σ → σ
  listBonds : σ → List Text

structure KeyCfg where
  pin : UInt8
  mods : UInt8
  kc : UInt8
  last : UInt8
  deriving DecidableEq

structure Led where
  mode : UInt8
  todo : UInt8
  onPct : UInt8
  time : UInt16
  next : UInt32

/-- A call of a setter that was not refused. -/
inductive Setting where
  | pace (slot : UInt8) (ms : UInt16)
  | gpioWrite (pin level : UInt8) (drive20 : Bool)
  | gpioRead (pin mode : UInt8)
  | adc (ch pga : UInt8)
  | blink (count duty : UInt8) (period : UInt16)
  | keyShown (pin : UInt8)
  | keySet (pin mods kc : UInt8)
  | connect (index : UInt8)
  | watch (seconds : UInt8)
  deriving DecidableEq

structure Node (n : ℕ) (σ : Type) where
  keyboard : Keyboard n
  diagnostics : Diagnostics n
  dongle : Central.Dongle
  playback : Playback.State
  keyCfg : Fin 2 → KeyCfg
  keyCfgLoaded : Bool
  led : Led
  i2cInited : Bool
  rest : σ
  replies : List Text
  taken : List Setting

variable {n : ℕ} {σ : Type}

section Setters

variable (C : Chip n σ) (w : Node n σ)

/-- A setter that took its arguments. -/
def Node.take (s : Setting) (rest : σ) : Node n σ := { w with rest := rest, taken := w.taken ++ [s] }

abbrev hwsGpioPLast : UInt8 := 39

def hwsGpioWrite (pin level : UInt8) (drive20 : Bool) : Int × Node n σ :=
  if hwsGpioPLast < pin then (-1, w)
  else (0, w.take (.gpioWrite pin level drive20) (C.gpioOut pin level drive20 w.rest))

def hwsGpioRead (pin mode : UInt8) : Int × Node n σ :=
  if hwsGpioPLast < pin ∨ 2 < mode then (-1, w)
  else
    let r := C.gpioIn pin mode w.rest
    (if r.1 then 1 else 0, w.take (.gpioRead pin mode) r.2)

abbrev hwsAdcVrefMv : UInt32 := 1050

/-- The voltage of a sample; the subtractions of the low gains wrap as the source's do. -/
def pgaRawToMv (raw : UInt16) (pga : UInt8) : UInt16 :=
  let raw := raw.toUInt32
  if pga = 0 then (raw * hwsAdcVrefMv / 512 - 3 * hwsAdcVrefMv).toUInt16
  else if pga = 1 then (raw * hwsAdcVrefMv / 1024 - hwsAdcVrefMv).toUInt16
  else if pga = 2 then (raw * hwsAdcVrefMv / 2048).toUInt16
  else if pga = 3 then ((raw + 2048) * hwsAdcVrefMv / 4096).toUInt16
  else 0xFFFF

/-- The voltage and the sample; a channel or a gain that is not there gives `0xFFFF`. -/
def hwsAdcReadMv (ch pga : UInt8) : (UInt16 × UInt16) × Node n σ :=
  if 13 < ch ∨ 3 < pga then ((0xFFFF, 0), w)
  else
    let r := C.adcSample ch pga w.rest
    let raw := r.1 &&& 0x0FFF
    ((pgaRawToMv raw pga, raw), w.take (.adc ch pga) r.2)

abbrev ledModeOff : UInt8 := 0x00

abbrev ledModeOn : UInt8 := 0x01

abbrev ledModeBlink : UInt8 := 0x02

abbrev ledModeFlash : UInt8 := 0x04

abbrev ledModeToggle : UInt8 := 0x08

def hwsLedSet (mode : UInt8) : Node n σ :=
  let m := if mode = ledModeToggle then w.led.mode ^^^ ledModeOn else mode
  { w with led := { w.led with mode := m }, rest := C.ledOnOff m w.rest }

def hwsLedBlink (count duty : UInt8) (period : UInt16) : Node n σ :=
  let w := w.take (.blink count duty period) w.rest
  if duty ≠ 0 ∧ period ≠ 0 then
    if duty < 100 then
      { w with led :=
          { mode := (if count = 0 then ledModeFlash else ledModeOff) ||| ledModeBlink
            todo := count
            onPct := duty
            time := period
            next := C.clock w.rest } }
    else hwsLedSet C w ledModeOn
  else hwsLedSet C w ledModeOff

def keyboardSetPace (slot : UInt8) (ms : UInt16) : Int × Node n σ :=
  let r := kbBleSlotSetPace C.ble w.keyboard slot ms
  (r.2, if r.2 < 0 then w else { w.take (.pace slot ms) w.rest with keyboard := r.1 })

def dongleConnect (index : UInt8) : Int × Node n σ :=
  let r := Central.bleDongleConnect w.dongle index
  (r.2, if r.2 < 0 then w else { w.take (.connect index) w.rest with dongle := r.1 })

/-- The watch keeps the seconds it is given to the range from 1 to 30. -/
def dongleConnectWatch (isMac : Bool) (addr : Addr) (name : Text) (seconds : UInt8) :
    Int × Node n σ :=
  let r := Central.bleDongleConnectWatch w.dongle isMac addr name seconds
  (r.2, if r.2 < 0 then w else { w.take (.watch seconds) w.rest with dongle := r.1 })

end Setters

section Keys

variable (C : Chip n σ) (w : Node n σ)

abbrev appKeycfgFlashAddr : ℕ := 0x7A00

def keyCfgMagic : Text := [0x02, 0x00, 0x7E, 0xA7]

def keyCfgSave : Node n σ :=
  let buf := keyCfgMagic ++
    [(w.keyCfg 0).mods, (w.keyCfg 0).kc, (w.keyCfg 1).mods, (w.keyCfg 1).kc]
  { w with rest := (C.eepromWrite appKeycfgFlashAddr buf
      (C.eepromErase appKeycfgFlashAddr 8 w.rest).2).2 }

def keyCfgDefault (last : Fin 2 → UInt8) : Fin 2 → KeyCfg := fun i =>
  if i = 0 then ⟨38, 0, 0x3A, last i⟩ else ⟨39, 0, 0x28, last i⟩

def keyCfgLoad : Node n σ :=
  let buf := C.eepromRead appKeycfgFlashAddr 8 w.rest
  let last i := (w.keyCfg i).last
  { w with keyCfg :=
      if buf.take 4 = keyCfgMagic then fun i =>
        if i = 0 then ⟨38, buf.getD 4 0, buf.getD 5 0, last i⟩
        else ⟨39, buf.getD 6 0, buf.getD 7 0, last i⟩
      else keyCfgDefault last }

def hwsKeyCfgFactoryReset : Node n σ :=
  { w with
    keyCfg := keyCfgDefault fun _ => 0
    rest := (C.eepromErase appKeycfgFlashAddr 8 w.rest).2 }

end Keys

section Roles

abbrev appRoleFlashAddr : ℕ := 0x7C00

/-- The record of `role_request`: `AR`, the role and its inverse. -/
def roleRecord (r : Role) : Text :=
  let c : UInt8 := if r = .dongle then 1 else 0
  bytes "AR" ++ [c, ~~~c]

def roleCurrent (C : Chip n σ) (s : σ) : Role :=
  match C.build.mode with
  | .kbd => .kbd
  | .dongle => .dongle
  | .dual => if C.eepromRead appRoleFlashAddr 4 s = roleRecord .dongle then .dongle else .kbd

def roleName : Role → Text
  | .dongle => bytes "dongle"
  | .kbd => bytes "kbd"

def roleParse (s : Text) : Option Role :=
  if s.headD 0 &&& ~~~0x20 = 'K'.toUInt8 then some .kbd
  else if s.headD 0 &&& ~~~0x20 = 'D'.toUInt8 then some .dongle
  else none

/-- `role_request` of a DUAL build; the write follows an erase that worked. -/
def roleRequest (C : Chip n σ) (r : Role) (s : σ) : Bool × σ :=
  let e := C.eepromErase appRoleFlashAddr 4 s
  if e.1 then C.eepromWrite appRoleFlashAddr (roleRecord r) e.2 else (false, e.2)

end Roles

section Bare

def bareChip : Chip 1 Unit where
  build := ⟨.kbd, true, true, true, true, []⟩
  ble := board
  gap := fun _ => {}
  usbReady := fun _ => false
  send := fun _ _ _ => bleNotReady
  sendReport := fun _ _ _ => ()
  slotParams := fun _ _ => (0, 0)
  slotSecure := fun _ _ => false
  slotNotify := fun _ _ => false
  forgetBonds := fun _ => ()
  eraseBond := fun _ _ => ()
  wdgArmed := fun _ => false
  wdgArm := fun _ => ()
  wdgDisarm := fun _ => ()
  eepromRead := fun _ k _ => List.replicate k 0xFF
  eepromErase := fun _ _ _ => (true, ())
  eepromWrite := fun _ _ _ => (true, ())
  eraseApp := fun _ => ()
  gpioOut := fun _ _ _ _ => ()
  gpioIn := fun _ _ _ => (false, ())
  adcSample := fun _ _ _ => (0, ())
  temp := fun _ => 0
  celsius := fun _ => 0
  battMv := fun _ => 0
  clock := fun _ => 0
  ledOnOff := fun _ _ => ()
  i2cInit := fun _ => ()
  i2cProbe := fun _ _ => (false, ())
  i2cRead := fun _ _ _ _ => (none, ())
  i2cWrite := fun _ _ _ _ => (false, ())
  sleep := fun _ _ _ => ()
  startStatus := fun _ => 0
  passkey := fun _ _ => ()
  listBonds := fun _ => []

def bareNode : Node 1 Unit where
  keyboard := bss erasedPage
  diagnostics := ⟨fun _ => 0, fun _ => 0⟩
  dongle := Central.boot ⟨false, false⟩
  playback := Playback.boot.st
  keyCfg := fun _ => ⟨0, 0, 0, 0⟩
  keyCfgLoaded := false
  led := ⟨0, 0, 0, 0, 0⟩
  i2cInited := false
  rest := ()
  replies := []
  taken := []

end Bare

end AtNode.AtCmds
