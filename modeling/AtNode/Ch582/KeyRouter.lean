import AtNode.Ch582.Playback

/-!
# The keyboard router of the CH582 firmware

`kb_flush` sends a report to the outputs `kb_target` selects: the USB keyboard when it is ready, and
every selected BLE slot with a link, with up to 60 attempts while the link's queue is full. `AT+DEV`
sets `kb_target`. The number of BLE slots is a build constant.
-/

namespace AtNode.Router

abbrev kbTgtUsb : UInt8 := 0x01

abbrev kbTgtBle1 : UInt8 := 0x02

abbrev kbTgtBle2 : UInt8 := 0x04

abbrev kbTgtBle3 : UInt8 := 0x08

abbrev kbTgtBleAll : UInt8 := kbTgtBle1 ||| kbTgtBle2 ||| kbTgtBle3

def slotBit (s : ℕ) : UInt8 := UInt8.ofNat (2 <<< s)

def ascii (s : List Char) : List UInt8 := s.map Char.toUInt8

def devTargetParse (s : List UInt8) : UInt8 :=
  if s = ascii ['U', 'S', 'B'] then kbTgtUsb
  else if s = ascii ['B', 'L', 'E'] then kbTgtBle1
  else match s with
    | [b, l, e, d] =>
      if [b, l, e] = ascii ['B', 'L', 'E'] ∧ '1'.toUInt8 ≤ d ∧ d ≤ '3'.toUInt8 then
        slotBit (d - '1'.toUInt8).toNat
      else 0
    | _ => 0

section Slots

variable (n : ℕ)

def validTargets : UInt8 :=
  kbTgtUsb ||| kbTgtBle1 ||| (if 2 ≤ n then kbTgtBle2 else 0) ||| (if 3 ≤ n then kbTgtBle3 else 0)

/-- The target an `AT+DEV` line selects; `none` is the usage error. -/
def devTarget (argv : List (List UInt8)) : Option UInt8 :=
  let m := devTargetParse (argv.getD 1 [])
  if argv.length < 2 ∨ m = 0 ∨ m &&& ~~~ validTargets n ≠ 0 then none else some m

inductive Output where
  | usb
  | ble (s : Fin n)
  deriving DecidableEq

structure Diagnostics where
  drops : Fin n → UInt16
  lasterr : Fin n → UInt8

/-- What `kb_flush` meets: readiness, links, and the status of each attempt to send on a slot. -/
structure Env where
  usbReady : Bool
  linked : Fin n → Bool
  send : Fin n → ℕ → UInt8

end Slots

variable {n : ℕ}

abbrev success : UInt8 := 0x00

abbrev bleNotReady : UInt8 := 0x10

abbrev bleMemAllocError : UInt8 := 0x13

abbrev blePending : UInt8 := 0x16

/-- The retry loop: `budget` attempts are left, `i` were made, `st` is the last status. -/
def retrySend (send : ℕ → UInt8) : ℕ → ℕ → UInt8 → UInt8
  | 0, _, st => st
  | budget + 1, i, _ =>
    if send i ≠ blePending ∧ send i ≠ bleMemAllocError then send i
    else retrySend send budget (i + 1) (send i)

def sendStatus (env : Env n) (s : Fin n) : UInt8 := retrySend (env.send s) 60 0 success

def bleTried (kbTarget : UInt8) (env : Env n) : List (Fin n) :=
  if kbTarget &&& kbTgtBleAll ≠ 0 then
    (List.finRange n).filter fun s => kbTarget &&& slotBit s ≠ 0 ∧ env.linked s = true
  else []

def usbTried (kbTarget : UInt8) (env : Env n) : Bool := kbTarget &&& kbTgtUsb ≠ 0 && env.usbReady

/-- The outputs that took the report. -/
def reached (kbTarget : UInt8) (env : Env n) : List (Output n) :=
  ((bleTried kbTarget env).filter fun s => sendStatus env s = success).map .ble ++
    if usbTried kbTarget env then [.usb] else []

/-- `kb_flush`: the diagnostics after it and its return value. -/
def kbFlush (kbTarget : UInt8) (env : Env n) (d : Diagnostics n) : Diagnostics n × Int :=
  let failed (s : Fin n) : Bool := s ∈ bleTried kbTarget env ∧ sendStatus env s ≠ success ∧
    sendStatus env s ≠ bleNotReady
  ({ drops := fun s => if failed s then d.drops s + 1 else d.drops s
     lasterr := fun s => if failed s then sendStatus env s else d.lasterr s },
    if bleTried kbTarget env = [] ∧ usbTried kbTarget env = false then -1 else 0)

end AtNode.Router
