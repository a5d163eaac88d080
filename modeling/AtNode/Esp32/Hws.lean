import AtNode.Esp32.Cfg

/-!
# The hardware services of the ESP32 firmware

GPIO, the converter and the I2C bus. Each service checks its arguments, which have the types of the
peripherals by then, and has one access to the hardware or none. What the hardware answers is a
parameter; the accesses are kept in the order in which they were made.
-/

namespace AtNode.Hws

open Config

abbrev i2cIoMax : ℕ := 32

inductive Access where
  | gpioWrite (pin : UInt8) (high : Bool)
  | gpioRead (pin : UInt8)
  | adc (ch : UInt8)
  /-- The register address as it is sent, and the number of bytes read. -/
  | i2cRead (addr : UInt8) (reg : List UInt8) (len : ℕ)
  | i2cWrite (addr : UInt8) (reg data : List UInt8)
  deriving DecidableEq

structure Board where
  ledColor : Bool
  level : UInt8 → Bool
  millivolts : UInt8 → UInt16
  i2cRead : UInt8 → List UInt8 → ℕ → Option (List UInt8)
  i2cWrite : UInt8 → List UInt8 → Bool

/-- A result, and the accesses made for it. -/
structure Outcome (α : Type) where
  accesses : List Access
  result : α

variable (b : Board)

def pinForbidden (pin : UInt8) : Bool :=
  decide (48 < pin) || (decide (26 ≤ pin) && decide (pin ≤ 37)) || (b.ledColor && pin == 48) ||
    pin ∈ ([0, 3, 19, 20, 43, 44, 45, 46] : List UInt8)

def gpioWrite (pin : UInt8) (high : Bool) : Outcome Bool :=
  if pinForbidden b pin then ⟨[], false⟩ else ⟨[.gpioWrite pin high], true⟩

def gpioRead (pin : UInt8) : Outcome (Option Bool) :=
  if pinForbidden b pin then ⟨[], none⟩ else ⟨[.gpioRead pin], some (b.level pin)⟩

def adcReadMv (ch : UInt8) : Outcome (Option UInt16) :=
  if 9 < ch ∨ ch = 7 ∨ ch = 8 then ⟨[], none⟩ else ⟨[.adc ch], some (b.millivolts ch)⟩

/-- One byte of address, or two above 255. -/
def regBytes (reg : ℕ) : List UInt8 :=
  if 0xFF < reg then [(reg >>> 8).toUInt8, (reg &&& 0xFF).toUInt8] else [reg.toUInt8]

def i2cRead (addr : UInt8) (reg len : ℕ) : Outcome (Option (List UInt8)) :=
  if len = 0 ∨ 0x7F < addr ∨ 0xFFFF < reg then ⟨[], none⟩
  else ⟨[.i2cRead addr (regBytes reg) len], b.i2cRead addr (regBytes reg) len⟩

def i2cWrite (addr : UInt8) (reg : ℕ) (data : List UInt8) : Outcome Bool :=
  if 0x7F < addr ∨ 0xFFFF < reg ∨ i2cIoMax < data.length then ⟨[], false⟩
  else ⟨[.i2cWrite addr (regBytes reg) data], b.i2cWrite addr (regBytes reg ++ data)⟩

end AtNode.Hws
