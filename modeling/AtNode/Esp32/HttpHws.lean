import AtNode.Lib.ByteSlice
import AtNode.Esp32.Api
import AtNode.Esp32.Args
import AtNode.Esp32.Bond
import AtNode.Esp32.Hws
import AtNode.Esp32.Query

/-!
# The hardware handlers of the web server

A handler takes its arguments from the body of the request where the body has the key, and from the
query string otherwise. The handlers check the numbers, narrow them to the types of the hardware
services, and answer with JSON. Without a result the firmware has stopped in a slice.
-/

namespace AtNode.Http

open Config Query Args Hws
open Api (digits)

structure Args where
  body : Text
  query : Text

structure Reply where
  status : ℕ
  body : Text

section Arguments

/-- The key with an equals sign behind it is in the text. -/
def hasIn (haystack key : Text) : Bool := decide (key ++ ['='] <:+: haystack)

def Args.get (a : Args) (key : Text) : Option Text :=
  if hasIn a.body key then queryGet a.body key else queryGet a.query key

def Args.toU32 (a : Args) (key : Text) : Option (Option ℕ) := (a.get key).map (parseNum u32Max)

end Arguments

section Replies

def errBody (msg : String) : Text :=
  "\x7b\"ok\":false,\"error\":\"".toList ++ msg.toList ++ "\"\x7d".toList

def badRequest (msg : String) : Reply := ⟨400, errBody msg⟩

def refuse (msg : String) : Outcome Reply := ⟨[], badRequest msg⟩

def hexDigits (n : ℕ) : Text := Nat.toDigits 16 n

def hexBytes (bs : List UInt8) : Text := [' '].intercalate (bs.map Bond.byteHexUpper)

end Replies

section Handlers

structure Node where
  hws : Bool
  board : Board

variable (n : Node) (a : Args)

def hGpioWrite : Option (Outcome Reply) :=
  if !n.hws then some (refuse "hws disabled")
  else
    (a.toU32 "pin".toList).bind fun pin => (a.toU32 "level".toList).map fun level =>
      match pin, level with
      | some pin, some level =>
        if pin ≤ 255 then
          let o := gpioWrite n.board pin.toUInt8 (level ≠ 0)
          ⟨o.accesses, if o.result then
            ⟨200, "\x7b\"ok\":true,\"cmd\":\"gpio/write\",\"pin\":".toList ++ digits pin ++
              ",\"level\":".toList ++ digits level ++ "\x7d".toList⟩
            else badRequest "invalid pin"⟩
        else refuse "invalid pin"
      | _, _ => refuse "invalid pin"

def hGpioRead : Option (Outcome Reply) :=
  if !n.hws then some (refuse "hws disabled")
  else
    (a.toU32 "pin".toList).map fun pin =>
      match pin with
      | some pin =>
        if pin ≤ 255 then
          let o := gpioRead n.board pin.toUInt8
          ⟨o.accesses, match o.result with
            | some level =>
              ⟨200, "\x7b\"ok\":true,\"cmd\":\"gpio/read\",\"pin\":".toList ++ digits pin ++
                ",\"level\":".toList ++ digits level.toNat ++ "\x7d".toList⟩
            | none => badRequest "invalid pin"⟩
        else refuse "invalid pin"
      | none => refuse "invalid pin"

def hAdcRead : Option (Outcome Reply) :=
  if !n.hws then some (refuse "hws disabled")
  else
    (a.toU32 "ch".toList).map fun ch =>
      match ch with
      | some ch =>
        if ch ≤ 255 then
          let o := adcReadMv n.board ch.toUInt8
          ⟨o.accesses, match o.result with
            | some mv =>
              ⟨200, "\x7b\"ok\":true,\"cmd\":\"adc/read\",\"ch\":".toList ++ digits ch ++
                ",\"mv\":".toList ++ digits mv.toNat ++ "\x7d".toList⟩
            | none => badRequest "invalid adc ch"⟩
        else refuse "invalid adc ch"
      | none => refuse "invalid adc ch"

/-- The number of bytes is one where it is missing or no number. -/
def hI2cRead : Option (Outcome Reply) :=
  if !n.hws then some (refuse "hws disabled")
  else
    (a.toU32 "len".toList).bind fun len =>
      let len := len.getD 1
      if len = 0 ∨ i2cIoMax < len then some (refuse "len must be 1-32")
      else
        (a.toU32 "addr".toList).bind fun addr => (a.toU32 "reg".toList).map fun reg =>
          match addr, reg with
          | some addr, some reg =>
            let o := i2cRead n.board addr.toUInt8 reg len
            ⟨o.accesses, match o.result with
              | some data =>
                ⟨200, "\x7b\"ok\":true,\"cmd\":\"i2c/read\",\"addr\":\"0x".toList ++
                  hexDigits addr ++ "\",\"reg\":\"0x".toList ++ hexDigits reg ++
                  "\",\"data\":\"".toList ++ hexBytes data ++ "\"\x7d".toList⟩
              | none => ⟨500, errBody "i2c no ack"⟩⟩
          | _, _ => refuse "missing addr/reg"

/-- The loop over the pairs at the given positions; the inner result is none at the first pair that
is no number. -/
def hexPairs (hex : Text) : List ℕ → Option (Option (List UInt8))
  | [] => some (some [])
  | i :: is =>
    (Utf8.slice hex i (i + 2)).bind fun pair =>
      match parseHex u8Max pair with
      | none => some none
      | some v => (hexPairs hex is).map (Option.map (v.toUInt8 :: ·))

def pairStarts (len : ℕ) : List ℕ := (List.range ((len + 1) / 2)).map (2 * ·)

def hI2cWrite : Option (Outcome Reply) :=
  if !n.hws then some (refuse "hws disabled")
  else
    (a.get "data".toList).bind fun data =>
      let hex := data.filter (· ≠ ' ')
      if hex = [] ∨ byteLen hex % 2 ≠ 0 ∨ i2cIoMax < byteLen hex / 2 then
        some (refuse "data must be hex pairs")
      else
        (hexPairs hex (pairStarts (byteLen hex))).bind fun data =>
          match data with
          | none => some (refuse "data must be hex pairs")
          | some data =>
            (a.toU32 "addr".toList).bind fun addr => (a.toU32 "reg".toList).map fun reg =>
              match addr, reg with
              | some addr, some reg =>
                let o := i2cWrite n.board addr.toUInt8 reg data
                ⟨o.accesses, if o.result then
                  ⟨200, "\x7b\"ok\":true,\"cmd\":\"i2c/write\",\"addr\":\"0x".toList ++
                    hexDigits addr ++ "\",\"reg\":\"0x".toList ++ hexDigits reg ++
                    "\"\x7d".toList⟩
                  else ⟨500, errBody "i2c no ack"⟩⟩
              | _, _ => refuse "missing addr/reg"

end Handlers

end AtNode.Http
