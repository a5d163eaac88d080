import AtNode.Ch582.ArgStore
import AtNode.Lib.Lines
import AtNode.Lib.Ring
import AtNode.Lib.Run

/-!
# The AT line parser of the CH582 firmware

`AT_Poll` reads two byte streams, the UART FIFO and the USB CDC receive ring, and assembles command
lines in `at_line`. There is one `at_line` with one length for both channels, and one `at_argv`; only
the channel that sends the line feed decides where the answer goes.

A parser step is one byte handed to the assembler. `taken` records these bytes with the channel
they came from, `executed` the command lines given to the handler table.
-/

namespace AtNode.AtParser

open AtCmds (ArgStore lineOver stripCr processHead)
open Strtok (strAt)

inductive Channel where
  | uart | cdc
  deriving DecidableEq, Repr

def Channel.other : Channel → Channel
  | .uart => .cdc
  | .cdc => .uart

abbrev atRxBufSize : ℕ := 256

abbrev cdcRxBufSize : ℕ := 256

/-- A line that was looked up in the command table, with what the table and the handlers get. -/
structure Command where
  channel : Channel
  line : List UInt8
  argc : ℕ
  args : ArgStore

structure Parser where
  /-- The characters of the line so far. -/
  atLine : List UInt8
  /-- `at_line` as the last line left it, and `at_argv`. -/
  args : ArgStore
  atChannel : Channel
  executed : List Command
  echoed : List (List UInt8)
  taken : List (Channel × UInt8)

/-- `at_process_line`: every line that is not empty reaches the command table. -/
def atProcessLine (p : Parser) (buf : List UInt8) : Parser :=
  let line := lineOver p.args.line buf
  let q := { p with args := p.args.after buf }
  match (processHead line).1 with
  | none => q
  | some ps =>
    { q with executed := p.executed ++ [⟨p.atChannel, strAt (stripCr line) 0, ps.length, q.args⟩] }

def appendChar (line : List UInt8) (ch : UInt8) : List UInt8 :=
  if line.length < atLineMax - 1 then line ++ [ch] else line

/-- The loop bodies of `AT_Poll`. -/
def assemble (p : Parser) : Channel → UInt8 → Parser
  | .uart, ch =>
    if ch = lf then atProcessLine { p with atChannel := .uart, atLine := [] } p.atLine
    else { p with atLine := appendChar p.atLine ch }
  | .cdc, ch =>
    if ch = lf then
      -- the line is echoed before it is processed
      let q := { p with
        atChannel := .cdc
        atLine := []
        echoed := p.echoed ++ [cString p.atLine, [cr, lf]] }
      atProcessLine q p.atLine
    else if ch ≠ cr then { p with atLine := appendChar p.atLine ch }
    else p

def feed (p : Parser) (b : Channel × UInt8) : Parser :=
  let q := assemble p b.1 b.2
  { q with taken := q.taken ++ [b] }

structure State where
  atRx : Ring UInt8 atRxBufSize
  cdcRx : Ring UInt8 cdcRxBufSize
  parser : Parser
  arrived : Channel → List UInt8

inductive Event where
  /-- `AT_Poll`, with the bytes the UART data register yields during this call. -/
  | poll (rbr : List UInt8)
  /-- `cdc_recv_data`: one OUT packet of the host. -/
  | cdcOut (pkt : List UInt8)

def boot : State where
  atRx := Ring.empty 0 (by decide)
  cdcRx := Ring.empty 0 (by decide)
  parser := { atLine := [], args := .boot, atChannel := .uart, executed := [], echoed := [], taken := [] }
  arrived := fun _ => []

/-- The bytes one `AT_Poll` hands to the assembler, in order: the UART ring until it is empty, then
up to 64 bytes of the CDC ring. -/
def polled (s : State) (rbr : List UInt8) : List (Channel × UInt8) :=
  ((s.atRx.offerAll rbr).popN atRxBufSize).1.map (fun b => (Channel.uart, b)) ++
    (s.cdcRx.popN 64).1.map (fun b => (Channel.cdc, b))

def step (s : State) : Event → State
  | .poll rbr =>
      { s with
        atRx := ((s.atRx.offerAll rbr).popN atRxBufSize).2
        cdcRx := (s.cdcRx.popN 64).2
        parser := (polled s rbr).foldl feed s.parser
        arrived := fun
          | .uart => s.arrived .uart ++ rbr
          | .cdc => s.arrived .cdc }
  | .cdcOut pkt =>
      { s with
        cdcRx := (s.cdcRx.pushAll pkt).1
        arrived := fun
          | .uart => s.arrived .uart
          | .cdc => s.arrived .cdc ++ pkt }

end AtNode.AtParser
