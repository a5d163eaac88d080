import AtNode.Lib.Strtok
import Mathlib.Data.Nat.Notation

/-!
# The text of an AT line of the CH582 firmware

A line is the C string in `at_line` without a carriage return at its end. `at_process_line` cuts it
into a name and its arguments, and ignores an empty one.
-/

namespace AtNode.AtParser

abbrev atLineMax : ℕ := 1024

abbrev atArgvMax : ℕ := 66

abbrev lf : UInt8 := 0x0A

abbrev cr : UInt8 := 0x0D

/-- The tokens `at_process_line` stores in `at_argv`: the name up to `=`, then the arguments. -/
def tokenize (line : List UInt8) : List (List UInt8) :=
  match Strtok.cutString 0x3D line with
  | none => []
  | some (tok, save) => tok :: Strtok.cutMany 0x2C (atArgvMax - 1) save

def cString (buf : List UInt8) : List UInt8 := buf.takeWhile (· != 0)

/-- The head of `at_process_line`: one trailing carriage return goes, an empty line is ignored. -/
def commandLine (buf : List UInt8) : Option (List UInt8) :=
  let s := cString buf
  let s := if s.getLast? = some cr then s.dropLast else s
  if s = [] then none else some s

end AtNode.AtParser
