import Mathlib.Data.List.Basic

/-!
# Texts of the broker

The string methods the broker uses on the payloads it reads.
-/

namespace AtNode.PyText

abbrev Text := List Char

def isSpace (c : Char) : Bool :=
  let n := c.toNat
  (9 ≤ n && n ≤ 13) || (28 ≤ n && n ≤ 32) || n = 133 || n = 160 || n = 5760 ||
    (8192 ≤ n && n ≤ 8202) || n = 8232 || n = 8233 || n = 8239 || n = 8287 || n = 12288

def strip (t : Text) : Text := ((t.dropWhile isSpace).reverse.dropWhile isSpace).reverse

/-- The text before the first blank, and what is behind it if there is one. -/
def cut (t : Text) : Text × Option Text :=
  match t.dropWhile (· ≠ ' ') with
  | [] => (t, none)
  | _ :: rest => (t.takeWhile (· ≠ ' '), some rest)

end AtNode.PyText
