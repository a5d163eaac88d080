import AtNode.Esp32.HttpHws
import AtNode.Esp32.MqttExec

/-!
# The keyboard handlers of the web server

A request to the keyboard is a tap, a text or a report. The handler takes the numbers from the
arguments, with a default for one that is missing or empty, and posts an operation for the keyboard
queue. Without a result the firmware has stopped in a slice.
-/

namespace AtNode.Http

open Config
open AtNode.Args (parseNum)
open MqttExec (World Peripherals keyNames)

inductive KbOp where
  | tap
  | text
  | key

variable {σ : Type} (f : Api.Features) (P : Peripherals σ) (a : Args) (w : World σ)

def u (key : Text) (dflt : ℕ) : Option (Option ℕ) :=
  (a.get key).map fun v => if v.isEmpty then some dflt else parseNum u32Max v

def kbOk (cmd : String) : Reply :=
  ⟨200, "\x7b\"ok\":true,\"cmd\":\"keyboard/".toList ++ cmd.toList ++ "\"\x7d".toList⟩

def kbPost (op : Kb.Op) (done busy : Reply) : Reply × World σ :=
  match P.post op w.peri with
  | some s => (done, { w with peri := s })
  | none => (busy, w)

def hKeyboardTap : Option (Reply × World σ) := do
  let k ← u a "k".toList 0
  let mods ← u a "mods".toList 0
  let ms ← u a "ms".toList 50
  match k, mods, ms with
  | some k, some mods, some ms =>
    if 255 < k ∨ 255 < mods ∨ 60000 < ms then return (badRequest "bad args or busy", w)
    return kbPost P w (.tap mods.toUInt8 k.toUInt8 ms.toUInt32) (kbOk "tap")
      (badRequest "bad args or busy")
  | _, _, _ => return (badRequest "bad args", w)

def hKeyboardText : Option (Reply × World σ) := do
  let s ← a.get "s".toList
  if s.isEmpty then return (badRequest "missing s", w)
  let ms ← u a "ms".toList 40
  let gap ← u a "gap".toList 40
  match ms, gap with
  | some ms, some gap =>
    if h : (String.ofList s).utf8ByteSize ≤ Kb.textCapacity then
      return kbPost P w (.text (String.ofList s) ms.toUInt32 gap.toUInt32 h) (kbOk "text")
        ⟨409, errBody "busy"⟩
    else return (badRequest "too long", w)
  | _, _ => return (badRequest "bad args", w)

/-- The loop over the names of the keys; a key that is no number is not looked at, and one above 255
ends the loop. -/
def keyLoop : List Text → Option (Option (List UInt8))
  | [] => some (some [])
  | name :: names =>
    (u a name 0).bind fun v =>
      match v with
      | some v => if v ≤ 255 then (keyLoop names).map (Option.map (v.toUInt8 :: ·)) else some none
      | none => (keyLoop names).map (Option.map (0 :: ·))

/-- The modifiers are cut to a byte, the keys are not. -/
def hKeyboardKey : Option (Reply × World σ) := do
  let mods ← u a "mods".toList 0
  match mods with
  | some mods =>
    let keys ← keyLoop a keyNames
    match keys with
    | some keys =>
      return kbPost P w (.hold ⟨mods.toUInt8, Vector.ofFn fun i => keys.getD i 0⟩) (kbOk "key")
        ⟨409, errBody "busy"⟩
    | none => return (badRequest "bad args", w)
  | none => return (badRequest "bad args", w)

def hKeyboardPost (op : KbOp) : Option (Reply × World σ) :=
  if !f.enabled then some (badRequest "kbd disabled", w)
  else
    match op with
    | .tap => hKeyboardTap P a w
    | .text => hKeyboardText P a w
    | .key => hKeyboardKey P a w

end AtNode.Http
