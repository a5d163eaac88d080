import AtNode.Esp32.Api
import AtNode.Esp32.Args

/-!
# The commands of the ESP32 firmware over MQTT

A payload on the command topic is a request id, a method and a query with blanks between them; what
is behind the first 512 bytes is not read. `mqtt_exec` finds the method, takes its arguments from
the query and answers with a piece of JSON, which is published with the request id in front.

What a command does to the hardware and to the other tasks is left to `Peripherals`: the drivers, the
keyboard queue, the tunnel task and the BLE task, whatever they do. A call that can fail leaves them
as they are when it does.
-/

namespace AtNode.MqttExec

open Config Heapless Query ConfigReplies Api Args
open TunnelSwitch (masterOn tunnelEnabled configured)

/-- What the BLE task shows: its own address, and that of the bonded peer. -/
structure Ble where
  connected : Bool
  pairing : Bool
  addr : Vector UInt8 6
  bond : Option (Vector UInt8 6)

structure Peripherals (σ : Type) where
  gpioWrite : UInt8 → Bool → σ → Option σ
  gpioRead : UInt8 → σ → Option (Bool × σ)
  adcReadMv : UInt8 → σ → Option UInt16
  ledCurrent : σ → (UInt8 × UInt8 × UInt8) × LedMode
  ledApply : LedAction → σ → σ
  /-- An operation for the keyboard queue, unless it is full. -/
  post : Kb.Op → σ → Option σ
  tunnel : σ → Tunnel
  tunnelStart : σ → σ
  tunnelStop : σ → σ
  ip : σ → Option (Vector UInt8 4)
  mqttRunning : σ → Bool
  ble : σ → Ble
  pairOpen : σ → σ
  pairClose : σ → σ
  bondClear : σ → σ

structure World (σ : Type) where
  registry : CfgStore.Device
  peri : σ

abbrev World.cfg {σ : Type} (w : World σ) : Cfg := w.registry.cfg

/-- The methods `mqtt_exec` knows. -/
inductive Method where
  | gpioWrite
  | gpioRead
  | led
  | adcRead
  | sysInfo
  | tunnelStatus
  | tunnelEnable
  | tunnelConnect
  | tunnelDisconnect
  | tunnelClear
  | tunnelConfig
  | ability
  | configSet
  | configGet
  | configList
  | keyboardTap
  | keyboardText
  | keyboardKey
  | bleStatus
  | blePair
  | bleBondsDelete
  | bleBondsClear
  deriving DecidableEq

def Method.name : Method → Text
  | .gpioWrite => "gpio/write".toList
  | .gpioRead => "gpio/read".toList
  | .led => "led".toList
  | .adcRead => "adc/read".toList
  | .sysInfo => "sys/info".toList
  | .tunnelStatus => "tunnel/status".toList
  | .tunnelEnable => "tunnel/enable".toList
  | .tunnelConnect => "tunnel/connect".toList
  | .tunnelDisconnect => "tunnel/disconnect".toList
  | .tunnelClear => "tunnel/clear".toList
  | .tunnelConfig => "tunnel/config".toList
  | .ability => "ability".toList
  | .configSet => "config/set".toList
  | .configGet => "config/get".toList
  | .configList => "config/list".toList
  | .keyboardTap => "keyboard/tap".toList
  | .keyboardText => "keyboard/text".toList
  | .keyboardKey => "keyboard/key".toList
  | .bleStatus => "ble/status".toList
  | .blePair => "ble/pair".toList
  | .bleBondsDelete => "ble/bonds/delete".toList
  | .bleBondsClear => "ble/bonds/clear".toList

def methods : List Method :=
  [.gpioWrite, .gpioRead, .led, .adcRead, .sysInfo, .tunnelStatus, .tunnelEnable, .tunnelConnect,
    .tunnelDisconnect, .tunnelClear, .tunnelConfig, .ability, .configSet, .configGet, .configList,
    .keyboardTap, .keyboardText, .keyboardKey, .bleStatus, .blePair, .bleBondsDelete, .bleBondsClear]

def Method.ofName (s : Text) : Option Method := methods.find? fun m => m.name = s

variable {σ : Type} (f : Features) (P : Peripherals σ) (flash : Text → Bool)

section Replies

def okReply : Text := put replyCap [] "\"ok\":true".toList

def errReply (msg : String) : Text :=
  put replyCap [] ("\"ok\":false,\"error\":\"".toList ++ msg.toList ++ "\"".toList)

end Replies

section Calls

/-- `cfg::set`, and whether it is `Ok`; which keys flash takes is an input. -/
def cfgSet (key val : Text) (w : World σ) : Bool × World σ :=
  match w.registry.set ⟨key, val, flash key⟩ with
  | (.ok _, d) => (true, { w with registry := d })
  | (.error _, d) => (false, { w with registry := d })

def tunnelStart (w : World σ) : Bool × World σ :=
  if f.rathole && masterOn w.cfg && tunnelEnabled w.cfg && configured w.cfg then
    (true, { w with peri := P.tunnelStart w.peri })
  else (false, w)

def clearTable : List (Text × Text) :=
  [("tunnel.1.server".toList, []), ("tunnel.1.token".toList, []), ("tunnel.1.service".toList, []),
    ("tunnel.1.local".toList, []), ("tunnel.1.auto".toList, "0".toList),
    ("tunnel.1.retry".toList, "1".toList), ("tunnel.1.enable".toList, "1".toList)]

def tunnelReset (w : World σ) : World σ :=
  clearTable.foldl (fun w kv => (cfgSet flash kv.1 kv.2 w).2) { w with peri := P.tunnelStop w.peri }

def clearBond (w : World σ) : World σ :=
  let w := (cfgSet flash "ble.bond".toList [] w).2
  { w with peri := P.bondClear (P.pairClose w.peri) }

end Calls

section Hardware

def gpioWrite (pin level : Text) (w : World σ) : Text × World σ :=
  match parseUnsigned u32Max pin, parseUnsigned u32Max level with
  | some p, some l =>
    match if p ≤ 255 then P.gpioWrite p.toUInt8 (l ≠ 0) w.peri else none with
    | some s => (okReply, { w with peri := s })
    | none => (errReply "bad pin", w)
  | _, _ => (errReply "bad pin", w)

def gpioRead (pin : Text) (w : World σ) : Text × World σ :=
  match (parseUnsigned u32Max pin).bind fun p =>
      if p ≤ 255 then P.gpioRead p.toUInt8 w.peri else none with
  | some (level, s) =>
    ((write replyCap [] (formatArgs ["\"ok\":true,\"level\":".toList] [digits level.toNat])).1,
      { w with peri := s })
  | none => (errReply "bad pin", w)

def led (color : Text) (w : World σ) : Text × World σ :=
  if color.isEmpty then
    let ((r, g, b), mode) := P.ledCurrent w.peri
    ((write replyCap [] (formatArgs ["\"ok\":true,\"r\":".toList, ",\"g\":".toList, ",\"b\":".toList,
      ",\"mode\":\"".toList, "\"".toList] [digits r.toNat, digits g.toNat, digits b.toNat, mode.text])).1,
      w)
  else if !f.ledColor then (errReply "led disabled", w)
  else
    match parseColor color with
    | some act => (okReply, { w with peri := P.ledApply act w.peri })
    | none => (errReply "bad color", w)

/-- The number of the channel is cut to a byte. -/
def adcRead (ch : Text) (w : World σ) : Text × World σ :=
  match (parseUnsigned u32Max ch).bind fun c => P.adcReadMv c.toUInt8 w.peri with
  | some mv =>
    ((write replyCap [] (formatArgs ["\"ok\":true,\"mv\":".toList] [digits mv.toNat])).1, w)
  | none => (errReply "bad channel", w)

end Hardware

section Keyboard

def keyNames : List Text :=
  ["k0".toList, "k1".toList, "k2".toList, "k3".toList, "k4".toList, "k5".toList]

def keyboardTap (k mods ms : Option ℕ) (w : World σ) : Text × World σ :=
  match k, mods, ms with
  | some k, some m, some ms =>
    match if k ≤ 255 ∧ m ≤ 255 ∧ ms ≤ 60000 then
        P.post (.tap m.toUInt8 k.toUInt8 ms.toUInt32) w.peri else none with
    | some s => (okReply, { w with peri := s })
    | none => (errReply "bad args or busy", w)
  | _, _, _ => (errReply "bad args or busy", w)

def keyboardText (s : Text) (ms gap : Option ℕ) (w : World σ) : Text × World σ :=
  match ms, gap with
  | some ms, some gap =>
    if h : (String.ofList s).utf8ByteSize ≤ Kb.textCapacity then
      match P.post (.text (String.ofList s) ms.toUInt32 gap.toUInt32 h) w.peri with
      | some s => (okReply, { w with peri := s })
      | none => (errReply "busy", w)
    else (errReply "too long", w)
  | _, _ => (errReply "bad args", w)

def keyByte (v : Option ℕ) : UInt8 :=
  match v with
  | some v => if v ≤ 255 then v.toUInt8 else 0
  | none => 0

/-- A key that is no number is not looked at. -/
def keyboardKey (mods : ℕ) (keys : Vector (Option ℕ) 6) (w : World σ) : Text × World σ :=
  let bad := keys.any fun v => v.any fun v => decide (255 < v)
  match if bad then none else P.post (.hold ⟨mods.toUInt8, keys.map keyByte⟩) w.peri with
  | some s => (okReply, { w with peri := s })
  | none => (errReply "bad args or busy", w)

end Keyboard

section Tunnel

def tunnelStatus (w : World σ) : Text × World σ :=
  if !f.rathole then (errReply "tunnel disabled", w)
  else
    ((write replyCap [] (formatArgs ["\"ok\":true,\"tunnels\":[".toList, "]".toList]
      [statusJson w.cfg (P.tunnel w.peri)])).1, w)

def tunnelEnable (v : Text) (w : World σ) : Text × World σ :=
  if !f.rathole then (errReply "tunnel disabled", w)
  else
    match cfgSet flash "rathole.enable".toList v w with
    | (true, w) => (okReply, w)
    | (false, w) => (errReply "bad value", w)

def tunnelConnect (w : World σ) : Text × World σ :=
  match tunnelStart f P w with
  | (true, w) => (okReply, w)
  | (false, w) => (errReply "start failed", w)

def tunnelDisconnect (w : World σ) : Text × World σ :=
  (okReply, { w with peri := P.tunnelStop w.peri })

def tunnelClear (w : World σ) : Text × World σ := (okReply, tunnelReset P flash w)

def configArgs : List (Text × Text) :=
  [("server".toList, "tunnel.1.server".toList), ("token".toList, "tunnel.1.token".toList),
    ("service".toList, "tunnel.1.service".toList), ("local".toList, "tunnel.1.local".toList),
    ("retry".toList, "tunnel.1.retry".toList), ("auto".toList, "tunnel.1.auto".toList),
    ("enable".toList, "tunnel.1.enable".toList)]

/-- The body of the loop of `tunnel/config`; the flag is `bad`. -/
def tunnelConfigStep (st : World σ × Bool) (key v : Text) : World σ × Bool :=
  if v.isEmpty then st
  else
    let r := cfgSet flash key v st.1
    (r.2, st.2 || !r.1)

def tunnelConfigReply (st : World σ × Bool) : Text × World σ :=
  if st.2 then (errReply "bad value", st.1)
  else
    ((write replyCap [] (formatArgs ["\"ok\":true,\"tunnel\":".toList]
      [statusJson st.1.cfg (P.tunnel st.1.peri)])).1, st.1)

end Tunnel

section Settings

def configSet (key val : Text) (w : World σ) : Text × World σ :=
  if key.isEmpty then (errReply "missing key", w)
  else
    match cfgSet flash key val w with
    | (true, w) => (okReply, w)
    | (false, w) => (errReply "unknown key or invalid value", w)

def ability (w : World σ) : Text × World σ :=
  ((write replyCap [] (formatArgs ["\"ok\":true,\"ability\":".toList] [abilityJson f])).1, w)

def sysInfo (w : World σ) : Text × World σ :=
  ((write replyCap [] (formatArgs ["\"ok\":true,\"info\":".toList]
    [sysInfoJson f w.cfg (P.ip w.peri) (P.mqttRunning w.peri)])).1, w)

end Settings

section Bluetooth

def macText (bytes : List UInt8) : Text :=
  (write 17 [] (formatArgs [[], [':'], [':'], [':'], [':'], [':']] (bytes.map
    Bond.byteHexUpper))).1

def Ble.addrText (b : Ble) : Text := macText (b.addr.toList.modifyHead (· ||| 0xC0))

/-- The address is kept in the order of the radio. -/
def bondText (a : Vector UInt8 6) : Text := macText a.toList.reverse

def bleStatus (w : World σ) : Text × World σ :=
  let b := P.ble w.peri
  let out := (write replyCap [] (formatArgs
    ["\"ok\":true,\"ble\":\x7b\"name\":\"".toList, "\",\"addr\":\"".toList, "\",\"advertising\":".toList,
      ",\"pairing_mode\":".toList, ",\"bonds\":[".toList]
    [getStr w.cfg .deviceName, b.addrText, boolText !b.connected, boolText b.pairing])).1
  let out := match b.bond with
    | some a => (write replyCap out (formatArgs [['"'], ['"']] [bondText a])).1
    | none => out
  (put replyCap out "]\x7d".toList, w)

def blePair (enable : Text) (w : World σ) : Text × World σ :=
  let answer (w : World σ) : Text × World σ :=
    ((write replyCap [] (formatArgs ["\"ok\":true,\"pairing_mode\":".toList]
      [boolText (P.ble w.peri).pairing])).1, w)
  if enable = "1".toList ∨ enable = "true".toList then answer { w with peri := P.pairOpen w.peri }
  else if enable = "0".toList ∨ enable = "false".toList then
    answer { w with peri := P.pairClose w.peri }
  else (errReply "bad args", w)

def bleBondsDelete (idx : Text) (w : World σ) : Text × World σ :=
  if idx ≠ "0".toList ∨ (P.ble w.peri).bond.isNone then (errReply "bad idx", w)
  else (okReply, clearBond P flash w)

def bleBondsClear (w : World σ) : Text × World σ := (okReply, clearBond P flash w)

end Bluetooth

section Dispatch

def num (query : Text) (key : Text) (dflt : ℕ) : Option (Option ℕ) :=
  (queryGet query key).map fun v => if v.isEmpty then some dflt else parseNum u32Max v

def argString (query key : Text) : Option Text := (queryGet query key).map (ofStr scratchCap)

def keyboardExec (method query : Text) (w : World σ) : Option (Text × World σ) :=
  match Method.ofName method with
  | some .keyboardTap => do
    let k ← num query "k".toList 0
    let mods ← num query "mods".toList 0
    let ms ← num query "ms".toList 50
    return keyboardTap P k mods ms w
  | some .keyboardText => do
    let s ← queryGet query "s".toList
    if s.isEmpty then return (errReply "missing s", w)
    let ms ← num query "ms".toList 40
    let gap ← num query "gap".toList 40
    return keyboardText P s ms gap w
  | some .keyboardKey => do
    let mods ← num query "mods".toList 0
    match mods.filter fun m => decide (m ≤ 255) with
    | none => return (errReply "bad args", w)
    | some m =>
      let k0 ← num query "k0".toList 0
      let k1 ← num query "k1".toList 0
      let k2 ← num query "k2".toList 0
      let k3 ← num query "k3".toList 0
      let k4 ← num query "k4".toList 0
      let k5 ← num query "k5".toList 0
      return keyboardKey P m #v[k0, k1, k2, k3, k4, k5] w
  | _ => some (errReply "unknown method", w)

/-- The argument of `ble/pair` has two names. -/
def pairArg (arg : Text → Option Text) : Option Text :=
  (arg "enable".toList).bind fun enable => if enable.isEmpty then arg "start".toList else some enable

def bleExec (method query : Text) (w : World σ) : Option (Text × World σ) :=
  match Method.ofName method with
  | some .bleStatus => some (bleStatus P w)
  | some .blePair => (pairArg (queryGet query)).map fun enable => blePair P enable w
  | some .bleBondsDelete => do
    let idx ← queryGet query "idx".toList
    return bleBondsDelete P flash idx w
  | some .bleBondsClear => some (bleBondsClear P flash w)
  | _ => some (errReply "unknown method", w)

def tunnelExec (method query : Text) (w : World σ) : Option (Text × World σ) := do
  let id ← queryGet query "id".toList
  if !id.isEmpty ∧ id ≠ "1".toList then return (errReply "invalid id", w)
  match Method.ofName method with
  | some .tunnelConnect => return tunnelConnect f P w
  | some .tunnelDisconnect => return tunnelDisconnect P w
  | some .tunnelClear => return tunnelClear P flash w
  | some .tunnelConfig =>
    let st ← configArgs.foldlM (fun st a => (argString query a.1).map (tunnelConfigStep flash st a.2))
      (w, false)
    return tunnelConfigReply P st
  | _ => return (errReply "unknown method", w)

def mqttMatch (method query : Text) (w : World σ) : Option (Text × World σ) :=
  match Method.ofName method with
  | some .gpioWrite => do
    let pin ← argString query "pin".toList
    let level ← argString query "level".toList
    return gpioWrite P pin level w
  | some .gpioRead => (queryGet query "pin".toList).map fun pin => gpioRead P pin w
  | some .led => (queryGet query "color".toList).map fun color => led f P color w
  | some .adcRead => (queryGet query "ch".toList).map fun ch => adcRead P ch w
  | some .sysInfo => some (sysInfo f P w)
  | some .tunnelStatus => some (tunnelStatus f P w)
  | some .tunnelEnable => (argString query "enable".toList).map fun v => tunnelEnable f flash v w
  | some .ability => some (ability f w)
  | some .configSet => do
    let key ← argString query "key".toList
    let val ← argString query "val".toList
    return configSet flash key val w
  | some .configGet => (mqttConfigGet w.cfg query).map fun inner => (inner, w)
  | some .configList => some (mqttConfigList w.cfg, w)
  | _ =>
    if "tunnel/".toList.isPrefixOf method then
      if f.rathole then tunnelExec f P flash method query w
      else some (errReply "tunnel disabled", w)
    else some (errReply "unknown method", w)

/-- `mqtt_exec`; without a result the firmware has stopped in the decoder of the query. -/
def mqttExec (method query : Text) (w : World σ) : Option (Text × World σ) :=
  if (method = Method.name .gpioWrite ∨ method = Method.name .gpioRead ∨
      method = Method.name .adcRead) ∧ !f.hws then some (errReply "hws disabled", w)
  else if "keyboard/".toList.isPrefixOf method then
    if !f.enabled then some (errReply "kbd disabled", w) else keyboardExec P method query w
  else if "ble/".toList.isPrefixOf method then
    if !f.kbdBle then some (errReply "ble disabled", w) else bleExec P flash method query w
  else mqttMatch f P flash method query w

end Dispatch

section Command

/-- What a payload asks for. -/
structure Command where
  reqid : Text
  method : Text
  query : Text

def splitBlank (s : Text) : Option (Text × Text) :=
  match s.dropWhile (· ≠ ' ') with
  | [] => none
  | _ :: t => some (s.takeWhile (· ≠ ' '), t)

def splitCommand (text : Text) : Option Command :=
  (splitBlank text).map fun p =>
    match splitBlank p.2 with
    | some (method, query) => ⟨p.1, method, query⟩
    | none => ⟨p.1, p.2, []⟩

/-- The arm of `run_client` for a payload on the command topic: the reply, if there is one. -/
def command (payload : List UInt8) (w : World σ) : Option (Option Text × World σ) :=
  match splitCommand ((Utf8.decode (payload.take payloadMax)).getD []) with
  | none => some (none, w)
  | some c =>
    (mqttExec f P flash c.method c.query w).map fun r => (some (mqttResp c.reqid r.1), r.2)

end Command

end AtNode.MqttExec
