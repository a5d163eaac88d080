import Mathlib.Data.List.DropRight
import AtNode.Esp32.Hws
import AtNode.Esp32.MqttExec
import AtNode.Lib.Records

/-!
# The AT commands of the ESP32 firmware

`handle_line` trims a line, finds its command in a fixed order, and answers with the lines it emits:
data lines, and a last line that is `OK` or an error with its reason. Some commands are lines of
their own; the others have their arguments behind an equals sign, with commas between them.

A command has one access to the hardware at most. What the hardware answers, and what the commands do
to the other tasks, is left to `Services`; which keys flash takes and whether it can be erased are
inputs.
-/

namespace AtNode.At

open Config Heapless ConfigReplies Api Args
open MqttExec (World Peripherals cfgSet tunnelStart tunnelReset clearBond)
open Pairs (splitOnce)

/-- What the commands need of the tasks behind those of MQTT. -/
structure Services (σ : Type) extends Peripherals σ where
  board : Hws.Board
  /-- A device on the I2C bus answers to the address. -/
  probe : UInt8 → Bool
  target : σ → Kb.Target
  setTarget : Kb.Target → σ → σ
  mqttConnected : σ → Bool
  mqttStart : σ → σ
  mqttStop : σ → σ
  httpRunning : σ → Bool
  linkUp : σ → Bool
  rssi : σ → ℤ
  reset : σ → σ

/-- The lines that are emitted, and the accesses to the hardware. -/
structure Response (σ : Type) where
  lines : List Text
  accesses : List Hws.Access
  world : World σ

variable {σ : Type} (f : Features) (S : Services σ) (flash : Text → Bool) (erases : Bool)

section Replies

def okLine : Text := "OK".toList

def errLine (msg : String) : Text := "ERROR ".toList ++ msg.toList

def answer (data : List Text) (w : World σ) : Response σ := ⟨data ++ [okLine], [], w⟩

def fail (msg : String) (w : World σ) : Response σ := ⟨[errLine msg], [], w⟩

def accept (r : Bool × World σ) (msg : String) : Response σ :=
  if r.1 then answer [] r.2 else fail msg r.2

def after {α : Type} (o : Hws.Outcome α) (reply : α → Response σ) : Response σ :=
  { reply o.result with accesses := o.accesses }

def buffer (format args : List Text) : Text := (write listCap [] (formatArgs format args)).1

end Replies

section Parsing

def trim (line : Text) : Text := line.rdropWhile fun c => c ∈ [' ', '\t', '\r', '\n']

def strip (front line : Text) : Option Text :=
  if front.isPrefixOf line then some (line.drop front.length) else none

def split (n : ℕ) (args : Text) : List Text := (args.splitOn ',').take n

def toU32 (s : Text) : Option ℕ := parseNum u32Max s

def field (fs : List Text) (i : ℕ) : Text := fs.getD i []

def byteField (s : Text) : Option UInt8 :=
  (toU32 s).bind fun v => if v ≤ 255 then some v.toUInt8 else none

end Parsing

section Settings

variable (args : Text) (w : World σ)

def help : List Text :=
  ["AT-Node rust-s3 commands:",
    "  AT / AT+STATUS / AT+VER / AT+HELP",
    "  AT+SET=<key>=<val> / AT+GET=<key> / AT+KEYS  config",
    "  AT+WIFI=ssid|pass,<val> / AT+WIFI=status",
    "  AT+MQTT=connect|disconnect|status|enable,0|1|auto,0|1",
    "  AT+HTTP=status|enable,0|1|auto,0|1",
    "  AT+GPIO_W=<pin>,<level> / AT+GPIO_R=<pin>",
    "  AT+ADC=<ch> / AT+I2C_SCAN / AT+I2C_R=<addr>,<reg>,<len>",
    "  AT+I2C_W=<addr>,<reg>,<d0>,<d1>,...",
    "  AT+TAP=<key>[,<mods>][,<ms>] / AT+KEY=<mods>,<k0>[,<k1..k5>]",
    "  AT+KEY_STR=<text> / AT+KEY_SEQ=<ms>,<mods>,<k0..k5>,... / AT+DEV=USB|BLE",
    "  AT+PAIR / AT+BLE=status|bonds|clear",
    "  AT+LED=<r>,<g>,<b>|#RRGGBB|off|auto / AT+LED?",
    "  AT+TUNNEL=status|connect|disconnect|clear|enable[,<0|1>]",
    "  AT+TUNNEL=server|token|service|local|auto|retry,<val>",
    "  AT+NVS=clear / AT+RST"].map String.toList

def cmdSet : Response σ :=
  match splitOnce '=' args with
  | some (key, val) =>
    if key = [] then fail "bad args" w
    else
      match w.registry.set ⟨key, val, flash key⟩ with
      | (.ok _, d) => answer [] { w with registry := d }
      | (.error .unknownKey, d) => fail "unknown key" { w with registry := d }
      | (.error .badValue, d) => fail "bad value" { w with registry := d }
      | (.error _, d) => fail "flash" { w with registry := d }
  | none => fail "bad args" w

def cmdGet : Response σ := ⟨atGet w.cfg args, [], w⟩

def cmdKeys : Response σ := ⟨atKeys w.cfg, [], w⟩

def cmdNvs : Response σ :=
  if args = "clear".toList then
    match w.registry.eraseAll erases with
    | (.ok _, d) => answer ["NVS erased, reboot with AT+RST".toList] { w with registry := d }
    | (.error _, d) => fail "flash" { w with registry := d }
  else fail "bad args" w

/-- The key is taken from the front of the arguments. -/
def cmdWifi : Response σ :=
  match splitOnce ',' args with
  | some (sub, v) =>
    if sub = "ssid".toList ∨ sub = "pass".toList then
      accept (cfgSet flash (if "ssid".toList.isPrefixOf args then "wifi.ssid".toList
        else "wifi.pass".toList) v w) "bad value"
    else fail "bad args" w
  | none =>
    if args = "status".toList then
      answer [(write 80 [] (formatArgs ["+WIFI:".toList] [getStr w.cfg .wifiSsid])).1] w
    else fail "bad args" w

end Settings

section Network

variable (args : Text) (w : World σ)

def mqttStart : Bool × World σ :=
  if getStr w.cfg .mqttBroker = [] then (false, w) else (true, { w with peri := S.mqttStart w.peri })

def cmdMqtt : Response σ :=
  if !f.mqtt then fail "mqtt disabled" w
  else
    let fs := split 2 args
    let sub := field fs 0
    let val := if fs.length = 2 then field fs 1 else []
    if sub = "connect".toList then accept (mqttStart S w) "broker unset"
    else if sub = "disconnect".toList then answer [] { w with peri := S.mqttStop w.peri }
    else if sub = "status".toList then
      answer [buffer ["+MQTT:".toList, ",auto=".toList, ",enabled=".toList]
        [if S.mqttConnected w.peri then "connected".toList else "disconnected".toList,
          getStr w.cfg .mqttAuto, getStr w.cfg .mqttEnable]] w
    else if fs.length = 2 ∧ (sub = "enable".toList ∨ sub = "auto".toList) then
      accept (cfgSet flash (if sub = "enable".toList then "mqtt.enable".toList
        else "mqtt.auto".toList) val w) "bad value"
    else fail "bad args" w

def cmdHttp : Response σ :=
  let fs := split 2 args
  let sub := field fs 0
  let val := if fs.length = 2 then field fs 1 else []
  if sub = "status".toList then
    answer [buffer ["+HTTP:".toList, ",auto=".toList]
      [if S.httpRunning w.peri then "enabled".toList else "disabled".toList,
        getStr w.cfg .httpAuto]] w
  else if fs.length = 2 ∧ (sub = "enable".toList ∨ sub = "auto".toList) then
    if !f.http then fail "http disabled" w
    else
      accept (cfgSet flash (if sub = "enable".toList then "http.enable".toList
        else "http.auto".toList) val w) "bad value"
  else fail "bad args" w

def mqttStatusStr : Text :=
  if !S.mqttRunning w.peri then "off".toList
  else if S.mqttConnected w.peri then "connected".toList
  else "connecting".toList

def signed (n : ℤ) : Text := if n < 0 then '-' :: digits n.natAbs else digits n.natAbs

def cmdStatus : Response σ :=
  answer
    [buffer ["device=".toList] [getStr w.cfg .deviceName], "ble=off".toList, "usb=off".toList,
      if S.linkUp w.peri then "wifi=up".toList else "wifi=down".toList,
      match S.ip w.peri with
      | some a => buffer ["ip=".toList] [ipText (some a)]
      | none => "ip=-".toList,
      buffer ["mac=".toList, ":".toList, ":".toList, ":".toList, ":".toList, ":".toList]
        (w.registry.mac.toList.map Bond.byteHex),
      buffer ["rssi=".toList] [signed (S.rssi w.peri)],
      buffer ["mqtt=".toList] [mqttStatusStr S w],
      if S.httpRunning w.peri then "http=on".toList else "http=off".toList] w

def tunnelKey (sub : Text) : Text :=
  if sub = "server".toList then "tunnel.1.server".toList
  else if sub = "token".toList then "tunnel.1.token".toList
  else if sub = "service".toList then "tunnel.1.service".toList
  else if sub = "local".toList then "tunnel.1.local".toList
  else if sub = "auto".toList then "tunnel.1.auto".toList
  else if sub = "retry".toList then "tunnel.1.retry".toList
  else []

def tunnelEnLine : Text := buffer ["+TUNNEL_EN:".toList] [getStr w.cfg .ratholeEnable]

def cmdTunnel : Response σ :=
  if !f.rathole then fail "tunnel disabled" w
  else if args = "status".toList then
    answer [tunnelEnLine w, buffer ["+TUNNEL:".toList] [statusJson w.cfg (S.tunnel w.peri)]] w
  else if args = "enable".toList then answer [tunnelEnLine w] w
  else
    match strip "enable,".toList args with
    | some v => accept (cfgSet flash "rathole.enable".toList v w) "bad value"
    | none =>
      let (sub, val) := (splitOnce ',' args).getD (args, [])
      if tunnelKey sub ≠ [] then
        if val = [] then fail "bad args" w
        else accept (cfgSet flash (tunnelKey sub) val w) "bad value"
      else if sub = "connect".toList then
        accept (tunnelStart f S.toPeripherals w) "start failed"
      else if sub = "disconnect".toList then answer [] { w with peri := S.tunnelStop w.peri }
      else if sub = "clear".toList then answer [] (tunnelReset S.toPeripherals flash w)
      else fail "bad args" w

end Network

section Hardware

variable (args : Text) (w : World σ)

def cmdGpioW : Response σ :=
  if !f.hws then fail "hws disabled" w
  else
    let fs := split 2 args
    if fs.length ≠ 2 then fail "bad args" w
    else
      match toU32 (field fs 0), toU32 (field fs 1) with
      | some pin, some level =>
        if pin ≤ 255 then
          after (Hws.gpioWrite S.board pin.toUInt8 (level ≠ 0)) fun ok =>
            accept (ok, w) "unsafe pin"
        else fail "unsafe pin" w
      | _, _ => fail "unsafe pin" w

def cmdGpioR : Response σ :=
  if !f.hws then fail "hws disabled" w
  else
    match toU32 args with
    | some pin =>
      if pin ≤ 255 then
        after (Hws.gpioRead S.board pin.toUInt8) fun
          | some level => answer [buffer ["+GPIO_R:".toList] [digits level.toNat]] w
          | none => fail "bad pin" w
      else fail "bad pin" w
    | none => fail "bad pin" w

def cmdAdc : Response σ :=
  if !f.hws then fail "hws disabled" w
  else
    match toU32 args with
    | some ch =>
      if ch ≤ 255 then
        after (Hws.adcReadMv S.board ch.toUInt8) fun
          | some mv => answer [buffer ["+ADC:".toList] [digits mv.toNat]] w
          | none => fail "bad channel" w
      else fail "bad channel" w
    | none => fail "bad channel" w

def i2cScan : Text :=
  let found := (List.range' 0x08 0x70).filter fun addr => S.probe addr.toUInt8
  let out := found.foldl (fun out addr =>
    (write 600 out (formatArgs [" 0x".toList] [Bond.byteHexUpper addr.toUInt8])).1)
    (put 600 [] "+I2C:".toList)
  if found = [] then put 600 out " none".toList else out

def cmdI2cScan : Response σ :=
  if !f.hws then fail "hws disabled" w else answer [i2cScan S] w

/-- The bytes in hexadecimal with blanks between them. -/
def i2cRLine (data : List UInt8) : Text :=
  data.zipIdx.foldl (fun out b =>
    let out := if 0 < b.2 then push listCap out ' ' else out
    (write listCap out [Bond.byteHexUpper b.1]).1) (put listCap [] "+I2C_R:".toList)

/-- The address of the device is cut to a byte. -/
def cmdI2cR : Response σ :=
  if !f.hws then fail "hws disabled" w
  else
    let fs := split 3 args
    if fs.length ≠ 3 then fail "bad args" w
    else
      match toU32 (field fs 0), toU32 (field fs 1), toU32 (field fs 2) with
      | some addr, some reg, some len =>
        if len = 0 ∨ Hws.i2cIoMax < len then fail "bad args" w
        else
          after (Hws.i2cRead S.board addr.toUInt8 reg len) fun
            | some data => answer [i2cRLine data] w
            | none => fail "i2c" w
      | _, _, _ => fail "bad args" w

/-- `hws::i2c_write`, or its stub. -/
def i2cWrite (addr : UInt8) (reg : ℕ) (data : List UInt8) : Hws.Outcome Bool :=
  if f.hws then Hws.i2cWrite S.board addr reg data else ⟨[], false⟩

/-- Data that is no number is zero, and the fields behind the buffer are not looked at. -/
def cmdI2cW : Response σ :=
  let fs := split (Hws.i2cIoMax + 2) args
  if fs.length < 3 then fail "bad args" w
  else
    match toU32 (field fs 0), toU32 (field fs 1) with
    | some addr, some reg =>
      let data := (fs.drop 2).map fun s => ((toU32 s).getD 0).toUInt8
      after (i2cWrite f S addr.toUInt8 reg data) fun ok => accept (ok, w) "i2c"
    | _, _ => fail "bad args" w

def cmdLedState : Response σ :=
  let ((r, g, b), mode) := S.ledCurrent w.peri
  answer [buffer ["+LED:".toList, ",".toList, ",".toList, ",".toList]
    [digits r.toNat, digits g.toNat, digits b.toNat, mode.text]] w

def cmdLed : Response σ :=
  if !f.ledColor then fail "led disabled" w
  else
    match parseColor args with
    | some a => answer [] { w with peri := S.ledApply a w.peri }
    | none => fail "bad args" w

end Hardware

section Keyboard

variable (args : Text) (w : World σ)

def post (op : Kb.Op) : Response σ :=
  match S.post op w.peri with
  | some s => answer [] { w with peri := s }
  | none => fail "busy" w

def targetText : Kb.Target → Text
  | .usb => "USB".toList
  | .ble => "BLE".toList

def cmdDevState : Response σ :=
  if !f.enabled then fail "kbd disabled" w
  else answer [buffer ["+DEV:".toList] [targetText (S.target w.peri)]] w

def cmdDev : Response σ :=
  if !f.enabled then fail "kbd disabled" w
  else
    match if args = "USB".toList then some Kb.Target.usb
        else if args = "BLE".toList then some .ble else none with
    | some t =>
      if f.backend t then answer [] { w with peri := S.setTarget t w.peri } else fail "bad target" w
    | none => fail "bad args" w

def tapOp (fs : List Text) : Option Kb.Op :=
  match toU32 (field fs 0), if 1 < fs.length then toU32 (field fs 1) else some 0,
    if 2 < fs.length then toU32 (field fs 2) else some 50 with
  | some k, some m, some ms =>
    if k ≤ 255 ∧ m ≤ 255 ∧ ms ≤ 60000 then some (.tap m.toUInt8 k.toUInt8 ms.toUInt32) else none
  | _, _, _ => none

def cmdTap : Response σ :=
  if !f.enabled then fail "kbd disabled" w
  else
    match tapOp (split 3 args) with
    | some op => post S w op
    | none => fail "bad args" w

/-- The keys of a report; those that are not given are zero. -/
def report (mods : UInt8) (keys : List UInt8) : Hid.Report :=
  ⟨mods, #v[keys.getD 0 0, keys.getD 1 0, keys.getD 2 0, keys.getD 3 0, keys.getD 4 0,
    keys.getD 5 0]⟩

/-- The modifiers are cut to a byte, the keys are not. -/
def keyOp (fs : List Text) : Option Kb.Op :=
  if fs.length < 2 then none
  else
    (toU32 (field fs 0)).bind fun mods =>
      ((fs.drop 1).mapM byteField).map fun keys => .hold (report mods.toUInt8 keys)

def cmdKey : Response σ :=
  if !f.enabled then fail "kbd disabled" w
  else
    match keyOp (split 7 args) with
    | some op => post S w op
    | none => fail "bad args" w

def cmdKeyStr : Response σ :=
  if !f.enabled then fail "kbd disabled" w
  else if args = [] then fail "bad args" w
  else if h : (String.ofList args).utf8ByteSize ≤ Kb.textCapacity then
    post S w (.text (String.ofList args) 40 40 h)
  else fail "too long" w

/-- The modifiers and the keys of one report of a sequence. -/
def seqReport (chunk : List Text) : Option Hid.Report :=
  (byteField (field chunk 0)).bind fun mods =>
    ((chunk.drop 1).mapM byteField).map fun keys => report mods keys

def seqOp (fs : List Text) : Option Kb.Op :=
  if fs.length < 8 ∨ (fs.length - 1) % 7 ≠ 0 then none
  else
    (toU32 (field fs 0)).bind fun delay =>
      (((fs.drop 1).toChunks 7).mapM seqReport).bind fun reports =>
        if h : reports.length ≤ Kb.seqMaxReports then some (.seq reports delay.toUInt32 h) else none

def cmdKeySeq : Response σ :=
  if !f.enabled then fail "kbd disabled" w
  else if 57 < args.count ',' + 1 then fail "too many reports" w
  else
    match seqOp (split 57 args) with
    | some op => post S w op
    | none => fail "bad args" w

end Keyboard

section Bluetooth

variable (args : Text) (w : World σ)

abbrev pairWindowSecs : ℕ := 60

def cmdPair : Response σ :=
  if !f.kbdBle then fail "ble disabled" w
  else
    answer [buffer ["+PAIR:window ".toList, "s".toList] [digits pairWindowSecs]]
      { w with peri := S.pairOpen w.peri }

/-- The address of the bonded peer behind a name. -/
def bondLine (name : String) (a : Vector UInt8 6) : Text :=
  buffer [name.toList, ":".toList, ":".toList, ":".toList, ":".toList, ":".toList]
    (a.toList.reverse.map Bond.byteHexUpper)

def cmdBle : Response σ :=
  if !f.kbdBle then fail "ble disabled" w
  else
    let b := S.ble w.peri
    if args = "status".toList then
      answer [buffer ["+BLE:conn=".toList, ",window=".toList]
          [digits b.connected.toNat, if b.pairing then "open".toList else "closed".toList],
        match b.bond with
        | some a => bondLine "+BLE:bond=" a
        | none => "+BLE:bond=none".toList] w
    else if args = "bonds".toList then
      answer [match b.bond with
        | some a => bondLine "+BONDS:" a
        | none => "+BONDS:none".toList] w
    else if args = "clear".toList then answer [] (clearBond S.toPeripherals flash w)
    else fail "bad args" w

end Bluetooth

section Dispatch

/-- The transport is flushed, and the node starts again. -/
def cmdRst (w : World σ) : Response σ :=
  answer [] ⟨CfgStore.boot w.registry.mac w.registry.flash, S.reset w.peri⟩

/-- How a line is compared with a command: it is the command, or begins with it. -/
inductive Pattern where
  | word (s : String)
  | front (s : String)

def Pattern.rest : Pattern → Text → Option Text
  | .word s, line => if line = s.toList then some [] else none
  | .front s, line => strip s.toList line

/-- The commands in the order of the comparisons. -/
def commands : List (Pattern × (Text → World σ → Response σ)) :=
  [(.word "AT", fun _ => answer []),
    (.word "AT+VER", fun _ => answer ["AT-Node v1.0 [rust-s3]".toList]),
    (.word "AT+ABILITY", fun _ => answer [buffer ["+ABILITY:".toList] [abilityJson f]]),
    (.word "AT+HELP", fun _ => answer help),
    (.front "AT+SET=", cmdSet flash),
    (.front "AT+GET=", cmdGet),
    (.word "AT+KEYS", fun _ => cmdKeys),
    (.word "AT+LED?", fun _ => cmdLedState S),
    (.front "AT+LED=", cmdLed f S),
    (.word "AT+DEV?", fun _ => cmdDevState f S),
    (.front "AT+DEV=", cmdDev f S),
    (.word "AT+PAIR", fun _ => cmdPair f S),
    (.front "AT+BLE=", cmdBle f S flash),
    (.front "AT+TAP=", cmdTap f S),
    (.front "AT+KEY_STR=", cmdKeyStr f S),
    (.front "AT+KEY_SEQ=", cmdKeySeq f S),
    (.front "AT+KEY=", cmdKey f S),
    (.front "AT+TUNNEL=", cmdTunnel f S flash),
    (.front "AT+NVS=", cmdNvs erases),
    (.front "AT+GPIO_W=", cmdGpioW f S),
    (.front "AT+GPIO_R=", cmdGpioR f S),
    (.front "AT+ADC=", cmdAdc f S),
    (.word "AT+I2C_SCAN", fun _ => cmdI2cScan f S),
    (.front "AT+I2C_R=", cmdI2cR f S),
    (.front "AT+I2C_W=", cmdI2cW f S),
    (.word "AT+STATUS", fun _ => cmdStatus S),
    (.front "AT+WIFI=", cmdWifi flash),
    (.front "AT+MQTT=", cmdMqtt f S flash),
    (.front "AT+HTTP=", cmdHttp f S flash),
    (.word "AT+HTTP", fun _ => cmdHttp f S flash "status".toList),
    (.word "AT+RST", fun _ => cmdRst S)]

def execute (line : Text) (w : World σ) : Response σ :=
  match (commands f S flash erases).findSome? fun c => (c.1.rest line).map fun args => c.2 args w with
  | some r => r
  | none => fail "unknown cmd" w

/-- An empty line is not answered. -/
def handleLine (line : Text) (w : World σ) : Response σ :=
  if trim line = [] then ⟨[], [], w⟩ else execute f S flash erases (trim line) w

end Dispatch

section Laws

variable {front v : Text} {fs : List Text} {max : ℕ} (args : Text) (w : World σ)

theorem trim_append (h : trim front = front) (args : Text) : trim (front ++ args) = front ++ trim args := by
  unfold trim List.rdropWhile at *
  rw [List.reverse_append, List.dropWhile_append]
  split_ifs with hempty
  · rw [List.isEmpty_iff] at hempty
    rw [h, hempty, List.reverse_nil, List.append_nil]
  · rw [List.reverse_append, List.reverse_reverse]

theorem trim_eq_self_or (v : Text) :
    trim v = v ∨ ∃ u c, v = u ++ [c] ∧ c ∈ [' ', '\t', '\r', '\n'] := by
  rcases List.eq_nil_or_concat' v with rfl | ⟨u, c, rfl⟩
  · exact Or.inl rfl
  · by_cases hc : c ∈ [' ', '\t', '\r', '\n']
    · exact Or.inr ⟨u, c, rfl, hc⟩
    · exact Or.inl (List.rdropWhile_concat_neg _ _ _ (by simpa using hc))

theorem trim_writeLines (fs : List Text) :
    trim (Records.writeLines ',' fs) = Records.writeLines ',' fs := by
  rcases List.eq_nil_or_concat' fs with rfl | ⟨fs, f, rfl⟩
  · rfl
  · have hlast : Records.writeLines ',' (fs ++ [f]) = (Records.writeLines ',' fs ++ f) ++ [','] := by
      simp [Records.writeLines]
    rw [hlast]
    exact List.rdropWhile_concat_neg _ _ _ (by decide)

theorem splitOn_trim (fs : List Text) {args : Text} (h : args.splitOn ',' = fs ++ [v]) :
    (trim args).splitOn ',' = fs ++ [trim v] := by
  obtain ⟨rfl, hlast⟩ := Records.eq_of_splitOn_concat h
  rw [trim_append (trim_writeLines fs)]
  apply hlast
  intro hmem
  have hv : ',' ∉ v := Records.not_mem_of_mem_splitOn v (by rw [h]; simp)
  exact hv ((List.rdropWhile_prefix _ v).subset hmem)

theorem trim_eq_self (fs : List Text) {args : Text} (h : args.splitOn ',' = fs ++ [v])
    (hv : trim v = v) : trim args = args := by
  obtain ⟨rfl, -⟩ := Records.eq_of_splitOn_concat h
  rw [trim_append (trim_writeLines fs), hv]

theorem parseNum_of_trim_ne (h : trim v ≠ v) : parseNum max v = none := by
  obtain hv | ⟨u, c, rfl, hc⟩ := trim_eq_self_or v
  · exact absurd hv h
  · revert hc
    simp only [List.mem_cons, List.not_mem_nil, or_false]
    rintro (rfl | rfl | rfl | rfl) <;> exact parseNum_concat (by decide) (by decide) (by decide)

/-- A line with arguments is handled by its command. -/
theorem handleLine_append {handler : Text → World σ → Response σ} (htrim : trim front = front)
    (hne : front ≠ []) (h : ∀ args w, execute f S flash erases (front ++ args) w = handler args w) :
    handleLine f S flash erases (front ++ args) w = handler (trim args) w := by
  rw [handleLine, trim_append htrim, if_neg (List.append_ne_nil_of_left_ne_nil hne _), h]

theorem handleLine_gpioW :
    handleLine f S flash erases ("AT+GPIO_W=".toList ++ args) w = cmdGpioW f S (trim args) w :=
  handleLine_append f S flash erases args w (by decide) (by decide) fun _ _ => rfl

theorem handleLine_gpioR :
    handleLine f S flash erases ("AT+GPIO_R=".toList ++ args) w = cmdGpioR f S (trim args) w :=
  handleLine_append f S flash erases args w (by decide) (by decide) fun _ _ => rfl

theorem handleLine_adc :
    handleLine f S flash erases ("AT+ADC=".toList ++ args) w = cmdAdc f S (trim args) w :=
  handleLine_append f S flash erases args w (by decide) (by decide) fun _ _ => rfl

theorem handleLine_i2cR :
    handleLine f S flash erases ("AT+I2C_R=".toList ++ args) w = cmdI2cR f S (trim args) w :=
  handleLine_append f S flash erases args w (by decide) (by decide) fun _ _ => rfl

theorem handleLine_i2cW :
    handleLine f S flash erases ("AT+I2C_W=".toList ++ args) w = cmdI2cW f S (trim args) w :=
  handleLine_append f S flash erases args w (by decide) (by decide) fun _ _ => rfl

theorem handleLine_tap :
    handleLine f S flash erases ("AT+TAP=".toList ++ args) w = cmdTap f S (trim args) w :=
  handleLine_append f S flash erases args w (by decide) (by decide) fun _ _ => rfl

theorem handleLine_key :
    handleLine f S flash erases ("AT+KEY=".toList ++ args) w = cmdKey f S (trim args) w :=
  handleLine_append f S flash erases args w (by decide) (by decide) fun _ _ => rfl

theorem handleLine_keyStr :
    handleLine f S flash erases ("AT+KEY_STR=".toList ++ args) w = cmdKeyStr f S (trim args) w :=
  handleLine_append f S flash erases args w (by decide) (by decide) fun _ _ => rfl

end Laws

end AtNode.At
