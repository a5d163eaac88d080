import AtNode.Arduino.TunnelConfig

/-!
# The configuration of the Arduino firmware in RAM and in the NVS

The settings have a global each, which `load_config` reads from the NVS at the start. Three front
ends change them: lines of the serial port, HTTP requests, one of which carries an AT command, and
methods over MQTT. Most go through the registry and its typed setters, some write a global and the
NVS themselves, and some write only the NVS.

A command is the list of what it writes. Whether the NVS takes a value or removes one is an input.
All features are built in; the flags that are not saved and the tunnel, which has its own names in
the NVS, are left out.
-/

namespace AtNode.SavedConfig

open Run CString
open ArduinoString (Str ascii cStr equals indexOfChar)
open RatholeClient (truthy flag)

section Settings

inductive Setting where
  | name | hostname | wifiSsid | wifiPass | mqttBroker | mqttPort | mqttUser | mqttPass | mqttCaFp
  | mqttAuto | httpAuto | bleAuto
  deriving DecidableEq

def Setting.all : List Setting :=
  [.name, .hostname, .wifiSsid, .wifiPass, .mqttBroker, .mqttPort, .mqttUser, .mqttPass, .mqttCaFp,
    .mqttAuto, .httpAuto, .bleAuto]

/-- The name in the NVS. -/
def Setting.nvsName : Setting → Str
  | .name => ascii "name"
  | .hostname => ascii "hostname"
  | .wifiSsid => ascii "wifi_ssid"
  | .wifiPass => ascii "wifi_pass"
  | .mqttBroker => ascii "mqtt_broker"
  | .mqttPort => ascii "mqtt_port"
  | .mqttUser => ascii "mqtt_user"
  | .mqttPass => ascii "mqtt_pass"
  | .mqttCaFp => ascii "mqtt_ca_fp"
  | .mqttAuto => ascii "mqtt_auto"
  | .httpAuto => ascii "http_auto"
  | .bleAuto => ascii "ble_auto"

inductive Kind where
  | text
  | port
  | flag
  deriving DecidableEq

def Setting.kind : Setting → Kind
  | .mqttPort => .port
  | .mqttAuto | .httpAuto | .bleAuto => .flag
  | _ => .text

inductive Value where
  | text (v : Str)
  | number (n : ℤ)
  | flag (b : Bool)
  deriving DecidableEq

structure Defaults where
  name : Str
  hostname : Str
  wifiSsid : Str
  wifiPass : Str

def Defaults.string (D : Defaults) : Setting → Str
  | .name => D.name
  | .hostname => D.hostname
  | .wifiSsid => D.wifiSsid
  | .wifiPass => D.wifiPass
  | .mqttPort => ascii "8883"
  | .mqttAuto => ascii "0"
  | .httpAuto | .bleAuto => ascii "1"
  | .mqttBroker | .mqttUser | .mqttPass | .mqttCaFp => []

abbrev Nvs := Str → Option Str

def parse (s : Setting) (v : Str) : Value :=
  match s.kind with
  | .text => .text v
  | .port => .number (if atoi v ≤ 0 then 8883 else atoi v)
  | .flag => .flag (atoi v ≠ 0)

def loadConfig (D : Defaults) (nvs : Nvs) (s : Setting) : Value :=
  parse s ((nvs s.nvsName).getD (D.string s))

end Settings

section Writes

/-- What a command does to the globals and the NVS. -/
inductive Write where
  /-- Assign a global and save a string under its name. -/
  | put (s : Setting) (value : Value) (saved : Str)
  /-- `save_config` alone. -/
  | save (key val : Str)
  /-- Remove a name and assign its global. -/
  | reset (s : Setting) (value : Value)
  /-- `Preferences::remove` alone. -/
  | remove (s : Setting)
  /-- `Preferences::clear`. -/
  | clear

/-- What the NVS does in one command. -/
structure Flash where
  takes : Str → Str → Bool
  removes : Str → Bool
  clears : Bool

structure State where
  ram : Setting → Value
  nvs : Nvs
  /-- The strings the NVS has taken, with their names. -/
  taken : List (Str × Str)

def State.saveConfig (st : State) (fl : Flash) (key val : Str) : State :=
  if fl.takes (cStr key) (cStr val) then
    { st with
      nvs := Function.update st.nvs (cStr key) (some (cStr val))
      taken := st.taken ++ [(cStr key, cStr val)] }
  else st

def State.remove (st : State) (fl : Flash) (s : Setting) : State :=
  if fl.removes s.nvsName then { st with nvs := Function.update st.nvs s.nvsName none } else st

def State.assign (st : State) (s : Setting) (value : Value) : State :=
  { st with ram := Function.update st.ram s value }

def apply (fl : Flash) (st : State) : Write → State
  | .put s value saved => (st.assign s value).saveConfig fl s.nvsName saved
  | .save key val => st.saveConfig fl key val
  | .reset s value => (st.remove fl s).assign s value
  | .remove s => st.remove fl s
  | .clear => if fl.clears then { st with nvs := fun _ => none } else st

end Writes

section Registry

/-- The typed setters of the saved settings: `cfg_s_name`, …, `cfg_s_bleauto`. -/
def cfgS (s : Setting) (v : Str) : Option Write :=
  match s.kind with
  | .text => some (.put s (.text v) v)
  | .port =>
    let p := atoi v
    if p ≤ 0 ∨ 65535 < p then none else some (.put s (.number p) (natText p.toNat))
  | .flag => some (.put s (.flag (truthy v)) (flag (truthy v)))

/-- The keys of `CFG_TABLE`; the flags that are not saved have no setting. -/
def cfgTable : List (String × Option Setting) :=
  [("device.name", some .name), ("device.hostname", some .hostname), ("wifi.ssid", some .wifiSsid),
    ("wifi.pass", some .wifiPass), ("mqtt.broker", some .mqttBroker), ("mqtt.port", some .mqttPort),
    ("mqtt.user", some .mqttUser), ("mqtt.pass", some .mqttPass), ("mqtt.ca", some .mqttCaFp),
    ("mqtt.auto", some .mqttAuto), ("mqtt.enable", none), ("http.enable", none),
    ("http.auto", some .httpAuto), ("ble.enable", none), ("ble.auto", some .bleAuto),
    ("rathole.enable", none)]

def starts (lit : String) (s : Str) : Bool := (ascii lit).isPrefixOf s

def behind (lit : String) (s : Str) : Str := s.drop (ascii lit).length

/-- What stands before and behind the first `c`, if it is not the first character. -/
def cut (c : UInt8) (s : Str) : Option (Str × Str) :=
  match indexOfChar s c 0 with
  | some i => if 0 < i then some (s.take i, s.drop (i + 1)) else none
  | none => none

/-- `config_tunnel_key` finds the one tunnel and its field. -/
def configTunnelKey (key : Str) : Bool :=
  starts "tunnel." key &&
    match indexOfChar (behind "tunnel." key) '.'.toUInt8 0 with
    | some i => atoi ((behind "tunnel." key).take i) = 1
    | none => false

/-- `config_set`; `tunnelSet` is what `rathole_set` returns. -/
def configSet (tunnelSet : Str → Str → Bool) (key val : Str) : Option (List Write) :=
  if configTunnelKey key then if tunnelSet key val then some [] else none
  else
    match cfgTable.find? fun e => equals key e.1 with
    | none => none
    | some (_, none) => some []
    | some (_, some s) => (cfgS s val).map fun w => [w]

end Registry

section FrontEnds

def mqttClearConfig : List Write :=
  [.reset .mqttBroker (.text []), .reset .mqttPort (.number 8883), .reset .mqttUser (.text []),
    .reset .mqttPass (.text []), .reset .mqttCaFp (.text []), .reset .mqttAuto (.flag false)]

/-- The subcommand of `AT+MQTT`, and its value if a comma follows it. -/
def subAndVal (args : Str) : Str × Str := (cut ','.toUInt8 args).getD (args, [])

/-- What follows `AT+HTTP=`; both front ends do the same to what is saved. -/
def httpArgs (args : Str) : Option (List Write) :=
  if equals args "status" then some []
  else if equals args "clear" then some [.remove .httpAuto]
  else if starts "enable," args then some []
  else if equals args "1" || equals args "0" then some []
  else none

def nvsArgs (sub : Str) : Option (List Write) := if equals sub "clear" then some [.clear] else none

/-- The part of a line behind its head, `status` if there is none. -/
def orStatus (head : String) (line : Str) : Str :=
  if (ascii head).length < line.length then behind head line else ascii "status"

section Serial

variable (tunnelSet : Str → Str → Bool)

def serialConf (key val : Str) : List Write :=
  if equals key "name" then (configSet tunnelSet (ascii "device.name") val).getD []
  else if equals key "hostname" then (configSet tunnelSet (ascii "device.hostname") val).getD []
  else if equals key "http_enable" then (configSet tunnelSet (ascii "http.enable") val).getD []
  else [.save key val]

def serialMqtt (sub val : Str) : Option (List Write) :=
  if equals sub "broker" then configSet tunnelSet (ascii "mqtt.broker") val
  else if equals sub "clear" then some mqttClearConfig
  else if equals sub "port" then configSet tunnelSet (ascii "mqtt.port") val
  else if equals sub "connect" || equals sub "status" then some []
  else if equals sub "auto" then configSet tunnelSet (ascii "mqtt.auto") val
  else if equals sub "enable" then configSet tunnelSet (ascii "mqtt.enable") val
  else if equals sub "ca" then
    if equals val "status" then some [] else configSet tunnelSet (ascii "mqtt.ca") val
  else none

def serialWifi (sub val : Str) : Option (List Write) :=
  if equals sub "ssid" then configSet tunnelSet (ascii "wifi.ssid") val
  else if equals sub "pass" then configSet tunnelSet (ascii "wifi.pass") val
  else if equals sub "status" then some []
  else none

def serialBle (args : Str) : Option (List Write) :=
  if equals args "status" then some []
  else if starts "enable," args then
    configSet tunnelSet (ascii "ble.enable") (behind "enable," args)
  else if starts "auto," args then configSet tunnelSet (ascii "ble.auto") (behind "auto," args)
  else none

/-- The lines of `serial_exec` that write settings; other lines write none. -/
def serialExec (line : Str) : Option (List Write) :=
  if starts "AT+SET=" line then
    (cut '='.toUInt8 (behind "AT+SET=" line)).bind fun kv => configSet tunnelSet kv.1 kv.2
  else if starts "AT+CONF=" line then
    (cut '='.toUInt8 (behind "AT+CONF=" line)).map fun kv => serialConf tunnelSet kv.1 kv.2
  else if starts "AT+MQTT=" line then
    let args := behind "AT+MQTT=" line
    if args = [] then none
    else serialMqtt tunnelSet (subAndVal args).1 (subAndVal args).2
  else if starts "AT+WIFI=" line then
    (cut ','.toUInt8 (behind "AT+WIFI=" line)).bind fun kv => serialWifi tunnelSet kv.1 kv.2
  else if starts "AT+HTTP=" line || equals line "AT+HTTP" then httpArgs (orStatus "AT+HTTP=" line)
  else if starts "AT+BLE=" line || equals line "AT+BLE" then
    serialBle tunnelSet (orStatus "AT+BLE=" line)
  else if starts "AT+NVS=" line then nvsArgs (behind "AT+NVS=" line)
  else none

end Serial

section Http

def atConf (key val : Str) : List Write :=
  if equals key "name" then [.put .name (.text val) val]
  else if equals key "hostname" then [.put .hostname (.text val) val]
  else if equals key "http_enable" then []
  else [.save key val]

/-- The `AT+MQTT` of `handle_at`; the port is not checked. -/
def atMqtt (sub val : Str) : Option (List Write) :=
  if equals sub "broker" then some [.put .mqttBroker (.text val) val]
  else if equals sub "port" then some [.put .mqttPort (.number (atoi val)) val]
  else if equals sub "connect" then some []
  else if equals sub "clear" then some mqttClearConfig
  else if equals sub "status" then some []
  else if equals sub "auto" then
    some [.put .mqttAuto (.flag (equals val "1")) (flag (equals val "1"))]
  else if equals sub "ca" then
    if equals val "status" then some [] else some [.put .mqttCaFp (.text val) val]
  else none

def atWifi (sub val : Str) : Option (List Write) :=
  if equals sub "ssid" then some [.put .wifiSsid (.text val) val]
  else if equals sub "pass" then some [.put .wifiPass (.text val) val]
  else if equals sub "status" then some []
  else none

def trim (s : Str) : Str := ((s.dropWhile isSpace).reverse.dropWhile isSpace).reverse

/-- The commands of `handle_at` that write settings. -/
def handleAt (body : Str) : Option (List Write) :=
  let cmd := trim body
  if starts "AT+CONF=" cmd then
    (cut '='.toUInt8 (behind "AT+CONF=" cmd)).map fun kv => atConf kv.1 kv.2
  else if starts "AT+MQTT=" cmd then
    let args := behind "AT+MQTT=" cmd
    if args = [] then none else atMqtt (subAndVal args).1 (subAndVal args).2
  else if starts "AT+WIFI=" cmd then
    (cut ','.toUInt8 (behind "AT+WIFI=" cmd)).bind fun kv => atWifi kv.1 kv.2
  else if starts "AT+HTTP=" cmd || equals cmd "AT+HTTP" then httpArgs (orStatus "AT+HTTP=" cmd)
  else if starts "AT+NVS=" cmd then nvsArgs (behind "AT+NVS=" cmd)
  else none

variable (tunnelSet : Str → Str → Bool)

def handleConfigSet (key val value : Option Str) : Option (List Write) :=
  key.bind fun key => configSet tunnelSet key (val.getD (value.getD []))

/-- `if (hasArg(...)) config_set(...)`. -/
def setArg (key : String) (arg : Option Str) : List Write :=
  (arg.bind fun v => configSet tunnelSet (ascii key) v).getD []

def handleMqttConfig (broker port user pass auto : Option Str) : List Write :=
  setArg tunnelSet "mqtt.broker" broker ++ setArg tunnelSet "mqtt.port" port ++
    setArg tunnelSet "mqtt.user" user ++ setArg tunnelSet "mqtt.pass" pass ++
    setArg tunnelSet "mqtt.auto" auto

def handleMqttCa (fp : Str) : List Write :=
  if fp = [] then [] else setArg tunnelSet "mqtt.ca" (some fp)

def handleWifiConfig (ssid pass : Option Str) : List Write :=
  setArg tunnelSet "wifi.ssid" ssid ++ setArg tunnelSet "wifi.pass" pass

def handleSave (ssid pass : Str) : List Write :=
  if ssid = [] then [] else [.save (ascii "wifi_ssid") ssid, .save (ascii "wifi_pass") pass]

end Http

/-- The method of `mqtt_exec` that writes settings, with the values of its query. -/
def mqttExec (tunnelSet : Str → Str → Bool) (method key val : Str) : Option (List Write) :=
  if equals method "config/set" then if key = [] then none else configSet tunnelSet key val
  else none

inductive Command where
  | serial (line : Str)
  | httpAt (body : Str)
  | config (key val value : Option Str)
  | mqttConfig (broker port user pass auto : Option Str)
  | mqttCa (fp : Str)
  | mqttClear
  | wifiConfig (ssid pass : Option Str)
  | httpClear
  | nvsClear
  | portal (ssid pass : Str)
  | mqtt (method key val : Str)
  /-- `mqtt_connect` succeeds. -/
  | connected

variable (tunnelSet : Str → Str → Bool)

def writes (st : State) : Command → List Write
  | .serial line => (serialExec tunnelSet line).getD []
  | .httpAt body => (handleAt body).getD []
  | .config key val value => (handleConfigSet tunnelSet key val value).getD []
  | .mqttConfig broker port user pass auto => handleMqttConfig tunnelSet broker port user pass auto
  | .mqttCa fp => handleMqttCa tunnelSet fp
  | .mqttClear => mqttClearConfig
  | .wifiConfig ssid pass => handleWifiConfig tunnelSet ssid pass
  | .httpClear => [.remove .httpAuto]
  | .nvsClear => [.clear]
  | .portal ssid pass => handleSave ssid pass
  | .mqtt method key val => (mqttExec tunnelSet method key val).getD []
  | .connected =>
    if st.ram .mqttAuto = .flag false then [.put .mqttAuto (.flag true) (ascii "1")] else []

/-- A command, and what the NVS does with it. -/
structure Event where
  command : Command
  flash : Flash

def step (st : State) (e : Event) : State :=
  (writes tunnelSet st e.command).foldl (apply e.flash) st

def boot (D : Defaults) (nvs : Nvs) : State := ⟨loadConfig D nvs, nvs, []⟩

end FrontEnds

section Law

variable (D : Defaults)

/-- A reboot would load what is in RAM, and no string was stored that the typed setter of its name
rejects. -/
structure Consistent (st : State) : Prop where
  loaded : ∀ s, st.ram s = loadConfig D st.nvs s
  accepted : ∀ p ∈ st.taken, ∀ s : Setting, p.1 = s.nvsName → (cfgS s p.2).isSome

/-- The port is in the range of the typed setter. -/
def PortOk (s : Setting) (v : Str) : Prop := s.kind = .port → 1 ≤ atoi v ∧ atoi v ≤ 65535

def Keeps (fl : Flash) (st : State) : Write → Prop
  | .put s value saved =>
    if fl.takes s.nvsName (cStr saved) then (s.kind = .text → 0 ∉ saved) ∧ PortOk s saved
    else st.ram s = value
  | .save key val => fl.takes (cStr key) (cStr val) = true → ∀ s : Setting, s.nvsName = cStr key →
    parse s (cStr val) = st.ram s ∧ PortOk s val
  | .reset s value => fl.removes s.nvsName = true ∨ st.ram s = value
  | .remove s => fl.removes s.nvsName = true → st.ram s = parse s (D.string s)
  | .clear => fl.clears = true → ∀ s, st.ram s = parse s (D.string s)

def KeepsAll (tunnelSet : Str → Str → Bool) (st : State) (e : Event) : Prop :=
  ∀ w ∈ writes tunnelSet st e.command, Keeps D e.flash st w

end Law

end AtNode.SavedConfig
