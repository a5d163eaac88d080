import AtNode.Esp32.HttpHws
import AtNode.Esp32.MqttExec

/-!
# The configuration handlers of the web server

`mqtt/config` and `wifi/config` set each setting whose argument the request has, `config/set` sets one
key, and `mqtt/clear` sets the keys of the broker back. What `cfg::set` answers is read by
`config/set` alone. Which keys flash takes is an input. Without a result the firmware has stopped in
a slice.
-/

namespace AtNode.Http

open Config Query
open CfgStore (Device)

/-- `has` looks for the key with an equals sign in the whole texts. -/
def Args.has (a : Args) (key : Text) : Bool := hasIn a.body key || hasIn a.query key

section Handlers

variable (mqtt : Bool) (flash : Text → Bool) (a : Args)

/-- `cfg::set` with its error dropped. -/
def put (key val : Text) (d : Device) : Device := (d.set ⟨key, val, flash key⟩).2

def setArg (arg : Text × Key) (d : Device) : Option Device :=
  if a.has arg.1 then (a.get arg.1).map fun v => put flash arg.2.name v d else some d

def setArgs : List (Text × Key) → Device → Option Device
  | [], d => some d
  | arg :: args, d => (setArg flash a arg d).bind (setArgs args)

def mqttArgs : List (Text × Key) :=
  [("broker".toList, .mqttBroker), ("port".toList, .mqttPort), ("user".toList, .mqttUser),
    ("pass".toList, .mqttPass), ("auto".toList, .mqttAuto)]

def hMqttConfig (d : Device) : Option (Reply × Device) :=
  if !mqtt then some (badRequest "mqtt disabled", d)
  else (setArgs flash a mqttArgs d).map fun d =>
    (⟨200, "\x7b\"ok\":true,\"cmd\":\"mqtt/config\"\x7d".toList⟩, d)

def wifiArgs : List (Text × Key) := [("ssid".toList, .wifiSsid), ("pass".toList, .wifiPass)]

def hWifiConfig (d : Device) : Option (Reply × Device) :=
  (setArgs flash a wifiArgs d).map fun d =>
    (⟨200, "\x7b\"ok\":true,\"cmd\":\"wifi/config\",\"ssid\":\"".toList ++ getStr d.cfg .wifiSsid ++
      "\"\x7d".toList⟩, d)

/-- The value of `config/set` is that of `val`, or that of `value`. -/
def setValue : Option Text :=
  if a.has "val".toList then a.get "val".toList else a.get "value".toList

def hConfigSet (d : Device) : Option (Reply × Device) :=
  if !a.has "key".toList then some (badRequest "missing key", d)
  else
    (a.get "key".toList).bind fun key => (setValue a).map fun val =>
      match d.set ⟨key, val, flash key⟩ with
      | (.ok _, d) =>
        (⟨200, "\x7b\"ok\":true,\"cmd\":\"config\",\"key\":\"".toList ++ key ++ "\"\x7d".toList⟩, d)
      | (.error _, d) => (badRequest "unknown key or invalid value", d)

end Handlers

section Clear

open MqttExec (World cfgSet)

variable {σ : Type}

def mqttClearTable : List (Text × Text) :=
  (["mqtt.broker", "mqtt.user", "mqtt.pass", "mqtt.auto"].map fun key => (key.toList, [])) ++
    [("mqtt.port".toList, "8883".toList)]

/-- `stop` is `mqttc::stop`. -/
def hMqttClear (mqtt : Bool) (stop : σ → σ) (flash : Text → Bool) (w : World σ) : Reply × World σ :=
  if !mqtt then (badRequest "mqtt disabled", w)
  else
    (⟨200, "\x7b\"ok\":true,\"cmd\":\"mqtt/clear\"\x7d".toList⟩,
      mqttClearTable.foldl (fun w kv => (cfgSet flash kv.1 kv.2 w).2) { w with peri := stop w.peri })

end Clear

end AtNode.Http
