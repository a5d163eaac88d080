import AtNode.Lib.Run
import AtNode.Esp32.CfgBus

/-!
# The task of the WiFi station

The task reads the credentials, connects the station with them and publishes that the link is up
once it has an address. Then it looks every two seconds whether the station is still connected, and
goes back to reading the credentials for an announcement of a WiFi key. The published state is set
where the address is there, and cleared where a look finds the station disconnected.

What the driver answers is an input. `lost` is a history: the association was lost, and the task has
not looked since.
-/

namespace AtNode.Wifi

open Config PubSub TunnelSwitch CfgBus

abbrev Creds := Text × Text

def creds (cfg : Cfg) : Creds := (getStr cfg .wifiSsid, getStr cfg .wifiPass)

def isWifi (key : Key) : Bool := "wifi.".toList.isPrefixOf key.name

inductive Phase where
  /-- No credentials: any announcement, or the retry timer. -/
  | noCreds
  | unchanged
  | disconnecting
  | connecting
  | retry
  /-- In `wait_config_up`. -/
  | dhcp
  /-- In the loop that refreshes the RSSI. -/
  | online
  deriving DecidableEq

structure State where
  bus : Bus
  /-- `cur_ssid` and `cur_pass`. -/
  cur : Creds
  /-- The credentials in the driver. -/
  conf : Creds
  assoc : Bool
  up : Bool
  ip : Option ℕ
  phase : Phase
  lost : Bool

section Task

def configure (s : State) (configOk : Bool) : State :=
  if configOk then { s with conf := s.cur, phase := .connecting } else { s with phase := .retry }

def loopTop (s : State) (configOk : Bool) : State :=
  let c := creds s.bus.cfg
  if c.1 = [] then { s with cur := ([], []), phase := .noCreds }
  else if c = s.cur ∧ s.assoc = true then { s with phase := .unchanged, lost := false }
  else if s.assoc then { s with cur := c, phase := .disconnecting }
  else configure { s with cur := c } configOk

def clear (s : State) : State := { s with up := false, ip := none }

def look (s : State) (configOk : Bool) : State :=
  if s.assoc then { s with lost := false } else loopTop (clear s) configOk

def resume (s : State) (relevant configOk : Bool) : State :=
  match s.phase with
  | .noCreds | .unchanged | .retry => loopTop s configOk
  | .online => if relevant then loopTop s configOk else look s configOk
  | .disconnecting | .connecting | .dhcp => s

/-- The task is in `wait_change`. -/
def waits (s : State) : Bool :=
  match s.phase with
  | .noCreds | .unchanged | .retry | .online => true
  | .disconnecting | .connecting | .dhcp => false

def wake (s : State) (configOk : Bool) : State :=
  if !waits s then s
  else
    match s.bus.head .wifi with
    | some key => resume { s with bus := s.bus.read .wifi } (isWifi key) configOk
    | none => resume s false configOk

def disconnected (s : State) (configOk : Bool) : State :=
  match s.phase with
  | .disconnecting => configure { s with assoc := false } configOk
  | _ => s

def connected (s : State) (ok : Bool) : State :=
  match s.phase with
  | .connecting =>
    if ok then { s with assoc := true, lost := false, phase := .dhcp } else { s with phase := .retry }
  | _ => s

def dhcp (s : State) (ip : ℕ) : State :=
  match s.phase with
  | .dhcp => { s with up := true, ip := some ip, phase := .online }
  | _ => s

def init (cfg : Cfg) (configOk : Bool) : State :=
  loopTop
    { bus := .boot cfg
      cur := ([], [])
      conf := ([], [])
      assoc := false
      up := false
      ip := none
      phase := .noCreds
      lost := false } configOk

end Task

inductive Event where
  | set (c : Call)
  | otherReads (i : Subscriber)
  | linkLost
  | relinked
  | wake (configOk : Bool)
  | disconnected (configOk : Bool)
  | connected (ok : Bool)
  | dhcp (ip : ℕ)

def step (s : State) : Event → State
  | .set c => { s with bus := s.bus.set c }
  | .otherReads i => if i = .wifi then s else { s with bus := s.bus.read i }
  | .linkLost => { s with assoc := false, lost := true }
  | .relinked => { s with assoc := true }
  | .wake configOk => wake s configOk
  | .disconnected configOk => disconnected s configOk
  | .connected ok => connected s ok
  | .dhcp ip => dhcp s ip

end AtNode.Wifi
