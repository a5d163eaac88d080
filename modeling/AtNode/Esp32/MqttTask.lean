import AtNode.Lib.Run
import AtNode.Esp32.CfgBus

/-!
# The task of the MQTT client

Whether the client is to run is a flag that `start` and `stop` set from outside; both signal `KICK`,
and the task waits for the signal and for announcements of the configuration where it is idle and in
a session. In a session any signal is a stop, and any announcement of the MQTT keys or of the host
name ends the session; the task then opens another one if the flag is still set.

A task without a pending await goes on at once, so the head of its loop is part of the step before
it. What the link and the broker answer are inputs.
-/

namespace AtNode.MqttTask

open Config PubSub TunnelSwitch CfgBus

/-- Where the task is suspended. -/
inductive Phase where
  /-- In the `select` of the signal and the announcements. -/
  | idle
  | wifiWait
  /-- In `run_session` up to the answer of the broker. -/
  | opening
  | setup
  /-- In the `select4` of `run_client`. -/
  | session
  /-- In the branch behind the `select4`. -/
  | busy
  | leaving
  | backoff
  deriving DecidableEq

structure State where
  bus : Bus
  running : Bool
  connected : Bool
  kick : Bool
  phase : Phase

section Control

/-- `start`; without a broker it is an error. -/
def start (s : State) : State :=
  if getStr s.bus.cfg .mqttBroker = [] then s else { s with running := true, kick := true }

def stop (s : State) : State := { s with running := false, kick := true }

end Control

section Task

def loopTop (s : State) (link : Bool) : State :=
  if !s.running then { s with phase := .idle }
  else if !link then { s with phase := .wifiWait }
  else if getStr s.bus.cfg .mqttBroker = [] then { s with running := false, phase := .idle }
  else { s with phase := .opening }

def init (cfg : Cfg) : State :=
  loopTop
    { bus := .boot cfg
      running := isOn cfg .mqttAuto && isOn cfg .mqttEnable
      connected := false
      kick := false
      phase := .idle } false

def idleKey (s : State) (key : Key) : State :=
  if key = .mqttEnable && isOn s.bus.cfg .mqttEnable then { s with running := true } else s

def idlePoll (s : State) (link : Bool) : State :=
  if s.kick then loopTop { s with kick := false } link
  else
    match s.bus.head .mqttc with
    | some key => loopTop (idleKey { s with bus := s.bus.read .mqttc } key) link
    | none => s

/-- The keys whose change ends a session. -/
def reconnects (key : Key) : Bool := "mqtt.".toList.isPrefixOf key.name || key = .deviceHostname

def leave (s : State) : State := { s with connected := false, phase := .leaving }

def sessionPoll (s : State) : State :=
  if s.kick then leave { s with kick := false }
  else
    match s.bus.head .mqttc with
    | some key =>
      if reconnects key then leave { s with bus := s.bus.read .mqttc }
      else { s with bus := s.bus.read .mqttc }
    | none => s

def finish (s : State) (link : Bool) : State :=
  let s' := { s with connected := false }
  if s.running then { s' with phase := .backoff } else loopTop s' link

def proceed (s : State) (ok link : Bool) : State :=
  match s.phase with
  | .idle => s
  | .wifiWait | .backoff => loopTop s link
  | .opening => if ok then { s with connected := true, phase := .setup } else finish s link
  | .setup => if ok then { s with phase := .session } else finish s link
  | .session => if ok then { s with phase := .busy } else leave s
  | .busy => if ok && s.running then { s with phase := .session } else leave s
  | .leaving => finish s link

def poll (s : State) (link : Bool) : State :=
  match s.phase with
  | .idle => idlePoll s link
  | .session => sessionPoll s
  | .wifiWait | .opening | .setup | .busy | .leaving | .backoff => s

end Task

inductive Event where
  | set (c : Call)
  | otherReads (i : Subscriber)
  | start
  | stop
  /-- The task polls the signal and the announcements. -/
  | poll (link : Bool)
  /-- A timer, the broker or the transport lets the task go on; in a session, another branch is
  ready or the broker is gone. -/
  | proceed (ok link : Bool)

def step (s : State) : Event → State
  | .set c => { s with bus := s.bus.set c }
  | .otherReads i => if i = .mqttc then s else { s with bus := s.bus.read i }
  | .start => start s
  | .stop => stop s
  | .poll link => poll s link
  | .proceed ok link => proceed s ok link

end AtNode.MqttTask
