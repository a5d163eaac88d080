import Mathlib.Logic.Function.Iterate
import AtNode.Lib.PubSub
import AtNode.Esp32.Cfg

/-!
# The switches of the tunnel and its run state

A change of the configuration is announced on a channel of capacity four with six subscribers; the
watcher of the tunnel reads its announcements and sets `WANT_RUN` by the configuration it finds. An
announcement that meets a full queue is dropped. The watcher starts the tunnel for `tunnel.1.enable`
without a look at the master switch.

All tasks run on one cooperative executor: a handler makes its calls of `set` without another task
in between, and the watcher deals with one announcement at a time.
-/

namespace AtNode.TunnelSwitch

open Config PubSub

/-- The tasks that hold a subscription; the HTTP server has three acceptors. -/
inductive Subscriber where
  | wifi
  | watcher
  | acceptor0
  | acceptor1
  | acceptor2
  | mqttc
  deriving DecidableEq

instance : Fintype Subscriber where
  elems := {.wifi, .watcher, .acceptor0, .acceptor1, .acceptor2, .mqttc}
  complete i := by
    cases i with
    | _ => decide

def changedCap : ℕ := 4

structure State where
  cfg : Cfg
  changed : Channel Subscriber Key
  wantRun : Bool
  reconfig : Bool
  kick : Bool

section Switches

def isOn (cfg : Cfg) (key : Key) : Bool := decide (getStr cfg key = "1".toList)

def masterOn (cfg : Cfg) : Bool := isOn cfg .ratholeEnable

def tunnelEnabled (cfg : Cfg) : Bool := isOn cfg .tunnelEnable

def configured (cfg : Cfg) : Bool :=
  !(getStr cfg .tunnelServer).isEmpty && !(getStr cfg .tunnelToken).isEmpty &&
    !(getStr cfg .tunnelService).isEmpty && !(getStr cfg .tunnelLocal).isEmpty

def init (cfg : Cfg) : State where
  cfg := cfg
  changed := .empty
  wantRun := masterOn cfg && tunnelEnabled cfg && isOn cfg .tunnelAuto && configured cfg
  reconfig := false
  kick := false

def connect (s : State) : State :=
  if masterOn s.cfg && tunnelEnabled s.cfg && configured s.cfg then
    { s with wantRun := true, kick := true }
  else s

def disconnect (s : State) : State :=
  { s with wantRun := false, reconfig := true, kick := true }

end Switches

section Settings

/-- A call of `set`, and whether flash takes the value. -/
structure Call where
  key : Text
  val : Text
  flash : Bool

def setCall (s : State) (c : Call) : Except Error State :=
  match Config.set s.cfg c.key c.val c.flash with
  | .error e => .error e
  | .ok (cfg, key) =>
    .ok { s with cfg := cfg, changed := s.changed.tryPublish changedCap key }

/-- Calls of `set` one behind the other; a call that fails changes nothing. -/
def setAll (s : State) (calls : List Call) : State :=
  calls.foldl (fun s c => (setCall s c).toOption.getD s) s

/-- The fields of the tunnel page and their keys. -/
def tunnelFields : List (Text × Text) :=
  [("server".toList, "tunnel.1.server".toList), ("token".toList, "tunnel.1.token".toList),
    ("service".toList, "tunnel.1.service".toList), ("local".toList, "tunnel.1.local".toList),
    ("retry".toList, "tunnel.1.retry".toList), ("auto".toList, "tunnel.1.auto".toList),
    ("enable".toList, "tunnel.1.enable".toList)]

/-- The calls for the fields that are not empty. -/
def tunnelCalls (args : Text → Text) (flash : Text → Bool) : List Call :=
  (tunnelFields.filter fun field => args field.1 ≠ []).map fun field =>
    ⟨field.2, args field.1, flash field.2⟩

/-- `h_tunnel_post` for the configuration: it stops at the first error. -/
def tunnelPost (s : State) : List Call → State
  | [] => s
  | c :: calls =>
    match setCall s c with
    | .ok s => tunnelPost s calls
    | .error _ => s

def clearCalls (flash : Text → Bool) : List Call :=
  [⟨"tunnel.1.server".toList, [], flash "tunnel.1.server".toList⟩,
    ⟨"tunnel.1.token".toList, [], flash "tunnel.1.token".toList⟩,
    ⟨"tunnel.1.service".toList, [], flash "tunnel.1.service".toList⟩,
    ⟨"tunnel.1.local".toList, [], flash "tunnel.1.local".toList⟩,
    ⟨"tunnel.1.auto".toList, "0".toList, flash "tunnel.1.auto".toList⟩,
    ⟨"tunnel.1.retry".toList, "1".toList, flash "tunnel.1.retry".toList⟩,
    ⟨"tunnel.1.enable".toList, "1".toList, flash "tunnel.1.enable".toList⟩]

def clear (s : State) (flash : Text → Bool) : State := setAll (disconnect s) (clearCalls flash)

end Settings

section Watcher

/-- What `watch_task` does with an announcement. -/
def watchKey (s : State) (key : Key) : State :=
  match key with
  | .ratholeEnable =>
    { s with
      wantRun :=
        if !masterOn s.cfg then false
        else if tunnelEnabled s.cfg && isOn s.cfg .tunnelAuto && configured s.cfg then true
        else s.wantRun
      reconfig := true
      kick := true }
  | .tunnelEnable =>
    { s with
      wantRun :=
        if !tunnelEnabled s.cfg then false
        else if configured s.cfg then true
        else s.wantRun
      reconfig := true
      kick := true }
  | key =>
    if "tunnel.1.".toList.isPrefixOf key.name then { s with reconfig := true, kick := true }
    else s

/-- One turn of `watch_task`. -/
def watch (s : State) : State :=
  match s.changed.unread .watcher with
  | [] => s
  | key :: _ => watchKey { s with changed := s.changed.read .watcher } key

def drained (s : State) : State := watch^[(s.changed.unread .watcher).length] s

end Watcher

inductive Event where
  /-- A handler of AT, HTTP or MQTT makes calls of `set`. -/
  | settings (calls : List Call)
  | clear (flash : Text → Bool)
  | connect
  | disconnect
  | watch
  | otherReads (i : Subscriber)
  /-- The manager starts an attempt. -/
  | attempt
  /-- The manager wakes up. -/
  | woken

def step (s : State) : Event → State
  | .settings calls => setAll s calls
  | .clear flash => clear s flash
  | .connect => connect s
  | .disconnect => disconnect s
  | .watch => watch s
  | .otherReads i => if i = .watcher then s else { s with changed := s.changed.read i }
  | .attempt => { s with reconfig := false }
  | .woken => { s with kick := false }

end AtNode.TunnelSwitch
