import AtNode.Lib.Run
import AtNode.Esp32.CfgBus

/-!
# The acceptors and the handler of the HTTP server

The server has ten connection buffers. The index of a buffer leaves the free list when an acceptor
begins to listen, goes with the connection through a channel to the handler, and comes back when the
connection is served or was not accepted. An acceptor listens and watches for the end of the server
at once, and drops its listening when the end comes first.

Three acceptors share one signal `KICK`; each has a subscription of its own. An acceptor without a
pending await goes on at once, so the head of its loop is part of the step before it.
-/

namespace AtNode.Httpd

open Config PubSub TunnelSwitch CfgBus

def backlog : ℕ := 10

inductive Acceptor where
  | zero
  | one
  | two
  deriving DecidableEq

def acceptors : List Acceptor := [.zero, .one, .two]

def Acceptor.subscriber : Acceptor → Subscriber
  | .zero => .acceptor0
  | .one => .acceptor1
  | .two => .acceptor2

/-- Where an acceptor is suspended. -/
inductive Phase where
  /-- The server is off: in the `select` of the signal and the announcements. -/
  | idle
  /-- In `FREE_IDX.receive`. -/
  | waitIdx
  /-- In `accept`, with the buffer. -/
  | accept (idx : ℕ)
  /-- In `CONN.send`. -/
  | send (idx : ℕ)
  deriving DecidableEq

def Phase.idx : Phase → Option ℕ
  | .idle | .waitIdx => none
  | .accept idx | .send idx => some idx

structure State where
  bus : Bus
  running : Bool
  kick : Bool
  freeIdx : List ℕ
  conn : List ℕ
  phase : Acceptor → Phase
  serving : Option ℕ

def setRunning (s : State) (v : Bool) : State := { s with running := v, kick := true }

def loopTop (s : State) (a : Acceptor) : State :=
  { s with phase := Function.update s.phase a (if s.running then .waitIdx else .idle) }

def init (cfg : Cfg) : State :=
  let running := isOn cfg .httpAuto && isOn cfg .httpEnable
  { bus := .boot cfg
    running := running
    kick := true
    freeIdx := List.range backlog
    conn := []
    phase := fun _ => if running then .waitIdx else .idle
    serving := none }

def freeSend (s : State) (idx : ℕ) : State :=
  if s.freeIdx.length < backlog then { s with freeIdx := s.freeIdx ++ [idx] } else s

section Tasks

def woken (s : State) (a : Acceptor) : State :=
  if isOn s.bus.cfg .httpEnable then loopTop (setRunning s true) a else loopTop s a

def idlePoll (s : State) (a : Acceptor) : State :=
  if s.kick then woken { s with kick := false } a
  else
    match s.bus.head a.subscriber with
    | some _ => woken { s with bus := s.bus.read a.subscriber } a
    | none => s

def takeIdx (s : State) (a : Acceptor) : State :=
  match s.freeIdx with
  | [] => s
  | idx :: rest =>
    { s with freeIdx := rest, phase := Function.update s.phase a (.accept idx) }

/-- The send of a connection, which waits while the channel is full. -/
def connSend (s : State) (a : Acceptor) (idx : ℕ) : State :=
  if s.conn.length < backlog then loopTop { s with conn := s.conn ++ [idx] } a
  else { s with phase := Function.update s.phase a (.send idx) }

def acceptError (s : State) (a : Acceptor) (idx : ℕ) : State := loopTop (freeSend s idx) a

def switchesOff (cfg : Cfg) (key : Key) : Bool := key = .httpEnable && !isOn cfg .httpEnable

/-- One turn of `disable`; where it returns, the pending accept is dropped. -/
def disablePoll (s : State) (a : Acceptor) : State :=
  if s.kick then
    let s' := { s with kick := false }
    if s.running then s' else loopTop s' a
  else
    match s.bus.head a.subscriber with
    | none => s
    | some key =>
      let s' := { s with bus := s.bus.read a.subscriber }
      if switchesOff s.bus.cfg key then loopTop (setRunning s' false) a else s'

def receive (s : State) : State :=
  match s.serving, s.conn with
  | none, idx :: rest => { s with conn := rest, serving := some idx }
  | _, _ => s

def served (s : State) : State :=
  match s.serving with
  | some idx => freeSend { s with serving := none } idx
  | none => s

end Tasks

inductive Event where
  | set (c : Call)
  | otherReads (i : Subscriber)
  | poll (a : Acceptor)
  | disable (a : Acceptor)
  | accepted (a : Acceptor) (ok : Bool)
  | receive
  | served

def poll (s : State) (a : Acceptor) : State :=
  match s.phase a with
  | .idle => idlePoll s a
  | .waitIdx => takeIdx s a
  | .accept _ => s
  | .send idx => connSend s a idx

def disable (s : State) (a : Acceptor) : State :=
  match s.phase a with
  | .idle => s
  | .waitIdx | .accept _ | .send _ => disablePoll s a

def accepted (s : State) (a : Acceptor) (ok : Bool) : State :=
  match s.phase a with
  | .accept idx => if ok then connSend s a idx else acceptError s a idx
  | .idle | .waitIdx | .send _ => s

def step (s : State) : Event → State
  | .set c => { s with bus := s.bus.set c }
  | .otherReads i =>
    if acceptors.any (·.subscriber = i) then s else { s with bus := s.bus.read i }
  | .poll a => poll s a
  | .disable a => disable s a
  | .accepted a ok => accepted s a ok
  | .receive => receive s
  | .served => served s

end AtNode.Httpd
