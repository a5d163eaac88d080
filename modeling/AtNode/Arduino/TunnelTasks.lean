import AtNode.Arduino.TunnelConfig

/-!
# The tasks around the tunnel of the Arduino firmware

The manager task owns the connection; the tasks of the other channels call `rathole_set`, `rathole_start`,
`rathole_stop`, `rathole_clear` and `rathole_set_enabled` and leave it flags. Nothing is locked: between two
accesses of one task to what they share, the others may go on.

A call is the list of its accesses, each a step of its own. The manager's steps are the statements of its
loop that read or write what is shared. What the network, the clock and the heap say is an input.
-/

namespace AtNode.RatholeTasks

open Run
open ArduinoString (Str ascii)
open RatholeClient (TunnelCfg Field fieldOf assign)

section Calls

inductive Need where
  | master
  | enabled
  | auto
  | text (f : Field)
  deriving DecidableEq

/-- One access of a call. -/
inductive Access where
  | assign (f : Field) (val : Str)
  /-- `if (g_tun[idx].want_run)` before the flag is raised. -/
  | ifRunning
  /-- `!c.enabled` behind an assignment to it. -/
  | ifDisabled
  | wantRun (on : Bool)
  | reconfig
  | wipe (f : Field)
  | master (on : Bool)
  | need (n : Need) (err : Option String)
  /-- `if (t.task) return true`. -/
  | unlessTask
  | create
  | noTask
  | setErr (err : String)
  deriving DecidableEq

inductive Call where
  | set (key val : Str)
  | start
  | stop
  | clear
  | setEnabled (on : Bool)
  | boot
  deriving DecidableEq

def configured (err : Option String) : List Access :=
  [Field.server, .token, .svc, .localAddr].map fun f => .need (.text f) err

def ratholeStart : List Access :=
  [.need .master (some "globally disabled"), .need .enabled (some "tunnel disabled")] ++
    configured (some "not configured") ++ [.reconfig, .wantRun true, .unlessTask, .create]

def ratholeStop : List Access := [.wantRun false, .reconfig]

def ratholeSet (key val : Str) : List Access :=
  match fieldOf key with
  | some .auto => [.assign .auto val]
  | some .en => [.assign .en val, .ifDisabled]
  | some f => [.assign f val, .ifRunning]
  | none => []

def ratholeClear : List Access := ratholeStop ++ Field.all.map .wipe ++ [.setErr ""]

def ratholeSetEnabled (on : Bool) : List Access :=
  .master on ::
    if on then [.need .enabled none, .need .auto none] ++ ratholeStart else ratholeStop

def ratholeInit : List Access :=
  [.need .master none, .need .enabled none, .need .auto none] ++ configured none ++ ratholeStart

def Call.accesses : Call → List Access
  | .set key val => ratholeSet key val
  | .start => ratholeStart
  | .stop => ratholeStop
  | .clear => ratholeClear
  | .setEnabled on => ratholeSetEnabled on
  | .boot => ratholeInit

structure Shared where
  cfg : TunnelCfg
  master : Bool
  task : Bool
  wantRun : Bool
  reconfig : Bool
  connected : Bool
  lastError : Str

def setErr (t : Shared) (err : String) : Shared := { t with lastError := ascii err }

def textOf (c : TunnelCfg) : Field → Str
  | .server => c.server
  | .token => c.token
  | .svc => c.svc
  | .localAddr => c.localAddr
  | _ => []

def Need.holds (t : Shared) : Need → Bool
  | .master => t.master
  | .enabled => t.cfg.enabled
  | .auto => t.cfg.autoConn
  | .text f => 0 < (textOf t.cfg f).length

def copyField (dst src : TunnelCfg) : Field → TunnelCfg
  | .server => { dst with server := src.server }
  | .token => { dst with token := src.token }
  | .svc => { dst with svc := src.svc }
  | .localAddr => { dst with localAddr := src.localAddr }
  | .auto => { dst with autoConn := src.autoConn }
  | .en => { dst with enabled := src.enabled }
  | .retry => { dst with retryS := src.retryS }

/-- The first access of a call, and those that are left. `made` says whether a task can be created. -/
def exec (t : Shared) (made : Bool) (rest : List Access) : Access → Shared × List Access
  | .assign f val => ({ t with cfg := assign t.cfg f val }, rest)
  | .ifRunning => (t, if t.wantRun then .reconfig :: rest else rest)
  | .ifDisabled => (t, if t.cfg.enabled then .ifRunning :: rest else ratholeStop ++ rest)
  | .wantRun on => ({ t with wantRun := on }, rest)
  | .reconfig => ({ t with reconfig := true }, rest)
  | .wipe f => ({ t with cfg := copyField t.cfg .zero f }, rest)
  | .master on => ({ t with master := on }, rest)
  | .need n err =>
    if n.holds t then (t, rest)
    else
      match err with
      | some err => (setErr t err, [])
      | none => (t, [])
  | .unlessTask => (t, if t.task then [] else rest)
  | .create =>
    if made then ({ t with task := true }, rest)
    else (t, [.wantRun false, .noTask, .setErr "task create failed"])
  | .noTask => ({ t with task := false }, rest)
  | .setErr err => (setErr t err, rest)

end Calls

section Manager

inductive Pc where
  | absent
  /-- `if (!t.want_run)`. -/
  | top
  | base
  /-- The checks of the clock, the network and the heap. -/
  | gates
  | clear
  /-- The copy of the configuration, with the fields that are still to be copied. -/
  | copy (f : Field) (rest : List Field)
  | handshake
  | wanted
  | settled
  | body
  /-- `t.connected = false`, and the sockets are closed. -/
  | down
  /-- The loop that waits, with the time it has waited, at the reading of `want_run`. -/
  | pause (waited : ℕ)
  | paused (waited : ℕ)
  deriving DecidableEq

def Pc.copying : List Field → Pc
  | f :: rest => .copy f rest
  | [] => .handshake

structure Manager where
  pc : Pc
  base : ℕ
  backoff : ℕ
  snap : TunnelCfg

inductive Gate where
  | grace
  | noWifi
  | lowHeap
  | pass
  deriving DecidableEq

structure Outcome where
  gate : Gate
  handshake : Option String
  ends : Option String
  /-- The control channel was up for more than three seconds. -/
  long : Bool
  deriving DecidableEq

def backoffBase (t : Shared) : ℕ := t.cfg.retryS.toNat * 1000

def Manager.goto (m : Manager) (pc : Pc) : Manager := { m with pc }

def Manager.doubled (m : Manager) : Manager := { m with pc := .top, backoff := min (m.backoff * 2) 30000 }

def managerStep (t : Shared) (m : Manager) (o : Outcome) : Shared × Manager :=
  match m.pc with
  | .absent => (t, m)
  | .top => if t.wantRun then (t, m.goto .base) else (t, { m with backoff := 0 })
  | .base =>
    (t, { m with pc := .gates, base := backoffBase t, backoff := max m.backoff (backoffBase t) })
  | .gates =>
    match o.gate with
    | .grace | .noWifi => (t, m.goto .top)
    | .lowHeap => (setErr t "low heap, draining", m.goto .top)
    | .pass => (t, m.goto .clear)
  | .clear => ({ t with reconfig := false }, m.goto (.copying Field.all))
  | .copy f rest =>
    (t, { m with snap := copyField m.snap t.cfg f, pc := .copying rest })
  | .handshake =>
    match o.handshake with
    | some err => (setErr t err, m.goto (.pause 0))
    | none => (setErr { t with connected := true } "", m.goto .wanted)
  | .wanted => (t, m.goto (if t.wantRun then .settled else .down))
  | .settled => (t, m.goto (if t.reconfig then .down else .body))
  | .body =>
    match o.ends with
    | some err => (setErr t err, m.goto .down)
    | none => (t, m.goto .wanted)
  | .down =>
    let t := { t with connected := false }
    (if !t.wantRun || t.reconfig then setErr t "" else t,
      { m with pc := .pause 0, backoff := if o.long then m.base else m.backoff })
  | .pause waited => (t, if waited < m.backoff ∧ t.wantRun then m.goto (.paused waited) else m.doubled)
  | .paused waited => (t, if t.reconfig then m.doubled else m.goto (.pause (waited + 100)))

end Manager

section System

variable {ι : Type*} [DecidableEq ι]

/-- The manager, and the tasks that call with what is left of their calls. -/
structure System (ι : Type*) where
  shared : Shared
  manager : Manager
  calls : ι → List Access

inductive Event (ι : Type*) where
  | call (i : ι) (c : Call)
  | caller (i : ι) (made : Bool)
  | manager (o : Outcome)

def Manager.created (m : Manager) (a : Access) (made : Bool) : Manager :=
  if a = .create ∧ made = true then { m with pc := .top, backoff := 0 } else m

def step (s : System ι) : Event ι → System ι
  | .call i c =>
    match s.calls i with
    | [] => { s with calls := Function.update s.calls i c.accesses }
    | _ :: _ => s
  | .caller i made =>
    match s.calls i with
    | [] => s
    | a :: rest =>
      let r := exec s.shared made rest a
      { shared := r.1, manager := s.manager.created a made, calls := Function.update s.calls i r.2 }
  | .manager o =>
    let r := managerStep s.shared s.manager o
    { s with shared := r.1, manager := r.2 }

def init (cfg : TunnelCfg) (master : Bool) : System ι where
  shared := ⟨cfg, master, false, false, false, false, []⟩
  manager := ⟨.absent, 0, 0, .zero⟩
  calls _ := []

end System

end AtNode.RatholeTasks
