import Mathlib.Data.List.FinRange
import AtNode.Lib.Memory
import AtNode.Lib.SlotPool
import AtNode.Esp32.Cfg

/-!
# Data channels of the rathole client

The manager owns the control channel and at most one standby data channel. A command on the control
channel opens a standby; a command on the standby hands it to the forward task through a queue, or
drops it. A data channel holds one of `MAX_FWD` slots from the moment its opening begins.

What the network does is part of the events: the answer to a DNS query, whether a connection comes
up, how the received bytes are cut. The bytes received on a standby and the commands decoded so far
are kept as histories.
-/

namespace AtNode.Rathole

open Config Memory

abbrev Bytes := List UInt8

abbrev maxFwd : ℕ := 2

abbrev Slot := Fin maxFwd

def minFreeHeap : ℕ := 12000

def leU32 (b : Bytes) : ℕ := leNat fun i : Fin 4 => b.getD i 0

section Addresses

abbrev Ip := UInt8 × UInt8 × UInt8 × UInt8

/-- At most three digits, no leading zero. -/
def parseOctet (s : Text) : Option UInt8 :=
  if s = [] ∨ 3 < s.length ∨ ¬ s.all Char.isDigit ∨ (s.head? = some '0' ∧ s.length ≠ 1) then none
  else (parseUnsigned u8Max s).map UInt8.ofNat

def parseIpv4 (s : Text) : Option Ip :=
  match s.splitOn '.' with
  | [a, b, c, d] =>
    match parseOctet a, parseOctet b, parseOctet c, parseOctet d with
    | some a, some b, some c, some d => some (a, b, c, d)
    | _, _, _, _ => none
  | _ => none

def splitHostPort (s : Text) : Option (Text × ℕ) :=
  let host := (s.reverse.dropWhile (· ≠ ':')).tail.reverse
  let digits := (s.reverse.takeWhile (· ≠ ':')).reverse
  if ':' ∉ s ∨ host = [] ∨ digits = [] then none
  else
    match parseUnsigned u16Max digits with
    | none => none
    | some port => if port = 0 ∨ valMax < byteLen host then none else some (host, port)

/-- A query that fails has no answer. -/
abbrev Answer := Option (List Ip)

def resolve (host : Text) (answer : Answer) : Option Ip :=
  match parseIpv4 host with
  | some v4 => some v4
  | none => answer.bind List.head?

end Addresses

structure TunCfg where
  server : Text
  token : Text
  localAddr : Text

structure Standby where
  slot : Slot
  received : Bytes

/-- What `run_connected` keeps; `cmd` and `dcmd` are the filled parts of its buffers. -/
structure Session where
  tcfg : TunCfg
  pool : Option Standby
  cmd : Bytes
  dcmd : Bytes

inductive Manager where
  | down
  | connected (ses : Session)
  | filling (ses : Session) (slot : Slot)

structure FwdReq where
  slot : Slot
  lhost : Text
  lport : ℕ

inductive Forwarder where
  | idle
  | dialing (req : FwdReq)
  | pumping (slot : Slot)

/-- A decoded standby command and the bytes received on its standby until then. -/
structure Decision where
  value : ℕ
  received : Bytes

structure State where
  manager : Manager
  slots : Finset Slot
  dataCh : UInt8
  fwdCh : List FwdReq
  forwarder : Forwarder
  decisions : List Decision

def init : State := ⟨.down, ∅, 0, [], .idle, []⟩

section Operations

def slotAlloc (slots : Finset Slot) : Option Slot := (List.finRange maxFwd).find? (· ∉ slots)

/-- `slot_free` and the decrement of the data-channel count that goes with it. -/
def release (s : State) (slot : Slot) : State :=
  { s with slots := s.slots.erase slot, dataCh := s.dataCh - 1 }

/-- `accepted` is the outcome of the connection, the hellos and the acknowledgement. -/
def controlHandshake (tcfg : TunCfg) (answer : Answer) (accepted : Bool) : Bool :=
  match splitHostPort tcfg.server with
  | none => false
  | some (host, _) =>
    (resolve host answer).isSome && decide (byteLen tcfg.token + 32 ≤ 96) && accepted

def poolFillStart (s : State) (ses : Session) (heap : ℕ) : State :=
  if heap < minFreeHeap then { s with manager := .connected ses }
  else
    match slotAlloc s.slots with
    | none => { s with manager := .connected ses }
    | some slot => { s with manager := .filling ses slot, slots := insert slot s.slots }

def poolFillOne (s : State) (ses : Session) (slot : Slot) (answer : Answer)
    (connects writes : Bool) : State :=
  match splitHostPort ses.tcfg.server with
  | none => { s with manager := .connected ses }
  | some (host, _) =>
    match resolve host answer with
    | none => { s with manager := .connected ses }
    | some _ =>
      if connects && writes then
        { s with
          manager := .connected { ses with pool := some ⟨slot, []⟩ }
          dataCh := s.dataCh + 1 }
      else { s with manager := .connected ses, slots := s.slots.erase slot }

def startForward (s : State) (slot : Slot) (tcfg : TunCfg) (heap : ℕ) : State :=
  match if minFreeHeap ≤ heap then splitHostPort tcfg.localAddr else none with
  | some (lhost, lport) =>
    if s.fwdCh.length < maxFwd then { s with fwdCh := s.fwdCh ++ [⟨slot, lhost, lport⟩] }
    else release s slot
  | none => release s slot

def controlRead (s : State) (ses : Session) (chunk : Bytes) (heap : ℕ) : State :=
  let cmd := ses.cmd ++ chunk
  if cmd.length = 4 then
    if leU32 cmd = 0 ∧ ses.pool.isNone then poolFillStart s { ses with cmd := [] } heap
    else { s with manager := .connected { ses with cmd := [] } }
  else { s with manager := .connected { ses with cmd := cmd } }

def poolRead (s : State) (ses : Session) (standby : Standby) (chunk : Bytes) (heap : ℕ) : State :=
  let dcmd := ses.dcmd ++ chunk
  let received := standby.received ++ chunk
  if dcmd.length = 4 then
    let s :=
      { s with
        manager := .connected { ses with pool := none, dcmd := [] }
        decisions := s.decisions ++ [⟨leU32 dcmd, received⟩] }
    if leU32 dcmd = 0 then startForward s standby.slot ses.tcfg heap else release s standby.slot
  else
    { s with
      manager := .connected
        { ses with
          pool := some ⟨standby.slot, received⟩
          dcmd := dcmd } }

/-- The server closed the standby, or it failed. -/
def poolGone (s : State) (ses : Session) (standby : Standby) : State :=
  release { s with manager := .connected { ses with pool := none } } standby.slot

def sessionOver (s : State) (ses : Session) : State :=
  match ses.pool with
  | none => { s with manager := .down }
  | some standby => release { s with manager := .down } standby.slot

end Operations

section Steps

inductive Event where
  | handshake (tcfg : TunCfg) (answer : Answer) (accepted : Bool)
  | control (chunk : Bytes) (heap : ℕ)
  | filled (answer : Answer) (connects writes : Bool)
  | standby (chunk : Bytes) (heap : ℕ)
  | standbyGone
  /-- A flag, the end or an error of the control channel, or the heartbeat timer. -/
  | over
  | receive
  | dialed (answer : Answer) (connects : Bool)
  | pumped

/-- A read into the rest of a buffer of four bytes. -/
def Fits (filled chunk : Bytes) : Prop := chunk ≠ [] ∧ (filled ++ chunk).length ≤ 4

instance (filled chunk : Bytes) : Decidable (Fits filled chunk) :=
  inferInstanceAs (Decidable (chunk ≠ [] ∧ (filled ++ chunk).length ≤ 4))

/-- One step of the manager task. -/
def managerStep (s : State) : Manager → Event → State
  | .down, .handshake tcfg answer accepted =>
    if controlHandshake tcfg answer accepted then
      { s with manager := .connected ⟨tcfg, none, [], []⟩ }
    else s
  | .connected ses, .control chunk heap =>
    if Fits ses.cmd chunk then controlRead s ses chunk heap else s
  | .connected ses, .standby chunk heap =>
    match ses.pool with
    | some standby => if Fits ses.dcmd chunk then poolRead s ses standby chunk heap else s
    | none => s
  | .connected ses, .standbyGone =>
    match ses.pool with
    | some standby => poolGone s ses standby
    | none => s
  | .connected ses, .over => sessionOver s ses
  | .filling ses slot, .filled answer connects writes =>
    poolFillOne s ses slot answer connects writes
  | _, _ => s

/-- One step of `forward_loop`; `main` starts one instance of it. -/
def forwarderStep (s : State) : Forwarder → Event → State
  | .idle, .receive =>
    match s.fwdCh with
    | req :: rest => { s with fwdCh := rest, forwarder := .dialing req }
    | [] => s
  | .dialing req, .dialed answer connects =>
    if (resolve req.lhost answer).isSome && connects then
      { s with forwarder := .pumping req.slot }
    else release { s with forwarder := .idle } req.slot
  | .pumping slot, .pumped => release { s with forwarder := .idle } slot
  | _, _ => s

def step (s : State) (e : Event) : State :=
  match e with
  | .receive | .dialed _ _ | .pumped => forwarderStep s s.forwarder e
  | _ => managerStep s s.manager e

end Steps

section Handover

variable {s : State} {slot : Slot} {tcfg : TunCfg} {heap : ℕ}

theorem startForward_decisions : (startForward s slot tcfg heap).decisions = s.decisions := by
  unfold startForward
  split
  · split
    · rfl
    · rfl
  · rfl

theorem startForward_manager : (startForward s slot tcfg heap).manager = s.manager := by
  unfold startForward
  split
  · split
    · rfl
    · rfl
  · rfl

end Handover

def namedServer : TunCfg := ⟨['h', ':', '7'], ['t'], ['l', ':', '8']⟩

end AtNode.Rathole
