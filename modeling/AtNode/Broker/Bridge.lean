import Mathlib.Data.List.Basic
import Mathlib.Logic.Function.Basic
import AtNode.Lib.Run
import AtNode.Broker.PyText

/-!
# Calls over the bridge

`rpc` publishes a command with a fresh id and waits until the callback of the MQTT client has put the
response into the entry of that id. The callback runs on the thread of the network and the calls on
threads of their own; both hold the lock while they touch the table.

The callback takes a response from any device, and leaves by an exception for a text that
`json.loads` refuses in another way than by a decode error, for a value that is no object and for an
id that cannot be hashed. `loads` is a parameter. The device a response was published by is kept as a
history.
-/

namespace AtNode.Bridge

open Run PyText

section Values

/-- A value of `json.loads`; an object has no field twice. -/
inductive Value where
  | null
  | bool (b : Bool)
  | number (digits : Text)
  | str (s : Text)
  | array (elems : List Value)
  | object (fields : List (Text × Value))

inductive PyError where
  | jsonDecodeError
  | valueError
  | recursionError
  | attributeError
  | typeError

/-- `data.get("id")` as a key of the table; only a string can be one. -/
def requestId : Value → Except PyError (Option Text)
  | .object fields =>
    match fields.lookup "id".toList with
    | some (.str id) => .ok (some id)
    | some (.array _) | some (.object _) => .error .typeError
    | _ => .ok none
  | _ => .error .attributeError

end Values

/-- `{"online", "info"}`; the times are left out. -/
structure Device where
  online : Option Bool
  info : Option (Option Value)

structure Entry where
  event : Bool
  resp : Option Value
  /-- The device that published `resp`. -/
  origin : Text

inductive Outcome where
  | notReady
  | timeout
  | answer (resp : Option Value) (origin : Text)

inductive Phase where
  /-- Waits for the subscriptions. -/
  | entered
  | ready
  | registered
  | waiting
  /-- Back from the wait, with its result. -/
  | woken (ok : Bool)
  | returned (o : Outcome)
  | raised

structure Call where
  dev : Text
  method : Text
  phase : Phase

structure State where
  devices : Text → Option Device
  pending : Text → Option Entry
  subMids : List ℕ
  subscribed : Bool
  published : List (Text × Text)
  /-- The calls by their ids. -/
  calls : Text → Option Call
  /-- What left the callback. -/
  raised : Option PyError

def init : State where
  devices := fun _ => none
  pending := fun _ => none
  subMids := []
  subscribed := false
  published := []
  calls := fun _ => none
  raised := none

section Callback

variable (loads : Text → Except PyError Value)

def setDevice (s : State) (dev : Text) (f : Device → Device) : State :=
  { s with devices := Function.update s.devices dev (some (f ((s.devices dev).getD ⟨none, none⟩))) }

def onState (s : State) (dev payload : Text) : State :=
  setDevice s dev fun d => { d with online := some (strip payload = "online".toList) }

def onInfo (s : State) (dev payload : Text) : State :=
  match loads payload with
  | .ok v => setDevice s dev fun d => { d with info := some (some v) }
  | .error .jsonDecodeError => setDevice s dev fun d => { d with info := some none }
  | .error e => { setDevice s dev id with raised := some e }

def onResp (s : State) (dev payload : Text) : State :=
  match loads payload with
  | .error .jsonDecodeError => s
  | .error e => { s with raised := some e }
  | .ok data =>
    match requestId data with
    | .error e => { s with raised := some e }
    | .ok none => s
    | .ok (some id) =>
      match s.pending id with
      | some _ => { s with pending := Function.update s.pending id (some ⟨true, some data, dev⟩) }
      | none => s

def onMessage (s : State) (topic payload : Text) : State :=
  match topic.splitOn '/' with
  | [root, dev, kind] =>
    if root = "atnode".toList then
      if kind = "state".toList then onState s dev payload
      else if kind = "info".toList then onInfo loads s dev payload
      else if kind = "resp".toList then onResp loads s dev payload
      else s
    else s
  | _ => s

end Callback

section Calls

def setPhase (s : State) (id : Text) (c : Call) (phase : Phase) : State :=
  { s with calls := Function.update s.calls id (some { c with phase := phase }) }

/-- A call begins; the ids are distinct. -/
def rpc (s : State) (id dev method : Text) : State :=
  match s.calls id with
  | none => { s with calls := Function.update s.calls id (some ⟨dev, method, .entered⟩) }
  | some _ => s

/-- The wait for the subscriptions is over: they are there, or five seconds have passed. -/
def subscribedWait (s : State) (id : Text) (c : Call) : State :=
  if s.subscribed then setPhase s id c .ready else setPhase s id c (.returned .notReady)

def register (s : State) (id : Text) (c : Call) : State :=
  setPhase { s with pending := Function.update s.pending id (some ⟨false, none, []⟩) } id c .registered

def command (id : Text) (c : Call) (query : Text) : Text × Text :=
  ("atnode/".toList ++ c.dev ++ "/cmd".toList, id ++ [' '] ++ c.method ++ [' '] ++ query)

/-- The query is encoded and the command published; either may raise. -/
def publish (s : State) (id : Text) (c : Call) (query : Option Text) (taken : Bool) : State :=
  match query with
  | some q =>
    if taken then setPhase { s with published := s.published ++ [command id c q] } id c .waiting
    else setPhase s id c .raised
  | none => setPhase s id c .raised

/-- The wait for the response is over: it is there, or the time has passed. -/
def wake (s : State) (id : Text) (c : Call) : State :=
  setPhase s id c (.woken (((s.pending id).map Entry.event).getD false))

def pop (s : State) (id : Text) (c : Call) (ok : Bool) : State :=
  let s' := { s with pending := Function.update s.pending id none }
  if !ok then setPhase s' id c (.returned .timeout)
  else
    match s.pending id with
    | some p => setPhase s' id c (.returned (.answer p.resp p.origin))
    | none => setPhase s' id c .raised

/-- The next step of a call. -/
def advance (s : State) (id : Text) (query : Option Text) (taken : Bool) : State :=
  match s.calls id with
  | none => s
  | some c =>
    match c.phase with
    | .entered => subscribedWait s id c
    | .ready => register s id c
    | .registered => publish s id c query taken
    | .waiting => wake s id c
    | .woken ok => pop s id c ok
    | .returned _ | .raised => s

end Calls

inductive Event where
  | connected (mids : List ℕ)
  | subscribed (mid : ℕ)
  | message (topic payload : Text)
  | rpc (id dev method : Text)
  /-- A call goes on; what the encoding and the client answer counts where it publishes. -/
  | advance (id : Text) (query : Option Text) (taken : Bool)

def onSubscribe (s : State) (mid : ℕ) : State :=
  let mids := s.subMids.filter (· ≠ mid)
  { s with subMids := mids, subscribed := if mids = [] then true else s.subscribed }

def step (loads : Text → Except PyError Value) (s : State) : Event → State
  | .connected mids => { s with subMids := mids, subscribed := false }
  | .subscribed mid => onSubscribe s mid
  | .message topic payload => onMessage loads s topic payload
  | .rpc id dev method => rpc s id dev method
  | .advance id query taken => advance s id query taken

end AtNode.Bridge
