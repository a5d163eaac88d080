import Mathlib.Data.String.Basic
import AtNode.Lib.Run
import AtNode.Broker.PyText

/-!
# The management of the keys

The service reads commands from one topic, changes the table of the keys and publishes a response
with the id of the command on another topic that all managers share. A manager's client publishes a
command, waits for an event and returns what its one slot holds. The callback fills the slot with
any response of the topic; a connection sets the event too.

A response of the service may reach the client late, more than once or not at all. The history of
the service keeps the commands it carried out.
-/

namespace AtNode.Manage

open PyText

section Store

inductive Status where
  | active
  | revoked
  deriving DecidableEq

structure Row where
  key : Text
  name : Text
  status : Status
  createdAt : Text
  revokedAt : Option Text
  deriving DecidableEq

abbrev KeyStore := List Row

/-- `add` with the key that was drawn; the insertion of a key that is there raises. -/
def KeyStore.add (ks : KeyStore) (name key now : Text) : Option KeyStore :=
  if ks.any (·.key = key) then none else some (ks ++ [⟨key, name, .active, now, none⟩])

def KeyStore.get (ks : KeyStore) (key : Text) : Option Row := ks.find? (·.key = key)

/-- A row by its key, or by a name that one row has. -/
def KeyStore.find (ks : KeyStore) (keyOrName : Text) : Option Row :=
  match ks.get keyOrName with
  | some rec => some rec
  | none =>
    match ks.filter (·.name = keyOrName) with
    | [row] => some row
    | _ => none

def KeyStore.setStatus (ks : KeyStore) (keyOrName : Text) (status : Status) (now : Text) :
    KeyStore × Option Row :=
  match ks.find keyOrName with
  | none => (ks, none)
  | some rec =>
    let revokedAt := if status = .revoked then some now else none
    (ks.map fun row =>
      if row.key = rec.key then { row with status := status, revokedAt := revokedAt } else row,
      some { rec with status := status, revokedAt := revokedAt })

def KeyStore.remove (ks : KeyStore) (keyOrName : Text) : KeyStore × Option Row :=
  match ks.find keyOrName with
  | none => (ks, none)
  | some rec => (ks.filter (·.key ≠ rec.key), some rec)

def KeyStore.list (ks : KeyStore) : List Row := ks.mergeSort fun a b => a.createdAt ≤ b.createdAt

end Store

section Service

inductive Body where
  | usage (op : Text)
  | notFound
  | unknownOp (op : Text)
  | added (key name : Text)
  | keys (rows : List Row)
  | status (key name : Text) (status : Status)
  | removed (row : Row)
  deriving DecidableEq

structure Response where
  id : Text
  body : Body
  deriving DecidableEq

/-- `_exec`; it raises if `add` does. -/
def exec (ks : KeyStore) (op arg key now : Text) : Option (KeyStore × Body) :=
  if op = "add".toList then
    if arg = [] then some (ks, .usage op)
    else (ks.add arg key now).map fun ks' => (ks', .added key arg)
  else if op = "list".toList then some (ks, .keys ks.list)
  else if op = "revoke".toList ∨ op = "enable".toList then
    if arg = [] then some (ks, .usage op)
    else
      match ks.setStatus arg (if op = "revoke".toList then .revoked else .active) now with
      | (ks', none) => some (ks', .notFound)
      | (ks', some rec) => some (ks', .status rec.key rec.name rec.status)
  else if op = "remove".toList then
    if arg = [] then some (ks, .usage op)
    else
      match ks.remove arg with
      | (ks', none) => some (ks', .notFound)
      | (ks', some rec) => some (ks', .removed rec)
  else some (ks, .unknownOp op)

def parseCommand (body : Text) : Option (Text × Text × Text) :=
  match cut body with
  | (_, none) => none
  | (reqid, some rest) =>
    match cut rest with
    | (op, none) => some (reqid, op, [])
    | (op, some arg) => some (reqid, op, strip arg)

/-- A command that was carried out, with the table before and after. -/
structure Handled where
  response : Response
  before : KeyStore
  after : KeyStore

end Service

/-- What the client keeps of a message. -/
inductive Reply where
  | response (r : Response)
  | bad
  deriving DecidableEq

inductive Phase where
  /-- In the constructor, before the event is cleared. -/
  | connecting
  | idle
  | waiting (id : Text)
  | woken (id : Text)
  | cleared (id : Text)

inductive Outcome where
  | timeout
  /-- What the slot held, if it held anything. -/
  | answer (resp : Option Reply)
  deriving DecidableEq

structure State where
  store : KeyStore
  commands : List Text
  handled : List Handled
  resp : Option Reply
  event : Bool
  phase : Phase
  returned : List (Text × Outcome)

def init (store : KeyStore) : State where
  store := store
  commands := []
  handled := []
  resp := none
  event := false
  phase := .connecting
  returned := []

inductive Event where
  | connected
  | constructed
  | exec (id op arg : Text)
  | command (payload : Text)
  | serve (key now : Text)
  | deliver (n : ℕ)
  | garbage
  | advance

def onMessage (s : State) (reply : Reply) : State := { s with resp := some reply, event := true }

def serve (s : State) (key now : Text) : State :=
  match s.commands with
  | [] => s
  | body :: rest =>
    let s' := { s with commands := rest }
    match parseCommand body with
    | none => s'
    | some (reqid, op, arg) =>
      match exec s.store op arg key now with
      | none => s'
      | some (ks, resp) =>
        { s' with store := ks, handled := s.handled ++ [⟨⟨reqid, resp⟩, s.store, ks⟩] }

def startExec (s : State) (id op arg : Text) : State :=
  match s.phase with
  | .idle =>
    { s with
      commands := s.commands ++ [strip (id ++ [' '] ++ op ++ [' '] ++ arg)]
      phase := .waiting id }
  | _ => s

/-- The wait of `exec` is over, the event is cleared, the slot is returned. -/
def advance (s : State) : State :=
  match s.phase with
  | .waiting id =>
    if s.event then { s with phase := .woken id }
    else { s with phase := .idle, returned := s.returned ++ [(id, .timeout)] }
  | .woken id => { s with event := false, phase := .cleared id }
  | .cleared id =>
    { s with phase := .idle, returned := s.returned ++ [(id, .answer s.resp)] }
  | .connecting | .idle => s

def constructed (s : State) : State :=
  match s.phase with
  | .connecting => { s with event := false, phase := .idle }
  | _ => s

def step (s : State) : Event → State
  | .connected => { s with event := true }
  | .constructed => constructed s
  | .exec id op arg => startExec s id op arg
  | .command payload => { s with commands := s.commands ++ [payload] }
  | .serve key now => serve s key now
  | .deliver n =>
    match s.handled[n]? with
    | some h => onMessage s (.response h.response)
    | none => s
  | .garbage => onMessage s .bad
  | .advance => advance s

end AtNode.Manage
