import Mathlib.Logic.Function.Basic
import AtNode.Lib.Run
import AtNode.Esp32.Cfg

/-!
# Publish requests from outside

A handler that wants something published while the MQTT client is connected takes a lock, puts its
request into a channel of two and waits three seconds for a signal. The session takes a request from
the channel, publishes it and signals how that went. The signal names no request, and neither it nor
the channel is emptied when a handler gives up or a session ends.

The handlers are numbered; the number of a request goes with it as a history, and so does the number
of the session in which something happens.
-/

namespace AtNode.PubReq

open Config

def topicMax : ℕ := 128

def payloadMax : ℕ := 512

def reqCap : ℕ := 2

structure Req where
  topic : Text
  payload : Text
  subscribe : Bool
  caller : ℕ

/-- Why `pub_req` returns. -/
inductive Result where
  | notConnected
  | tooLong
  | full
  | timeout
  /-- The signal came, and whose request it was about. -/
  | acked (ok : Bool) (about : ℕ)
  deriving DecidableEq

inductive Phase where
  /-- Waits for the lock. -/
  | locking
  /-- Has queued its request and waits for the signal. -/
  | waiting
  /-- Has returned, in or after this session. -/
  | returned (r : Result) (session : ℕ)
  deriving DecidableEq

structure Caller where
  req : Req
  phase : Phase

structure State where
  connected : Bool
  /-- The number of sessions so far. -/
  session : ℕ
  queue : List Req
  /-- `PUB_ACK`. -/
  ack : Option (Bool × ℕ)
  publishing : Option Req
  /-- Who holds `PUB_LOCK`. -/
  lock : Option ℕ
  callers : ℕ → Option Caller
  /-- The requests whose publication was begun, by their callers, with the session. -/
  published : List (ℕ × ℕ)

def init : State where
  connected := false
  session := 0
  queue := []
  ack := none
  publishing := none
  lock := none
  callers := fun _ => none
  published := []

def setPhase (s : State) (n : ℕ) (c : Caller) (phase : Phase) : State :=
  { s with callers := Function.update s.callers n (some { c with phase := phase }) }

def giveUp (s : State) (n : ℕ) (c : Caller) (r : Result) : State :=
  setPhase s n c (.returned r s.session)

section Caller

def enter (s : State) (n : ℕ) (topic payload : Text) (subscribe : Bool) : State :=
  match s.callers n with
  | some _ => s
  | none =>
    let c : Caller := ⟨⟨topic, payload, subscribe, n⟩, .locking⟩
    if s.connected then setPhase s n c .locking else giveUp s n c .notConnected

/-- With the lock: the request is queued, or the lock given back at once. -/
def submit (s : State) (n : ℕ) (c : Caller) : State :=
  if topicMax < byteLen c.req.topic ∨ payloadMax < byteLen c.req.payload then giveUp s n c .tooLong
  else if reqCap ≤ s.queue.length then giveUp s n c .full
  else setPhase { s with queue := s.queue ++ [c.req], lock := some n } n c .waiting

def acquire (s : State) (n : ℕ) : State :=
  match s.lock, s.callers n with
  | none, some c =>
    match c.phase with
    | .locking => submit s n c
    | .waiting | .returned _ _ => s
  | _, _ => s

def poll (s : State) (n : ℕ) (expired : Bool) : State :=
  match s.callers n with
  | none => s
  | some c =>
    match c.phase with
    | .waiting =>
      match s.ack with
      | some (ok, about) => giveUp { s with ack := none, lock := none } n c (.acked ok about)
      | none => if expired then giveUp { s with lock := none } n c .timeout else s
    | .locking | .returned _ _ => s

end Caller

section Session

/-- The `select4` of the session takes a request. -/
def take (s : State) : State :=
  match s.connected, s.publishing, s.queue with
  | true, none, r :: rest =>
    { s with
      queue := rest
      publishing := some r
      published := s.published ++ [(r.caller, s.session)] }
  | _, _, _ => s

def done (s : State) (ok : Bool) : State :=
  match s.publishing with
  | some r => { s with publishing := none, ack := some (ok, r.caller) }
  | none => s

/-- The session ends; not in the middle of a publication. -/
def drop (s : State) : State :=
  match s.publishing with
  | none => { s with connected := false }
  | some _ => s

def connect (s : State) : State :=
  if s.connected then s else { s with connected := true, session := s.session + 1 }

end Session

inductive Event where
  | enter (n : ℕ) (topic payload : Text) (subscribe : Bool)
  | acquire (n : ℕ)
  | poll (n : ℕ) (expired : Bool)
  | take
  | done (ok : Bool)
  | drop
  | connect

def step (s : State) : Event → State
  | .enter n topic payload subscribe => enter s n topic payload subscribe
  | .acquire n => acquire s n
  | .poll n expired => poll s n expired
  | .take => take s
  | .done ok => done s ok
  | .drop => drop s
  | .connect => connect s

end AtNode.PubReq
