import AtNode.Lib.Mqtt311
import Mathlib.Tactic.Cases

/-!
# MQTT 3.1.1 control packets

The packets a peer may send, as the protocol defines them: a type and flag byte, the remaining
length as a base-128 number of at most four bytes, and the body. A value of `Packet` is well
formed by construction; the flags of a control packet are those its type prescribes.
-/

namespace AtNode.Mqtt

open Mqtt311 (u16 varint length_u16)

abbrev Bytes := List UInt8

abbrev remainingLimit : ℕ := 268435456

inductive Qos where
  | atMostOnce
  | atLeastOnce (id : UInt16)
  | exactlyOnce (id : UInt16)
  deriving DecidableEq, Repr

def Qos.flags : Qos → UInt8
  | .atMostOnce => 0
  | .atLeastOnce _ => 2
  | .exactlyOnce _ => 4

def Qos.packetId : Qos → Bytes
  | .atMostOnce => []
  | .atLeastOnce id => u16 id.toNat
  | .exactlyOnce id => u16 id.toNat

structure Publish where
  dup : Bool
  qos : Qos
  retain : Bool
  topic : Bytes
  payload : Bytes
  topic_lt : topic.length < 65536
  body_lt : 2 + topic.length + qos.packetId.length + payload.length < remainingLimit

def Publish.firstByte (p : Publish) : UInt8 :=
  0x30 ||| (if p.dup then 8 else 0) ||| p.qos.flags ||| (if p.retain then 1 else 0)

def Publish.body (p : Publish) : Bytes :=
  u16 p.topic.length ++ (p.topic ++ (p.qos.packetId ++ p.payload))

inductive ControlType where
  | connect | connack | puback | pubrec | pubrel | pubcomp
  | subscribe | suback | unsubscribe | unsuback
  | pingreq | pingresp | disconnect
  deriving DecidableEq, Repr

def ControlType.firstByte : ControlType → UInt8
  | .connect => 0x10
  | .connack => 0x20
  | .puback => 0x40
  | .pubrec => 0x50
  | .pubrel => 0x62
  | .pubcomp => 0x70
  | .subscribe => 0x82
  | .suback => 0x90
  | .unsubscribe => 0xA2
  | .unsuback => 0xB0
  | .pingreq => 0xC0
  | .pingresp => 0xD0
  | .disconnect => 0xE0

def ControlType.bodyless : ControlType → Bool
  | .pingreq | .pingresp | .disconnect => true
  | _ => false

structure Control where
  type : ControlType
  body : Bytes
  body_lt : body.length < remainingLimit
  body_nil : type.bodyless = true → body = []

inductive Packet where
  | publish (p : Publish)
  | control (k : Control)

def Packet.firstByte : Packet → UInt8
  | .publish p => p.firstByte
  | .control k => k.type.firstByte

def Packet.body : Packet → Bytes
  | .publish p => p.body
  | .control k => k.body

def Packet.encode (p : Packet) : Bytes := p.firstByte :: (varint p.body.length ++ p.body)

def stream (ps : List Packet) : Bytes := ps.flatMap Packet.encode

theorem stream_cons (p : Packet) (ps : List Packet) :
    stream (p :: ps) = p.encode ++ stream ps := List.flatMap_cons

theorem Publish.length_body (p : Publish) :
    p.body.length = 2 + (p.topic.length + (p.qos.packetId.length + p.payload.length)) := by
  simp only [Publish.body, List.length_append, length_u16]

theorem Packet.length_body_lt (p : Packet) : p.body.length < remainingLimit := by
  cases p with
  | publish p =>
    have h := p.body_lt
    rw [Packet.body, Publish.length_body]
    omega
  | control k => exact k.body_lt

/-- The high half of the first byte is the packet type, whatever the flags are. -/
theorem Publish.firstByte_type (p : Publish) : p.firstByte &&& 0xF0 = 0x30 := by
  unfold Publish.firstByte
  cases p.dup <;> cases p.retain <;> cases p.qos <;> simp only [Qos.flags] <;> decide

end AtNode.Mqtt
