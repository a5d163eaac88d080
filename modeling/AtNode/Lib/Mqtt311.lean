import AtNode.Lib.TopicFilter
import AtNode.Lib.Utf8

/-!
# Packets of an MQTT 3.1.1 client

The grammar of the packets a client opens a session, subscribes and publishes with, as a decoder:
`decode` reads a list of bytes that is exactly one such packet and returns its fields, or fails. The
rules of the protocol on the fields are part of the grammar: a text is UTF-8 without the null
character, a topic name has no wildcard, a password needs a user name.

The laws read back what is laid out by the rules for lengths and texts.
-/

namespace AtNode.Mqtt311

abbrev Bytes := List UInt8

section Fields

/-- The remaining length, seven bits a byte, in at most as many bytes. -/
def readLength : ℕ → Bytes → Option (ℕ × Bytes)
  | 0, _ => none
  | _ + 1, [] => none
  | n + 1, b :: bs =>
    if b.toNat < 128 then some (b.toNat, bs)
    else (readLength n bs).map fun r => (b.toNat - 128 + 128 * r.1, r.2)

def readU16 : Bytes → Option (ℕ × Bytes)
  | a :: b :: bs => some (a.toNat * 256 + b.toNat, bs)
  | _ => none

/-- Bytes with their number in front. -/
def readBinary (bs : Bytes) : Option (Bytes × Bytes) := do
  let (n, bs) ← readU16 bs
  if n ≤ bs.length then some (bs.take n, bs.drop n) else none

def nul : Char := Char.ofNat 0

def readText (bs : Bytes) : Option (List Char × Bytes) := do
  let (raw, bs) ← readBinary bs
  let t ← Utf8.decode raw
  if nul ∈ t then none else some (t, bs)

/-- A field that is there if its flag is set. -/
def readIf {α : Type} (flag : Bool) (read : Bytes → Option (α × Bytes)) (bs : Bytes) :
    Option (Option α × Bytes) :=
  if flag then (read bs).map fun r => (some r.1, r.2) else some (none, bs)

end Fields

section Packets

structure Will where
  topic : List Char
  message : Bytes
  qos : ℕ
  retain : Bool
  deriving DecidableEq

structure Connect where
  clientId : List Char
  cleanSession : Bool
  keepAlive : ℕ
  will : Option Will
  user : Option (List Char)
  password : Option Bytes
  deriving DecidableEq

structure Subscribe where
  packetId : ℕ
  filters : List (List Char × ℕ)
  deriving DecidableEq

structure Publish where
  dup : Bool
  qos : ℕ
  retain : Bool
  topic : List Char
  packetId : Option ℕ
  payload : Bytes
  deriving DecidableEq

inductive Packet where
  | connect (c : Connect)
  | subscribe (s : Subscribe)
  | publish (p : Publish)
  deriving DecidableEq

/-- The flags of a CONNECT packet. -/
structure ConnectFlags where
  reserved : Bool
  cleanSession : Bool
  will : Bool
  willQos : ℕ
  willRetain : Bool
  password : Bool
  user : Bool

def ConnectFlags.ofByte (b : UInt8) : ConnectFlags where
  reserved := b.toNat.testBit 0
  cleanSession := b.toNat.testBit 1
  will := b.toNat.testBit 2
  willQos := b.toNat / 8 % 4
  willRetain := b.toNat.testBit 5
  password := b.toNat.testBit 6
  user := b.toNat.testBit 7

/-- Without a will there is no quality and no retention of one, without a user no password. -/
def ConnectFlags.legal (f : ConnectFlags) : Bool :=
  !f.reserved && f.willQos != 3 && (f.will || (f.willQos == 0 && !f.willRetain)) &&
    (f.user || !f.password)

def readWill (f : ConnectFlags) (bs : Bytes) : Option (Will × Bytes) := do
  let (topic, bs) ← readText bs
  let (message, bs) ← readBinary bs
  if TopicFilter.IsName topic then some (⟨topic, message, f.willQos, f.willRetain⟩, bs) else none

/-- The fields of a CONNECT packet behind its flags. -/
def readConnect (f : ConnectFlags) (bs : Bytes) : Option Connect := do
  let (keepAlive, bs) ← readU16 bs
  let (clientId, bs) ← readText bs
  let (will, bs) ← readIf f.will (readWill f) bs
  let (user, bs) ← readIf f.user readText bs
  let (password, bs) ← readIf f.password readBinary bs
  if bs = [] ∧ (clientId ≠ [] ∨ f.cleanSession) then
    some ⟨clientId, f.cleanSession, keepAlive, will, user, password⟩
  else none

def decodeConnect (bs : Bytes) : Option Connect := do
  let (name, bs) ← readText bs
  match bs with
  | level :: flags :: bs =>
    if name = "MQTT".toList ∧ level = 4 ∧ (ConnectFlags.ofByte flags).legal then
      readConnect (ConnectFlags.ofByte flags) bs
    else none
  | _ => none

/-- Filters with the quality asked for, up to the end; the fuel is the number of bytes. -/
def readFilters : ℕ → Bytes → Option (List (List Char × ℕ))
  | _, [] => some []
  | 0, _ :: _ => none
  | n + 1, b :: bs => do
    let (filter, rest) ← readText (b :: bs)
    match rest with
    | qos :: rest =>
      if (TopicFilter.parse filter).isSome ∧ qos.toNat ≤ 2 then
        (readFilters n rest).map ((filter, qos.toNat) :: ·)
      else none
    | [] => none

def decodeSubscribe (bs : Bytes) : Option Subscribe := do
  let (id, bs) ← readU16 bs
  let filters ← readFilters bs.length bs
  if id = 0 ∨ filters = [] then none else some ⟨id, filters⟩

/-- A PUBLISH packet by the low half of its first byte; without a quality it has no id and is no
duplicate. -/
def decodePublish (flags : ℕ) (bs : Bytes) : Option Publish := do
  let (topic, bs) ← readText bs
  let (id, bs) ← readIf (flags / 2 % 4 ≠ 0) readU16 bs
  if TopicFilter.IsName topic ∧ flags / 2 % 4 ≠ 3 ∧ id ≠ some 0 ∧
      (flags / 2 % 4 = 0 → flags.testBit 3 = false) then
    some ⟨flags.testBit 3, flags / 2 % 4, flags.testBit 0, topic, id, bs⟩
  else none

/-- Exactly one packet: what follows the remaining length has that length. -/
def decode : Bytes → Option Packet
  | [] => none
  | b :: bs => do
    let (n, body) ← readLength 4 bs
    if body.length = n then
      if b = 0x10 then (decodeConnect body).map .connect
      else if b = 0x82 then (decodeSubscribe body).map .subscribe
      else if b.toNat / 16 = 3 then (decodePublish (b.toNat % 16) body).map .publish
      else none
    else none

end Packets

section Laws

variable {t : List Char} {raw rest : Bytes}

/-- A number in two bytes, the high one first. -/
def u16 (n : ℕ) : Bytes := [UInt8.ofNat (n / 256), UInt8.ofNat (n % 256)]

/-- A remaining length. -/
def varint (n : ℕ) : Bytes :=
  if n < 128 then [UInt8.ofNat n] else UInt8.ofNat (n % 128 + 128) :: varint (n / 128)

theorem length_u16 (n : ℕ) : (u16 n).length = 2 := rfl

theorem varint_of_lt {n : ℕ} (h : n < 128) : varint n = [UInt8.ofNat n] := by
  rw [varint, if_pos h]

theorem varint_of_ge {n : ℕ} (h : ¬ n < 128) :
    varint n = UInt8.ofNat (n % 128 + 128) :: varint (n / 128) := by
  rw [varint, if_neg h]

theorem varint_ne_nil (n : ℕ) : varint n ≠ [] := by
  unfold varint
  split <;> exact List.cons_ne_nil _ _

def field (raw : Bytes) : Bytes := u16 raw.length ++ raw

theorem readU16_u16 {n : ℕ} (h : n < 65536) (rest : Bytes) :
    readU16 (u16 n ++ rest) = some (n, rest) := by
  have hhi : (UInt8.ofNat (n / 256)).toNat = n / 256 := UInt8.toNat_ofNat_of_lt' (show n / 256 < 256 by omega)
  have hlo : (UInt8.ofNat (n % 256)).toNat = n % 256 :=
    UInt8.toNat_ofNat_of_lt' (show n % 256 < 256 by omega)
  simp only [u16, List.cons_append, List.nil_append, readU16, hhi, hlo]
  rw [Nat.div_add_mod']

theorem readBinary_field (h : raw.length < 65536) (rest : Bytes) :
    readBinary (field raw ++ rest) = some (raw, rest) := by
  rw [readBinary, field, List.append_assoc, readU16_u16 h]
  simp

/-- A text is read back unless it has a null character. -/
theorem readText_field (h : (Utf8.encode t).length < 65536) (rest : Bytes) :
    readText (field (Utf8.encode t) ++ rest) = if nul ∈ t then none else some (t, rest) := by
  rw [readText, readBinary_field h]
  simp only [Option.bind_eq_bind, Option.bind_some, Utf8.decode_encode]

theorem readText_field_of_notMem (h : (Utf8.encode t).length < 65536) (ht : nul ∉ t)
    (rest : Bytes) : readText (field (Utf8.encode t) ++ rest) = some (t, rest) := by
  rw [readText_field h, if_neg ht]

/-- A field that is there if a flag says so. -/
def fieldIf (flag : Bool) (raw : Bytes) : Bytes := if flag then field raw else []

theorem readIf_binary (flag : Bool) (raw : Bytes) (h : raw.length < 65536) (rest : Bytes) :
    readIf flag readBinary (fieldIf flag raw ++ rest) =
      some (if flag then some raw else none, rest) := by
  cases flag with
  | true =>
    rw [readIf, if_pos rfl, fieldIf, if_pos rfl, readBinary_field h]
    rfl
  | false => rfl

theorem readIf_text (flag : Bool) (h : (Utf8.encode t).length < 65536) (rest : Bytes) :
    readIf flag readText (fieldIf flag (Utf8.encode t) ++ rest) =
      if flag ∧ nul ∈ t then none else some (if flag then some t else none, rest) := by
  cases flag with
  | true =>
    rw [readIf, if_pos rfl, fieldIf, if_pos rfl, readText_field h]
    by_cases hn : nul ∈ t
    · rw [if_pos hn, if_pos ⟨rfl, hn⟩]
      rfl
    · rw [if_neg hn, if_neg fun hc => hn hc.2]
      rfl
  | false => rfl

theorem readWill_fields (f : ConnectFlags) (ht : (Utf8.encode t).length < 65536)
    (h : raw.length < 65536) (rest : Bytes) :
    readWill f (field (Utf8.encode t) ++ (field raw ++ rest)) =
      if nul ∉ t ∧ TopicFilter.IsName t then some (⟨t, raw, f.willQos, f.willRetain⟩, rest)
      else none := by
  rw [readWill, readText_field ht]
  by_cases hn : nul ∈ t
  · rw [if_pos hn, if_neg fun hc => hc.1 hn]
    rfl
  · simp only [hn, if_false, Option.bind_eq_bind, Option.bind_some, readBinary_field h,
      not_false_eq_true, true_and]

end Laws

end AtNode.Mqtt311
