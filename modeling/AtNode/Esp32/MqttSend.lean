import AtNode.Lib.Mqtt311
import AtNode.Esp32.MqttTopics

/-!
# The packets the MQTT client sends

`connect`, `subscribe` and `publish` lay their packet out in the transmit buffer of 3072 bytes and
send the front of it. `connect` leaves two bytes for the remaining length, fills them in when the
body is there, and moves the body by one where a byte is enough. A write outside the buffer stops
the firmware.

A packet is legal if the decoder of the protocol reads it. What the client lays out is decoded to the
fields it was given, unless these break a rule of the protocol: a null character in a text, a
wildcard in a topic name, a filter that is none, or a password without a user name, whose flag the
client sets nevertheless.
-/

namespace AtNode.MqttSend

open Config Mqtt311

abbrev txSize : ℕ := 3072

structure Tx where
  bytes : Bytes
  length_eq : bytes.length = txSize

section Buffer

/-- A write at a position; outside the buffer it does not return. -/
def Tx.put (t : Tx) (pos : ℕ) (bs : Bytes) : Option Tx :=
  if h : pos + bs.length ≤ txSize then
    some
      { bytes := t.bytes.take pos ++ bs ++ t.bytes.drop (pos + bs.length)
        length_eq := by
          have hlen := t.length_eq
          simp only [List.length_append, List.length_take, List.length_drop]
          omega }
  else none

def Tx.copyWithin (t : Tx) (start stop dest : ℕ) : Option Tx :=
  if start ≤ stop ∧ stop ≤ txSize then t.put dest ((t.bytes.take stop).drop start) else none

def Tx.front (t : Tx) (len : ℕ) : Option Bytes :=
  if len ≤ txSize then some (t.bytes.take len) else none

def putStr (t : Tx) (s : Bytes) (pos : ℕ) : Option (Tx × ℕ) := do
  let t ← t.put pos [UInt8.ofNat (s.length / 256)]
  let t ← t.put (pos + 1) [UInt8.ofNat (s.length % 256)]
  let t ← t.put (pos + 2) s
  return (t, pos + 2 + s.length)

def putLength (t : Tx) (n pos : ℕ) : Option (Tx × ℕ) :=
  if n / 128 = 0 then do
    let t ← t.put pos [UInt8.ofNat (n % 128)]
    return (t, pos + 1)
  else do
    let t ← t.put pos [UInt8.ofNat (n % 128 + 128)]
    putLength t (n / 128) (pos + 1)
termination_by n
decreasing_by omega

end Buffer

section Packets

def putStrIf (cond : Bool) (t : Tx) (s : Bytes) (pos : ℕ) : Option (Tx × ℕ) :=
  if cond then putStr t s pos else some (t, pos)

def connectFlags (user pass : Text) : UInt8 :=
  0x02 ||| (0x04 ||| 0x20) ||| (if user ≠ [] then 0x80 else 0) ||| (if pass ≠ [] then 0x40 else 0)

/-- `connect` up to the answer: the bytes it sends. -/
def connect (t : Tx) (clientId willTopic user pass : Text) : Option Bytes := do
  let t ← t.put 0 [0x10]
  -- two bytes are left for the remaining length
  let (t, p) ← putStr t (Utf8.encode "MQTT".toList) 3
  let t ← t.put p [4]
  let p := p + 1
  let t ← t.put p [connectFlags user pass]
  let t ← t.put (p + 1) [0]
  let t ← t.put (p + 2) [60]
  let p := p + 3
  let (t, p) ← putStr t (Utf8.encode clientId) p
  let (t, p) ← putStr t (Utf8.encode willTopic) p
  let (t, p) ← putStr t (Utf8.encode "offline".toList) p
  let (t, p) ← putStrIf (user ≠ []) t (Utf8.encode user) p
  let (t, p) ← putStrIf (pass ≠ []) t (Utf8.encode pass) p
  let (t, rp) ← putLength t (p - 1 - 2) 1
  if rp - 1 = 1 then do
    let t ← t.copyWithin 3 p 2
    t.front (p - 1)
  else t.front p

/-- What `subscribe` does: it sends bytes, or refuses a topic that needs a longer length. -/
inductive Outcome where
  | sent (bytes : Bytes)
  | protocolError
  deriving DecidableEq

def subscribe (t : Tx) (topic : Text) : Option Outcome := do
  let t ← t.put 0 [0x82]
  let t ← t.put 2 [0]
  let t ← t.put 3 [1]
  let (t, p) ← putStr t (Utf8.encode topic) 4
  let t ← t.put p [0]
  let p := p + 1
  let body := p - 1 - 1
  if 127 < body then return .protocolError
  let t ← t.put 1 [UInt8.ofNat body]
  (t.front p).map .sent

def publish (t : Tx) (topic : Text) (payload : Bytes) (retain : Bool) : Option Bytes := do
  let t ← t.put 0 [if retain then 0x31 else 0x30]
  let (t, p) ← putLength t (2 + (Utf8.encode topic).length + payload.length) 1
  let (t, p) ← putStr t (Utf8.encode topic) p
  let t ← t.put p payload
  let p := p + payload.length
  t.front p

end Packets

section Layout

variable {t : Tx} {bs old new s a c : Bytes} {pos n : ℕ}

/-- The buffer begins with these bytes. -/
def Tx.Holds (t : Tx) (bs : Bytes) : Prop := bs <+: t.bytes

theorem Tx.Holds.length_le (h : t.Holds bs) : bs.length ≤ txSize := by
  have hle := List.IsPrefix.length_le h
  rwa [t.length_eq] at hle

theorem Tx.Holds.left (h : t.Holds (a ++ c)) : t.Holds a := (List.prefix_append a c).trans h

theorem holds_nil (t : Tx) : t.Holds [] := List.nil_prefix

/-- Behind what the buffer holds there are the bytes of an earlier packet. -/
theorem Tx.Holds.stale (h : t.Holds bs) (hroom : bs.length + n ≤ txSize) :
    ∃ old : Bytes, old.length = n ∧ t.Holds (bs ++ old) := by
  obtain ⟨rest, hrest⟩ := h
  have hlen := congrArg List.length hrest
  rw [List.length_append, t.length_eq] at hlen
  refine ⟨rest.take n, ?_, rest.drop n, ?_⟩
  · rw [List.length_take]
    omega
  · rw [List.append_assoc, List.take_append_drop, hrest]

/-- A write over bytes the buffer holds. -/
theorem put_inside (pos : ℕ) (old new : Bytes) (h : t.Holds (a ++ (old ++ c))) (hlen : new.length = old.length)
    (hpos : pos = a.length) : ∃ t', t.put pos new = some t' ∧ t'.Holds (a ++ (new ++ c)) := by
  obtain ⟨rest, hrest⟩ := h
  have hle : pos + new.length ≤ txSize := by
    have hsum := congrArg List.length hrest
    rw [t.length_eq] at hsum
    simp only [List.length_append] at hsum
    omega
  rw [Tx.put, dif_pos hle]
  refine ⟨_, rfl, rest, ?_⟩
  have htake : t.bytes.take pos = a := by
    rw [← hrest, hpos, List.append_assoc, List.take_left]
  have hdrop : t.bytes.drop (pos + new.length) = c ++ rest := by
    rw [← hrest, hpos, hlen, ← List.drop_drop, List.append_assoc, List.drop_left,
      List.append_assoc, List.drop_left]
  dsimp only
  rw [htake, hdrop]
  simp only [List.append_assoc]

/-- A write behind what the buffer holds. -/
theorem put_append (pos : ℕ) (new : Bytes) (h : t.Holds bs) (hroom : bs.length + new.length ≤ txSize)
    (hpos : pos = bs.length) : ∃ t', t.put pos new = some t' ∧ t'.Holds (bs ++ new) := by
  obtain ⟨old, hlen, hold⟩ := h.stale hroom
  obtain ⟨t', ht, hh⟩ := put_inside (c := []) pos old new (by rwa [List.append_nil]) hlen.symm hpos
  rw [List.append_nil] at hh
  exact ⟨t', ht, hh⟩

theorem length_field (s : Bytes) : (field s).length = 2 + s.length := by
  rw [field, List.length_append]
  rfl

/-- The buffer is written up to a position. -/
structure Tx.Filled (t : Tx) (bs : Bytes) (pos : ℕ) : Prop where
  holds : t.Holds bs
  pos_eq : pos = bs.length

theorem Tx.Filled.byte {b : UInt8} {pos' : ℕ} (h : t.Filled bs pos) (hroom : pos + 1 ≤ 3072)
    (hpos : pos' = pos) :
    ∃ t', t.put pos' [b] = some t' ∧ t'.Filled (bs ++ [b]) (pos + 1) := by
  have hlen := h.pos_eq
  obtain ⟨t', e, hh⟩ := put_append pos' [b] h.holds (by rwa [← hlen]) (hpos.trans hlen)
  exact ⟨t', e, hh, by rw [List.length_append, ← hlen]; rfl⟩

theorem Tx.Filled.bytes (new : Bytes) (h : t.Filled bs pos) (hroom : pos + new.length ≤ 3072) :
    ∃ t', t.put pos new = some t' ∧ t'.Filled (bs ++ new) (pos + new.length) := by
  have hlen := h.pos_eq
  obtain ⟨t', e, hh⟩ := put_append pos new h.holds (by rwa [← hlen]) hlen
  exact ⟨t', e, hh, by rw [List.length_append, ← hlen]⟩

theorem Tx.Filled.str (h : t.Filled bs pos) (hroom : pos + 2 + s.length ≤ 3072) :
    ∃ t', putStr t s pos = some (t', pos + 2 + s.length) ∧
      t'.Filled (bs ++ field s) (pos + 2 + s.length) := by
  obtain ⟨t₁, e₁, h₁⟩ := h.byte (b := UInt8.ofNat (s.length / 256)) (by omega) rfl
  obtain ⟨t₂, e₂, h₂⟩ := h₁.byte (b := UInt8.ofNat (s.length % 256)) (by omega) rfl
  obtain ⟨t₃, e₃, h₃⟩ := h₂.bytes s (by omega)
  have hfield : bs ++ field s =
      bs ++ [UInt8.ofNat (s.length / 256)] ++ [UInt8.ofNat (s.length % 256)] ++ s := by
    simp [field, u16]
  refine ⟨t₃, ?_, ?_⟩
  · simp only [putStr, Option.bind_eq_bind, e₁, e₂, Option.bind_some]
    rw [e₃]
    rfl
  · rw [hfield]
    exact h₃

theorem Tx.Filled.strIf (cond : Bool) (h : t.Filled bs pos) (hroom : pos + 2 + s.length ≤ 3072) :
    ∃ t', putStrIf cond t s pos = some (t', pos + (fieldIf cond s).length) ∧
      t'.Filled (bs ++ fieldIf cond s) (pos + (fieldIf cond s).length) := by
  cases cond with
  | true =>
    obtain ⟨t', e, hh⟩ := h.str hroom
    have hpos : pos + (fieldIf true s).length = pos + 2 + s.length := by
      rw [fieldIf, if_pos rfl, length_field]
      omega
    rw [hpos]
    exact ⟨t', e, hh⟩
  | false => exact ⟨t, rfl, by simpa [fieldIf] using h⟩

theorem varint_short (h : n / 128 = 0) : varint n = [UInt8.ofNat (n % 128)] := by
  rw [varint_of_lt (by omega), Nat.mod_eq_of_lt (by omega)]

theorem putLength_inside (n pos : ℕ) (old : Bytes) (h : t.Holds (a ++ (old ++ c)))
    (hlen : (varint n).length = old.length) (hpos : pos = a.length) :
    ∃ t', putLength t n pos = some (t', pos + (varint n).length) ∧
      t'.Holds (a ++ (varint n ++ c)) := by
  induction n using Nat.strongRecOn generalizing t a old pos with
  | ind n ih =>
    by_cases hn : n / 128 = 0
    · rw [varint_short hn] at hlen ⊢
      obtain ⟨t', e, hh⟩ := put_inside pos old [UInt8.ofNat (n % 128)] h hlen hpos
      refine ⟨t', ?_, hh⟩
      rw [putLength, if_pos hn, e]
      rfl
    · rw [varint_of_ge (by omega)] at hlen ⊢
      cases old with
      | nil => cases hlen
      | cons b old =>
        obtain ⟨t₁, e₁, h₁⟩ := put_inside (c := old ++ c) pos [b]
          [UInt8.ofNat (n % 128 + 128)] h rfl hpos
        rw [← List.append_assoc] at h₁
        obtain ⟨t₂, e₂, h₂⟩ := ih (n / 128) (by omega) (pos + 1) old h₁
          (by simpa using hlen) (by rw [List.length_append, hpos]; rfl)
        refine ⟨t₂, ?_, ?_⟩
        · rw [putLength, if_neg hn, e₁]
          simp only [Option.bind_eq_bind, Option.bind_some, e₂, List.length_cons]
          rw [Nat.add_assoc, Nat.add_comm 1]
        · rw [List.append_assoc] at h₂
          exact h₂

theorem front_eq (h : t.Holds bs) (hlen : n = bs.length) : t.front n = some bs := by
  have hle := h.length_le
  obtain ⟨rest, hrest⟩ := h
  rw [Tx.front, if_pos (by omega), ← hrest, hlen, List.take_left]

end Layout

section Bytes

variable {t : Tx} {clientId willTopic user pass topic : Text} {payload : Bytes}

/-- What follows the remaining length in `connect`. -/
def connectBody (clientId willTopic user pass : Text) : Bytes :=
  field (Utf8.encode "MQTT".toList) ++ [4] ++ [connectFlags user pass] ++ [0] ++ [60] ++
    field (Utf8.encode clientId) ++ field (Utf8.encode willTopic) ++
    field (Utf8.encode "offline".toList) ++ fieldIf (user ≠ []) (Utf8.encode user) ++
    fieldIf (pass ≠ []) (Utf8.encode pass)

theorem length_mqtt : (Utf8.encode "MQTT".toList).length = 4 := by decide

theorem length_offline : (Utf8.encode "offline".toList).length = 7 := by decide

theorem length_fieldIf_le (cond : Bool) (s : Bytes) : (fieldIf cond s).length ≤ 2 + s.length := by
  cases cond with
  | true =>
    rw [fieldIf, if_pos rfl]
    exact Nat.le_of_eq (length_field s)
  | false => exact Nat.zero_le _

theorem varint_length_le {n : ℕ} (h : n < 16384) :
    (varint n).length = if n / 128 = 0 then 1 else 2 := by
  by_cases hn : n / 128 = 0
  · rw [varint_short hn, if_pos hn]
    rfl
  · rw [varint_of_ge (by omega), varint_short (by omega), if_neg hn]
    rfl

theorem connect_finish {x y : UInt8} {body : Bytes} (h : t.Holds (0x10 :: x :: y :: body)) :
    (do
      let (t, rp) ← putLength t body.length 1
      if rp - 1 = 1 then do
        let t ← t.copyWithin 3 (3 + body.length) 2
        t.front (3 + body.length - 1)
      else t.front (3 + body.length)) = some (0x10 :: (varint body.length ++ body)) := by
  have htx : txSize = 3072 := rfl
  have hle := h.length_le
  simp only [List.length_cons] at hle
  have hlen := varint_length_le (n := body.length) (by omega)
  by_cases hn : body.length / 128 = 0
  · rw [if_pos hn] at hlen
    obtain ⟨t₁, e₁, h₁⟩ := putLength_inside (a := [0x10]) (c := y :: body)
      body.length 1 [x] h hlen rfl
    have hsrc : (t₁.bytes.take (3 + body.length)).drop 3 = body := by
      obtain ⟨b, hb⟩ := List.length_eq_one_iff.mp hlen
      have hfront := front_eq (n := 3 + body.length) h₁
        (by simp only [List.length_append, List.length_cons, List.length_nil, hlen]; omega)
      rw [Tx.front, if_pos (by omega)] at hfront
      rw [Option.some.inj hfront, hb]
      rfl
    have hcopy : ∃ last : UInt8, ∃ init : Bytes, y :: body = init ++ [last] ∧
        init.length = body.length :=
      ⟨(y :: body).getLast (List.cons_ne_nil _ _), (y :: body).dropLast,
        (List.dropLast_append_getLast _).symm, by rw [List.length_dropLast]; rfl⟩
    obtain ⟨last, init, hsplit, hinit⟩ := hcopy
    rw [hsplit, ← List.append_assoc] at h₁
    obtain ⟨t₂, e₂, h₂⟩ := put_inside 2 init body h₁ hinit.symm
      (by rw [List.length_append, hlen]; rfl)
    rw [← List.append_assoc] at h₂
    rw [e₁]
    simp only [Option.bind_eq_bind, Option.bind_some, hlen, Tx.copyWithin, hsrc, e₂]
    rw [if_pos trivial, if_pos (by omega)]
    simp only [Option.bind_some]
    apply front_eq h₂.left
    simp only [List.length_append, List.length_cons, List.length_nil, hlen]
    omega
  · rw [if_neg hn] at hlen
    obtain ⟨t₁, e₁, h₁⟩ := putLength_inside (a := [0x10]) (c := body)
      body.length 1 [x, y] h hlen rfl
    rw [e₁]
    simp only [Option.bind_eq_bind, Option.bind_some, hlen]
    rw [if_neg (by omega)]
    apply front_eq h₁
    simp only [List.length_append, List.length_cons, List.length_nil, hlen]
    omega

theorem connect_eq (hc : byteLen clientId ≤ 80) (hw : byteLen willTopic ≤ 80)
    (hu : byteLen user < 96) (hp : byteLen pass < 96) :
    connect t clientId willTopic user pass =
      some (0x10 :: (varint (connectBody clientId willTopic user pass).length ++
        connectBody clientId willTopic user pass)) := by
  have htx : txSize = 3072 := rfl
  rw [← length_encode] at hc hw hu hp
  have hm := length_mqtt
  have ho := length_offline
  have hu' := length_fieldIf_le (user ≠ []) (Utf8.encode user)
  have hp' := length_fieldIf_le (pass ≠ []) (Utf8.encode pass)
  obtain ⟨t₀, e₀, h₀⟩ := put_append 0 [0x10] (holds_nil t) (by decide) rfl
  obtain ⟨old, hold, hstale⟩ := h₀.stale (n := 2) (by decide)
  obtain ⟨x, y, rfl⟩ := List.length_eq_two.mp hold
  have hf : t₀.Filled [0x10, x, y] 3 := ⟨hstale, rfl⟩
  obtain ⟨t₁, e₁, h₁⟩ := hf.str (s := Utf8.encode "MQTT".toList) (by omega)
  obtain ⟨t₂, e₂, h₂⟩ := h₁.byte (b := 4) (by omega) rfl
  obtain ⟨t₃, e₃, h₃⟩ := h₂.byte (b := connectFlags user pass) (by omega) rfl
  obtain ⟨t₄, e₄, h₄⟩ := h₃.byte (b := 0) (by omega) rfl
  obtain ⟨t₅, e₅, h₅⟩ := h₄.byte (b := 60) (by omega) rfl
  obtain ⟨t₆, e₆, h₆⟩ := h₅.str (s := Utf8.encode clientId) (by omega)
  obtain ⟨t₇, e₇, h₇⟩ := h₆.str (s := Utf8.encode willTopic) (by omega)
  obtain ⟨t₈, e₈, h₈⟩ := h₇.str (s := Utf8.encode "offline".toList) (by omega)
  obtain ⟨t₉, e₉, h₉⟩ := h₈.strIf (user ≠ []) (s := Utf8.encode user) (by omega)
  obtain ⟨t', e', h'⟩ := h₉.strIf (pass ≠ []) (s := Utf8.encode pass) (by omega)
  have hbody : t'.Holds (0x10 :: x :: y :: connectBody clientId willTopic user pass) := by
    simpa [connectBody] using h'.holds
  have hpos := h'.pos_eq.trans (congrArg List.length
    (by simp only [connectBody, List.append_assoc, List.cons_append, List.nil_append] :
      _ = 0x10 :: x :: y :: connectBody clientId willTopic user pass))
  have hthree : (0x10 :: x :: y :: connectBody clientId willTopic user pass).length =
      3 + (connectBody clientId willTopic user pass).length := by
    simp only [List.length_cons]
    omega
  have hfinish := connect_finish hbody
  unfold connect
  simp only [Option.bind_eq_bind, e₀, e₁, e₂, e₃, e₄, e₅, e₆, e₇, e₈, e₉, e', Option.bind_some]
  rw [hpos, hthree, Nat.sub_sub, Nat.add_sub_cancel_left]
  exact hfinish

/-- What follows the remaining length in `subscribe`. -/
def subscribeBody (topic : Text) : Bytes := [0] ++ [1] ++ field (Utf8.encode topic) ++ [0]

theorem length_subscribeBody (topic : Text) : (subscribeBody topic).length = byteLen topic + 5 := by
  simp only [subscribeBody, List.length_append, List.length_singleton, length_field, length_encode]
  omega

/-- A topic of up to 122 bytes is sent, a longer one refused. -/
theorem subscribe_eq (h : byteLen topic ≤ 128) :
    subscribe t topic =
      if byteLen topic ≤ 122 then
        some (.sent (0x82 :: (varint (subscribeBody topic).length ++ subscribeBody topic)))
      else some .protocolError := by
  have hlen := length_subscribeBody topic
  rw [← length_encode] at h hlen ⊢
  obtain ⟨t₀, e₀, h₀⟩ := put_append 0 [0x82] (holds_nil t) (by decide) rfl
  obtain ⟨old, hold, hstale⟩ := h₀.stale (n := 1) (by decide)
  obtain ⟨x, rfl⟩ := List.length_eq_one_iff.mp hold
  have hf : t₀.Filled [0x82, x] 2 := ⟨hstale, rfl⟩
  obtain ⟨t₁, e₁, h₁⟩ := hf.byte (b := 0) (by omega) rfl
  obtain ⟨t₂, e₂, h₂⟩ := h₁.byte (b := 1) (by omega) rfl
  obtain ⟨t₃, e₃, h₃⟩ := h₂.str (s := Utf8.encode topic) (by omega)
  obtain ⟨t₄, e₄, h₄⟩ := h₃.byte (b := 0) (by omega) rfl
  have hbody : t₄.Holds ([0x82] ++ ([x] ++ subscribeBody topic)) := by
    simpa [subscribeBody] using h₄.holds
  have hpos : 2 + 1 + 1 + 2 + (Utf8.encode topic).length + 1 - 1 - 1 =
      (subscribeBody topic).length := by omega
  obtain ⟨t₅, e₅, h₅⟩ := put_inside 1 [x] [UInt8.ofNat (subscribeBody topic).length]
    hbody rfl rfl
  unfold subscribe
  simp only [Option.bind_eq_bind, e₀, e₁, e₂, e₃, e₄, Option.bind_some, hpos]
  by_cases hle : (Utf8.encode topic).length ≤ 122
  · have hshort : (subscribeBody topic).length / 128 = 0 := by omega
    rw [if_pos hle, if_neg (by omega), varint_short hshort, Nat.mod_eq_of_lt (by omega)]
    have hfront := front_eq (n := 2 + 1 + 1 + 2 + (Utf8.encode topic).length + 1) h₅
      (by simp only [List.length_append, List.length_singleton]; omega)
    simp only [e₅, Option.bind_some, hfront]
    rfl
  · rw [if_neg hle, if_pos (by omega)]
    rfl

theorem length_varint_le {n : ℕ} (h : n < 16384) : (varint n).length ≤ 2 := by
  rw [varint_length_le h]
  split <;> omega

/-- What follows the remaining length in `publish`. -/
def publishBody (topic : Text) (payload : Bytes) : Bytes := field (Utf8.encode topic) ++ payload

theorem length_publishBody (topic : Text) (payload : Bytes) : (publishBody topic payload).length =
    2 + (Utf8.encode topic).length + payload.length := by
  rw [publishBody, List.length_append, length_field]

theorem publish_eq {retain : Bool} (h : byteLen topic ≤ 128) (hp : payload.length ≤ 2560) :
    publish t topic payload retain =
      some ((if retain then 0x31 else 0x30) ::
        (varint (publishBody topic payload).length ++ publishBody topic payload)) := by
  have htx : txSize = 3072 := rfl
  have hlen := length_publishBody topic payload
  rw [← length_encode] at h
  have hvar := length_varint_le (n := (publishBody topic payload).length) (by omega)
  obtain ⟨t₀, e₀, h₀⟩ := put_append 0 [if retain then 0x31 else 0x30]
    (holds_nil t) (by decide +revert) rfl
  obtain ⟨old, hold, hstale⟩ := h₀.stale (n := (varint (publishBody topic payload).length).length)
    (by simp only [List.length_append, List.length_singleton, List.length_nil]; omega)
  obtain ⟨t₁, e₁, h₁⟩ := putLength_inside (a := [if retain then 0x31 else 0x30])
    (c := []) (publishBody topic payload).length 1 old (by simpa using hstale) hold.symm rfl
  have hf : t₁.Filled ((if retain then 0x31 else 0x30) ::
      varint (publishBody topic payload).length)
      (1 + (varint (publishBody topic payload).length).length) :=
    ⟨by simpa using h₁, by rw [List.length_cons]; omega⟩
  obtain ⟨t₂, e₂, h₂⟩ := hf.str (s := Utf8.encode topic) (by omega)
  obtain ⟨t₃, e₃, h₃⟩ := h₂.bytes payload (by omega)
  have hfront := front_eq h₃.holds h₃.pos_eq
  rw [hlen] at e₁ e₂ e₃ hfront ⊢
  unfold publish
  simp only [Option.bind_eq_bind, e₀, e₁, e₂, e₃, Option.bind_some, hfront]
  simp [publishBody]

end Bytes

section Decode

variable {t : Tx} {clientId willTopic user pass topic : Text} {payload rest : Bytes}

theorem readLength_varint (k n : ℕ) (h : n < 128 ^ (k + 1)) (rest : Bytes) :
    readLength (k + 1) (varint n ++ rest) = some (n, rest) := by
  induction k generalizing n with
  | zero =>
    have hn : n / 128 = 0 := by omega
    have hb : (UInt8.ofNat (n % 128)).toNat = n % 128 :=
      UInt8.toNat_ofNat_of_lt' (show n % 128 < 256 by omega)
    rw [varint_short hn, List.singleton_append, readLength, hb, if_pos (by omega)]
    rw [Nat.mod_eq_of_lt (by omega)]
  | succ k ih =>
    by_cases hn : n / 128 = 0
    · have hb : (UInt8.ofNat (n % 128)).toNat = n % 128 :=
        UInt8.toNat_ofNat_of_lt' (show n % 128 < 256 by omega)
      rw [varint_short hn, List.singleton_append, readLength, hb, if_pos (by omega)]
      rw [Nat.mod_eq_of_lt (by omega)]
    · have hb : (UInt8.ofNat (n % 128 + 128)).toNat = n % 128 + 128 :=
        UInt8.toNat_ofNat_of_lt' (show n % 128 + 128 < 256 by omega)
      have hlt : n / 128 < 128 ^ (k + 1) := by
        rw [Nat.div_lt_iff_lt_mul (by decide), ← Nat.pow_succ]
        exact h
      rw [varint_of_ge (by omega), List.cons_append, readLength, hb, if_neg (by omega), ih _ hlt]
      have hsum : n % 128 + 128 - 128 + 128 * (n / 128) = n := by omega
      simp only [Option.map_some, hsum]

/-- The header is read back, and what follows it is the body. -/
theorem decode_header (b : UInt8) (body : Bytes) (h : body.length ≤ 3072) :
    decode (b :: (varint body.length ++ body)) =
      if b = 0x10 then (decodeConnect body).map .connect
      else if b = 0x82 then (decodeSubscribe body).map .subscribe
      else if b.toNat / 16 = 3 then (decodePublish (b.toNat % 16) body).map .publish
      else none := by
  have hlen := readLength_varint 3 body.length (by omega) body
  rw [decode]
  simp only [Option.bind_eq_bind, hlen, Option.bind_some, if_true]

def connectPacket (clientId willTopic user pass : Text) : Connect where
  clientId := clientId
  cleanSession := true
  keepAlive := 60
  will := some ⟨willTopic, Utf8.encode "offline".toList, 0, true⟩
  user := if user ≠ [] then some user else none
  password := if pass ≠ [] then some (Utf8.encode pass) else none

/-- The rules of the protocol on the fields of a CONNECT packet. -/
def ConnectLegal (clientId willTopic user pass : Text) : Prop :=
  (user = [] → pass = []) ∧ nul ∉ clientId ∧ nul ∉ willTopic ∧ TopicFilter.IsName willTopic ∧
    nul ∉ user

theorem flags_ofByte (user pass : Text) : ConnectFlags.ofByte (connectFlags user pass) =
    ⟨false, true, true, 0, true, pass ≠ [], user ≠ []⟩ := by
  have hbits : ∀ u p : Bool, ConnectFlags.ofByte (0x02 ||| (0x04 ||| 0x20) |||
      (if u then 0x80 else 0) ||| (if p then 0x40 else 0)) =
        ⟨false, true, true, 0, true, p, u⟩ := by
    intro u p
    cases u <;> cases p <;> rfl
  have h := hbits (user ≠ []) (pass ≠ [])
  simp only [decide_eq_true_eq] at h
  exact h

/-- The body is decoded to the fields exactly when they meet the rules. -/
theorem decodeConnect_body (hc : byteLen clientId ≤ 80) (hw : byteLen willTopic ≤ 80)
    (hu : byteLen user < 96) (hp : byteLen pass < 96) :
    decodeConnect (connectBody clientId willTopic user pass) =
        some (connectPacket clientId willTopic user pass) ↔
      ConnectLegal clientId willTopic user pass := by
  rw [← length_encode] at hc hw hu hp
  have hflags := flags_ofByte user pass
  have hlegal : (ConnectFlags.ofByte (connectFlags user pass)).legal = true ↔
      (user = [] → pass = []) := by
    rw [hflags]
    cases user <;> cases pass <;> simp [ConnectFlags.legal]
  unfold decodeConnect connectBody
  simp only [List.append_assoc, List.cons_append, List.nil_append]
  rw [readText_field_of_notMem (by decide) (by decide)]
  simp only [Option.bind_eq_bind, Option.bind_some, true_and, hlegal]
  by_cases hpass : user = [] → pass = []
  · rw [if_pos hpass, hflags]
    have hkeep : readU16 (0 :: 60 :: (field (Utf8.encode clientId) ++
        (field (Utf8.encode willTopic) ++ (field (Utf8.encode "offline".toList) ++
          (fieldIf (user ≠ []) (Utf8.encode user) ++ fieldIf (pass ≠ []) (Utf8.encode pass)))))) =
        some (60, _) := rfl
    unfold readConnect
    simp only [hkeep, Option.bind_eq_bind, Option.bind_some]
    rw [readText_field (by omega)]
    by_cases hcid : nul ∈ clientId
    · rw [if_pos hcid]
      refine ⟨fun h => ?_, fun h => absurd hcid h.2.1⟩
      cases h
    rw [if_neg hcid]
    simp only [Option.bind_some, readIf, if_true]
    rw [readWill_fields _ (by omega) (by decide)]
    by_cases hwill : nul ∉ willTopic ∧ TopicFilter.IsName willTopic
    · rw [if_pos hwill]
      have huser := readIf_text (user ≠ []) (t := user) (by omega)
        (fieldIf (pass ≠ []) (Utf8.encode pass))
      have hpw := readIf_binary (pass ≠ []) (Utf8.encode pass) (by omega) []
      rw [List.append_nil] at hpw
      simp only [readIf] at huser hpw
      simp only [Option.map_some, Option.bind_some, huser]
      by_cases hun : nul ∈ user
      · have hne : user ≠ [] := List.ne_nil_of_mem hun
        rw [if_pos ⟨decide_eq_true hne, hun⟩]
        refine ⟨fun h => ?_, fun h => absurd hun h.2.2.2.2⟩
        cases h
      · rw [if_neg fun hc => hun hc.2]
        simp only [Option.bind_some, hpw]
        rw [if_pos ⟨trivial, Or.inr trivial⟩]
        refine ⟨fun _ => ⟨hpass, hcid, hwill.1, hwill.2, hun⟩, fun _ => ?_⟩
        simp [connectPacket]
    · rw [if_neg hwill]
      refine ⟨fun h => ?_, fun h => absurd ⟨h.2.2.1, h.2.2.2.1⟩ hwill⟩
      cases h
  · rw [if_neg hpass]
    refine ⟨fun h => ?_, fun h => absurd h.1 hpass⟩
    cases h

/-- A filter of the protocol, in a packet whose length takes one byte. -/
def SubscribeLegal (topic : Text) : Prop :=
  byteLen topic ≤ 122 ∧ nul ∉ topic ∧ (TopicFilter.parse topic).isSome

def PublishLegal (topic : Text) : Prop := nul ∉ topic ∧ TopicFilter.IsName topic

theorem decodeSubscribe_body (h : byteLen topic ≤ 122) :
    decodeSubscribe (subscribeBody topic) = some ⟨1, [(topic, 0)]⟩ ↔
      nul ∉ topic ∧ (TopicFilter.parse topic).isSome := by
  rw [← length_encode] at h
  have hid : readU16 (subscribeBody topic) = some (1, field (Utf8.encode topic) ++ [0]) := by
    simp only [subscribeBody, List.cons_append, List.nil_append]
    rfl
  obtain ⟨b, bs, hb⟩ : ∃ b bs, field (Utf8.encode topic) ++ [0] = b :: bs := ⟨_, _, rfl⟩
  have htext := readText_field (t := topic) (by omega) [0]
  unfold decodeSubscribe
  simp only [Option.bind_eq_bind, hid, Option.bind_some]
  rw [hb] at htext ⊢
  rw [List.length_cons, readFilters]
  simp only [Option.bind_eq_bind, htext]
  by_cases hn : nul ∈ topic
  · rw [if_pos hn]
    exact ⟨nofun, fun hc => absurd hn hc.1⟩
  · rw [if_neg hn]
    simp only [Option.bind_some]
    by_cases hf : (TopicFilter.parse topic).isSome
    · rw [if_pos ⟨hf, by decide⟩, readFilters]
      exact ⟨fun _ => ⟨hn, hf⟩, fun _ => rfl⟩
    · rw [if_neg fun hc => hf hc.1]
      exact ⟨nofun, fun hc => absurd hc.2 hf⟩

theorem decodePublish_body (retain : Bool) (payload : Bytes) (h : byteLen topic ≤ 128) :
    decodePublish (if retain then 1 else 0) (publishBody topic payload) =
        some ⟨false, 0, retain, topic, none, payload⟩ ↔ PublishLegal topic := by
  rw [← length_encode] at h
  have htext := readText_field (t := topic) (by omega) payload
  unfold decodePublish publishBody PublishLegal
  simp only [Option.bind_eq_bind, htext]
  by_cases hn : nul ∈ topic
  · rw [if_pos hn]
    exact ⟨nofun, fun hc => absurd hn hc.1⟩
  · rw [if_neg hn]
    have hdup : Nat.testBit 1 3 = false := by decide
    by_cases hname : TopicFilter.IsName topic
    · cases retain <;> simp [readIf, hn, hname, hdup]
    · cases retain <;> simp [readIf, hname]

end Decode

section Packets

variable {t : Tx} {clientId willTopic user pass topic : Text} {payload : Bytes} {retain : Bool}

/-- `connect` sends one legal packet with the fields it was given. -/
def ConnectSent (t : Tx) (clientId willTopic user pass : Text) : Prop :=
  ∃ bytes, connect t clientId willTopic user pass = some bytes ∧
    decode bytes = some (.connect (connectPacket clientId willTopic user pass))

def SubscribeSent (t : Tx) (topic : Text) : Prop :=
  ∃ bytes, subscribe t topic = some (.sent bytes) ∧
    decode bytes = some (.subscribe ⟨1, [(topic, 0)]⟩)

def PublishSent (t : Tx) (topic : Text) (payload : Bytes) (retain : Bool) : Prop :=
  ∃ bytes, publish t topic payload retain = some bytes ∧
    decode bytes = some (.publish ⟨false, 0, retain, topic, none, payload⟩)

theorem map_eq_some_iff_of_injective {α β : Type*} {f : α → β} (hf : Function.Injective f)
    {o : Option α} {a : α} : o.map f = some (f a) ↔ o = some a := by
  cases o with
  | none => exact ⟨nofun, nofun⟩
  | some b => simp [hf.eq_iff]

theorem connectSent_iff (hc : byteLen clientId ≤ 80) (hw : byteLen willTopic ≤ 80)
    (hu : byteLen user < 96) (hp : byteLen pass < 96) :
    ConnectSent t clientId willTopic user pass ↔ ConnectLegal clientId willTopic user pass := by
  have hlen : (connectBody clientId willTopic user pass).length ≤ 3072 := by
    have hu' := length_fieldIf_le (user ≠ []) (Utf8.encode user)
    have hp' := length_fieldIf_le (pass ≠ []) (Utf8.encode pass)
    rw [length_encode] at hu' hp'
    have hm := length_mqtt
    have ho := length_offline
    simp only [connectBody, List.length_append, length_field, List.length_singleton]
    rw [length_encode clientId, length_encode willTopic]
    omega
  rw [← decodeConnect_body hc hw hu hp]
  unfold ConnectSent
  rw [connect_eq hc hw hu hp]
  have hdec := decode_header 0x10 _ hlen
  rw [if_pos rfl] at hdec
  constructor
  · rintro ⟨bytes, hb, h⟩
    cases hb
    rw [hdec] at h
    exact (map_eq_some_iff_of_injective fun _ _ => Packet.connect.inj).mp h
  · intro h
    refine ⟨_, rfl, ?_⟩
    rw [hdec, h]
    rfl

theorem subscribeSent_iff (h : byteLen topic ≤ 128) :
    SubscribeSent t topic ↔ SubscribeLegal topic := by
  unfold SubscribeSent SubscribeLegal
  rw [subscribe_eq h]
  by_cases hle : byteLen topic ≤ 122
  · rw [if_pos hle, ← decodeSubscribe_body hle]
    have hdec := decode_header 0x82 (subscribeBody topic)
      (by rw [length_subscribeBody]; omega)
    rw [if_neg (by decide), if_pos rfl] at hdec
    constructor
    · rintro ⟨bytes, hb, hd⟩
      cases hb
      rw [hdec] at hd
      exact ⟨hle, (map_eq_some_iff_of_injective fun _ _ => Packet.subscribe.inj).mp hd⟩
    · rintro ⟨-, hd⟩
      refine ⟨_, rfl, ?_⟩
      rw [hdec, hd]
      rfl
  · rw [if_neg hle]
    refine ⟨?_, fun hc => absurd hc.1 hle⟩
    rintro ⟨bytes, hb, -⟩
    cases hb

theorem publishSent_iff (h : byteLen topic ≤ 128) (hp : payload.length ≤ 2560) :
    PublishSent t topic payload retain ↔ PublishLegal topic := by
  unfold PublishSent
  rw [publish_eq h hp, ← decodePublish_body retain payload h]
  have hlen : (publishBody topic payload).length ≤ 3072 := by
    rw [length_publishBody, length_encode]
    omega
  have hdec : decode ((if retain then 0x31 else 0x30) ::
      (varint (publishBody topic payload).length ++ publishBody topic payload)) =
        (decodePublish (if retain then 1 else 0) (publishBody topic payload)).map .publish := by
    rw [decode_header _ _ hlen]
    cases retain <;> rfl
  constructor
  · rintro ⟨bytes, hb, hd⟩
    cases hb
    rw [hdec] at hd
    exact (map_eq_some_iff_of_injective fun _ _ => Packet.publish.inj).mp hd
  · intro hd
    refine ⟨_, rfl, ?_⟩
    rw [hdec, hd]
    rfl

/-- The three packets, for all values the configuration and the callers admit: what is sent is one
legal packet with the fields that were given exactly when these meet the rules of the protocol. -/
theorem packets_sent_iff (t : Tx) :
    (∀ clientId willTopic user pass : Text, byteLen clientId ≤ 80 → byteLen willTopic ≤ 80 →
      byteLen user < 96 → byteLen pass < 96 →
        (ConnectSent t clientId willTopic user pass ↔
          ConnectLegal clientId willTopic user pass)) ∧
    (∀ topic : Text, byteLen topic ≤ 128 → (SubscribeSent t topic ↔ SubscribeLegal topic)) ∧
    (∀ (topic : Text) (payload : Bytes) (retain : Bool), byteLen topic ≤ 128 →
      payload.length ≤ 2560 → (PublishSent t topic payload retain ↔ PublishLegal topic)) :=
  ⟨fun _ _ _ _ hc hw hu hp => connectSent_iff hc hw hu hp, fun _ h => subscribeSent_iff h,
    fun _ _ _ h hp => publishSent_iff h hp⟩

/-- With a password and no user name the flags say so, which the protocol forbids. -/
theorem password_without_user_not_legal :
    ¬ ∀ (t : Tx) (clientId willTopic user pass : Text), byteLen clientId ≤ 80 →
      byteLen willTopic ≤ 80 → byteLen user < 96 → byteLen pass < 96 →
        ConnectSent t clientId willTopic user pass := by
  intro hall
  have hsent := hall ⟨List.replicate 3072 0, List.length_replicate⟩ "atnode-a".toList
    "atnode/a/state".toList [] "p".toList (by decide) (by decide) (by decide) (by decide)
  have hlegal := (connectSent_iff (by decide) (by decide) (by decide) (by decide)).mp hsent
  exact absurd (hlegal.1 rfl) (by decide)

end Packets

end AtNode.MqttSend
