import AtNode.Esp32.MqttPacket
import AtNode.Lib.Chunks
import Mathlib.Tactic.Ring

/-!
# The MQTT receive path of the ESP32 client

`recv` reads one packet from the transport into a buffer of 2048 bytes. The transport hands out the
peer's bytes in whatever chunks they arrive; its end is an error. A slice that does not lie inside
the buffer is a panic.

The lemmas say what each piece of `recv` does with the bytes still to be delivered, so that nothing
later depends on the chunking.
-/

namespace AtNode.Mqtt

open Mqtt311 (u16 varint length_u16 varint_of_lt varint_of_ge varint_ne_nil)

abbrev rxSize : ℕ := 2048

inductive Fault where
  | io
  | outOfRange
  deriving DecidableEq, Repr

inductive Event where
  | publish | pingresp | disconnect
  deriving DecidableEq, Repr

structure Rx where
  bytes : Bytes
  length_eq : bytes.length = rxSize

def Rx.at (r : Rx) (i : Fin rxSize) : UInt8 := r.bytes.get (i.cast r.length_eq.symm)

def Rx.write (r : Rx) (pos : ℕ) (bs : Bytes) (h : pos + bs.length ≤ rxSize) : Rx where
  bytes := Chunks.overwrite r.bytes pos bs
  length_eq := by
    rw [Chunks.length_overwrite (by rwa [r.length_eq]), r.length_eq]

structure Client where
  t : List Bytes
  rx : Rx
  topicLen : ℕ
  payloadLen : ℕ

/-- What the transport has still to deliver. -/
def Client.pending (c : Client) : Bytes := c.t.flatten

/-- `Client::new`; the buffer keeps what earlier sessions left in it. -/
def Client.new (t : List Bytes) (rx : Rx) : Client where
  t := t
  rx := rx
  topicLen := 0
  payloadLen := 0

/-- The read loop of `read_into`, `recv` and `drain`: it fills `rx[got..n]`. -/
def readLoop (c : Client) (got n : ℕ) : Except Fault Client :=
  if hgot : got < n then
    if hn : n ≤ rxSize then
      match hr : Chunks.read (n - got) c.t with
      | ([], _) => .error .io
      | (b :: bs, t) =>
        have hle : (b :: bs).length ≤ n - got := by
          simpa only [hr] using Chunks.length_read_le (n - got) c.t
        readLoop { c with t := t, rx := c.rx.write got (b :: bs) (by omega) }
          (got + (b :: bs).length) n
    else .error .outOfRange
  else .ok c
termination_by n - got
decreasing_by
  rw [List.length_cons] at hle ⊢
  omega

def readInto (c : Client) (n : ℕ) : Except Fault Client := readLoop c 0 n

def drain (c : Client) (n : ℕ) : Except Fault Client :=
  if 0 < n then
    match readLoop c 0 (min n rxSize) with
    | .error e => .error e
    | .ok c' => drain c' (n - min n rxSize)
  else .ok c
termination_by n
decreasing_by
  simp only [rxSize]
  omega

theorem readLoop_length {c c' : Client} {got n : ℕ} (h : readLoop c got n = .ok c') :
    c'.pending.length + (n - got) = c.pending.length := by
  fun_induction readLoop c got n with
  | case1 c got hgot hn t hr => exact absurd h (by simp)
  | case2 c got hgot hn b bs t hr hle ih =>
    have hi := ih h
    have hlen := congrArg List.length (Chunks.read_append (n - got) c.t)
    rw [hr, List.length_append] at hlen
    simp only [Client.pending] at hi hlen ⊢
    omega
  | case3 c got hgot hn => exact absurd h (by simp)
  | case4 c got hgot =>
    obtain rfl : c = c' := by simpa using h
    omega

/-- The rest of the remaining-length field; `usize` has 32 bits and a shift counts modulo 32. -/
def remLoop (c : Client) (b : UInt8) (rem shift : ℕ) : Except Fault (ℕ × Client) :=
  if b &&& 0x80 ≠ 0 then
    match h : readInto c 1 with
    | .error e => .error e
    | .ok c' =>
      have : c'.pending.length < c.pending.length := by
        have := readLoop_length h
        omega
      let b := c'.rx.at 0
      remLoop c' b ((rem + (b &&& 0x7F).toNat <<< (shift % 32) % 2 ^ 32) % 2 ^ 32) (shift + 7)
  else .ok (rem, c)
termination_by c.pending.length
decreasing_by exact this

/-- The arm of `recv` for a PUBLISH. -/
def recvPublish (c : Client) (rem : ℕ) : Except Fault (Event × Client) := do
  let c ← readInto c 2
  let topicLen := (c.rx.at 0).toNat <<< 8 ||| (c.rx.at 1).toNat
  if rem < 2 + topicLen ∨ rxSize < rem - 2 - topicLen then
    let c ← drain c rem
    return (.pingresp, c)
  let total := rem - 2
  let c ← readLoop c 0 total
  return (.publish, { c with topicLen := topicLen, payloadLen := total - topicLen })

/-- The `match packet_type` of `recv`. -/
def recvBody (packetType : UInt8) (rem : ℕ) (c : Client) : Except Fault (Event × Client) :=
  if packetType = 0x30 then recvPublish c rem
  else if packetType = 0x90 then do
    let c ← drain c rem
    return (.pingresp, c)
  else if packetType = 0xD0 then return (.pingresp, c)
  else if packetType = 0xE0 then return (.disconnect, c)
  else do
    let c ← drain c rem
    return (.pingresp, c)

def recv (c : Client) : Except Fault (Event × Client) := do
  let c ← readInto c 2
  let packetType := c.rx.at 0 &&& 0xF0
  let (rem, c) ← remLoop c (c.rx.at 1) (c.rx.at 1 &&& 0x7F).toNat 7
  recvBody packetType rem c

def lastTopicMatches (c : Client) (topic : Bytes) : Bool :=
  c.topicLen = topic.length && c.rx.bytes.take c.topicLen = topic

def lastPayload (c : Client) : Bytes := (c.rx.bytes.drop c.topicLen).take c.payloadLen

/-- A loop with room in the buffer and bytes enough on the stream, whatever the chunking. -/
theorem readLoop_ok {c : Client} {got n : ℕ} {bs rest : Bytes} (hn : n ≤ rxSize)
    (hlen : got + bs.length = n) (ht : c.pending = bs ++ rest) :
    ∃ c', readLoop c got n = .ok c' ∧ c'.pending = rest ∧
      c'.rx.bytes = Chunks.overwrite c.rx.bytes got bs := by
  unfold Client.pending at ht ⊢
  fun_induction readLoop c got n generalizing bs with
  | case1 c got hgot hn' t hr =>
    have hnil := (Chunks.read_eq_nil_iff (Nat.sub_pos_of_lt hgot) c.t).mp (by rw [hr])
    rw [ht, List.append_eq_nil_iff] at hnil
    rw [hnil.1, List.length_nil] at hlen
    omega
  | case2 c got hgot hn' b bs' t hr hle ih =>
    have happ := Chunks.read_append (n - got) c.t
    rw [hr, ht] at happ
    obtain ⟨ds, hds⟩ : ∃ ds, bs = (b :: bs') ++ ds := by
      have hpre : (b :: bs') <+: bs :=
        List.prefix_of_prefix_length_le ⟨t.flatten, happ⟩ (List.prefix_append bs rest) (by omega)
      obtain ⟨ds, hds⟩ := hpre
      exact ⟨ds, hds.symm⟩
    rw [hds, List.append_assoc, List.append_cancel_left_eq] at happ
    rw [hds, List.length_append] at hlen
    obtain ⟨c', hc, hrest, hrx⟩ := ih (by omega) happ
    refine ⟨c', hc, hrest, ?_⟩
    rw [hrx, hds]
    apply Chunks.overwrite_overwrite
    rw [c.rx.length_eq]
    omega
  | case3 c got hgot hn' => exact absurd hn hn'
  | case4 c got hgot =>
    have hnil : bs = [] := List.eq_nil_of_length_eq_zero (by omega)
    subst hnil
    exact ⟨c, rfl, ht, (Chunks.overwrite_nil _ _).symm⟩

theorem readLoop_outOfRange {c : Client} {got n : ℕ} (hgot : got < n) (hn : rxSize < n) :
    readLoop c got n = .error .outOfRange := by
  unfold readLoop
  rw [dif_pos hgot, dif_neg (Nat.not_le_of_lt hn)]

theorem readInto_ok {c : Client} {n : ℕ} {bs rest : Bytes} (hn : n ≤ rxSize)
    (hlen : bs.length = n) (ht : c.pending = bs ++ rest) :
    ∃ c', readInto c n = .ok c' ∧ c'.pending = rest ∧
      c'.rx.bytes = bs ++ c.rx.bytes.drop n := by
  obtain ⟨c', hc, hrest, hrx⟩ := readLoop_ok hn (by omega : 0 + bs.length = n) ht
  refine ⟨c', hc, hrest, ?_⟩
  rw [hrx, Chunks.overwrite_zero, hlen]

theorem Rx.at_zero {r : Rx} {b : UInt8} {bs : Bytes} (h : r.bytes = b :: bs) : r.at 0 = b := by
  obtain ⟨l, hl⟩ := r
  subst h
  rfl

theorem Rx.at_one {r : Rx} {a b : UInt8} {bs : Bytes} (h : r.bytes = a :: b :: bs) :
    r.at 1 = b := by
  obtain ⟨l, hl⟩ := r
  subst h
  rfl

theorem drain_length {c c' : Client} {n : ℕ} (h : drain c n = .ok c') :
    c'.pending.length + n = c.pending.length := by
  fun_induction drain c n with
  | case1 c n hn e he => exact absurd h (by simp)
  | case2 c n hn d hd ih =>
    have hi := ih h
    have hl := readLoop_length hd
    omega
  | case3 c n hn =>
    obtain rfl : c = c' := by simpa using h
    omega

theorem drain_ok {c : Client} {n : ℕ} {bs rest : Bytes} (hlen : bs.length = n)
    (ht : c.pending = bs ++ rest) : ∃ c', drain c n = .ok c' ∧ c'.pending = rest := by
  fun_induction drain c n generalizing bs with
  | case1 c n hn e he =>
    have hsplit : c.pending = bs.take (min n rxSize) ++ (bs.drop (min n rxSize) ++ rest) := by
      rw [← List.append_assoc, List.take_append_drop, ht]
    obtain ⟨d, hd, -⟩ := readInto_ok (Nat.min_le_right n rxSize)
      (by rw [List.length_take, hlen]; omega) hsplit
    exact absurd (he.symm.trans hd) (by simp)
  | case2 c n hn d hd ih =>
    have hsplit : c.pending = bs.take (min n rxSize) ++ (bs.drop (min n rxSize) ++ rest) := by
      rw [← List.append_assoc, List.take_append_drop, ht]
    obtain ⟨d', hd', hrest, -⟩ := readInto_ok (Nat.min_le_right n rxSize)
      (by rw [List.length_take, hlen]; omega) hsplit
    obtain rfl : d' = d := by simpa using hd'.symm.trans hd
    exact ih (by rw [List.length_drop, hlen]) hrest
  | case3 c n hn =>
    obtain rfl : bs = [] := List.eq_nil_of_length_eq_zero (by omega)
    exact ⟨c, rfl, ht⟩

theorem and_0x80_eq_zero_iff (b : UInt8) : b &&& 0x80 = 0 ↔ b.toNat < 128 := by
  have hall : ∀ i : Fin 256, i.val &&& 128 = 0 ↔ i.val < 128 := by decide +kernel
  rw [← UInt8.toNat_inj, UInt8.toNat_and]
  exact hall ⟨b.toNat, b.toNat_lt⟩

theorem toNat_and_0x7F (b : UInt8) : (b &&& 0x7F).toNat = b.toNat % 128 :=
  Nat.and_two_pow_sub_one_eq_mod b.toNat 7

theorem toNat_varint_head {n : ℕ} {b : UInt8} {bs : Bytes} (h : varint n = b :: bs) :
    b.toNat % 128 = n % 128 ∧ (b.toNat < 128 ↔ n < 128) := by
  by_cases hn : n < 128
  · rw [varint_of_lt hn] at h
    obtain rfl := (List.cons.inj h).1
    rw [UInt8.toNat_ofNat']
    omega
  · rw [varint_of_ge hn] at h
    obtain rfl := (List.cons.inj h).1
    rw [UInt8.toNat_ofNat']
    omega

theorem varint_digits (n s : ℕ) : n % 128 * 2 ^ s + n / 128 * 2 ^ (s + 7) = n * 2 ^ s := by
  have hpow : (2 : ℕ) ^ (s + 7) = 128 * 2 ^ s := by ring
  calc n % 128 * 2 ^ s + n / 128 * 2 ^ (s + 7)
      = (n % 128 + 128 * (n / 128)) * 2 ^ s := by rw [hpow]; ring
    _ = n * 2 ^ s := by rw [Nat.mod_add_div]

/-- The loop decodes the rest of a remaining-length field whose first byte is read: `rem` holds
`acc` and the low digit, `n` is still to be added with weight `2 ^ s`. -/
theorem remLoop_varint (n : ℕ) {c : Client} {b : UInt8} {bs rest : Bytes} {acc s : ℕ}
    (hn : varint n = b :: bs) (ht : c.pending = bs ++ rest) (hlt : acc + n * 2 ^ s < 2 ^ 32) :
    ∃ c', remLoop c b (acc + n % 128 * 2 ^ s) (s + 7) = .ok (acc + n * 2 ^ s, c') ∧
      c'.pending = rest := by
  induction n using Nat.strongRecOn generalizing c b bs acc s with
  | ind n ih =>
    obtain ⟨-, hsmall⟩ := toNat_varint_head hn
    unfold remLoop
    by_cases hb : n < 128
    · have hz : b &&& 0x80 = 0 := (and_0x80_eq_zero_iff b).mpr (hsmall.mpr hb)
      rw [varint_of_lt hb] at hn
      obtain rfl := (List.cons.inj hn).2
      rw [if_neg (not_not.mpr hz), Nat.mod_eq_of_lt hb]
      exact ⟨c, rfl, ht⟩
    · have hnz : b &&& 0x80 ≠ 0 := by
        rw [Ne, and_0x80_eq_zero_iff, hsmall]
        exact hb
      rw [varint_of_ge hb] at hn
      obtain rfl := (List.cons.inj hn).2
      obtain ⟨b', bs', hn'⟩ := List.exists_cons_of_ne_nil (varint_ne_nil (n / 128))
      rw [hn'] at ht
      have ht' : c.pending = [b'] ++ (bs' ++ rest) := ht
      obtain ⟨c', hc', hrest', hrx⟩ := readInto_ok (n := 1) (by decide) rfl ht'
      have hat : c'.rx.at 0 = b' := Rx.at_zero hrx
      have hdigit : (b' &&& 0x7F).toNat = n / 128 % 128 := by
        rw [toNat_and_0x7F, (toNat_varint_head hn').1]
      have hsplit := varint_digits n s
      have hshift : s + 7 < 32 := by
        apply (Nat.pow_lt_pow_iff_right (by decide : 1 < 2)).mp
        calc 2 ^ (s + 7) = 128 * 2 ^ s := by ring
          _ ≤ n * 2 ^ s := Nat.mul_le_mul_right _ (Nat.le_of_not_lt hb)
          _ < 2 ^ 32 := by omega
      have hle : n / 128 % 128 * 2 ^ (s + 7) ≤ n / 128 * 2 ^ (s + 7) :=
        Nat.mul_le_mul_right _ (Nat.mod_le _ _)
      have hrem : (acc + n % 128 * 2 ^ s +
          (b' &&& 0x7F).toNat <<< ((s + 7) % 32) % 2 ^ 32) % 2 ^ 32 =
            acc + n % 128 * 2 ^ s + n / 128 % 128 * 2 ^ (s + 7) := by
        have hdlt : n / 128 % 128 * 2 ^ (s + 7) < 2 ^ 32 := by omega
        rw [hdigit, Nat.mod_eq_of_lt hshift, Nat.shiftLeft_eq, Nat.mod_eq_of_lt hdlt]
        exact Nat.mod_eq_of_lt (by omega)
      have hlt' : acc + n % 128 * 2 ^ s + n / 128 * 2 ^ (s + 7) < 2 ^ 32 := by omega
      obtain ⟨d, hd, hdrest⟩ := ih (n / 128) (by omega) hn' hrest' hlt'
      rw [if_pos hnz]
      refine ⟨d, ?_, hdrest⟩
      split
      · rename_i e he
        exact absurd (he.symm.trans hc') (by simp)
      · rename_i e he
        obtain rfl : e = c' := by simpa using he.symm.trans hc'
        simp only [hat, hrem, hd]
        rw [Nat.add_assoc, hsplit]

/-- The fixed header: `recv` reads it and nothing more, and knows the body's length. -/
theorem recv_header {c : Client} {p : Packet} {rest : Bytes}
    (ht : c.pending = p.encode ++ rest) :
    ∃ c', c'.pending = p.body ++ rest ∧
      recv c = recvBody (p.firstByte &&& 0xF0) p.body.length c' := by
  obtain ⟨b, bs, hv⟩ := List.exists_cons_of_ne_nil (varint_ne_nil p.body.length)
  have ht' : c.pending = [p.firstByte, b] ++ (bs ++ (p.body ++ rest)) := by
    rw [ht, Packet.encode, hv]
    simp only [List.cons_append, List.nil_append, List.append_assoc]
  obtain ⟨c₁, h₁, hrest₁, hrx⟩ := readInto_ok (n := 2) (by decide) rfl ht'
  have hlt : 0 + p.body.length * 2 ^ 0 < 2 ^ 32 := by
    have := p.length_body_lt
    simp only [remainingLimit] at this
    omega
  obtain ⟨c₂, h₂, hrest₂⟩ := remLoop_varint p.body.length hv hrest₁ hlt
  have hfirst : (b &&& 0x7F).toNat = p.body.length % 128 := by
    rw [toNat_and_0x7F, (toNat_varint_head hv).1]
  simp only [pow_zero, mul_one, Nat.zero_add] at h₂
  refine ⟨c₂, hrest₂, ?_⟩
  unfold recv
  simp only [h₁, Rx.at_zero hrx, Rx.at_one hrx, hfirst, h₂, bind, Except.bind]

theorem ControlType.firstByte_ne_publish (t : ControlType) : t.firstByte &&& 0xF0 ≠ 0x30 := by
  cases t <;> decide

theorem ControlType.bodyless_of_undrained {t : ControlType}
    (h : t.firstByte &&& 0xF0 = 0xD0 ∨ t.firstByte &&& 0xF0 = 0xE0) : t.bodyless = true := by
  revert h
  cases t <;> decide

theorem recvBody_control {c : Client} {k : Control} {rest : Bytes}
    (ht : c.pending = k.body ++ rest) :
    ∃ ev c', recvBody (k.type.firstByte &&& 0xF0) k.body.length c = .ok (ev, c') ∧
      ev ≠ .publish ∧ c'.pending = rest := by
  obtain ⟨d, hd, hrest⟩ := drain_ok rfl ht
  have hskip (h : k.type.firstByte &&& 0xF0 = 0xD0 ∨ k.type.firstByte &&& 0xF0 = 0xE0) :
      c.pending = rest := by
    rw [ht, k.body_nil (ControlType.bodyless_of_undrained h), List.nil_append]
  unfold recvBody
  rw [if_neg k.type.firstByte_ne_publish]
  simp only [hd, bind, Except.bind, pure, Except.pure]
  split
  · exact ⟨.pingresp, d, rfl, by decide, hrest⟩
  · split
    · rename_i h
      exact ⟨.pingresp, c, rfl, by decide, hskip (Or.inl h)⟩
    · split
      · rename_i h
        exact ⟨.disconnect, c, rfl, by decide, hskip (Or.inr h)⟩
      · exact ⟨.pingresp, d, rfl, by decide, hrest⟩

theorem u16_value {n : ℕ} (h : n < 65536) :
    (UInt8.ofNat (n / 256)).toNat <<< 8 ||| (UInt8.ofNat (n % 256)).toNat = n := by
  rw [UInt8.toNat_ofNat', UInt8.toNat_ofNat', ← Nat.shiftLeft_add_eq_or_of_lt (by omega),
    Nat.shiftLeft_eq]
  omega

/-- The arm for a PUBLISH up to the topic length: what is left to read is decided by the sizes. -/
theorem recvPublish_eq {c : Client} {p : Publish} {rest : Bytes}
    (ht : c.pending = p.body ++ rest) :
    ∃ c', c'.pending = p.topic ++ (p.qos.packetId ++ p.payload) ++ rest ∧
      recvPublish c p.body.length =
        if rxSize < p.qos.packetId.length + p.payload.length then do
          let d ← drain c' p.body.length
          return (.pingresp, d)
        else do
          let d ← readLoop c' 0 (p.body.length - 2)
          return (.publish, { d with
            topicLen := p.topic.length
            payloadLen := p.body.length - 2 - p.topic.length }) := by
  have ht' : c.pending = u16 p.topic.length ++
      (p.topic ++ (p.qos.packetId ++ p.payload) ++ rest) := by
    rw [ht, Publish.body, List.append_assoc]
  obtain ⟨d, hd, hrest, hrx⟩ := readInto_ok (n := 2) (by decide) (length_u16 _) ht'
  have hlen := p.length_body
  refine ⟨d, hrest, ?_⟩
  unfold recvPublish
  simp only [hd, Rx.at_zero hrx, Rx.at_one hrx, u16_value p.topic_lt, bind, Except.bind]
  have hguard : (p.body.length < 2 + p.topic.length ∨
      rxSize < p.body.length - 2 - p.topic.length) ↔
        rxSize < p.qos.packetId.length + p.payload.length := by omega
  simp only [hguard]

end AtNode.Mqtt
