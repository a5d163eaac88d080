import AtNode.Esp32.MqttRecv

/-!
# Framing of the MQTT receive path

A run of `recv` calls on a stream of packets is framed when every call consumes one packet and a
reported PUBLISH is that packet. This holds exactly when every PUBLISH of the stream is of QoS 0 and
its topic and payload together fit the buffer. The drain of a longer payload counts the two bytes of
the topic length a second time, and a payload that fits alone is read behind its topic without a
second look at the buffer's size.
-/

namespace AtNode.Mqtt

def Fits : Packet → Prop
  | .publish p => p.qos = .atMostOnce ∧ p.topic.length + p.payload.length ≤ rxSize
  | .control _ => True

/-- What a call of `recv` may report about the packet it read. -/
def Faithful (ev : Event) (c : Client) : Packet → Prop
  | .publish p => ev = .publish → lastTopicMatches c p.topic = true ∧ lastPayload c = p.payload
  | .control _ => ev ≠ .publish

def Handles (ev : Event) (c : Client) : Packet → Prop
  | .publish p => ev = .publish ∧ lastTopicMatches c p.topic = true ∧ lastPayload c = p.payload
  | .control _ => ev ≠ .publish

/-- Call after call consumes exactly one packet of the list and reports it faithfully. -/
def Framed : Client → List Packet → Prop
  | _, [] => True
  | c, p :: ps => ∃ ev c', recv c = .ok (ev, c') ∧ c'.pending = stream ps ∧
      Faithful ev c' p ∧ Framed c' ps

theorem recvPublish_read {c : Client} {p : Publish} {rest : Bytes}
    (ht : c.pending = p.body ++ rest)
    (hfit : p.topic.length + (p.qos.packetId.length + p.payload.length) ≤ rxSize) :
    ∃ c', recvPublish c p.body.length = .ok (.publish, c') ∧ c'.pending = rest ∧
      lastTopicMatches c' p.topic = true ∧ lastPayload c' = p.qos.packetId ++ p.payload := by
  obtain ⟨d, hd, heq⟩ := recvPublish_eq ht
  have hlen := p.length_body
  obtain ⟨e, he, hrest, hrx⟩ := readInto_ok (n := p.body.length - 2) (by omega)
    (by simp only [List.length_append]; omega) hd
  change readLoop d 0 _ = _ at he
  rw [if_neg (by omega)] at heq
  simp only [he, bind, Except.bind, pure, Except.pure] at heq
  refine ⟨_, heq, hrest, ?_, ?_⟩
  · simp only [lastTopicMatches, hrx, List.append_assoc, List.take_left, decide_true, Bool.and_self]
  · have htail : p.body.length - 2 - p.topic.length =
        (p.qos.packetId ++ p.payload).length := by
      rw [List.length_append]
      omega
    simp only [lastPayload, hrx, htail]
    rw [List.append_assoc, List.drop_left, List.take_left]

theorem recvPublish_drain {c c' : Client} {p : Publish} {rest : Bytes} {ev : Event}
    (ht : c.pending = p.body ++ rest)
    (hbig : rxSize < p.qos.packetId.length + p.payload.length)
    (hr : recvPublish c p.body.length = .ok (ev, c')) : c'.pending ≠ rest := by
  obtain ⟨d, hd, heq⟩ := recvPublish_eq ht
  rw [if_pos hbig, hr] at heq
  cases hdr : drain d p.body.length with
  | error e => simp [hdr, bind, Except.bind] at heq
  | ok d' =>
    obtain ⟨-, rfl⟩ : ev = .pingresp ∧ c' = d' := by
      simpa [hdr, bind, Except.bind, pure, Except.pure] using heq
    have hl := drain_length hdr
    have hlen := p.length_body
    intro hrest
    rw [hrest, hd] at hl
    simp only [List.length_append] at hl
    omega

theorem recvPublish_panic {c : Client} {p : Publish} {rest : Bytes}
    (ht : c.pending = p.body ++ rest)
    (hsmall : p.qos.packetId.length + p.payload.length ≤ rxSize)
    (hbig : rxSize < p.topic.length + (p.qos.packetId.length + p.payload.length)) :
    recvPublish c p.body.length = .error .outOfRange := by
  obtain ⟨d, hd, heq⟩ := recvPublish_eq ht
  have hlen := p.length_body
  rw [heq, if_neg (Nat.not_lt_of_le hsmall),
    readLoop_outOfRange (by omega) (by omega)]
  rfl

/-- A packet that fits is read to its end and reported as it is. -/
theorem recv_handles {c : Client} {p : Packet} {rest : Bytes}
    (ht : c.pending = p.encode ++ rest) (hp : Fits p) :
    ∃ ev c', recv c = .ok (ev, c') ∧ c'.pending = rest ∧ Handles ev c' p := by
  obtain ⟨d, hd, hrecv⟩ := recv_header ht
  cases p with
  | publish p =>
    obtain ⟨hqos, hfit⟩ := hp
    have hid : p.qos.packetId = [] := by rw [hqos, Qos.packetId]
    obtain ⟨c', hc', hrest, htopic, hpay⟩ := recvPublish_read hd
      (by rwa [hid, List.length_nil, Nat.zero_add])
    rw [hid, List.nil_append] at hpay
    refine ⟨.publish, c', ?_, hrest, rfl, htopic, hpay⟩
    rw [hrecv, Packet.firstByte, p.firstByte_type, recvBody, if_pos rfl]
    exact hc'
  | control k =>
    obtain ⟨ev, c', hc', hev, hrest⟩ := recvBody_control hd
    exact ⟨ev, c', hrecv.trans hc', hrest, hev⟩

theorem Handles.faithful {ev : Event} {c : Client} {p : Packet} (h : Handles ev c p) :
    Faithful ev c p := by
  cases p with
  | publish p => exact fun _ => h.2
  | control k => exact h

theorem recv_fits {c : Client} {p : Packet} {rest : Bytes} (ht : c.pending = p.encode ++ rest)
    (hp : Fits p) :
    ∃ ev c', recv c = .ok (ev, c') ∧ c'.pending = rest ∧ Faithful ev c' p := by
  obtain ⟨ev, c', hr, hrest, hh⟩ := recv_handles ht hp
  exact ⟨ev, c', hr, hrest, hh.faithful⟩

theorem Qos.packetId_ne_nil {q : Qos} (h : q ≠ .atMostOnce) : q.packetId ≠ [] := by
  cases q with
  | atMostOnce => exact absurd rfl h
  | atLeastOnce id => exact List.cons_ne_nil _ _
  | exactlyOnce id => exact List.cons_ne_nil _ _

/-- A PUBLISH that does not fit is read past its end, ends in a panic or is reported with its
packet identifier in front of the payload. -/
theorem recv_not_fits {c c' : Client} {p : Packet} {rest : Bytes} {ev : Event}
    (ht : c.pending = p.encode ++ rest) (hp : ¬ Fits p) (hr : recv c = .ok (ev, c'))
    (hrest : c'.pending = rest) : ¬ Faithful ev c' p := by
  obtain ⟨d, hd, hrecv⟩ := recv_header ht
  cases p with
  | control k => exact absurd trivial hp
  | publish p =>
    rw [hrecv, Packet.firstByte, p.firstByte_type, recvBody, if_pos rfl] at hr
    by_cases hbig : rxSize < p.qos.packetId.length + p.payload.length
    · exact absurd hrest (recvPublish_drain hd hbig hr)
    · by_cases hsize : rxSize < p.topic.length + (p.qos.packetId.length + p.payload.length)
      · exact absurd (hr.symm.trans (recvPublish_panic hd (Nat.le_of_not_lt hbig) hsize)) (by simp)
      · obtain ⟨e, he, -, -, hpay⟩ := recvPublish_read hd (Nat.le_of_not_lt hsize)
        obtain ⟨rfl, rfl⟩ : ev = .publish ∧ c' = e := by simpa using hr.symm.trans he
        have hqos : p.qos ≠ .atMostOnce := by
          intro hq
          refine hp ⟨hq, ?_⟩
          omega
        intro hf
        have hself : p.qos.packetId ++ p.payload = p.payload := hpay.symm.trans (hf rfl).2
        exact Qos.packetId_ne_nil hqos (List.append_left_eq_self.mp hself)

/-- Over any chunking of any packet stream, the calls of `recv` are framed if and only if every
PUBLISH of the stream is of QoS 0 and fits the buffer with its topic. -/
theorem framed_iff_fits (c : Client) (ps : List Packet) (ht : c.pending = stream ps) :
    Framed c ps ↔ ∀ p ∈ ps, Fits p := by
  induction ps generalizing c with
  | nil => simp [Framed]
  | cons p ps ih =>
    rw [stream_cons] at ht
    rw [List.forall_mem_cons]
    constructor
    · rintro ⟨ev, c', hr, hrest, hf, hfr⟩
      refine ⟨?_, (ih c' hrest).mp hfr⟩
      by_contra hp
      exact recv_not_fits ht hp hr hrest hf
    · rintro ⟨hp, hps⟩
      obtain ⟨ev, c', hr, hrest, hf⟩ := recv_fits ht hp
      exact ⟨ev, c', hr, hrest, hf, (ih c' hrest).mpr hps⟩

def zeroRx : Rx where
  bytes := List.replicate rxSize 0
  length_eq := List.length_replicate

def shortPublish : Publish where
  dup := false
  qos := .atMostOnce
  retain := true
  topic := [0x61]
  payload := [0x68, 0x69]
  topic_lt := by decide
  body_lt := by decide

def pingresp : Control where
  type := .pingresp
  body := []
  body_lt := by decide
  body_nil := fun _ => rfl

/-- A ping response and a PUBLISH, cut inside the second packet. -/
theorem framed_split_stream :
    Framed (Client.new [(stream [.control pingresp, .publish shortPublish]).take 5, [],
        (stream [.control pingresp, .publish shortPublish]).drop 5] zeroRx)
      [.control pingresp, .publish shortPublish] := by
  apply (framed_iff_fits _ _ _).mpr
  · intro p hp
    rcases List.mem_pair.mp hp with rfl | rfl
    · trivial
    · exact ⟨rfl, by decide⟩
  · simp only [Client.pending, Client.new, List.flatten_cons, List.flatten_nil, List.nil_append,
      List.append_nil, List.take_append_drop]

/-- One byte of topic and a payload as long as the buffer: together they do not fit. -/
def longPublish : Publish where
  dup := false
  qos := .atMostOnce
  retain := false
  topic := [0x61]
  payload := List.replicate rxSize 0
  topic_lt := by decide
  body_lt := by
    rw [List.length_replicate]
    decide

theorem longPublish_not_fits : ¬ Fits (.publish longPublish) := by
  simp only [Fits, longPublish, List.length_replicate, List.length_cons]
  omega

theorem long_publish_not_framed :
    ¬ ∀ (c : Client) (ps : List Packet), c.pending = stream ps → Framed c ps := by
  intro hall
  have ht : (Client.new [stream [.publish longPublish]] zeroRx).pending =
      stream [.publish longPublish] := List.append_nil _
  obtain ⟨ev, c', hr, hrest, hf, -⟩ := hall _ _ ht
  rw [stream_cons] at ht
  exact recv_not_fits ht longPublish_not_fits hr hrest hf

end AtNode.Mqtt
