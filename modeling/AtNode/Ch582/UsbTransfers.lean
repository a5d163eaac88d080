import AtNode.Ch582.UsbEp0

/-!
# Control-IN transfers of the CH582 USB device

A GET request asks for an object, a descriptor or a few bytes of state, and for at most `wLength`
bytes of it. The first packet is armed with the SETUP packet and each IN token arms the next one:
the rest of a descriptor, or nothing.

It is proved that the packets are the object, cut at `wLength` and split at the endpoint size,
exactly when the request is not a class request for more than the object has: there `wLength` bytes
of the buffer are sent.
-/

namespace AtNode.Usb

section Objects

variable (fw : Firmware) (s : State) (r : SetupReq)

def classObject : Option (List UInt8) :=
  if r.recipient ≠ 0x01 then none
  else if SetupReq.low r.wIndex = 2 then
    if r.bRequest = defUsbGetIdle then some [s.idleValue]
    else if r.bRequest = defUsbGetProtocol then some [0]
    else none
  else if SetupReq.low r.wIndex = 0 then
    if r.bRequest = cdcGetLineCoding then some lineCoding else none
  else none

def standardObject : Option (List UInt8) :=
  if r.bRequest = usbGetDescriptor then
    (descriptor fw r).map fun d => (d.1.drop d.2.1).take d.2.2.toNat
  else if r.bRequest = usbGetConfiguration then some [s.devConfig]
  else if r.bRequest = usbGetInterface then some [0]
  else some [0x00, 0]

/-- The bytes a GET request is about; a request without an object is refused. -/
def object : Option (List UInt8) :=
  if r.isStandard then standardObject fw s r else classObject s r

/-- A standard or class request for data. -/
def SetupReq.IsGet : Prop :=
  r.isIn = true ∧
    (r.isStandard = true ∧
        r.bRequest ∈ [usbGetStatus, usbGetDescriptor, usbGetConfiguration, usbGetInterface] ∨
      r.isClass = true ∧
        r.bRequest ∈ [defUsbGetReport, defUsbGetIdle, defUsbGetProtocol, cdcGetLineCoding])

theorem descriptor_le {d : List UInt8 × ℕ × UInt8} (h : descriptor fw r = some d) :
    d.2.1 + d.2.2.toNat ≤ d.1.length := by
  simp only [descriptor] at h
  split_ifs at h <;> obtain rfl := Option.some.inj h
  · decide
  · decide
  · decide
  · decide
  · decide
  · decide
  · cases fw.mode <;> decide
  · decide

end Objects

section Pointers

variable (fw : Firmware)

theorem length_fetch (p : ℕ → UInt8) (k : ℕ) : (fetch p k).length = k := by
  rw [fetch, List.length_map, List.length_range]

theorem fetch_add (p : ℕ → UInt8) (j k : ℕ) :
    fetch p (j + k) = fetch p j ++ fetch (advance p j) k := by
  rw [fetch, List.range_add, List.map_append, List.map_map, fetch, fetch]
  congr 2
  funext i
  exact congrArg p (Nat.add_comm j i)

theorem fetch_pointTo {a : List UInt8} {off len : ℕ} (h : off + len ≤ a.length) :
    fetch (advance (pointTo fw a) off) len = (a.drop off).take len := by
  apply List.ext_getElem
  · rw [length_fetch, List.length_take, List.length_drop]
    omega
  · intro i hi hi'
    rw [length_fetch] at hi
    have hlt : off + i < a.length := by omega
    simp [fetch, advance, pointTo, hlt, Nat.add_comm i off]

theorem toNat_sub_packet (v : UInt16) :
    (v - UInt16.ofNat (min v.toNat ep0Size)).toNat = v.toNat - ep0Size := by
  have hlt := v.toNat_lt
  have hsize : min v.toNat ep0Size < 2 ^ 16 := Nat.lt_of_le_of_lt (Nat.min_le_left _ _) hlt
  have hpacket : (UInt16.ofNat (min v.toNat ep0Size)).toNat = min v.toNat ep0Size :=
    UInt16.toNat_ofNat_of_lt' hsize
  have hle : UInt16.ofNat (min v.toNat ep0Size) ≤ v := by
    rw [UInt16.le_iff_toNat_le, hpacket]
    exact Nat.min_le_left _ _
  rw [UInt16.toNat_sub_of_le _ _ hle, hpacket]
  omega

theorem take_overHead (buf src : List UInt8) : (overHead buf src).take src.length = src := by
  rw [overHead, List.take_left]

end Pointers

section Packets

variable (fw : Firmware)

/-- What the host gets. -/
def packets : State → List Event → List (List UInt8)
  | _, [] => []
  | s, e :: es => (sent s e).toList ++ packets (step fw s e) es

/-- Of a control-IN transfer: IN tokens and the empty packet of the status stage, and whatever goes
to other endpoints. -/
def Quiet : Event → Prop
  | .inToken => True
  | .outToken data => data = []
  | .other => True
  | _ => False

def inTokens : List Event → ℕ
  | [] => 0
  | .inToken :: es => inTokens es + 1
  | _ :: es => inTokens es

/-- The first `k` packets of some data. -/
def pieces (data : List UInt8) : ℕ → List (List UInt8)
  | 0 => []
  | k + 1 => data.take ep0Size :: pieces (data.drop ep0Size) k

/-- The host gets the data, split at the endpoint size, as far as it asks. -/
structure Sends (s : State) (data : List UInt8) : Prop where
  content : ∀ es, (∀ e ∈ es, Quiet e) →
    (packets fw s es).flatten = data.take (ep0Size * inTokens es)
  split : ∀ es, (∀ e ∈ es, Quiet e) → ∀ i p, (packets fw s es)[i]? = some p →
    p = (data.drop (ep0Size * i)).take ep0Size

theorem flatten_pieces (data : List UInt8) (k : ℕ) :
    (pieces data k).flatten = data.take (ep0Size * k) := by
  induction k generalizing data with
  | zero => rfl
  | succ k ih =>
    rw [pieces, List.flatten_cons, ih, Nat.mul_succ, Nat.add_comm (ep0Size * k), List.take_add]

theorem getElem?_pieces {data p : List UInt8} {k i : ℕ} (h : (pieces data k)[i]? = some p) :
    p = (data.drop (ep0Size * i)).take ep0Size := by
  induction k generalizing data i with
  | zero => cases h
  | succ k ih =>
    cases i with
    | zero => exact (Option.some.inj h).symm
    | succ i =>
      rw [pieces, List.getElem?_cons_succ] at h
      rw [ih h, List.drop_drop, Nat.mul_succ, Nat.add_comm (ep0Size * i)]

/-- What is left of a descriptor; the first packet of it is armed. -/
structure Serving (s : State) (data : List UInt8) : Prop where
  attached : s.attached = true
  ack : s.tRes = .ack
  code : s.setupReqCode = usbGetDescriptor
  armed : s.ep0Buf.take s.tLen = data.take ep0Size
  len : s.setupReqLen.toNat = (data.drop ep0Size).length
  behind : fetch s.pDescr (data.drop ep0Size).length = data.drop ep0Size

variable {fw} {s : State} {data : List UInt8}

theorem step_of_quiet {e : Event} (he : Quiet e) (hne : e ≠ .inToken) :
    step fw s e = s ∧ sent s e = none := by
  cases e with
  | inToken => exact absurd rfl hne
  | outToken d =>
    obtain rfl : d = [] := he
    refine ⟨?_, rfl⟩
    unfold step
    dsimp only
    split_ifs <;> rfl
  | other => exact ⟨rfl, rfl⟩
  | busReset => exact absurd he not_false
  | setup r => exact absurd he not_false
  | detach => exact absurd he not_false
  | attach => exact absurd he not_false

theorem Serving.inToken (h : Serving s data) :
    Serving (Usb.inToken s) (data.drop ep0Size) := by
  have hlen := h.len
  set rest := data.drop ep0Size with hrest
  have hmin : min s.setupReqLen.toNat ep0Size + (rest.drop ep0Size).length = rest.length := by
    rw [List.length_drop, hlen]
    omega
  have hsplit : fetch s.pDescr (min s.setupReqLen.toNat ep0Size) ++
      fetch (advance s.pDescr (min s.setupReqLen.toNat ep0Size)) (rest.drop ep0Size).length =
      rest.take ep0Size ++ rest.drop ep0Size := by
    rw [← fetch_add, hmin, h.behind, List.take_append_drop]
  have hcut : (fetch s.pDescr (min s.setupReqLen.toNat ep0Size)).length =
      (rest.take ep0Size).length := by
    rw [length_fetch, List.length_take, hlen, Nat.min_comm]
  obtain ⟨hhead, htail⟩ := List.append_inj hsplit hcut
  rw [Usb.inToken, if_pos h.code]
  refine ⟨h.attached, h.ack, h.code, ?_, ?_, htail⟩
  · dsimp only
    rw [hhead]
    have htake := take_overHead s.ep0Buf (rest.take ep0Size)
    rwa [← hcut, length_fetch] at htake
  · dsimp only
    rw [toNat_sub_packet, hlen]
    exact List.length_drop.symm

theorem packets_cons {e : Event} {es : List Event} (he : Quiet e) :
    e = .inToken ∧ packets fw s (e :: es) = (sent s .inToken).toList ++ packets fw (step fw s .inToken) es ∧
        inTokens (e :: es) = inTokens es + 1 ∨
      packets fw s (e :: es) = packets fw s es ∧ inTokens (e :: es) = inTokens es := by
  by_cases hin : e = .inToken
  · subst hin
    exact Or.inl ⟨rfl, rfl, rfl⟩
  · obtain ⟨hstep, hsent⟩ := step_of_quiet (s := s) he hin
    refine Or.inr ⟨by rw [packets, hstep, hsent, Option.toList_none, List.nil_append], ?_⟩
    cases e with
    | inToken => exact absurd rfl hin
    | _ => rfl

theorem packets_of_serving (h : Serving s data) {es : List Event} (hes : ∀ e ∈ es, Quiet e) :
    packets fw s es = pieces data (inTokens es) := by
  induction es generalizing s data with
  | nil => rfl
  | cons e es ih =>
    have hrest := fun e' he' => hes e' (List.mem_cons_of_mem e he')
    rcases packets_cons (s := s) (hes e List.mem_cons_self) with
      ⟨-, hp, hcount⟩ | ⟨hp, hcount⟩
    · have hstep : step fw s .inToken = Usb.inToken s := by
        rw [step, if_pos ⟨h.attached, h.ack⟩]
      have hsent : sent s .inToken = some (data.take ep0Size) := by
        rw [sent, if_pos ⟨h.attached, h.ack⟩, h.armed]
      rw [hp, hcount, hstep, hsent, ih h.inToken hrest]
      rfl
    · rw [hp, hcount, ih h hrest]

theorem packets_of_silent (h : s.tRes ≠ .ack) {es : List Event} (hes : ∀ e ∈ es, Quiet e) :
    packets fw s es = [] := by
  induction es with
  | nil => rfl
  | cons e es ih =>
    have hrest := ih fun e' he' => hes e' (List.mem_cons_of_mem e he')
    rcases packets_cons (s := s) (hes e List.mem_cons_self) with ⟨-, hp, -⟩ | ⟨hp, -⟩
    · have hnot : ¬ (s.attached = true ∧ s.tRes = .ack) := fun hack => h hack.2
      rw [hp, step, if_neg hnot, sent, if_neg hnot, hrest]
      rfl
    · rw [hp, hrest]

/-- One packet is armed, and no descriptor is behind it. -/
structure Single (s : State) (data : List UInt8) : Prop where
  attached : s.attached = true
  ack : s.tRes = .ack
  code : s.setupReqCode ≠ usbGetDescriptor
  armed : s.ep0Buf.take s.tLen = data

theorem packets_of_single (h : Single s data) {es : List Event} (hes : ∀ e ∈ es, Quiet e) :
    packets fw s es = if inTokens es = 0 then [] else [data] := by
  induction es with
  | nil => rfl
  | cons e es ih =>
    have hrest := fun e' he' => hes e' (List.mem_cons_of_mem e he')
    rcases packets_cons (s := s) (hes e List.mem_cons_self) with
      ⟨-, hp, hcount⟩ | ⟨hp, hcount⟩
    · have hstep : (step fw s .inToken).tRes ≠ .ack := by
        rw [step, if_pos ⟨h.attached, h.ack⟩, Usb.inToken, if_neg h.code]
        split_ifs
        · exact TRes.noConfusion
        · exact TRes.noConfusion
      have hsent : sent s .inToken = some data := by
        rw [sent, if_pos ⟨h.attached, h.ack⟩, h.armed]
      rw [hp, hcount, hsent, packets_of_silent hstep hrest, if_neg (Nat.succ_ne_zero _)]
      rfl
    · rw [hp, hcount, ih hrest]

theorem sends_of_serving (h : Serving s data) : Sends fw s data where
  content es hes := by rw [packets_of_serving h hes, flatten_pieces]
  split es hes i p hp := by
    rw [packets_of_serving h hes] at hp
    exact getElem?_pieces hp

theorem sends_of_silent (h : s.tRes ≠ .ack) : Sends fw s [] where
  content es hes := by rw [packets_of_silent h hes, List.take_nil, List.flatten_nil]
  split es hes i p hp := by
    rw [packets_of_silent h hes] at hp
    cases hp

theorem sends_of_single (h : Single s data) (hlen : data.length ≤ ep0Size) :
    Sends fw s data where
  content es hes := by
    rw [packets_of_single h hes]
    split_ifs with hzero
    · rw [hzero, Nat.mul_zero, List.take_zero, List.flatten_nil]
    · rw [List.flatten_singleton, List.take_of_length_le]
      exact Nat.le_trans hlen (Nat.le_mul_of_pos_right _ (Nat.pos_of_ne_zero hzero))
  split es hes i p hp := by
    rw [packets_of_single h hes] at hp
    split_ifs at hp with hzero
    · cases hp
    · cases i with
      | zero =>
        obtain rfl := Option.some.inj hp
        rw [Nat.mul_zero, List.drop_zero, List.take_of_length_le hlen]
      | succ i => cases hp

end Packets

section Requests

variable {fw : Firmware} {s : State} {r : SetupReq}

theorem length_setupReceived (s : State) (r : SetupReq) : 8 ≤ (setupReceived s r).ep0Buf.length := by
  have hlen : (setupReceived s r).ep0Buf.length = 8 + (s.ep0Buf.drop 8).length :=
    List.length_append
  omega

theorem not_standard_of_class (h : r.isClass = true) : r.isStandard = false := by
  rw [SetupReq.isClass, decide_eq_true_iff] at h
  rw [SetupReq.isStandard, h]
  rfl

theorem classRequest_of_get (fw : Firmware) (s : State) (h : r.IsGet)
    (hclass : r.isClass = true) :
    decodeRequest fw s r = (object fw s r).map fun obj =>
      { setupReceived s r with ep0Buf := overHead (setupReceived s r).ep0Buf obj } := by
  have hstd := not_standard_of_class hclass
  obtain ⟨-, hget⟩ := h
  rw [hstd] at hget
  have hcode := (hget.resolve_left fun h => absurd h.1 (by decide)).2
  rw [decodeRequest, object, hstd, if_neg Bool.false_ne_true, if_neg Bool.false_ne_true,
    classRequest, classObject]
  simp only [List.mem_cons, List.not_mem_nil, or_false] at hcode
  by_cases hr : r.recipient = 0x01
  · rw [if_neg (not_not.mpr hr), if_neg (not_not.mpr hr)]
    by_cases hhid : SetupReq.low r.wIndex = 2
    · rw [if_pos hhid, if_pos hhid]
      rcases hcode with hc | hc | hc | hc <;> rw [hc] <;> rfl
    · rw [if_neg hhid, if_neg hhid]
      by_cases hcdc : SetupReq.low r.wIndex = 0
      · rw [if_pos hcdc, if_pos hcdc]
        rcases hcode with hc | hc | hc | hc <;> rw [hc] <;> rfl
      · rw [if_neg hcdc, if_neg hcdc]
        rfl
  · rw [if_pos hr, if_pos hr]
    rfl

theorem code_of_class (h : r.IsGet) (hclass : r.isClass = true) : r.bRequest ≠ usbGetDescriptor := by
  have hstd := not_standard_of_class hclass
  obtain ⟨-, hget⟩ := h
  rw [hstd] at hget
  have hcode := (hget.resolve_left fun h => absurd h.1 (by decide)).2
  intro heq
  rw [heq] at hcode
  exact absurd hcode (by decide)

theorem length_classObject {obj : List UInt8} (h : classObject s r = some obj) :
    obj.length ≤ 7 := by
  unfold classObject at h
  split_ifs at h <;> obtain rfl := Option.some.inj h
  · exact Nat.le_of_ble_eq_true rfl
  · exact Nat.le_of_ble_eq_true rfl
  · exact Nat.le_refl 7

theorem single_setup {t : State} (hdec : decodeRequest fw s r = some t) (hin : r.isIn = true)
    (hatt : t.attached = true) (hcode : t.setupReqCode ≠ usbGetDescriptor) :
    Single (setup fw s r) (t.ep0Buf.take (min t.setupReqLen.toNat ep0Size)) := by
  rw [setup, hdec]
  dsimp only
  rw [if_pos hin]
  exact ⟨hatt, rfl, hcode, rfl⟩

theorem sends_refused (h : decodeRequest fw s r = none) : Sends fw (setup fw s r) [] := by
  apply sends_of_silent
  rw [setup, h]
  exact TRes.noConfusion

theorem take_short {buf : List UInt8} {k : ℕ} (obj : List UInt8) (l : ℕ)
    (hk : k = min l obj.length) :
    (overHead buf obj).take k = obj.take l := by
  have hle : k ≤ obj.length := by omega
  rw [overHead, List.take_append_of_le_length hle, hk, ← List.take_eq_take_min]

theorem sends_short {t : State} {buf : List UInt8} (obj : List UInt8)
    (hdec : decodeRequest fw s r = some t)
    (hin : r.isIn = true) (hatt : t.attached = true) (hcode : t.setupReqCode ≠ usbGetDescriptor)
    (hbuf : t.ep0Buf = overHead buf obj) (hobj : obj.length ≤ ep0Size)
    (hlen : t.setupReqLen.toNat = min r.wLength.toNat obj.length) :
    Sends fw (setup fw s r) (obj.take r.wLength.toNat) := by
  have hsingle := single_setup hdec hin hatt hcode
  rw [hbuf, take_short obj r.wLength.toNat (by omega)] at hsingle
  refine sends_of_single hsingle ?_
  exact Nat.le_trans (List.length_take_le' _ _) hobj

theorem toNat_cap (v w : UInt16) : (if w < v then w else v).toNat = min v.toNat w.toNat := by
  split_ifs with h
  · exact (Nat.min_eq_right (Nat.le_of_lt (UInt16.lt_iff_toNat_lt.mp h))).symm
  · exact (Nat.min_eq_left (Nat.not_lt.mp fun hlt => h (UInt16.lt_iff_toNat_lt.mpr hlt))).symm

theorem toNat_cap_le (v w : UInt16) : (if w ≤ v then w else v).toNat = min v.toNat w.toNat := by
  split_ifs with h
  · exact (Nat.min_eq_right (UInt16.le_iff_toNat_le.mp h)).symm
  · exact (Nat.min_eq_left (Nat.le_of_not_le fun hle => h (UInt16.le_iff_toNat_le.mpr hle))).symm

/-- What the decoding of a GET_DESCRIPTOR leaves: the buffer and the pointer are one packet ahead. -/
theorem decode_descriptor {d : List UInt8 × ℕ × UInt8} (hstd : r.isStandard = true)
    (hcode : r.bRequest = usbGetDescriptor) (hd : descriptor fw r = some d) :
    ∃ t buf, decodeRequest fw s r = some t ∧ t.attached = s.attached ∧
      t.setupReqCode = r.bRequest ∧ t.setupReqLen.toNat = min r.wLength.toNat d.2.2.toNat ∧
      t.ep0Buf = overHead buf
        (fetch (advance (pointTo fw d.1) d.2.1) (min t.setupReqLen.toNat ep0Size)) ∧
      t.pDescr =
        advance (advance (pointTo fw d.1) d.2.1) (min t.setupReqLen.toNat ep0Size) := by
  have hdec : decodeRequest fw s r = standardRequest fw (setupReceived s r) r := if_pos hstd
  rw [standardRequest, if_pos hcode, hd, Option.map_some] at hdec
  refine ⟨_, _, hdec, rfl, rfl, ?_, rfl, rfl⟩
  have hcap := toNat_cap r.wLength d.2.2.toUInt16
  rw [UInt8.toNat_toUInt16] at hcap
  exact hcap

theorem serving_setup {t : State} {p : ℕ → UInt8} {data buf : List UInt8}
    (hdec : decodeRequest fw s r = some t) (hin : r.isIn = true) (hatt : t.attached = true)
    (hcode : t.setupReqCode = usbGetDescriptor) (hlen : t.setupReqLen.toNat = data.length)
    (hdata : fetch p data.length = data)
    (hbuf : t.ep0Buf = overHead buf (fetch p (min data.length ep0Size)))
    (hptr : t.pDescr = advance p (min data.length ep0Size)) : Serving (setup fw s r) data := by
  have hsplit : fetch p (min data.length ep0Size) ++
      fetch (advance p (min data.length ep0Size)) (data.drop ep0Size).length =
      data.take ep0Size ++ data.drop ep0Size := by
    rw [← fetch_add, List.take_append_drop]
    have hsum : min data.length ep0Size + (data.drop ep0Size).length = data.length := by
      rw [List.length_drop]
      omega
    rw [hsum, hdata]
  have hcut : (fetch p (min data.length ep0Size)).length = (data.take ep0Size).length := by
    rw [length_fetch, List.length_take, Nat.min_comm]
  obtain ⟨hhead, htail⟩ := List.append_inj hsplit hcut
  have hsetup : setup fw s r = { t with
      setupReqLen := t.setupReqLen - UInt16.ofNat (min t.setupReqLen.toNat ep0Size)
      tLen := min t.setupReqLen.toNat ep0Size
      tRes := .ack } := by
    rw [setup, hdec]
    exact if_pos hin
  rw [hsetup]
  refine ⟨hatt, rfl, hcode, ?_, ?_, ?_⟩
  · dsimp only
    rw [hbuf, hlen, hhead]
    have htake := take_overHead buf (data.take ep0Size)
    rwa [← hcut, length_fetch] at htake
  · dsimp only
    rw [toNat_sub_packet, hlen, List.length_drop]
  · dsimp only
    rw [hptr, htail]

theorem sends_descriptor (hatt : s.attached = true) (hin : r.isIn = true)
    (hstd : r.isStandard = true) (hcode : r.bRequest = usbGetDescriptor) :
    Sends fw (setup fw s r) (((object fw s r).getD []).take r.wLength.toNat) := by
  have hobject : object fw s r =
      (descriptor fw r).map fun d => (d.1.drop d.2.1).take d.2.2.toNat := by
    rw [object, if_pos hstd, standardObject, if_pos hcode]
  cases hd : descriptor fw r with
  | none =>
    rw [hobject, hd, Option.map_none, Option.getD_none, List.take_nil]
    apply sends_refused
    rw [decodeRequest, if_pos hstd, standardRequest, if_pos hcode, hd, Option.map_none]
  | some d =>
    rw [hobject, hd, Option.map_some, Option.getD_some, List.take_take]
    have hle := descriptor_le fw r hd
    have hlen : ((d.1.drop d.2.1).take (min r.wLength.toNat d.2.2.toNat)).length =
        min r.wLength.toNat d.2.2.toNat := by
      rw [List.length_take, List.length_drop]
      omega
    obtain ⟨t, buf, hdec, htatt, htcode, htlen, hbuf, hptr⟩ :=
      decode_descriptor (s := s) hstd hcode hd
    rw [htlen, ← hlen] at hbuf hptr
    refine sends_of_serving (serving_setup hdec hin (htatt.trans hatt) (htcode.trans hcode)
      (htlen.trans hlen.symm) ?_ hbuf hptr)
    rw [hlen]
    exact fetch_pointTo fw (by omega)

theorem sends_standard (hatt : s.attached = true) (hget : r.IsGet) (hstd : r.isStandard = true) :
    Sends fw (setup fw s r) (((object fw s r).getD []).take r.wLength.toNat) := by
  obtain ⟨hin, ⟨-, hcode⟩ | ⟨hclass, -⟩⟩ := hget
  · simp only [List.mem_cons, List.not_mem_nil, or_false] at hcode
    have hobject : object fw s r = standardObject fw s r := if_pos hstd
    have hdec : decodeRequest fw s r = standardRequest fw (setupReceived s r) r := if_pos hstd
    rw [hobject]
    rcases hcode with hc | hc | hc | hc
    · rw [standardRequest, hc] at hdec
      rw [standardObject, hc]
      refine sends_short [0x00, 0] hdec hin hatt ?_ rfl (by decide) ?_
      · exact fun h => absurd (hc.symm.trans h) (by decide)
      · exact toNat_cap_le r.wLength 2
    · rw [← hobject]
      exact sends_descriptor hatt hin hstd hc
    · rw [standardRequest, hc] at hdec
      rw [standardObject, hc]
      refine sends_short [s.devConfig] hdec hin hatt ?_ rfl (Nat.le_of_ble_eq_true rfl) ?_
      · exact fun h => absurd (hc.symm.trans h) (by decide)
      · exact toNat_cap r.wLength 1
    · rw [standardRequest, hc] at hdec
      rw [standardObject, hc]
      refine sends_short [0] hdec hin hatt ?_ rfl (by decide) ?_
      · exact fun h => absurd (hc.symm.trans h) (by decide)
      · exact toNat_cap r.wLength 1
  · rw [not_standard_of_class hclass] at hstd
    cases hstd

/-- The first packet of a class request has as many bytes as were asked for. -/
theorem packets_of_class {obj : List UInt8} (hatt : s.attached = true) (hget : r.IsGet)
    (hclass : r.isClass = true) (hobj : object fw s r = some obj) :
    packets fw (setup fw s r) [.inToken] =
      [(overHead (setupReceived s r).ep0Buf obj).take (min r.wLength.toNat ep0Size)] := by
  have hdec := classRequest_of_get fw s hget hclass
  rw [hobj, Option.map_some] at hdec
  have hsingle := single_setup hdec hget.1 hatt (code_of_class hget hclass)
  exact packets_of_single hsingle fun e he => by
    obtain rfl := List.mem_singleton.mp he
    trivial

theorem sends_class_iff (hatt : s.attached = true) (hget : r.IsGet) (hclass : r.isClass = true) :
    Sends fw (setup fw s r) (((object fw s r).getD []).take r.wLength.toNat) ↔
      ∀ obj, object fw s r = some obj → r.wLength.toNat ≤ obj.length := by
  have hdec := classRequest_of_get fw s hget hclass
  cases hobj : object fw s r with
  | none =>
    rw [hobj, Option.map_none] at hdec
    rw [Option.getD_none, List.take_nil]
    exact ⟨fun _ obj h => absurd h (Option.some_ne_none obj).symm, fun _ => sends_refused hdec⟩
  | some obj =>
    have hshort : obj.length ≤ 7 := by
      rw [object, not_standard_of_class hclass, if_neg Bool.false_ne_true] at hobj
      exact length_classObject hobj
    rw [Option.getD_some]
    constructor
    · intro hsends obj' hobj'
      obtain rfl := Option.some.inj hobj'
      -- the buffer holds the SETUP packet, so there is something behind the object to send
      have hcontent := hsends.content [.inToken] fun e he => by
        obtain rfl := List.mem_singleton.mp he
        trivial
      rw [packets_of_class hatt hget hclass hobj, List.flatten_singleton] at hcontent
      have hbuf := length_setupReceived s r
      have hlen := congrArg List.length hcontent
      simp only [overHead, List.length_take, List.length_append, List.length_drop] at hlen
      have hsize : ep0Size = 64 := rfl
      have htokens : inTokens [.inToken] = 1 := rfl
      rw [htokens, hsize] at hlen
      omega
    · intro hle
      rw [hobj, Option.map_some] at hdec
      exact sends_short obj hdec hget.1 hatt (code_of_class hget hclass) rfl
        (Nat.le_trans hshort (by decide)) (Nat.min_eq_left (hle obj rfl)).symm

end Requests

section Law

/-- The packets of a GET request to an attached device are its object, cut at `wLength` and split at
the endpoint size; a request without an object is answered with no data. -/
def AnswersGet (fw : Firmware) (s : State) (r : SetupReq) : Prop :=
  s.attached = true → r.IsGet →
    Sends fw (step fw s (.setup r)) (((object fw s r).getD []).take r.wLength.toNat)

/-- A GET request is answered with its object, and nothing beyond, exactly when it is not a class
request that asks for more bytes than its object has. -/
theorem answers_get_iff (fw : Firmware) (s : State) (r : SetupReq) :
    AnswersGet fw s r ↔ (s.attached = true → r.IsGet → r.isClass = true →
      ∀ obj, object fw s r = some obj → r.wLength.toNat ≤ obj.length) := by
  have hstep (hatt : s.attached = true) : step fw s (.setup r) = setup fw s r := if_pos hatt
  constructor
  · intro h hatt hget hclass
    have hsends := h hatt hget
    rw [hstep hatt] at hsends
    exact (sends_class_iff hatt hget hclass).mp hsends
  · intro h hatt hget
    rw [hstep hatt]
    rcases hget.2 with ⟨hstd, -⟩ | ⟨hclass, -⟩
    · exact sends_standard hatt hget hstd
    · exact (sends_class_iff hatt hget hclass).mpr (h hatt hget hclass)

def getIdle : SetupReq := ⟨0xA1, defUsbGetIdle, 0, 2, 64⟩

/-- The idle rate is one byte; the host gets it and 63 more bytes of the buffer. -/
theorem get_idle_sends_buffer : ¬ AnswersGet ⟨.kbd, fun _ => 0xFF⟩ boot getIdle := by
  intro h
  have hcontent := (h rfl ⟨rfl, by decide⟩).content [.inToken] fun e he => by
    obtain rfl := List.mem_singleton.mp he
    trivial
  exact absurd (congrArg List.length hcontent) (by decide +kernel)

end Law

end AtNode.Usb
