import AtNode.Esp32.MqttPanic
import AtNode.Esp32.MqttWhole
import AtNode.Esp32.Narrowing

/-!
# Which requests have the access they ask for

A request for one of the hardware services comes as a line of the AT console, as a request of the
web server, or as a payload of the MQTT client. The numbers of the web server and of the MQTT client
are read from the decoded arguments; the bytes of a write are pairs of hexadecimal digits there.

Every request of GPIO has the access it asks for or none. For the others it depends on the number
that is cut, which fits a byte or is refused after the cut.
-/

namespace AtNode.Narrowing

open Config Args Hws

section Http

open Http (Args Node hGpioWrite hGpioRead hAdcRead hI2cRead hI2cWrite hexPairs pairStarts)

def accessesOf {α : Type} : Option (Outcome α) → List Access
  | some o => o.accesses
  | none => []

def httpNumber (a : Args) (key : String) : Option ℕ := (a.toU32 key.toList).join

/-- The numbers of a text of hexadecimal pairs. -/
def hexNumbers : Text → Option (List ℕ)
  | [] => some []
  | [_] => none
  | c :: d :: s => (parseHex u8Max [c, d]).bind fun v => (hexNumbers s).map (v :: ·)

/-- What the arguments of a handler ask for. -/
def askHttp (a : Args) : Op → Option Ask
  | .gpioWrite =>
    (httpNumber a "pin").bind fun pin => (httpNumber a "level").map (.gpioWrite pin)
  | .gpioRead => (httpNumber a "pin").map .gpioRead
  | .adcRead => (httpNumber a "ch").map .adcRead
  | .i2cRead =>
    (httpNumber a "addr").bind fun addr => (httpNumber a "reg").map fun reg =>
      .i2cRead addr reg (httpNumber a "len")
  | .i2cWrite =>
    (httpNumber a "addr").bind fun addr => (httpNumber a "reg").bind fun reg =>
      ((a.get "data".toList).bind fun data => hexNumbers (data.filter (· ≠ ' '))).map
        (.i2cWrite addr reg)

variable (n : Node) (a : Args)

theorem exact_hGpioWrite : Exact (askHttp a .gpioWrite) (accessesOf (hGpioWrite n a)) := by
  unfold hGpioWrite askHttp httpNumber
  cases n.hws with
  | false => exact exact_nil _
  | true =>
    cases a.toU32 "pin".toList with
    | none => exact exact_nil _
    | some pin =>
      cases a.toU32 "level".toList with
      | none => exact exact_nil _
      | some level =>
        cases pin with
        | none => exact exact_nil _
        | some pin =>
          cases level with
          | none => exact exact_nil _
          | some level =>
            rw [Bool.not_true, if_neg Bool.false_ne_true, Option.bind_some, Option.map_some]
            dsimp only
            by_cases h : pin ≤ 255
            · rw [if_pos h]
              exact exact_gpioWrite n.board h
            · rw [if_neg h]
              exact exact_nil _

theorem exact_hGpioRead : Exact (askHttp a .gpioRead) (accessesOf (hGpioRead n a)) := by
  unfold hGpioRead askHttp httpNumber
  cases n.hws with
  | false => exact exact_nil _
  | true =>
    cases a.toU32 "pin".toList with
    | none => exact exact_nil _
    | some pin =>
      cases pin with
      | none => exact exact_nil _
      | some pin =>
        rw [Bool.not_true, if_neg Bool.false_ne_true, Option.map_some]
        dsimp only
        split_ifs with h
        · exact exact_gpioRead n.board h
        · exact exact_nil _

theorem exact_hAdcRead : Exact (askHttp a .adcRead) (accessesOf (hAdcRead n a)) := by
  unfold hAdcRead askHttp httpNumber
  cases n.hws with
  | false => exact exact_nil _
  | true =>
    cases a.toU32 "ch".toList with
    | none => exact exact_nil _
    | some ch =>
      cases ch with
      | none => exact exact_nil _
      | some ch =>
        rw [Bool.not_true, if_neg Bool.false_ne_true, Option.map_some]
        dsimp only
        split_ifs with h
        · exact (exact_adcRead_iff n.board).mpr (Or.inl h)
        · exact exact_nil _

/-- The address of a device that is read fits, or the handler refuses it. -/
def HttpI2cReadFits (hws : Bool) (a : Args) : Prop :=
  hws = true → ∀ addr reg len, a.toU32 "len".toList = some len → len.getD 1 ≠ 0 →
    len.getD 1 ≤ i2cIoMax → a.toU32 "addr".toList = some (some addr) →
      a.toU32 "reg".toList = some (some reg) → addr ≤ 255 ∨ I2cRefused addr.toUInt8 reg

theorem exact_hI2cRead_iff :
    Exact (askHttp a .i2cRead) (accessesOf (hI2cRead n a)) ↔ HttpI2cReadFits n.hws a := by
  unfold hI2cRead HttpI2cReadFits askHttp httpNumber
  cases n.hws with
  | false => exact iff_of_true (exact_nil _) fun h => absurd h Bool.false_ne_true
  | true =>
    rw [Bool.not_true, if_neg Bool.false_ne_true]
    dsimp only
    cases a.toU32 "len".toList with
    | none => exact iff_of_true (exact_nil _) fun _ _ _ _ h => by cases h
    | some len =>
      rw [Option.bind_some]
      split_ifs with hbad
      · refine iff_of_true (exact_nil _) fun _ addr reg len' h h0 hmax => ?_
        cases h
        exact (hbad.elim h0 (Nat.not_lt_of_le hmax)).elim
      · obtain ⟨h0, hmax⟩ := not_or.mp hbad
        cases a.toU32 "addr".toList with
        | none => exact iff_of_true (exact_nil _) fun _ _ _ _ _ _ _ h => by cases h
        | some addr =>
          cases a.toU32 "reg".toList with
          | none => exact iff_of_true (exact_nil _) fun _ _ _ _ _ _ _ _ h => by cases h
          | some reg =>
            cases addr with
            | none => exact iff_of_true (exact_nil _) fun _ _ _ _ _ _ _ h => by cases h
            | some addr =>
              cases reg with
              | none => exact iff_of_true (exact_nil _) fun _ _ _ _ _ _ _ _ h => by cases h
              | some reg =>
                have hlen : ∀ l ∈ (some len).join, len.getD 1 = l := by
                  intro l hl
                  rw [Option.join_some] at hl
                  rw [Option.mem_def.mp hl, Option.getD_some]
                refine (exact_i2cRead_iff n.board h0 hlen).trans ?_
                constructor
                · intro h _ addr' reg' len' _ _ _ haddr hreg
                  cases haddr
                  cases hreg
                  exact h
                · exact fun h => h rfl addr reg len rfl h0 (Nat.le_of_not_lt hmax) rfl rfl

open RemotePanic (HexPairs Paired hexPairs_cons starts_succ pairs_spec utf8Size_of_parseHex)
open Utf8 (encode)

theorem hexPairs_numbers {u : Text} (hu : HexPairs u) (t : Text) :
    ∃ ns, hexNumbers u = some ns ∧ (∀ v ∈ ns, v ≤ 255) ∧ byteLen u = 2 * ns.length ∧
      hexPairs (t ++ u) ((List.range ns.length).map fun i => (encode t).length + 2 * i) =
        some (some (ns.map Nat.toUInt8)) := by
  induction hu generalizing t with
  | nil => exact ⟨[], rfl, by simp, rfl, rfl⟩
  | @cons c d s hp hs ih =>
    obtain ⟨v, hv⟩ := Option.isSome_iff_exists.mp hp
    obtain ⟨ns, hns, hle, hlen, hpairs⟩ := ih (t ++ [c, d])
    have hfront : byteLen [c, d] = 2 := byteLen_of_utf8Size_one (utf8Size_of_parseHex hp)
    have hsplit : c :: d :: s = [c, d] ++ s := rfl
    have hcut : Utf8.sliceTo ([c, d] ++ s) 2 = some [c, d] := by
      rw [← hfront, ← length_encode, Utf8.sliceTo_append]
    refine ⟨v :: ns, ?_, List.forall_mem_cons.mpr ⟨parseHex_le hv, hle⟩, ?_, ?_⟩
    · rw [hexNumbers, hv, hns]
      rfl
    · rw [hsplit, byteLen_append, hfront, hlen, List.length_cons]
      omega
    · rw [Utf8.encode_append, List.length_append, length_encode [c, d], hfront, List.append_assoc]
        at hpairs
      rw [List.length_cons, starts_succ, hexPairs_cons, hsplit, hcut, Option.bind_some, hv]
      dsimp only
      rw [hpairs]
      rfl

theorem hexPairs_eq {hex : Text} (h : HexPairs hex) :
    ∃ ns, hexNumbers hex = some ns ∧ (∀ v ∈ ns, v ≤ 255) ∧ byteLen hex = 2 * ns.length ∧
      hexPairs hex (pairStarts (byteLen hex)) = some (some (ns.map Nat.toUInt8)) := by
  obtain ⟨ns, hns, hle, hlen, hpairs⟩ := hexPairs_numbers h []
  refine ⟨ns, hns, hle, hlen, ?_⟩
  have hhalf : (byteLen hex + 1) / 2 = ns.length := by omega
  rw [pairStarts, hhalf]
  simpa only [Utf8.encode_nil, List.length_nil, Nat.zero_add, List.nil_append] using hpairs

/-- The address of a device that is written to fits, or the handler refuses it. -/
def HttpI2cWriteFits (hws : Bool) (a : Args) : Prop :=
  hws = true → ∀ data addr reg, a.get "data".toList = some data →
    Paired (data.filter (· ≠ ' ')) → HexPairs (data.filter (· ≠ ' ')) →
      a.toU32 "addr".toList = some (some addr) → a.toU32 "reg".toList = some (some reg) →
        addr ≤ 255 ∨ I2cRefused addr.toUInt8 reg

theorem exact_hI2cWrite_iff :
    Exact (askHttp a .i2cWrite) (accessesOf (hI2cWrite n a)) ↔ HttpI2cWriteFits n.hws a := by
  unfold hI2cWrite HttpI2cWriteFits askHttp httpNumber
  cases n.hws with
  | false => exact iff_of_true (exact_nil _) fun h => absurd h Bool.false_ne_true
  | true =>
    rw [Bool.not_true, if_neg Bool.false_ne_true]
    dsimp only
    cases a.get "data".toList with
    | none => exact iff_of_true (exact_nil _) fun _ _ _ _ h => by cases h
    | some data =>
      rw [Option.bind_some, Option.bind_some]
      split_ifs with hbad
      · refine iff_of_true (exact_nil _) fun _ data' addr reg h hpaired => ?_
        cases h
        obtain ⟨hne, heven, hle⟩ := hpaired
        rcases hbad with h | h | h
        · exact absurd h hne
        · exact absurd heven h
        · exact absurd h (Nat.not_lt_of_le hle)
      · obtain ⟨hne, hrest⟩ := not_or.mp hbad
        have heven := of_not_not (not_or.mp hrest).1
        have hle := Nat.le_of_not_lt (not_or.mp hrest).2
        by_cases hpairs : HexPairs (data.filter (· ≠ ' '))
        · obtain ⟨ns, hns, hbytes, hlen, heq⟩ := hexPairs_eq hpairs
          have hmax : (ns.map Nat.toUInt8).length ≤ i2cIoMax := by
            rw [List.length_map]
            omega
          have hsame : (ns.map Nat.toUInt8).map UInt8.toNat = ns := by
            rw [List.map_map]
            exact (List.map_congr_left fun v hv => toNat_toUInt8 (hbytes v hv)).trans (List.map_id' ns)
          rw [heq, hns, Option.bind_some]
          dsimp only
          cases a.toU32 "addr".toList with
          | none => exact iff_of_true (exact_nil _) fun _ _ _ _ _ _ _ h => by cases h
          | some addr =>
            cases a.toU32 "reg".toList with
            | none => exact iff_of_true (exact_nil _) fun _ _ _ _ _ _ _ _ h => by cases h
            | some reg =>
              cases addr with
              | none => exact iff_of_true (exact_nil _) fun _ _ _ _ _ _ _ h => by cases h
              | some addr =>
                cases reg with
                | none => exact iff_of_true (exact_nil _) fun _ _ _ _ _ _ _ _ h => by cases h
                | some reg =>
                  have hwrite := exact_i2cWrite_iff n.board addr reg (some ns) hmax
                  rw [hsame, and_iff_left rfl] at hwrite
                  refine Iff.trans hwrite ?_
                  constructor
                  · intro h _ data' addr' reg' _ _ _ haddr hreg
                    cases haddr
                    cases hreg
                    exact h
                  · exact fun h => h rfl data addr reg rfl ⟨hne, heven, hle⟩ hpairs rfl rfl
        · have hno : ∀ data' addr reg, some data = some data' → Paired (data'.filter (· ≠ ' ')) →
              HexPairs (data'.filter (· ≠ ' ')) → a.toU32 "addr".toList = some (some addr) →
                a.toU32 "reg".toList = some (some reg) → addr ≤ 255 ∨ I2cRefused addr.toUInt8 reg := by
            intro data' _ _ h _ hp
            cases h
            exact absurd hp hpairs
          cases hres : hexPairs (data.filter (· ≠ ' ')) (pairStarts (byteLen (data.filter (· ≠ ' ')))) with
          | none => exact iff_of_true (exact_nil _) fun _ => hno
          | some r =>
            cases r with
            | none => exact iff_of_true (exact_nil _) fun _ => hno
            | some bs => exact absurd ((pairs_spec heven).2.mp ⟨bs, hres⟩) hpairs

end Http

section Mqtt

variable (b : Board)

/-- What the arm `gpio/write` of `mqtt_exec` does to the hardware. -/
def mqttGpioWrite (pin level : Text) : Outcome Bool :=
  match parseUnsigned u32Max pin, parseUnsigned u32Max level with
  | some p, some l => if p ≤ 255 then gpioWrite b p.toUInt8 (l ≠ 0) else ⟨[], false⟩
  | _, _ => ⟨[], false⟩

def mqttGpioRead (pin : Text) : Outcome (Option Bool) :=
  match parseUnsigned u32Max pin with
  | some p => if p ≤ 255 then gpioRead b p.toUInt8 else ⟨[], none⟩
  | none => ⟨[], none⟩

def mqttAdcRead (ch : Text) : Outcome (Option UInt16) :=
  match parseUnsigned u32Max ch with
  | some c => adcReadMv b c.toUInt8
  | none => ⟨[], none⟩

variable (pin level ch : Text)

theorem exact_mqttGpioWrite :
    Exact ((parseUnsigned u32Max pin).bind fun p => (parseUnsigned u32Max level).map (.gpioWrite p))
      (mqttGpioWrite b pin level).accesses := by
  unfold mqttGpioWrite
  cases parseUnsigned u32Max pin with
  | none => exact exact_nil _
  | some p =>
    cases parseUnsigned u32Max level with
    | none => exact exact_nil _
    | some l =>
      dsimp only
      by_cases hp : p ≤ 255
      · rw [if_pos hp]
        exact exact_gpioWrite b hp
      · rw [if_neg hp]
        exact exact_nil _

theorem exact_mqttGpioRead :
    Exact ((parseUnsigned u32Max pin).map .gpioRead) (mqttGpioRead b pin).accesses := by
  unfold mqttGpioRead
  cases parseUnsigned u32Max pin with
  | none => exact exact_nil _
  | some p =>
    dsimp only
    by_cases hp : p ≤ 255
    · rw [if_pos hp]
      exact exact_gpioRead b hp
    · rw [if_neg hp]
      exact exact_nil _

theorem exact_mqttAdcRead_iff :
    Exact ((parseUnsigned u32Max ch).map .adcRead) (mqttAdcRead b ch).accesses ↔
      ∀ c, parseUnsigned u32Max ch = some c → c ≤ 255 ∨ NoChannel c.toUInt8 := by
  unfold mqttAdcRead
  cases parseUnsigned u32Max ch with
  | none => exact iff_of_true (exact_nil _) fun _ h => by cases h
  | some c =>
    refine (exact_adcRead_iff b).trans ⟨fun h c' hc => ?_, fun h => h c rfl⟩
    cases hc
    exact h

end Mqtt

section Requests

open MqttExec (World argString)
open Query (queryGet)

/-- A request for a service of the hardware on one of the front ends. -/
inductive Request where
  /-- A line of the console, by its command and what is behind that. -/
  | line (op : Op) (args : Text)
  | http (op : Op) (a : Http.Args)
  | mqttGpioWrite (query : Text)
  | mqttGpioRead (query : Text)
  | mqttAdcRead (query : Text)

def atFront : Op → Text
  | .gpioWrite => "AT+GPIO_W=".toList
  | .gpioRead => "AT+GPIO_R=".toList
  | .adcRead => "AT+ADC=".toList
  | .i2cRead => "AT+I2C_R=".toList
  | .i2cWrite => "AT+I2C_W=".toList

def httpHandler (n : Http.Node) (a : Http.Args) : Op → Option (Outcome Http.Reply)
  | .gpioWrite => Http.hGpioWrite n a
  | .gpioRead => Http.hGpioRead n a
  | .adcRead => Http.hAdcRead n a
  | .i2cRead => Http.hI2cRead n a
  | .i2cWrite => Http.hI2cWrite n a

/-- What a request asks for. -/
def ask : Request → Option Ask
  | .line op args => askAt op (At.trim args)
  | .http op a => askHttp a op
  | .mqttGpioWrite query =>
    ((argString query "pin".toList).bind (parseUnsigned u32Max)).bind fun pin =>
      ((argString query "level".toList).bind (parseUnsigned u32Max)).map (.gpioWrite pin)
  | .mqttGpioRead query =>
    ((queryGet query "pin".toList).bind (parseUnsigned u32Max)).map .gpioRead
  | .mqttAdcRead query => ((queryGet query "ch".toList).bind (parseUnsigned u32Max)).map .adcRead

/-- Every number of a request that is cut to a byte fits, or the request is refused. -/
def Fits (hws : Bool) : Request → Prop
  | .line .i2cRead args => AtI2cReadFits hws (At.trim args)
  | .line .i2cWrite args => AtI2cWriteFits hws (At.trim args)
  | .http .i2cRead a => HttpI2cReadFits hws a
  | .http .i2cWrite a => HttpI2cWriteFits hws a
  | .mqttAdcRead query =>
    hws = true → ∀ ch c, queryGet query "ch".toList = some ch → parseUnsigned u32Max ch = some c →
      c ≤ 255 ∨ NoChannel c.toUInt8
  | _ => True

variable {σ : Type} (f : Api.Features) (S : At.Services σ) (flash : Text → Bool) (erases : Bool)
variable (w : World σ)

/-- The accesses to the hardware for a request. -/
def accesses : Request → List Access
  | .line op args => (At.handleLine f S flash erases (atFront op ++ args) w).accesses
  | .http op a => accessesOf (httpHandler ⟨f.hws, S.board⟩ a op)
  | .mqttGpioWrite query =>
    match argString query "pin".toList, argString query "level".toList with
    | some pin, some level => if f.hws then (mqttGpioWrite S.board pin level).accesses else []
    | _, _ => []
  | .mqttGpioRead query =>
    match queryGet query "pin".toList with
    | some pin => if f.hws then (mqttGpioRead S.board pin).accesses else []
    | none => []
  | .mqttAdcRead query =>
    match queryGet query "ch".toList with
    | some ch => if f.hws then (mqttAdcRead S.board ch).accesses else []
    | none => []

theorem exact_line_iff (op : Op) (args : Text) :
    Exact (ask (.line op args)) (accesses f S flash erases w (.line op args)) ↔
      Fits f.hws (.line op args) := by
  cases op with
  | gpioWrite =>
    refine iff_of_true ?_ trivial
    have h := exact_cmdGpioW f S (At.trim args) w
    rwa [← At.handleLine_gpioW f S flash erases] at h
  | gpioRead =>
    refine iff_of_true ?_ trivial
    have h := exact_cmdGpioR f S (At.trim args) w
    rwa [← At.handleLine_gpioR f S flash erases] at h
  | adcRead =>
    refine iff_of_true ?_ trivial
    have h := exact_cmdAdc f S (At.trim args) w
    rwa [← At.handleLine_adc f S flash erases] at h
  | i2cRead =>
    have h := exact_cmdI2cR_iff f S (At.trim args) w
    rwa [← At.handleLine_i2cR f S flash erases] at h
  | i2cWrite =>
    have h := exact_cmdI2cW_iff f S (At.trim args) w
    rwa [← At.handleLine_i2cW f S flash erases] at h

theorem exact_http_iff (op : Op) (a : Http.Args) :
    Exact (ask (.http op a)) (accesses f S flash erases w (.http op a)) ↔ Fits f.hws (.http op a) := by
  cases op with
  | gpioWrite => exact iff_of_true (exact_hGpioWrite _ a) trivial
  | gpioRead => exact iff_of_true (exact_hGpioRead _ a) trivial
  | adcRead => exact iff_of_true (exact_hAdcRead _ a) trivial
  | i2cRead => exact exact_hI2cRead_iff ⟨f.hws, S.board⟩ a
  | i2cWrite => exact exact_hI2cWrite_iff ⟨f.hws, S.board⟩ a

/-- A request has no access but the one it asks for exactly where every number that is cut fits. -/
theorem request_exact_iff (r : Request) :
    Exact (ask r) (accesses f S flash erases w r) ↔ Fits f.hws r := by
  cases r with
  | line op args => exact exact_line_iff f S flash erases w op args
  | http op a => exact exact_http_iff f S flash erases w op a
  | mqttGpioWrite query =>
    refine iff_of_true ?_ trivial
    unfold ask accesses
    dsimp only
    cases argString query "pin".toList with
    | none => exact exact_nil _
    | some pin =>
      cases argString query "level".toList with
      | none => exact exact_nil _
      | some level =>
        dsimp only
        split_ifs
        · exact exact_mqttGpioWrite S.board pin level
        · exact exact_nil _
  | mqttGpioRead query =>
    refine iff_of_true ?_ trivial
    unfold ask accesses
    dsimp only
    cases queryGet query "pin".toList with
    | none => exact exact_nil _
    | some pin =>
      dsimp only
      split_ifs
      · exact exact_mqttGpioRead S.board pin
      · exact exact_nil _
  | mqttAdcRead query =>
    unfold ask accesses Fits
    dsimp only
    cases queryGet query "ch".toList with
    | none => exact iff_of_true (exact_nil _) fun _ _ _ h => by cases h
    | some ch =>
      dsimp only
      cases f.hws with
      | false => exact iff_of_true (exact_nil _) fun h => absurd h Bool.false_ne_true
      | true =>
        refine (exact_mqttAdcRead_iff S.board ch).trans ⟨fun h _ ch' c hch => ?_, fun h c => h rfl ch c rfl⟩
        cases hch
        exact h c

def idle : At.Services Unit where
  toPeripherals := MqttWhole.quiet
  board := RemotePanic.bareNode.board
  probe _ := false
  target _ := .usb
  setTarget _ s := s
  mqttConnected _ := false
  mqttStart s := s
  mqttStop s := s
  httpRunning _ := false
  linkUp _ := false
  rssi _ := 0
  reset s := s

/-- The channel 257 is read as the channel 1, a device with the address 336 as the one with the
address 80, and a byte that is no number is written as zero. -/
theorem wide_numbers_are_cut :
    ∃ w : World Unit,
      (accesses MqttWhole.everything idle (fun _ => true) true w (.mqttAdcRead "ch=257".toList) =
          [.adc 1] ∧
        ¬ ∀ r, Exact (ask r) (accesses MqttWhole.everything idle (fun _ => true) true w r)) ∧
      accesses MqttWhole.everything idle (fun _ => true) true w (.line .i2cRead "0x150,0,1".toList) =
        [.i2cRead 80 [0] 1] ∧
      accesses MqttWhole.everything idle (fun _ => true) true w (.line .i2cWrite "80,0,zz".toList) =
        [.i2cWrite 80 [0] [0]] := by
  have hask : ask (.mqttAdcRead "ch=257".toList) = some (.adcRead 257) := by decide +kernel
  have hacc : accesses MqttWhole.everything idle (fun _ => true) true
      ⟨CfgStore.boot (Vector.replicate 6 0) fun _ => none, ()⟩ (.mqttAdcRead "ch=257".toList) =
        [.adc 1] := by
    decide +kernel
  refine ⟨_, ⟨hacc, fun h => ?_⟩, by decide +kernel, by decide +kernel⟩
  have hexact := h (.mqttAdcRead "ch=257".toList)
  rw [hask, hacc, exact_one_iff] at hexact
  have hch : (1 : UInt8).toNat = 257 := hexact
  exact absurd hch (by decide)

end Requests

end AtNode.Narrowing
