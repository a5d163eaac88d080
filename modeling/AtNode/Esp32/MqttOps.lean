import AtNode.Esp32.FullArgs
import AtNode.Esp32.MqttExec

/-!
# What a command asks for

A method and its arguments denote an operation on the node. It is performed whole, with a result, or
it cannot be performed and nothing happens. Each arm of `mqtt_exec` answers with the result of the
operation its arguments denote, or with an error where there is none.
-/

namespace AtNode.MqttOps

open Config Heapless Query ConfigReplies Api Args MqttExec
open Json (Value Verbatim render renderMembers quoted joined member)
open TunnelSwitch (masterOn tunnelEnabled configured)

inductive Operation where
  | gpioWrite (pin : ℕ) (high : Bool)
  | gpioRead (pin : ℕ)
  | ledStatus
  | ledSet (act : LedAction)
  | adcRead (ch : ℕ)
  | sysInfo
  | tunnelStatus
  | tunnelEnable (val : Text)
  | tunnelConnect
  | tunnelDisconnect
  | tunnelClear
  | tunnelConfig (vals : List (Text × Text))
  | ability
  | configSet (key val : Text)
  | configGet (key : Text)
  | configList
  | keyboard (op : Kb.Op)
  | bleStatus
  | blePair (enable : Bool)
  | bleBondsDelete
  | bleBondsClear

abbrev Members := List (Text × Value)

variable {σ : Type}

section Denotation

variable (f : Features) (arg : Text → Option Text)

/-- A number, or the default of an argument that is not given. -/
def number (key : Text) (dflt : ℕ) : Option ℕ :=
  (arg key).bind fun v => if v.isEmpty then some dflt else parseNum u32Max v

def tap : Option Operation := do
  let k ← number arg "k".toList 0
  let mods ← number arg "mods".toList 0
  let ms ← number arg "ms".toList 50
  if k ≤ 255 ∧ mods ≤ 255 ∧ ms ≤ 60000 then
    some (.keyboard (.tap mods.toUInt8 k.toUInt8 ms.toUInt32))
  else none

def text : Option Operation := do
  let s ← arg "s".toList
  if s.isEmpty then none
  else
    let ms ← number arg "ms".toList 40
    let gap ← number arg "gap".toList 40
    if h : (String.ofList s).utf8ByteSize ≤ Kb.textCapacity then
      some (.keyboard (.text (String.ofList s) ms.toUInt32 gap.toUInt32 h))
    else none

def keys : Vector (Option ℕ) 6 :=
  #v[number arg "k0".toList 0, number arg "k1".toList 0, number arg "k2".toList 0,
    number arg "k3".toList 0, number arg "k4".toList 0, number arg "k5".toList 0]

def key : Option Operation := do
  let mods ← number arg "mods".toList 0
  if mods ≤ 255 ∧ (keys arg).all fun v => v.any fun v => decide (v ≤ 255) then
    some (.keyboard (.hold ⟨mods.toUInt8, (keys arg).map fun v => (v.getD 0).toUInt8⟩))
  else none

def nonempty (kvs : List (Text × Text)) : List (Text × Text) := kvs.filter fun kv => !kv.2.isEmpty

def given : Option (List (Text × Text)) :=
  (configArgs.mapM fun a => (arg a.1).map fun v => (a.2, v)).map nonempty

def idOk : Bool := arg "id".toList = some [] || arg "id".toList = some "1".toList

/-- The operation of a method with its arguments. -/
def denoted : Method → Option Operation
  | .gpioWrite => do
    let pin ← arg "pin".toList
    let level ← arg "level".toList
    let p ← parseUnsigned u32Max pin
    let l ← parseUnsigned u32Max level
    if f.hws then some (.gpioWrite p (l ≠ 0)) else none
  | .gpioRead => do
    let pin ← arg "pin".toList
    let p ← parseUnsigned u32Max pin
    if f.hws then some (.gpioRead p) else none
  | .led => do
    let color ← arg "color".toList
    if color.isEmpty then some .ledStatus
    else if f.ledColor then (parseColor color).map .ledSet else none
  | .adcRead => do
    let ch ← arg "ch".toList
    let c ← parseUnsigned u32Max ch
    if f.hws then some (.adcRead c) else none
  | .sysInfo => some .sysInfo
  | .tunnelStatus => if f.rathole then some .tunnelStatus else none
  | .tunnelEnable => if f.rathole then (arg "enable".toList).map .tunnelEnable else none
  | .tunnelConnect => if f.rathole && idOk arg then some .tunnelConnect else none
  | .tunnelDisconnect => if f.rathole && idOk arg then some .tunnelDisconnect else none
  | .tunnelClear => if f.rathole && idOk arg then some .tunnelClear else none
  | .tunnelConfig => if f.rathole && idOk arg then (given arg).map .tunnelConfig else none
  | .ability => some .ability
  | .configSet => do
    let key ← arg "key".toList
    let val ← arg "val".toList
    if key.isEmpty then none else some (.configSet key val)
  | .configGet => (arg "key".toList).map .configGet
  | .configList => some .configList
  | .keyboardTap => if f.enabled then tap arg else none
  | .keyboardText => if f.enabled then text arg else none
  | .keyboardKey => if f.enabled then key arg else none
  | .bleStatus => if f.kbdBle then some .bleStatus else none
  | .blePair => do
    let enable ← pairArg arg
    if !f.kbdBle then none
    else if enable = "1".toList ∨ enable = "true".toList then some (.blePair true)
    else if enable = "0".toList ∨ enable = "false".toList then some (.blePair false)
    else none
  | .bleBondsDelete => if f.kbdBle ∧ arg "idx".toList = some "0".toList then some .bleBondsDelete else none
  | .bleBondsClear => if f.kbdBle then some .bleBondsClear else none

end Denotation

section Performance

variable (f : Features) (P : Peripherals σ) (flash : Text → Bool)

/-- All the values are stored, or none of them is. -/
def setAll : List (Text × Text) → World σ → Option (World σ)
  | [], w => some w
  | (key, val) :: kvs, w =>
    match cfgSet flash key val w with
    | (true, w) => setAll kvs w
    | (false, _) => none

def eraseBond (w : World σ) : Option (World σ) :=
  (setAll flash [("ble.bond".toList, [])] w).map fun w =>
    { w with peri := P.bondClear (P.pairClose w.peri) }

def bleValue (cfg : Cfg) (b : Ble) : Value :=
  .obj [("name".toList, .str (getStr cfg .deviceName)), ("addr".toList, .str b.addrText),
    ("advertising".toList, .bool !b.connected), ("pairing_mode".toList, .bool b.pairing),
    ("bonds".toList, .arr (b.bond.toList.map fun a => .str (bondText a)))]

/-- What the operation does to the node, and its result. -/
def perform : Operation → World σ → Option (Members × World σ)
  | .gpioWrite pin high, w =>
    if pin ≤ 255 then
      (P.gpioWrite pin.toUInt8 high w.peri).map fun s => ([], { w with peri := s })
    else none
  | .gpioRead pin, w =>
    if pin ≤ 255 then
      (P.gpioRead pin.toUInt8 w.peri).map fun r =>
        ([("level".toList, .num (.ofNat r.1.toNat))], { w with peri := r.2 })
    else none
  | .ledStatus, w =>
    let r := P.ledCurrent w.peri
    some ([("r".toList, .num (.ofNat r.1.1.toNat)), ("g".toList, .num (.ofNat r.1.2.1.toNat)),
      ("b".toList, .num (.ofNat r.1.2.2.toNat)), ("mode".toList, .str r.2.text)], w)
  | .ledSet act, w => some ([], { w with peri := P.ledApply act w.peri })
  | .adcRead ch, w =>
    if ch ≤ 255 then
      (P.adcReadMv ch.toUInt8 w.peri).map fun mv => ([("mv".toList, .num (.ofNat mv.toNat))], w)
    else none
  | .sysInfo, w =>
    some ([("info".toList, sysInfoValue f w.cfg (P.ip w.peri) (P.mqttRunning w.peri))], w)
  | .tunnelStatus, w =>
    some ([("tunnels".toList, .arr [statusValue w.cfg (P.tunnel w.peri)])], w)
  | .tunnelEnable val, w =>
    (setAll flash [("rathole.enable".toList, val)] w).map fun w => ([], w)
  | .tunnelConnect, w =>
    if masterOn w.cfg && tunnelEnabled w.cfg && configured w.cfg then
      some ([], { w with peri := P.tunnelStart w.peri })
    else none
  | .tunnelDisconnect, w => some ([], { w with peri := P.tunnelStop w.peri })
  | .tunnelClear, w =>
    (setAll flash clearTable { w with peri := P.tunnelStop w.peri }).map fun w => ([], w)
  | .tunnelConfig vals, w =>
    (setAll flash vals w).map fun w =>
      ([("tunnel".toList, statusValue w.cfg (P.tunnel w.peri))], w)
  | .ability, w => some ([("ability".toList, abilityValue f)], w)
  | .configSet key val, w => (setAll flash [(key, val)] w).map fun w => ([], w)
  | .configGet key, w =>
    match Config.get w.cfg key with
    | .ok val => some ([("value".toList, .str val)], w)
    | .error _ => none
  | .configList, w => some ([("keys".toList, listValue w.cfg)], w)
  | .keyboard op, w => (P.post op w.peri).map fun s => ([], { w with peri := s })
  | .bleStatus, w => some ([("ble".toList, bleValue w.cfg (P.ble w.peri))], w)
  | .blePair enable, w =>
    let s := if enable then P.pairOpen w.peri else P.pairClose w.peri
    some ([("pairing_mode".toList, .bool (P.ble s).pairing)], { w with peri := s })
  | .bleBondsDelete, w =>
    if (P.ble w.peri).bond.isNone then none else (eraseBond P flash w).map fun w => ([], w)
  | .bleBondsClear, w => (eraseBond P flash w).map fun w => ([], w)

/-- What comes of a method and its arguments. -/
def serve (arg : Text → Option Text) (m : Method) (w : World σ) : Option (Members × World σ) :=
  (denoted f arg m).bind fun o => perform f P flash o w

theorem serve_eq {f : Features} {P : Peripherals σ} {flash : Text → Bool} {arg : Text → Option Text}
    {m : Method} {o : Operation} (h : denoted f arg m = some o) (w : World σ) :
    serve f P flash arg m w = perform f P flash o w := by
  rw [serve, h]
  rfl

theorem serve_none {f : Features} {P : Peripherals σ} {flash : Text → Bool}
    {arg : Text → Option Text} {m : Method} (h : denoted f arg m = none) (w : World σ) :
    serve f P flash arg m w = none := by
  rw [serve, h]
  rfl

end Performance

section Answers

/-- The text of an answer. -/
def body (ms : Members) : Text := joined (ms.map member)

abbrev okMember : Text × Value := ("ok".toList, .bool true)

def errBody (msg : Text) : Members := [("ok".toList, .bool false), ("error".toList, .str msg)]

/-- The answer is the result of the operation, or an error where there is none; it is short
enough to be published. -/
def Answers (room : ℕ) (res : Option (Members × World σ)) (w : World σ) (out : Text × World σ) :
    Prop :=
  byteLen out.1 ≤ room ∧
    match res with
    | some (ms, w₁) => out = (body (okMember :: ms), w₁)
    | none => ∃ msg, Verbatim msg ∧ out = (body (MqttOps.errBody msg), w)

def front (k : Text) : Text := quoted "ok".toList ++ ':' :: ("true".toList ++ ',' :: (quoted k ++ [':']))

variable {room : ℕ} {w w₁ : World σ} {k : Text} {v : Value} {ms : Members} {ts : List Text}

theorem body_single (k : Text) (v : Value) : body [okMember, (k, v)] = front k ++ render v := by
  simp [body, joined, member, front, quoted, render]

theorem byteLen_front (k : Text) : byteLen (front k) = 13 + byteLen k := by
  have hok : byteLen (quoted "ok".toList) = 4 := by decide
  have htrue : byteLen "true".toList = 4 := by decide
  have hquote : byteLen ['"'] = 1 := by decide
  have hcolon : ':'.utf8Size = 1 := by decide
  have hcomma : ','.utf8Size = 1 := by decide
  have hmark : '"'.utf8Size = 1 := by decide
  rw [front, byteLen_append, hok, byteLen_cons, hcolon, byteLen_append, htrue, byteLen_cons, hcomma,
    byteLen_append, quoted, byteLen_cons, hmark, byteLen_append, hquote, byteLen_cons, hcolon,
    byteLen_nil]
  omega

theorem answers_error (hroom : 2039 ≤ room) (msg : String) (hverb : Verbatim msg.toList)
    (hlen : byteLen msg.toList ≤ 40) : Answers room none w (errReply msg, w) := by
  have hopen : "\"ok\":false,\"error\":\"".toList =
      quoted "ok".toList ++ ':' :: ("false".toList ++ ',' :: (quoted "error".toList ++ [':', '"'])) := by
    decide
  have hsize : byteLen "\"ok\":false,\"error\":\"".toList = 20 ∧ byteLen "\"".toList = 1 := by decide
  have hcap : replyCap = 2560 := rfl
  have htext : errReply msg =
      "\"ok\":false,\"error\":\"".toList ++ msg.toList ++ "\"".toList := by
    rw [errReply, put_fits, List.nil_append]
    rw [byteLen_append, byteLen_append, byteLen_nil]
    omega
  refine ⟨?_, msg.toList, hverb, ?_⟩
  · dsimp only
    rw [htext, byteLen_append, byteLen_append]
    omega
  · rw [htext, hopen]
    simp [body, joined, member, MqttOps.errBody, quoted, render]

theorem answers_ok (hroom : 2039 ≤ room) : Answers room (some ([], w₁)) w (okReply, w₁) := by
  refine ⟨Nat.le_trans ?_ hroom, ?_⟩
  · have hlen : byteLen okReply ≤ 2039 := by decide
    exact hlen
  · have htext : okReply = body [okMember] := by decide
    exact congrArg (·, w₁) htext

theorem answers_text {text : Text} (htext : text = body (okMember :: ms)) (hlen : byteLen text ≤ room) :
    Answers room (some (ms, w₁)) w (text, w₁) := ⟨hlen, congrArg (·, w₁) htext⟩

theorem answers_write (hcap : room ≤ replyCap) (htext : ts.flatten = body (okMember :: ms))
    (hlen : byteLen ts.flatten ≤ room) :
    Answers room (some (ms, w₁)) w ((write replyCap [] ts).1, w₁) := by
  have hwrite : (write replyCap [] ts).1 = ts.flatten := by
    rw [write_fits (by rw [byteLen_nil, Nat.zero_add]; exact Nat.le_trans hlen hcap), List.nil_append]
  rw [hwrite]
  exact answers_text htext hlen

theorem answers_member (hcap : room ≤ replyCap) {lit : Text} (hlit : lit = front k)
    (hlen : 13 + byteLen k + byteLen (render v) ≤ room) :
    Answers room (some ([(k, v)], w₁)) w ((write replyCap [] [lit, render v]).1, w₁) := by
  have htext : [lit, render v].flatten = front k ++ render v := by
    rw [hlit]
    simp
  apply answers_write hcap
  · rw [htext, body_single]
  · rwa [htext, byteLen_append, byteLen_front]

end Answers

section Settings

open CfgStore (Device accepted)

variable {flash : Text → Bool} {w w₁ : World σ} {key val : Text} {kvs : List (Text × Text)}

/-- The registry and flash take the value. -/
def accepts (flash : Text → Bool) (kv : Text × Text) : Bool :=
  (accepted ⟨kv.1, kv.2, flash kv.1⟩).isSome

theorem cfgSet_cases (flash : Text → Bool) (key val : Text) (w : World σ) :
    (accepts flash (key, val) = false ∧ cfgSet flash key val w = (false, w)) ∨
      (accepts flash (key, val) = true ∧ (cfgSet flash key val w).1 = true ∧
        (cfgSet flash key val w).2 =
          { w with registry := (w.registry.set ⟨key, val, flash key⟩).2 }) := by
  rcases CfgStore.set_cases w.registry ⟨key, val, flash key⟩ with ⟨hnone, e, heq⟩ | ⟨k, v, hsome, -, -, heq⟩
  · refine Or.inl ⟨?_, ?_⟩
    · rw [accepts, hnone]
      rfl
    · rw [cfgSet, heq]
  · refine Or.inr ⟨?_, ?_, ?_⟩
    · rw [accepts, hsome]
      rfl
    · rw [cfgSet, heq]
    · rw [cfgSet, heq]

theorem cfgSet_of_accepts (h : accepts flash (key, val) = true) (w : World σ) :
    cfgSet flash key val w =
      (true, { w with registry := (w.registry.set ⟨key, val, flash key⟩).2 }) := by
  rcases cfgSet_cases flash key val w with ⟨hnot, -⟩ | ⟨-, hok, heq⟩
  · rw [h] at hnot
    cases hnot
  · exact Prod.ext hok heq

theorem cfgSet_of_not_accepts (h : accepts flash (key, val) = false) (w : World σ) :
    cfgSet flash key val w = (false, w) := by
  rcases cfgSet_cases flash key val w with ⟨-, heq⟩ | ⟨hyes, -⟩
  · exact heq
  · rw [h] at hyes
    cases hyes

theorem accepts_name {k : Key} {v : Text} (hflash : flash k.name = true)
    (hv : (validate k v).isOk = true) : accepts flash (k.name, v) = true := by
  rw [accepts, hflash]
  exact (CfgStore.isSome_accepted_name k v).trans hv

theorem setAll_of_accepts (h : ∀ kv ∈ kvs, accepts flash kv = true) (w : World σ) :
    setAll flash kvs w = some (kvs.foldl (fun w kv => (cfgSet flash kv.1 kv.2 w).2) w) := by
  induction kvs generalizing w with
  | nil => rfl
  | cons kv kvs ih =>
    rw [setAll, cfgSet_of_accepts (h kv List.mem_cons_self), List.foldl_cons,
      cfgSet_of_accepts (h kv List.mem_cons_self)]
    exact ih (fun kv' hkv => h kv' (List.mem_cons_of_mem _ hkv)) _

theorem setAll_cons_of_not_accepts {kv : Text × Text} (h : accepts flash kv = false) (w : World σ) :
    setAll flash (kv :: kvs) w = none := by
  rw [setAll, cfgSet_of_not_accepts h]

theorem setAll_of_not_accepts (h : ∃ kv ∈ kvs, accepts flash kv = false) (w : World σ) :
    setAll flash kvs w = none := by
  induction kvs generalizing w with
  | nil =>
    obtain ⟨kv, hmem, -⟩ := h
    exact absurd hmem List.not_mem_nil
  | cons kv kvs ih =>
    cases haccepts : accepts flash kv with
    | false => exact setAll_cons_of_not_accepts haccepts w
    | true =>
      obtain ⟨kv', hmem, hnot⟩ := h
      have hrest : kv' ∈ kvs := by
        refine (List.mem_cons.mp hmem).resolve_left fun heq => ?_
        rw [heq, haccepts] at hnot
        cases hnot
      rw [setAll, cfgSet_of_accepts haccepts]
      exact ih ⟨kv', hrest, hnot⟩ _

theorem accepts_of_flash {kv : Text × Text} (h : flash kv.1 = false) : accepts flash kv = false := by
  rw [accepts, accepted, h]
  cases tableDef.find? fun k => k.name = kv.1 with
  | none => rfl
  | some k =>
    dsimp only
    cases validate k kv.2 <;> rfl

end Settings

section Stored

open CfgStore (Device Event step boot)

variable {d : Device} {w : World σ}

/-- What the registry keeps over a run from an empty flash. -/
structure Stored (d : Device) : Prop where
  synced : CfgStore.Synced d
  bounded : Bounded d.cfg
  retry : Json.isNumber (getStr d.cfg .tunnelRetry) = true

theorem stored_boot (mac : CfgStore.Mac) : Stored (boot mac fun _ => none) :=
  ⟨CfgStore.synced_boot mac _, bounded_boot mac, rfl⟩

theorem isNumber_validate {k : Key} {raw v : Text} (h : validate k raw = .ok v)
    (hk : k = .tunnelRetry) : Json.isNumber v = true := by
  rw [hk] at h
  obtain ⟨n, -, -, rfl⟩ := validateInt_ok h
  exact Json.isNumber_toDigits n

theorem retry_step (h : Stored d) (e : Event) :
    Json.isNumber (getStr (step d e).cfg .tunnelRetry) = true := by
  refine values_step (P := fun k v => k = .tunnelRetry → Json.isNumber v = true) h.synced ?_
    isNumber_validate ?_ e .tunnelRetry rfl
  · rintro k rfl
    rfl
  · rintro k rfl
    exact h.retry

theorem stored_step (h : Stored d) (e : Event) : Stored (step d e) :=
  ⟨(CfgStore.step_follows h.synced e).1, bounded_step h.synced h.bounded e, retry_step h e⟩

theorem stored_run (mac : CfgStore.Mac) (es : List Event) :
    Run.Always step Stored (boot mac fun _ => none) es :=
  Run.always_of_step (fun _ e h => stored_step h e) (stored_boot mac)

theorem stored_cfgSet (flash : Text → Bool) (h : Stored w.registry) (key val : Text) :
    Stored (cfgSet flash key val w).2.registry := by
  rcases cfgSet_cases flash key val w with ⟨-, heq⟩ | ⟨-, -, heq⟩
  · rw [heq]
    exact h
  · rw [heq]
    exact stored_step h (.set ⟨key, val, flash key⟩)

theorem stored_foldl (flash : Text → Bool) (h : Stored w.registry) (kvs : List (Text × Text)) :
    Stored (kvs.foldl (fun w kv => (cfgSet flash kv.1 kv.2 w).2) w).registry := by
  induction kvs generalizing w with
  | nil => exact h
  | cons kv kvs ih => exact ih (stored_cfgSet flash h kv.1 kv.2)

end Stored

section Hardware

variable {f : Features} {P : Peripherals σ} {flash : Text → Bool} {arg : Text → Option Text} {room : ℕ}
  {w : World σ} {pin level color ch : Text}

theorem gpioWrite_answers (hroom : 2039 ≤ room) (hhws : f.hws = true)
    (hpin : arg "pin".toList = some pin) (hlevel : arg "level".toList = some level) :
    Answers room (serve f P flash arg .gpioWrite w) w (MqttExec.gpioWrite P pin level w) := by
  have herror : Answers room none w (errReply "bad pin", w) :=
    answers_error hroom _ (by decide) (by decide)
  simp only [serve, denoted, hpin, hlevel, Option.bind_eq_bind, Option.bind_some]
  unfold MqttExec.gpioWrite
  cases parseUnsigned u32Max pin with
  | none => exact herror
  | some p =>
    cases parseUnsigned u32Max level with
    | none => exact herror
    | some l =>
      simp only [Option.bind_some, hhws, if_true, perform]
      by_cases hp : p ≤ 255
      · rw [if_pos hp, if_pos hp]
        cases P.gpioWrite p.toUInt8 (decide (l ≠ 0)) w.peri with
        | none => exact herror
        | some s => exact answers_ok hroom
      · rw [if_neg hp, if_neg hp]
        exact herror

theorem gpioRead_answers (hroom : 2039 ≤ room) (hcap : room ≤ replyCap) (hhws : f.hws = true)
    (hpin : arg "pin".toList = some pin) :
    Answers room (serve f P flash arg .gpioRead w) w (MqttExec.gpioRead P pin w) := by
  have herror : Answers room none w (errReply "bad pin", w) :=
    answers_error hroom _ (by decide) (by decide)
  simp only [serve, denoted, hpin, Option.bind_eq_bind, Option.bind_some]
  unfold MqttExec.gpioRead
  cases parseUnsigned u32Max pin with
  | none => exact herror
  | some p =>
    simp only [Option.bind_some, hhws, if_true, perform]
    by_cases hp : p ≤ 255
    · rw [if_pos hp, if_pos hp]
      cases P.gpioRead p.toUInt8 w.peri with
      | none => exact herror
      | some r =>
        have hlevel : byteLen (digits r.1.toNat) ≤ 1 := by
          apply byteLen_digits _ Nat.one_pos
          cases r.1 <;> decide
        have hname : byteLen "level".toList = 5 := by decide
        apply answers_member hcap (by decide)
        rw [hname]
        exact Nat.le_trans (Nat.add_le_add_left hlevel _) (Nat.le_trans (by decide) hroom)
    · rw [if_neg hp, if_neg hp]
      exact herror

theorem adcMv_answers (hroom : 2039 ≤ room) (hcap : room ≤ replyCap) (mv : UInt16) :
    Answers room (some ([("mv".toList, .num (.ofNat mv.toNat))], w)) w
      ((write replyCap [] (formatArgs ["\"ok\":true,\"mv\":".toList] [digits mv.toNat])).1, w) := by
  have hmv : byteLen (digits mv.toNat) ≤ 5 :=
    byteLen_digits (Nat.lt_trans mv.toNat_lt (by decide)) (by decide)
  have hname : byteLen "mv".toList = 2 := by decide
  apply answers_member hcap (by decide)
  rw [hname]
  exact Nat.le_trans (Nat.add_le_add_left hmv _) (Nat.le_trans (by decide) hroom)

theorem adcRead_answers (hroom : 2039 ≤ room) (hcap : room ≤ replyCap) (hhws : f.hws = true)
    (hch : arg "ch".toList = some ch) (hbyte : ∀ c, parseUnsigned u32Max ch = some c → 255 < c →
      P.adcReadMv c.toUInt8 w.peri = none) :
    Answers room (serve f P flash arg .adcRead w) w (MqttExec.adcRead P ch w) := by
  have herror : Answers room none w (errReply "bad channel", w) :=
    answers_error hroom _ (by decide) (by decide)
  simp only [serve, denoted, hch, Option.bind_eq_bind, Option.bind_some]
  unfold MqttExec.adcRead
  cases hparse : parseUnsigned u32Max ch with
  | none => exact herror
  | some c =>
    simp only [Option.bind_some, hhws, if_true, perform]
    by_cases hc : c ≤ 255
    · rw [if_pos hc]
      cases P.adcReadMv c.toUInt8 w.peri with
      | none => exact herror
      | some mv => exact adcMv_answers hroom hcap mv
    · rw [if_neg hc, hbyte c hparse (Nat.lt_of_not_le hc)]
      exact herror

theorem ledStatus_answers (hroom : 2039 ≤ room) (hcap : room ≤ replyCap)
    (hcolor : arg "color".toList = some []) :
    Answers room (serve f P flash arg .led w) w (MqttExec.led f P [] w) := by
  obtain ⟨r, g, b, mode, hled⟩ : ∃ r g b mode, P.ledCurrent w.peri = ((r, g, b), mode) :=
    ⟨_, _, _, _, rfl⟩
  have hdenoted : denoted f arg .led = some .ledStatus := by
    simp only [denoted, hcolor, Option.bind_eq_bind, Option.bind_some, List.isEmpty_nil, if_true]
  have hformat : ["\"ok\":true,\"r\":".toList, ",\"g\":".toList, ",\"b\":".toList,
      ",\"mode\":\"".toList, "\"".toList] =
        [front "r".toList, ',' :: (quoted "g".toList ++ [':']), ',' :: (quoted "b".toList ++ [':']),
          ',' :: (quoted "mode".toList ++ [':', '"']), ['"']] := by decide
  have hsize : byteLen ["\"ok\":true,\"r\":".toList, ",\"g\":".toList, ",\"b\":".toList,
      ",\"mode\":\"".toList, "\"".toList].flatten = 34 := by decide
  have hargs : byteLen [digits r.toNat, digits g.toNat, digits b.toNat, mode.text].flatten ≤ 15 := by
    have hbyte : ∀ n : UInt8, byteLen (digits n.toNat) ≤ 3 := fun n =>
      byteLen_digits (Nat.lt_trans n.toNat_lt (by decide)) (by decide)
    have hmode : byteLen mode.text ≤ 6 := by
      cases mode <;> decide
    exact byteLen_flatten_le (.cons (hbyte r) (.cons (hbyte g) (.cons (hbyte b) (.cons hmode .nil))))
  rw [serve_eq hdenoted, perform, MqttExec.led, List.isEmpty_nil, if_pos rfl, hled]
  apply answers_write hcap
  · rw [hformat]
    simp only [formatArgs, body, joined, member, front, quoted, render, digits, List.map_cons,
      List.map_nil, List.flatMap_cons, List.flatMap_nil, List.flatten_cons, List.flatten_nil,
      List.append_assoc, List.cons_append, List.nil_append, List.append_nil, Json.Number.text_ofNat]
  · rw [byteLen_formatArgs, hsize]
    exact Nat.le_trans (Nat.add_le_add_left hargs _) (Nat.le_trans (by decide) hroom)

theorem led_answers (hroom : 2039 ≤ room) (hcap : room ≤ replyCap)
    (hcolor : arg "color".toList = some color) :
    Answers room (serve f P flash arg .led w) w (MqttExec.led f P color w) := by
  cases color with
  | nil => exact ledStatus_answers hroom hcap hcolor
  | cons c color =>
    simp only [serve, denoted, hcolor, Option.bind_eq_bind, Option.bind_some, List.isEmpty_cons,
      Bool.false_eq_true, if_false]
    unfold MqttExec.led
    rw [List.isEmpty_cons, if_neg Bool.false_ne_true]
    cases hled : f.ledColor with
    | false => exact answers_error hroom _ (by decide) (by decide)
    | true =>
      simp only [Bool.not_true, Bool.false_eq_true, if_false, if_true]
      cases parseColor (c :: color) with
      | none => exact answers_error hroom _ (by decide) (by decide)
      | some act => exact answers_ok hroom

end Hardware

section Keyboard

variable {f : Features} {P : Peripherals σ} {flash : Text → Bool} {arg : Text → Option Text} {room : ℕ}
  {w : World σ} {s : Text} {mods : ℕ}

theorem keyboardTap_answers (hroom : 2039 ≤ room) (hkbd : f.enabled = true) :
    Answers room (serve f P flash arg .keyboardTap w) w (MqttExec.keyboardTap P
      (number arg "k".toList 0) (number arg "mods".toList 0) (number arg "ms".toList 50) w) := by
  have herror : Answers room none w (errReply "bad args or busy", w) :=
    answers_error hroom _ (by decide) (by decide)
  simp only [serve, denoted, hkbd, if_true, MqttOps.tap, Option.bind_eq_bind]
  unfold MqttExec.keyboardTap
  cases number arg "k".toList 0 with
  | none => exact herror
  | some k =>
    cases number arg "mods".toList 0 with
    | none => exact herror
    | some m =>
      cases number arg "ms".toList 50 with
      | none => exact herror
      | some ms =>
        simp only [Option.bind_some]
        by_cases hbounds : k ≤ 255 ∧ m ≤ 255 ∧ ms ≤ 60000
        · rw [if_pos hbounds, if_pos hbounds]
          simp only [Option.bind_some, perform]
          cases P.post (.tap m.toUInt8 k.toUInt8 ms.toUInt32) w.peri with
          | none => exact herror
          | some s => exact answers_ok hroom
        · rw [if_neg hbounds, if_neg hbounds]
          exact herror

theorem keyboardText_empty (hs : arg "s".toList = some []) :
    serve f P flash arg .keyboardText w = none := by
  apply serve_none
  simp only [denoted, MqttOps.text, hs, Option.bind_eq_bind, Option.bind_some, List.isEmpty_nil,
    if_true, ite_self]

theorem keyboardText_answers (hroom : 2039 ≤ room) (hkbd : f.enabled = true)
    (hs : arg "s".toList = some s) (hgiven : s.isEmpty = false) :
    Answers room (serve f P flash arg .keyboardText w) w (MqttExec.keyboardText P s
      (number arg "ms".toList 40) (number arg "gap".toList 40) w) := by
  have herror : Answers room none w (errReply "bad args", w) :=
    answers_error hroom _ (by decide) (by decide)
  simp only [serve, denoted, hkbd, if_true, MqttOps.text, hs, Option.bind_eq_bind, Option.bind_some,
    hgiven, Bool.false_eq_true, if_false]
  unfold MqttExec.keyboardText
  cases number arg "ms".toList 40 with
  | none => exact herror
  | some ms =>
    cases number arg "gap".toList 40 with
    | none => exact herror
    | some gap =>
      simp only [Option.bind_some]
      by_cases hfits : (String.ofList s).utf8ByteSize ≤ Kb.textCapacity
      · rw [dif_pos hfits, dif_pos hfits]
        simp only [Option.bind_some, perform]
        cases P.post (.text (String.ofList s) ms.toUInt32 gap.toUInt32 hfits) w.peri with
        | none => exact answers_error hroom _ (by decide) (by decide)
        | some s => exact answers_ok hroom
      · rw [dif_neg hfits, dif_neg hfits]
        exact answers_error hroom _ (by decide) (by decide)

/-- Every key that is given is a number, or one of them is too large. -/
def KeysRead (arg : Text → Option Text) : Prop :=
  (∀ v ∈ keys arg, v ≠ none) ∨ ∃ n, some n ∈ keys arg ∧ 255 < n

theorem keyboardKey_answers (hroom : 2039 ≤ room) (hkbd : f.enabled = true)
    (hmods : number arg "mods".toList 0 = some mods) (hbyte : mods ≤ 255) (hread : KeysRead arg) :
    Answers room (serve f P flash arg .keyboardKey w) w (MqttExec.keyboardKey P mods (keys arg) w) := by
  have herror : Answers room none w (errReply "bad args or busy", w) :=
    answers_error hroom _ (by decide) (by decide)
  simp only [serve, denoted, hkbd, if_true, MqttOps.key, hmods, Option.bind_eq_bind,
    Option.bind_some, hbyte, true_and]
  unfold MqttExec.keyboardKey
  unfold KeysRead at hread
  generalize keys arg = ks at hread ⊢
  by_cases hlarge : ∃ n, some n ∈ ks ∧ 255 < n
  · obtain ⟨n, hmem, hn⟩ := hlarge
    have hbad : (ks.any fun v => v.any fun v => decide (255 < v)) = true :=
      Vector.any_eq_true'.mpr ⟨some n, hmem, decide_eq_true hn⟩
    have hall : ¬ (ks.all fun v => v.any fun v => decide (v ≤ 255)) = true := by
      intro h
      have hle := of_decide_eq_true (Vector.all_eq_true_iff_forall_mem.mp h (some n) hmem)
      omega
    dsimp only
    rw [if_neg hall, if_pos hbad]
    exact herror
  · -- then every key is a number that fits in a byte
    have hsmall : ∀ v ∈ ks, ∃ n, v = some n ∧ n ≤ 255 := by
      intro v hv
      obtain ⟨n, rfl⟩ := Option.ne_none_iff_exists'.mp
        ((hread.resolve_right hlarge) v hv)
      exact ⟨n, rfl, Nat.le_of_not_lt fun hn => hlarge ⟨n, hv, hn⟩⟩
    have hbad : ¬ (ks.any fun v => v.any fun v => decide (255 < v)) = true := by
      intro h
      obtain ⟨v, hv, hlt⟩ := Vector.any_eq_true'.mp h
      obtain ⟨n, rfl, hn⟩ := hsmall v hv
      have hlt := of_decide_eq_true hlt
      omega
    have hall : (ks.all fun v => v.any fun v => decide (v ≤ 255)) = true := by
      refine Vector.all_eq_true_iff_forall_mem.mpr fun v hv => ?_
      obtain ⟨n, rfl, hn⟩ := hsmall v hv
      exact decide_eq_true hn
    have hbytes : ks.map keyByte = ks.map fun v => (v.getD 0).toUInt8 := by
      refine Vector.map_congr_left fun v hv => ?_
      obtain ⟨n, rfl, hn⟩ := hsmall v hv
      exact if_pos hn
    dsimp only
    rw [if_pos hall, if_neg hbad, hbytes]
    simp only [Option.bind_some, perform]
    cases P.post (.hold ⟨mods.toUInt8, ks.map fun v => (v.getD 0).toUInt8⟩) w.peri with
    | none => exact herror
    | some s => exact answers_ok hroom

end Keyboard

section Tunnel

variable {f : Features} {P : Peripherals σ} {flash : Text → Bool} {arg : Text → Option Text} {room : ℕ}
  {w : World σ} {v : Text} {kvs : List (Text × Text)} {bad : Bool}

theorem tunnelStatus_answers (hroom : 2039 ≤ room) (hcap : room ≤ replyCap)
    (hstored : Stored w.registry) :
    Answers room (serve f P flash arg .tunnelStatus w) w (MqttExec.tunnelStatus f P w) := by
  unfold MqttExec.tunnelStatus
  cases hrathole : f.rathole with
  | false =>
    rw [serve_none (by simp only [denoted, hrathole, Bool.false_eq_true, if_false])]
    exact answers_error hroom _ (by decide) (by decide)
  | true =>
    have hdenoted : denoted f arg .tunnelStatus = some .tunnelStatus := by
      simp only [denoted, hrathole, if_true]
    obtain ⟨htext, hlen⟩ := statusJson_eq hstored.bounded hstored.retry (P.tunnel w.peri)
    have hformat : ["\"ok\":true,\"tunnels\":[".toList, "]".toList] =
        [front "tunnels".toList ++ ['['], [']']] := by decide
    have hsize : byteLen ["\"ok\":true,\"tunnels\":[".toList, "]".toList].flatten = 22 := by decide
    rw [serve_eq hdenoted, perform, Bool.not_true, if_neg Bool.false_ne_true]
    apply answers_write hcap
    · rw [hformat, htext, body_single]
      simp [formatArgs, render, Json.renderElements]
    · rw [byteLen_formatArgs, hsize, List.flatten_singleton]
      exact Nat.le_trans (Nat.add_le_add_left hlen _) (Nat.le_trans (by decide) hroom)

theorem setOne_answers (hroom : 2039 ≤ room) (key val : Text) (msg : String)
    (hverb : Verbatim msg.toList) (hlen : byteLen msg.toList ≤ 40) :
    Answers room ((setAll flash [(key, val)] w).map fun w => ([], w)) w
      (match cfgSet flash key val w with
        | (true, w) => (okReply, w)
        | (false, w) => (errReply msg, w)) := by
  cases haccepts : accepts flash (key, val) with
  | true =>
    have hset : setAll flash [(key, val)] w = some (cfgSet flash key val w).2 :=
      setAll_of_accepts (by simpa using haccepts) w
    rw [hset, cfgSet_of_accepts haccepts]
    exact answers_ok hroom
  | false =>
    rw [setAll_cons_of_not_accepts haccepts, cfgSet_of_not_accepts haccepts]
    exact answers_error hroom _ hverb hlen

theorem tunnelEnable_answers (hroom : 2039 ≤ room) (hv : arg "enable".toList = some v) :
    Answers room (serve f P flash arg .tunnelEnable w) w (MqttExec.tunnelEnable f flash v w) := by
  unfold MqttExec.tunnelEnable
  cases hrathole : f.rathole with
  | false =>
    rw [serve_none (by simp only [denoted, hrathole, Bool.false_eq_true, if_false])]
    exact answers_error hroom _ (by decide) (by decide)
  | true =>
    have hdenoted : denoted f arg .tunnelEnable = some (.tunnelEnable v) := by
      simp only [denoted, hrathole, if_true, hv, Option.map_some]
    rw [serve_eq hdenoted, perform, Bool.not_true, if_neg Bool.false_ne_true]
    exact setOne_answers hroom _ _ _ (by decide) (by decide)

theorem tunnelConnect_answers (hroom : 2039 ≤ room) (hrathole : f.rathole = true)
    (hid : idOk arg = true) :
    Answers room (serve f P flash arg .tunnelConnect w) w (MqttExec.tunnelConnect f P w) := by
  have hdenoted : denoted f arg .tunnelConnect = some .tunnelConnect := by
    simp only [denoted, hrathole, hid, Bool.and_self, if_true]
  rw [serve_eq hdenoted, perform, MqttExec.tunnelConnect, MqttExec.tunnelStart, hrathole,
    Bool.true_and]
  cases masterOn w.cfg && tunnelEnabled w.cfg && configured w.cfg with
  | true => exact answers_ok hroom
  | false => exact answers_error hroom _ (by decide) (by decide)

theorem tunnelDisconnect_answers (hroom : 2039 ≤ room) (hrathole : f.rathole = true)
    (hid : idOk arg = true) :
    Answers room (serve f P flash arg .tunnelDisconnect w) w (MqttExec.tunnelDisconnect P w) := by
  have hdenoted : denoted f arg .tunnelDisconnect = some .tunnelDisconnect := by
    simp only [denoted, hrathole, hid, Bool.and_self, if_true]
  rw [serve_eq hdenoted]
  exact answers_ok hroom

/-- The values that clear the settings of the tunnel. -/
theorem clearTable_valid :
    ∀ kv ∈ clearTable, ∃ k : Key, kv.1 = k.name ∧ (validate k kv.2).isOk = true := by
  simp only [clearTable, List.forall_mem_cons, List.not_mem_nil, false_implies, implies_true, and_true]
  exact ⟨⟨.tunnelServer, rfl, rfl⟩, ⟨.tunnelToken, rfl, rfl⟩, ⟨.tunnelService, rfl, rfl⟩,
    ⟨.tunnelLocal, rfl, rfl⟩, ⟨.tunnelAuto, rfl, rfl⟩, ⟨.tunnelRetry, rfl, rfl⟩,
    ⟨.tunnelEnable, rfl, rfl⟩⟩

theorem tunnelClear_answers (hroom : 2039 ≤ room) (hrathole : f.rathole = true)
    (hid : idOk arg = true) (hflash : ∀ kv ∈ clearTable, flash kv.1 = true) :
    Answers room (serve f P flash arg .tunnelClear w) w (MqttExec.tunnelClear P flash w) := by
  have hdenoted : denoted f arg .tunnelClear = some .tunnelClear := by
    simp only [denoted, hrathole, hid, Bool.and_self, if_true]
  have haccepts : ∀ kv ∈ clearTable, accepts flash kv = true := by
    rintro ⟨key, v⟩ hkv
    obtain ⟨k, rfl, hv⟩ := clearTable_valid _ hkv
    exact accepts_name (hflash _ hkv) hv
  rw [serve_eq hdenoted, perform, setAll_of_accepts haccepts]
  exact answers_ok hroom

def configLoop (flash : Text → Bool) (kvs : List (Text × Text)) (st : World σ × Bool) : World σ × Bool :=
  kvs.foldl (fun st kv => tunnelConfigStep flash st kv.1 kv.2) st

theorem configLoop_of_accepts (h : ∀ kv ∈ nonempty kvs, accepts flash kv = true) (w : World σ) :
    configLoop flash kvs (w, bad) =
      ((nonempty kvs).foldl (fun w kv => (cfgSet flash kv.1 kv.2 w).2) w, bad) := by
  induction kvs generalizing w with
  | nil => rfl
  | cons kv kvs ih =>
    rw [configLoop, List.foldl_cons, tunnelConfigStep]
    by_cases hempty : kv.2.isEmpty = true
    · have hskip : nonempty (kv :: kvs) = nonempty kvs := List.filter_cons_of_neg (by simp [hempty])
      rw [if_pos hempty, hskip]
      exact ih (hskip ▸ h) w
    · have hkeep : nonempty (kv :: kvs) = kv :: nonempty kvs :=
        List.filter_cons_of_pos (by simpa using hempty)
      rw [hkeep] at h ⊢
      rw [if_neg hempty, cfgSet_of_accepts (h kv List.mem_cons_self), List.foldl_cons,
        cfgSet_of_accepts (h kv List.mem_cons_self)]
      dsimp only
      rw [Bool.not_true, Bool.or_false]
      exact ih (fun kv' hkv => h kv' (List.mem_cons_of_mem _ hkv)) _

theorem configLoop_of_not_accepts (h : ∀ kv ∈ nonempty kvs, accepts flash kv = false) (w : World σ) :
    configLoop flash kvs (w, bad) = (w, bad || !(nonempty kvs).isEmpty) := by
  induction kvs generalizing bad with
  | nil => exact congrArg (w, ·) (Bool.or_false bad).symm
  | cons kv kvs ih =>
    rw [configLoop, List.foldl_cons, tunnelConfigStep]
    by_cases hempty : kv.2.isEmpty = true
    · have hskip : nonempty (kv :: kvs) = nonempty kvs := List.filter_cons_of_neg (by simp [hempty])
      rw [if_pos hempty, hskip]
      exact ih (hskip ▸ h)
    · have hkeep : nonempty (kv :: kvs) = kv :: nonempty kvs :=
        List.filter_cons_of_pos (by simpa using hempty)
      rw [hkeep] at h ⊢
      rw [if_neg hempty, cfgSet_of_not_accepts (h kv List.mem_cons_self)]
      dsimp only
      rw [Bool.not_false, Bool.or_true, List.isEmpty_cons, Bool.not_false, Bool.or_true]
      have hrest : configLoop flash kvs (w, true) = (w, true || !(nonempty kvs).isEmpty) :=
        ih fun kv' hkv => h kv' (List.mem_cons_of_mem _ hkv)
      rwa [Bool.true_or] at hrest

theorem tunnelConfig_answers (hroom : 2039 ≤ room) (hcap : room ≤ replyCap)
    (hstored : Stored w.registry) (hrathole : f.rathole = true) (hid : idOk arg = true)
    (hgiven : given arg = some (nonempty kvs))
    (hwhole : (∀ kv ∈ nonempty kvs, accepts flash kv = true) ∨
      ∀ kv ∈ nonempty kvs, accepts flash kv = false) :
    Answers room (serve f P flash arg .tunnelConfig w) w
      (tunnelConfigReply P (configLoop flash kvs (w, false))) := by
  have hdenoted : denoted f arg .tunnelConfig = some (.tunnelConfig (nonempty kvs)) := by
    simp only [denoted, hrathole, hid, Bool.and_self, if_true, hgiven, Option.map_some]
  have hall (h : ∀ kv ∈ nonempty kvs, accepts flash kv = true) :
      Answers room (serve f P flash arg .tunnelConfig w) w
        (tunnelConfigReply P (configLoop flash kvs (w, false))) := by
    have hname : byteLen "tunnel".toList = 6 := by decide
    have hafter := stored_foldl flash hstored (nonempty kvs)
    rw [serve_eq hdenoted, perform, setAll_of_accepts h, configLoop_of_accepts h]
    generalize (nonempty kvs).foldl (fun w kv => (cfgSet flash kv.1 kv.2 w).2) w = w₁ at hafter ⊢
    obtain ⟨htext, hlen⟩ := statusJson_eq hafter.bounded hafter.retry (P.tunnel w₁.peri)
    rw [tunnelConfigReply, if_neg Bool.false_ne_true, htext]
    rw [htext] at hlen
    apply answers_member hcap (by decide)
    rw [hname]
    exact Nat.le_trans (Nat.add_le_add_left hlen _) (Nat.le_trans (by decide) hroom)
  rcases hwhole with h | h
  · exact hall h
  · cases hkvs : nonempty kvs with
    | nil => exact hall (by rw [hkvs]; exact fun kv hkv => absurd hkv List.not_mem_nil)
    | cons kv rest =>
      rw [serve_eq hdenoted, perform, configLoop_of_not_accepts h, hkvs,
        setAll_cons_of_not_accepts (h kv (hkvs ▸ List.mem_cons_self))]
      exact answers_error hroom _ (by decide) (by decide)

end Tunnel

section Registry

variable {f : Features} {P : Peripherals σ} {flash : Text → Bool} {arg : Text → Option Text} {room : ℕ}
  {w : World σ} {key val query : Text}

theorem ability_answers (hroom : 2039 ≤ room) (hcap : room ≤ replyCap) :
    Answers room (serve f P flash arg .ability w) w (MqttExec.ability f w) := by
  have hname : byteLen "ability".toList = 7 := by decide
  have hlen : byteLen (abilityJson f) ≤ abilityCap := byteLen_write _ (Nat.zero_le _)
  rw [serve_eq rfl, perform, MqttExec.ability]
  rw [abilityJson_eq] at hlen ⊢
  apply answers_member hcap (by decide)
  rw [hname]
  exact Nat.le_trans (Nat.add_le_add_left hlen _) (Nat.le_trans (by decide) hroom)

theorem sysInfo_answers (hcap : room ≤ replyCap)
    (hfits : 17 + byteLen (render (sysInfoValue f w.cfg (P.ip w.peri) (P.mqttRunning w.peri))) ≤ room) :
    Answers room (serve f P flash arg .sysInfo w) w (MqttExec.sysInfo f P w) := by
  have hname : byteLen "info".toList = 4 := by decide
  have hinfo : sysInfoCap = replyCap := rfl
  rw [serve_eq rfl, perform, MqttExec.sysInfo, sysInfoJson_eq (by omega)]
  apply answers_member hcap (by decide)
  rw [hname]
  exact hfits

theorem configSet_answers (hroom : 2039 ≤ room) (hkey : arg "key".toList = some key)
    (hval : arg "val".toList = some val) :
    Answers room (serve f P flash arg .configSet w) w (MqttExec.configSet flash key val w) := by
  unfold MqttExec.configSet
  cases hempty : key.isEmpty with
  | true =>
    have hdenoted : denoted f arg .configSet = none := by
      simp only [denoted, hkey, hval, Option.bind_eq_bind, Option.bind_some, hempty, if_true]
    rw [serve_none hdenoted]
    exact answers_error hroom _ (by decide) (by decide)
  | false =>
    have hdenoted : denoted f arg .configSet = some (.configSet key val) := by
      simp only [denoted, hkey, hval, Option.bind_eq_bind, Option.bind_some, hempty,
        Bool.false_eq_true, if_false]
    rw [serve_eq hdenoted, perform, if_neg Bool.false_ne_true]
    exact setOne_answers hroom _ _ _ (by decide) (by decide)

theorem configGet_answers (hroom : 2039 ≤ room) (hcap : room ≤ replyCap)
    (hstored : Stored w.registry) (hkey : arg "key".toList = some key)
    (hquery : queryGet query "key".toList = some key) (hfits : ofStr scratchCap key = key) :
    ∃ out, (mqttConfigGet w.cfg query).map (fun inner => (inner, w)) = some out ∧
      Answers room (serve f P flash arg .configGet w) w out := by
  have hdenoted : denoted f arg .configGet = some (.configGet key) := by
    simp only [denoted, hkey, Option.map_some]
  refine ⟨_, by rw [mqttConfigGet, hquery, Option.map_some, Option.map_some], ?_⟩
  rw [serve_eq hdenoted, perform, hfits]
  unfold Config.get
  cases htable : tableDef.find? (fun k => k.name = key) with
  | none => exact answers_error hroom "unknown key" (by decide) (by decide)
  | some k =>
    dsimp only
    split_ifs with hflag
    · exact answers_error hroom "unknown key" (by decide) (by decide)
    · have hvalue : byteLen (getStr w.cfg k) ≤ 95 :=
        Nat.le_trans (hstored.bounded k) (by cases k <;> decide)
      have hformat : "\"ok\":true,\"value\":\"".toList = front "value".toList ++ ['"'] := by decide
      have hsize : byteLen "\"ok\":true,\"value\":\"".toList = 19 ∧ byteLen "\"".toList = 1 := by
        decide
      apply answers_write hcap
      · rw [hformat, body_single]
        simp [render, quoted]
      · simp only [List.flatten_cons, List.flatten_nil, byteLen_append, byteLen_nil]
        omega

theorem configList_answers (hroom : 2039 ≤ room) (hcap : room ≤ replyCap)
    (hstored : Stored w.registry) :
    Answers room (serve f P flash arg .configList w) w (mqttConfigList w.cfg, w) := by
  have hname : byteLen "keys".toList = 4 := by decide
  obtain ⟨htext, hlen⟩ := listJson_eq hstored.bounded
  rw [htext] at hlen
  rw [serve_eq rfl, perform, mqttConfigList, htext]
  apply answers_member hcap (by decide)
  rw [hname]
  exact Nat.le_trans (Nat.add_le_add_left hlen _) (Nat.le_trans (by decide) hroom)

end Registry

section Bluetooth

variable {f : Features} {P : Peripherals σ} {flash : Text → Bool} {arg : Text → Option Text} {room : ℕ}
  {w : World σ} {enable idx : Text}

theorem byteLen_macText (bytes : List UInt8) : byteLen (macText bytes) ≤ 17 :=
  byteLen_write _ (Nat.zero_le _)

theorem bleStatus_answers (hroom : 2039 ≤ room)
    (hstored : Stored w.registry) (hble : f.kbdBle = true) :
    Answers room (serve f P flash arg .bleStatus w) w (MqttExec.bleStatus P w) := by
  have hdenoted : denoted f arg .bleStatus = some .bleStatus := by
    simp only [denoted, hble, if_true]
  have hname : byteLen (getStr w.cfg .deviceName) ≤ 95 := hstored.bounded .deviceName
  have hformat : ["\"ok\":true,\"ble\":\x7b\"name\":\"".toList, "\",\"addr\":\"".toList,
      "\",\"advertising\":".toList, ",\"pairing_mode\":".toList, ",\"bonds\":[".toList] =
        [front "ble".toList ++ '\x7b' :: (quoted "name".toList ++ [':', '"']),
          '"' :: ',' :: (quoted "addr".toList ++ [':', '"']),
          '"' :: ',' :: (quoted "advertising".toList ++ [':']),
          ',' :: (quoted "pairing_mode".toList ++ [':']), ',' :: (quoted "bonds".toList ++ [':', '['])] := by
    decide
  have hsize : byteLen ["\"ok\":true,\"ble\":\x7b\"name\":\"".toList, "\",\"addr\":\"".toList,
      "\",\"advertising\":".toList, ",\"pairing_mode\":".toList, ",\"bonds\":[".toList].flatten = 77 := by
    decide
  have hend : byteLen "]\x7d".toList = 2 := by decide
  have hquote : byteLen ['"'] = 1 := by decide
  rw [serve_eq hdenoted, perform]
  unfold MqttExec.bleStatus
  generalize P.ble w.peri = b
  have hargs : byteLen [getStr w.cfg .deviceName, b.addrText, boolText !b.connected,
      boolText b.pairing].flatten ≤ 122 :=
    byteLen_flatten_le (.cons hname (.cons (byteLen_macText _) (.cons (byteLen_boolText _)
      (.cons (byteLen_boolText _) .nil))))
  have hlen : byteLen (formatArgs ["\"ok\":true,\"ble\":\x7b\"name\":\"".toList,
      "\",\"addr\":\"".toList, "\",\"advertising\":".toList, ",\"pairing_mode\":".toList,
      ",\"bonds\":[".toList] [getStr w.cfg .deviceName, b.addrText, boolText !b.connected,
        boolText b.pairing]).flatten ≤ 199 := by
    rw [byteLen_formatArgs, hsize]
    exact Nat.add_le_add_left hargs _
  have hreply : replyCap = 2560 := rfl
  dsimp only
  rw [write_fits (by rw [byteLen_nil]; omega), List.nil_append]
  cases hbond : b.bond with
  | none =>
    dsimp only
    rw [put_fits (by omega)]
    apply answers_text
    · rw [hformat, body_single, bleValue, hbond]
      simp [formatArgs, render, renderMembers, render_bool, quoted]
    · rw [byteLen_append, hend]
      omega
  | some a =>
    have haddr : byteLen (bondText a) ≤ 17 := byteLen_macText _
    have hitem : byteLen (formatArgs [['"'], ['"']] [bondText a]).flatten ≤ 19 := by
      rw [byteLen_formatArgs, List.flatten_singleton]
      exact Nat.add_le_add_left haddr 2
    dsimp only
    rw [write_fits (by omega), put_fits (by rw [byteLen_append]; omega)]
    apply answers_text
    · rw [hformat, body_single, bleValue, hbond]
      simp [formatArgs, render, renderMembers, Json.renderElements, render_bool, quoted]
    · rw [byteLen_append, byteLen_append, hend]
      omega

theorem blePair_answers (hroom : 2039 ≤ room) (hcap : room ≤ replyCap) (hble : f.kbdBle = true)
    (henable : pairArg arg = some enable) :
    Answers room (serve f P flash arg .blePair w) w (MqttExec.blePair P enable w) := by
  have hname : byteLen "pairing_mode".toList = 12 := by decide
  have hanswer : ∀ (s : σ), Answers room
      (some ([("pairing_mode".toList, .bool (P.ble s).pairing)], { w with peri := s })) w
        ((write replyCap [] (formatArgs ["\"ok\":true,\"pairing_mode\":".toList]
          [boolText (P.ble s).pairing])).1, { w with peri := s }) := by
    intro s
    have hlen := byteLen_boolText (P.ble s).pairing
    rw [← render_bool] at hlen ⊢
    apply answers_member hcap (by decide)
    rw [hname]
    exact Nat.le_trans (Nat.add_le_add_left hlen _) (Nat.le_trans (by decide) hroom)
  unfold MqttExec.blePair serve
  simp only [denoted, Option.bind_eq_bind, Option.bind_some, henable, hble, Bool.not_true,
    Bool.false_eq_true, if_false]
  by_cases hopen : enable = "1".toList ∨ enable = "true".toList
  · rw [if_pos hopen, if_pos hopen]
    exact hanswer _
  · rw [if_neg hopen, if_neg hopen]
    by_cases hclose : enable = "0".toList ∨ enable = "false".toList
    · rw [if_pos hclose, if_pos hclose]
      exact hanswer _
    · rw [if_neg hclose, if_neg hclose]
      exact answers_error hroom _ (by decide) (by decide)

theorem eraseBond_of_flash (hflash : flash "ble.bond".toList = true) (w : World σ) :
    eraseBond P flash w = some (clearBond P flash w) := by
  have haccepts : ∀ kv ∈ [("ble.bond".toList, ([] : Text))], accepts flash kv = true := by
    intro kv hkv
    rw [List.mem_singleton.mp hkv]
    exact accepts_name (k := .bleBond) hflash rfl
  rw [eraseBond, setAll_of_accepts haccepts, List.foldl_cons, List.foldl_nil, Option.map_some,
    clearBond]

theorem bleBondsDelete_answers (hroom : 2039 ≤ room) (hble : f.kbdBle = true)
    (hidx : arg "idx".toList = some idx)
    (hflash : (P.ble w.peri).bond ≠ none → flash "ble.bond".toList = true) :
    Answers room (serve f P flash arg .bleBondsDelete w) w (MqttExec.bleBondsDelete P flash idx w) := by
  have herror : Answers room none w (errReply "bad idx", w) :=
    answers_error hroom _ (by decide) (by decide)
  unfold MqttExec.bleBondsDelete
  by_cases hzero : idx = "0".toList
  · have hdenoted : denoted f arg .bleBondsDelete = some .bleBondsDelete :=
      if_pos ⟨hble, by rw [hidx, hzero]⟩
    rw [serve_eq hdenoted, perform]
    cases hbond : (P.ble w.peri).bond with
    | none =>
      rw [if_pos Option.isNone_none, if_pos (Or.inr Option.isNone_none)]
      exact herror
    | some a =>
      rw [eraseBond_of_flash (hflash (by rw [hbond]; exact Option.some_ne_none a)), if_neg (by simp),
        if_neg (by simp [hzero])]
      exact answers_ok hroom
  · have hdenoted : denoted f arg .bleBondsDelete = none :=
      if_neg fun h => hzero (Option.some.inj (hidx.symm.trans h.2))
    rw [serve_none hdenoted, if_pos (Or.inl hzero)]
    exact herror

theorem bleBondsClear_answers (hroom : 2039 ≤ room) (hble : f.kbdBle = true)
    (hflash : flash "ble.bond".toList = true) :
    Answers room (serve f P flash arg .bleBondsClear w) w (MqttExec.bleBondsClear P flash w) := by
  have hdenoted : denoted f arg .bleBondsClear = some .bleBondsClear := by
    simp only [denoted, hble, if_true]
  rw [serve_eq hdenoted, perform, eraseBond_of_flash hflash]
  exact answers_ok hroom

end Bluetooth

end AtNode.MqttOps
