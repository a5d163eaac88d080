import AtNode.Esp32.MqttOps

/-!
# Commands over MQTT are executed whole

A payload that is a text with a blank stands for a command. The command is executed whole when the
node is afterwards as the operation leaves it that the complete payload denotes, or as it was before,
and the reply is JSON with the request id and the result or an error.
-/

namespace AtNode.MqttWhole

open Config Heapless Query ConfigReplies Api Args MqttExec FullArgs MqttOps
open Json (Value Verbatim MembersVerbatim render parse quoted joined member)

variable {σ : Type}

section Law

variable (f : Features) (P : Peripherals σ) (flash : Text → Bool)

/-- The command that the complete payload stands for. -/
def request (payload : List UInt8) : Option Command := (Utf8.decode payload).bind splitCommand

def operation (c : Command) : Option Operation :=
  (Method.ofName c.method).bind (denoted f (fullArg c.query))

def result (c : Command) (w : World σ) : Option (Members × World σ) :=
  (operation f c).bind fun o => perform f P flash o w

/-- A reply to the request with the id. -/
def reply (reqid : Text) (ms : Members) : Value := .obj (("id".toList, .str reqid) :: ms)

/-- The command is executed whole, or refused and nothing happens; and it is answered. -/
def Whole (payload : List UInt8) (w : World σ) : Prop :=
  ∃ c text w', request payload = some c ∧ command f P flash payload w = some (some text, w') ∧
    ((∃ ms, result f P flash c w = some (ms, w') ∧ parse text = some (reply c.reqid (okMember :: ms))) ∨
      (w' = w ∧ ∃ msg, parse text = some (reply c.reqid (MqttOps.errBody msg))))

end Law

section Conditions

variable (f : Features) (P : Peripherals σ) (flash : Text → Bool)

/-- The modifiers fit in a byte. -/
def ModsOk (arg : Text → Option Text) : Prop := ∃ m, number arg "mods".toList 0 = some m ∧ m ≤ 255

/-- The arguments of a method that are looked at. -/
def Reads (arg : Text → Option Text) (key : Text) : Method → Prop
  | .gpioWrite => f.hws ∧ key ∈ ["pin".toList, "level".toList]
  | .gpioRead => f.hws ∧ key = "pin".toList
  | .led => key = "color".toList
  | .adcRead => f.hws ∧ key = "ch".toList
  | .tunnelEnable => key = "enable".toList
  | .tunnelConnect | .tunnelDisconnect | .tunnelClear => f.rathole ∧ key = "id".toList
  | .tunnelConfig => f.rathole ∧ (key = "id".toList ∨ idOk arg ∧ key ∈ configArgs.map Prod.fst)
  | .configSet => key ∈ ["key".toList, "val".toList]
  | .configGet => key = "key".toList
  | .keyboardTap => f.enabled ∧ key ∈ ["k".toList, "mods".toList, "ms".toList]
  | .keyboardText =>
    f.enabled ∧ (key = "s".toList ∨ arg "s".toList ≠ some [] ∧ key ∈ ["ms".toList, "gap".toList])
  | .keyboardKey => f.enabled ∧ (key = "mods".toList ∨ ModsOk arg ∧ key ∈ keyNames)
  | .blePair =>
    f.kbdBle ∧ (key = "enable".toList ∨ arg "enable".toList = some [] ∧ key = "start".toList)
  | .bleBondsDelete => f.kbdBle ∧ key = "idx".toList
  | .sysInfo | .tunnelStatus | .ability | .configList | .bleStatus | .bleBondsClear => False

/-- The arguments of a command that are looked at. -/
def ReadsArg (c : Command) (key : Text) : Prop :=
  match Method.ofName c.method with
  | some m => Reads f (fullArg c.query) key m
  | none => "tunnel/".toList.isPrefixOf c.method ∧ f.rathole ∧ key = "id".toList

/-- What the operation does to the settings is done to all of them or to none, and its result fits the
reply. -/
def Fits (reqid : Text) (w : World σ) : Operation → Prop
  | .sysInfo =>
    byteLen reqid + 27 +
      byteLen (render (sysInfoValue f w.cfg (P.ip w.peri) (P.mqttRunning w.peri))) ≤ replyCap
  | .tunnelConfig kvs => (∀ kv ∈ kvs, accepts flash kv = true) ∨ ∀ kv ∈ kvs, accepts flash kv = false
  | _ => True

/-- The firmware reads the command of the payload and its arguments as they are. -/
structure Intact (payload : List UInt8) (w : World σ) : Prop where
  short : payload.length ≤ payloadMax
  plain : ∀ c, request payload = some c → ∀ key, ReadsArg f c key → Plain c.query key
  fits : ∀ c o, request payload = some c → operation f c = some o → Fits f P flash c.reqid w o

/-- No failure of a step goes unnoticed: the number of a channel is not cut, and flash takes what is
erased. -/
def Noticed (w : World σ) : Operation → Prop
  | .adcRead ch => 255 < ch → P.adcReadMv ch.toUInt8 w.peri = none
  | .tunnelClear => ∀ kv ∈ clearTable, flash kv.1 = true
  | .bleBondsDelete => (P.ble w.peri).bond ≠ none → flash "ble.bond".toList = true
  | .bleBondsClear => flash "ble.bond".toList = true
  | _ => True

/-- A key that is no number is not taken for an empty one, unless the queue is full. -/
def KeysNoticed (w : World σ) (arg : Text → Option Text) : Prop :=
  ∀ m, number arg "mods".toList 0 = some m → m ≤ 255 →
    KeysRead arg ∨ P.post (.hold ⟨m.toUInt8, (keys arg).map keyByte⟩) w.peri = none

/-- A command that is refused by an error rather than answered by a false `ok`. -/
structure Sound (c : Command) (w : World σ) : Prop where
  noticed : ∀ o, operation f c = some o → Noticed P flash w o
  keys : c.method = Method.name .keyboardKey → f.enabled → KeysNoticed P w (fullArg c.query)

end Conditions

section Dispatch

variable {f : Features} {P : Peripherals σ} {flash : Text → Bool} {m : Method} {query : Text}
  {w : World σ}

theorem ofName_name (m : Method) : Method.ofName m.name = some m := by
  cases m <;> decide

theorem name_of_ofName {s : Text} (h : Method.ofName s = some m) : s = m.name := by
  have hsome := List.find?_some h
  exact (of_decide_eq_true hsome).symm

def isKeyboard : Method → Bool
  | .keyboardTap | .keyboardText | .keyboardKey => true
  | _ => false

def isBle : Method → Bool
  | .bleStatus | .blePair | .bleBondsDelete | .bleBondsClear => true
  | _ => false

def isTunnel : Method → Bool
  | .tunnelStatus | .tunnelEnable | .tunnelConnect | .tunnelDisconnect | .tunnelClear
  | .tunnelConfig => true
  | _ => false

def isHws : Method → Bool
  | .gpioWrite | .gpioRead | .adcRead => true
  | _ => false

theorem keyboard_isPrefixOf (m : Method) : "keyboard/".toList.isPrefixOf m.name = isKeyboard m := by
  cases m <;> decide

theorem ble_isPrefixOf (m : Method) : "ble/".toList.isPrefixOf m.name = isBle m := by
  cases m <;> decide

theorem tunnel_isPrefixOf (m : Method) : "tunnel/".toList.isPrefixOf m.name = isTunnel m := by
  cases m <;> decide

theorem hws_names (m : Method) : (m.name = Method.name .gpioWrite ∨ m.name = Method.name .gpioRead ∨
    m.name = Method.name .adcRead) ↔ isHws m = true := by
  cases m <;> decide

theorem mqttExec_hws (h : isHws m = true) (hhws : f.hws = false) :
    mqttExec f P flash m.name query w = some (errReply "hws disabled", w) := by
  rw [mqttExec, if_pos ⟨(hws_names m).mpr h, by rw [hhws]; rfl⟩]

theorem mqttExec_keyboard (h : isKeyboard m = true) : mqttExec f P flash m.name query w =
    if !f.enabled then some (errReply "kbd disabled", w) else keyboardExec P m.name query w := by
  have hhws : ¬ isHws m = true := by
    cases m <;> first | exact Bool.false_ne_true | cases h
  rw [mqttExec, if_neg fun hg => hhws ((hws_names m).mp hg.1), if_pos ((keyboard_isPrefixOf m).trans h)]

theorem mqttExec_ble (h : isBle m = true) : mqttExec f P flash m.name query w =
    if !f.kbdBle then some (errReply "ble disabled", w) else bleExec P flash m.name query w := by
  have hother : ¬ isHws m = true ∧ isKeyboard m = false := by
    cases m <;> first | exact ⟨Bool.false_ne_true, rfl⟩ | cases h
  rw [mqttExec, if_neg fun hg => hother.1 ((hws_names m).mp hg.1), keyboard_isPrefixOf, hother.2,
    if_neg Bool.false_ne_true, if_pos ((ble_isPrefixOf m).trans h)]

theorem mqttExec_other (hkeyboard : isKeyboard m = false) (hble : isBle m = false)
    (hhws : isHws m = true → f.hws = true) :
    mqttExec f P flash m.name query w = mqttMatch f P flash m.name query w := by
  have hguard : ¬ ((m.name = Method.name .gpioWrite ∨ m.name = Method.name .gpioRead ∨
      m.name = Method.name .adcRead) ∧ (!f.hws) = true) := by
    rintro ⟨hname, hoff⟩
    rw [hhws ((hws_names m).mp hname)] at hoff
    cases hoff
  rw [mqttExec, if_neg hguard, keyboard_isPrefixOf, hkeyboard, if_neg Bool.false_ne_true, ble_isPrefixOf,
    hble, if_neg Bool.false_ne_true]

theorem mqttExec_tunnel (htunnel : isTunnel m = true) (hm : m ≠ .tunnelStatus) (hm' : m ≠ .tunnelEnable) :
    mqttExec f P flash m.name query w =
      if f.rathole then tunnelExec f P flash m.name query w
      else some (errReply "tunnel disabled", w) := by
  have hother : isKeyboard m = false ∧ isBle m = false ∧ isHws m = false := by
    cases m <;> first | exact ⟨rfl, rfl, rfl⟩ | cases htunnel
  rw [mqttExec_other hother.1 hother.2.1 (fun h => absurd (h.symm.trans hother.2.2) (by decide)),
    mqttMatch, ofName_name, tunnel_isPrefixOf, htunnel, if_pos rfl]
  cases m <;> first | rfl | exact absurd rfl hm | exact absurd rfl hm' | cases htunnel

end Dispatch

section Arms

variable {f : Features} {P : Peripherals σ} {flash : Text → Bool} {query key : Text} {w : World σ}
  {room dflt : ℕ}

theorem argString_plain (h : Plain query key) :
    ∃ t, argString query key = some t ∧ fullArg query key = some t := by
  obtain ⟨t, hget, hfull, hfits⟩ := queryGet_plain h
  refine ⟨t, ?_, hfull⟩
  rw [argString, hget, Option.map_some, hfits]

theorem num_plain (h : Plain query key) :
    num query key dflt = some (number (fullArg query) key dflt) := by
  obtain ⟨t, hget, hfull, -⟩ := queryGet_plain h
  rw [num, hget, number, hfull]
  rfl

/-- The arm answers with the result of the operation. -/
def Served (f : Features) (P : Peripherals σ) (flash : Text → Bool) (room : ℕ) (query : Text)
    (w : World σ) (m : Method) : Prop :=
  ∃ out, mqttExec f P flash m.name query w = some out ∧
    Answers room (serve f P flash (fullArg query) m w) w out

theorem served_refused {m : Method} (hroom : 2039 ≤ room) (msg : String) (hverb : Verbatim msg.toList)
    (hlen : byteLen msg.toList ≤ 40) (hdenoted : denoted f (fullArg query) m = none)
    (hexec : mqttExec f P flash m.name query w = some (errReply msg, w)) :
    Served f P flash room query w m :=
  ⟨_, hexec, serve_none hdenoted w ▸ answers_error hroom _ hverb hlen⟩

theorem served_hws_off {m : Method} (hroom : 2039 ≤ room) (hm : isHws m = true)
    (hhws : f.hws = false) : Served f P flash room query w m := by
  apply served_refused hroom "hws disabled" (by decide) (by decide) _ (mqttExec_hws hm hhws)
  cases m <;> first
    | exact absurd hm Bool.false_ne_true
    | simp only [denoted, hhws, Bool.false_eq_true, if_false, Option.bind_eq_bind,
        Option.bind_fun_none]

theorem served_gpioWrite (hroom : 2039 ≤ room)
    (hplain : ∀ key, Reads f (fullArg query) key .gpioWrite → Plain query key) :
    Served f P flash room query w .gpioWrite := by
  cases hhws : f.hws with
  | false => exact served_hws_off hroom rfl hhws
  | true =>
    obtain ⟨pin, hpin, hfullpin⟩ := argString_plain (hplain _ ⟨hhws, List.mem_cons_self⟩)
    obtain ⟨level, hlevel, hfulllevel⟩ :=
      argString_plain (hplain _ ⟨hhws, List.mem_cons_of_mem _ List.mem_cons_self⟩)
    refine ⟨_, ?_, gpioWrite_answers hroom hhws hfullpin hfulllevel⟩
    rw [mqttExec_other rfl rfl fun _ => hhws, mqttMatch, ofName_name]
    simp only [hpin, hlevel, Option.bind_eq_bind, Option.bind_some, Option.pure_def]

theorem served_gpioRead (hroom : 2039 ≤ room) (hcap : room ≤ replyCap)
    (hplain : ∀ key, Reads f (fullArg query) key .gpioRead → Plain query key) :
    Served f P flash room query w .gpioRead := by
  cases hhws : f.hws with
  | false => exact served_hws_off hroom rfl hhws
  | true =>
    obtain ⟨pin, hpin, hfull, -⟩ := queryGet_plain (hplain _ ⟨hhws, rfl⟩)
    refine ⟨_, ?_, gpioRead_answers hroom hcap hhws hfull⟩
    rw [mqttExec_other rfl rfl fun _ => hhws, mqttMatch, ofName_name]
    simp only [hpin, Option.map_some]

theorem served_led (hroom : 2039 ≤ room) (hcap : room ≤ replyCap)
    (hplain : ∀ key, Reads f (fullArg query) key .led → Plain query key) :
    Served f P flash room query w .led := by
  obtain ⟨color, hcolor, hfull, -⟩ := queryGet_plain (hplain _ rfl)
  refine ⟨_, ?_, led_answers hroom hcap hfull⟩
  rw [mqttExec_other rfl rfl (fun h => by cases h), mqttMatch, ofName_name]
  simp only [hcolor, Option.map_some]

theorem served_adcRead (hroom : 2039 ≤ room) (hcap : room ≤ replyCap)
    (hplain : ∀ key, Reads f (fullArg query) key .adcRead → Plain query key)
    (hwhole : ∀ o, denoted f (fullArg query) .adcRead = some o → Noticed P flash w o) :
    Served f P flash room query w .adcRead := by
  cases hhws : f.hws with
  | false => exact served_hws_off hroom rfl hhws
  | true =>
    obtain ⟨ch, hch, hfull, -⟩ := queryGet_plain (hplain _ ⟨hhws, rfl⟩)
    have hbyte : ∀ c, parseUnsigned u32Max ch = some c → 255 < c →
        P.adcReadMv c.toUInt8 w.peri = none := by
      intro c hc
      apply hwhole (.adcRead c)
      simp only [denoted, hfull, hc, hhws, Option.bind_eq_bind, Option.bind_some, if_true]
    refine ⟨_, ?_, adcRead_answers hroom hcap hhws hfull hbyte⟩
    rw [mqttExec_other rfl rfl fun _ => hhws, mqttMatch, ofName_name]
    simp only [hch, Option.map_some]

theorem served_sysInfo {reqid : Text} (hcap : room ≤ replyCap) (hid : byteLen reqid + room = 2550)
    (hfits : ∀ o, denoted f (fullArg query) .sysInfo = some o → Fits f P flash reqid w o) :
    Served f P flash room query w .sysInfo := by
  have hfits : byteLen reqid + 27 +
      byteLen (render (sysInfoValue f w.cfg (P.ip w.peri) (P.mqttRunning w.peri))) ≤ replyCap :=
    hfits _ rfl
  have hreply : replyCap = 2560 := rfl
  refine ⟨_, ?_, sysInfo_answers hcap (by omega)⟩
  rw [mqttExec_other rfl rfl (fun h => by cases h), mqttMatch, ofName_name]

theorem served_tunnelStatus (hroom : 2039 ≤ room) (hcap : room ≤ replyCap)
    (hstored : Stored w.registry) : Served f P flash room query w .tunnelStatus := by
  refine ⟨_, ?_, tunnelStatus_answers hroom hcap hstored⟩
  rw [mqttExec_other rfl rfl (fun h => by cases h), mqttMatch, ofName_name]

theorem served_tunnelEnable (hroom : 2039 ≤ room)
    (hplain : ∀ key, Reads f (fullArg query) key .tunnelEnable → Plain query key) :
    Served f P flash room query w .tunnelEnable := by
  obtain ⟨v, hv, hfull⟩ := argString_plain (hplain _ rfl)
  refine ⟨_, ?_, tunnelEnable_answers hroom hfull⟩
  rw [mqttExec_other rfl rfl (fun h => by cases h), mqttMatch, ofName_name]
  simp only [hv, Option.map_some]

theorem served_ability (hroom : 2039 ≤ room) (hcap : room ≤ replyCap) :
    Served f P flash room query w .ability := by
  refine ⟨_, ?_, ability_answers hroom hcap⟩
  rw [mqttExec_other rfl rfl (fun h => by cases h), mqttMatch, ofName_name]

theorem served_configSet (hroom : 2039 ≤ room)
    (hplain : ∀ key, Reads f (fullArg query) key .configSet → Plain query key) :
    Served f P flash room query w .configSet := by
  obtain ⟨key, hkey, hfullkey⟩ := argString_plain (hplain _ List.mem_cons_self)
  obtain ⟨val, hval, hfullval⟩ := argString_plain (hplain _ (List.mem_cons_of_mem _ List.mem_cons_self))
  refine ⟨_, ?_, configSet_answers hroom hfullkey hfullval⟩
  rw [mqttExec_other rfl rfl (fun h => by cases h), mqttMatch, ofName_name]
  simp only [hkey, hval, Option.bind_eq_bind, Option.bind_some, Option.pure_def]

theorem served_configGet (hroom : 2039 ≤ room) (hcap : room ≤ replyCap)
    (hstored : Stored w.registry)
    (hplain : ∀ key, Reads f (fullArg query) key .configGet → Plain query key) :
    Served f P flash room query w .configGet := by
  obtain ⟨key, hkey, hfull, hfits⟩ := queryGet_plain (hplain _ rfl)
  obtain ⟨out, hout, hanswer⟩ := configGet_answers (f := f) hroom hcap hstored hfull hkey hfits
  refine ⟨out, ?_, hanswer⟩
  rw [mqttExec_other rfl rfl (fun h => by cases h), mqttMatch, ofName_name]
  exact hout

theorem served_configList (hroom : 2039 ≤ room) (hcap : room ≤ replyCap)
    (hstored : Stored w.registry) : Served f P flash room query w .configList := by
  refine ⟨_, ?_, configList_answers hroom hcap hstored⟩
  rw [mqttExec_other rfl rfl (fun h => by cases h), mqttMatch, ofName_name]

theorem served_keyboard_off {m : Method} (hroom : 2039 ≤ room) (hm : isKeyboard m = true)
    (hoff : f.enabled = false) : Served f P flash room query w m := by
  apply served_refused hroom "kbd disabled" (by decide) (by decide)
  · cases m <;> first
      | exact absurd hm Bool.false_ne_true
      | simp only [denoted, hoff, Bool.false_eq_true, if_false]
  · rw [mqttExec_keyboard hm, hoff, Bool.not_false, if_pos rfl]

theorem served_keyboardTap (hroom : 2039 ≤ room)
    (hplain : ∀ key, Reads f (fullArg query) key .keyboardTap → Plain query key) :
    Served f P flash room query w .keyboardTap := by
  cases henabled : f.enabled with
  | false => exact served_keyboard_off hroom rfl henabled
  | true =>
    have hk : Plain query "k".toList := hplain _ ⟨henabled, by decide⟩
    have hmods : Plain query "mods".toList := hplain _ ⟨henabled, by decide⟩
    have hms : Plain query "ms".toList := hplain _ ⟨henabled, by decide⟩
    refine ⟨_, ?_, keyboardTap_answers hroom henabled⟩
    rw [mqttExec_keyboard rfl, henabled, Bool.not_true, if_neg Bool.false_ne_true, keyboardExec,
      ofName_name]
    simp only [num_plain hk, num_plain hmods, num_plain hms, Option.bind_eq_bind, Option.bind_some,
      Option.pure_def]

theorem served_keyboardText (hroom : 2039 ≤ room)
    (hplain : ∀ key, Reads f (fullArg query) key .keyboardText → Plain query key) :
    Served f P flash room query w .keyboardText := by
  cases henabled : f.enabled with
  | false => exact served_keyboard_off hroom rfl henabled
  | true =>
    obtain ⟨s, hs, hfull, -⟩ := queryGet_plain (hplain _ ⟨henabled, Or.inl rfl⟩)
    cases hempty : s.isEmpty with
    | true =>
      rw [List.isEmpty_iff.mp hempty] at hs hfull
      have hnone : serve f P flash (fullArg query) .keyboardText w = none := keyboardText_empty hfull
      refine ⟨_, ?_, hnone ▸ answers_error hroom "missing s" (by decide) (by decide)⟩
      rw [mqttExec_keyboard rfl, henabled, Bool.not_true, if_neg Bool.false_ne_true, keyboardExec,
        ofName_name]
      simp only [hs, Option.bind_eq_bind, Option.bind_some, List.isEmpty_nil, if_true, Option.pure_def]
    | false =>
      have hgiven : fullArg query "s".toList ≠ some [] := by
        rw [hfull]
        intro h
        cases h
        cases hempty
      have hms : Plain query "ms".toList := hplain _ ⟨henabled, Or.inr ⟨hgiven, by decide⟩⟩
      have hgap : Plain query "gap".toList := hplain _ ⟨henabled, Or.inr ⟨hgiven, by decide⟩⟩
      refine ⟨_, ?_, keyboardText_answers hroom henabled hfull hempty⟩
      rw [mqttExec_keyboard rfl, henabled, Bool.not_true, if_neg Bool.false_ne_true, keyboardExec,
        ofName_name]
      simp only [hs, hempty, num_plain hms, num_plain hgap, Option.bind_eq_bind, Option.bind_some,
        Bool.false_eq_true, if_false, Option.pure_def]

theorem mqttExec_keyboardKey {m : ℕ} (henabled : f.enabled = true)
    (hplain : ∀ key, Reads f (fullArg query) key .keyboardKey → Plain query key)
    (hm : number (fullArg query) "mods".toList 0 = some m) (hbyte : m ≤ 255) :
    mqttExec f P flash (Method.name .keyboardKey) query w =
      some (keyboardKey P m (keys (fullArg query)) w) := by
  have hmods : Plain query "mods".toList := hplain _ ⟨henabled, Or.inl rfl⟩
  have hkey : ∀ key ∈ keyNames, Plain query key := fun key hkey =>
    hplain key ⟨henabled, Or.inr ⟨⟨m, hm, hbyte⟩, hkey⟩⟩
  have hfilter : (some m).filter (fun m => decide (m ≤ 255)) = some m :=
    Option.filter_eq_some_iff.mpr ⟨rfl, decide_eq_true hbyte⟩
  rw [mqttExec_keyboard rfl, henabled, Bool.not_true, if_neg Bool.false_ne_true, keyboardExec,
    ofName_name]
  simp only [num_plain hmods, num_plain (hkey "k0".toList (by decide)),
    num_plain (hkey "k1".toList (by decide)), num_plain (hkey "k2".toList (by decide)),
    num_plain (hkey "k3".toList (by decide)), num_plain (hkey "k4".toList (by decide)),
    num_plain (hkey "k5".toList (by decide)), Option.bind_eq_bind, Option.bind_some, hm, hfilter,
    Option.pure_def, keys]

theorem denoted_key_of_not_read (hread : ¬ KeysRead (fullArg query)) :
    denoted f (fullArg query) .keyboardKey = none := by
  have hall : ¬ ((keys (fullArg query)).all fun v => v.any fun v => decide (v ≤ 255)) = true := by
    intro h
    refine hread (Or.inl fun v hv hnone => ?_)
    have hany := Vector.all_eq_true_iff_forall_mem.mp h v hv
    rw [hnone] at hany
    cases hany
  simp only [denoted, MqttOps.key, Option.bind_eq_bind, hall, Bool.false_eq_true, and_false, if_false,
    Option.bind_fun_none, ite_self]

theorem served_keyboardKey (hroom : 2039 ≤ room)
    (hplain : ∀ key, Reads f (fullArg query) key .keyboardKey → Plain query key)
    (hkeys : f.enabled → KeysNoticed P w (fullArg query)) :
    Served f P flash room query w .keyboardKey := by
  cases henabled : f.enabled with
  | false => exact served_keyboard_off hroom rfl henabled
  | true =>
    have hmods : Plain query "mods".toList := hplain _ ⟨henabled, Or.inl rfl⟩
    cases hnumber : (number (fullArg query) "mods".toList 0).filter fun m => decide (m ≤ 255) with
    | none =>
      apply served_refused hroom "bad args" (by decide) (by decide)
      · simp only [denoted, henabled, if_true, MqttOps.key, Option.bind_eq_bind]
        rw [Option.bind_eq_none_iff]
        intro m hm
        rw [hm, Option.filter_eq_none_iff] at hnumber
        exact if_neg fun h => hnumber m rfl (decide_eq_true h.1)
      · rw [mqttExec_keyboard rfl, henabled, Bool.not_true, if_neg Bool.false_ne_true, keyboardExec,
          ofName_name]
        simp only [num_plain hmods, Option.bind_eq_bind, Option.bind_some, hnumber, Option.pure_def]
    | some m =>
      obtain ⟨hm, hbyte⟩ := Option.filter_eq_some_iff.mp hnumber
      have hbyte : m ≤ 255 := of_decide_eq_true hbyte
      have hexec : mqttExec f P flash (Method.name .keyboardKey) query w =
          some (keyboardKey P m (keys (fullArg query)) w) := mqttExec_keyboardKey henabled hplain hm hbyte
      by_cases hread : KeysRead (fullArg query)
      · exact ⟨_, hexec, keyboardKey_answers hroom henabled hm hbyte hread⟩
      · have hfull := (hkeys henabled m hm hbyte).resolve_left hread
        apply served_refused hroom "bad args or busy" (by decide) (by decide)
        · exact denoted_key_of_not_read hread
        · rw [hexec, keyboardKey, hfull, ite_self]

/-- The id of a tunnel is read before anything is done. -/
theorem tunnelExec_badId {method : Text} (hid : Plain query "id".toList)
    (hbad : idOk (fullArg query) = false) :
    tunnelExec f P flash method query w = some (errReply "invalid id", w) := by
  obtain ⟨id, hget, hfull, -⟩ := queryGet_plain hid
  have hguard : (!id.isEmpty) = true ∧ id ≠ "1".toList := by
    rw [idOk, hfull, Bool.or_eq_false_iff, decide_eq_false_iff_not, decide_eq_false_iff_not] at hbad
    refine ⟨?_, fun h => hbad.2 (congrArg some h)⟩
    rw [Bool.not_eq_true', List.isEmpty_eq_false_iff]
    exact fun h => hbad.1 (congrArg some h)
  simp only [tunnelExec, hget, Option.bind_eq_bind, Option.bind_some, if_pos hguard, Option.pure_def]

theorem tunnelExec_idOk (hid : Plain query "id".toList) (hok : idOk (fullArg query) = true) :
    ∃ id, queryGet query "id".toList = some id ∧ ¬ ((!id.isEmpty) = true ∧ id ≠ "1".toList) := by
  obtain ⟨id, hget, hfull, -⟩ := queryGet_plain hid
  refine ⟨id, hget, ?_⟩
  rintro ⟨hne, hone⟩
  rw [idOk, hfull, Bool.or_eq_true, decide_eq_true_iff, decide_eq_true_iff, Option.some.injEq,
    Option.some.injEq] at hok
  rcases hok with rfl | rfl
  · cases hne
  · exact hone rfl

theorem served_tunnel {m : Method} (hroom : 2039 ≤ room) (hm : isTunnel m = true)
    (hstatus : m ≠ .tunnelStatus) (henable : m ≠ .tunnelEnable)
    (hid : f.rathole = true → Plain query "id".toList)
    (hserve : f.rathole = true → idOk (fullArg query) = true → ∀ id,
      queryGet query "id".toList = some id → ¬ ((!id.isEmpty) = true ∧ id ≠ "1".toList) →
        ∃ out, tunnelExec f P flash m.name query w = some out ∧
          Answers room (serve f P flash (fullArg query) m w) w out) :
    Served f P flash room query w m := by
  have hexec : mqttExec f P flash m.name query w =
      if f.rathole then tunnelExec f P flash m.name query w
      else some (errReply "tunnel disabled", w) := mqttExec_tunnel hm hstatus henable
  cases hon : f.rathole with
  | false =>
    apply served_refused hroom "tunnel disabled" (by decide) (by decide)
    · cases m <;> first
        | exact absurd hm Bool.false_ne_true
        | simp only [denoted, hon, Bool.false_and, Bool.false_eq_true, if_false]
    · rw [hexec, hon, if_neg Bool.false_ne_true]
  | true =>
    rw [hon, if_pos rfl] at hexec
    cases hok : idOk (fullArg query) with
    | false =>
      apply served_refused hroom "invalid id" (by decide) (by decide)
      · cases m <;> first
          | exact absurd hm Bool.false_ne_true
          | exact absurd rfl hstatus
          | exact absurd rfl henable
          | simp only [denoted, hok, Bool.and_false, Bool.false_eq_true, if_false]
      · rw [hexec, tunnelExec_badId (hid hon) hok]
    | true =>
      obtain ⟨id, hget, hguard⟩ := tunnelExec_idOk (hid hon) hok
      obtain ⟨out, hout, hanswer⟩ := hserve hon hok id hget hguard
      exact ⟨out, hexec.trans hout, hanswer⟩

theorem served_tunnelConnect (hroom : 2039 ≤ room)
    (hplain : ∀ key, Reads f (fullArg query) key .tunnelConnect → Plain query key) :
    Served f P flash room query w .tunnelConnect := by
  apply served_tunnel hroom rfl (by decide) (by decide) fun hon => hplain _ ⟨hon, rfl⟩
  intro hon hok id hget hguard
  refine ⟨_, ?_, tunnelConnect_answers hroom hon hok⟩
  rw [tunnelExec, hget, ofName_name]
  simp only [Option.bind_eq_bind, Option.bind_some, if_neg hguard, Option.pure_def]

theorem served_tunnelDisconnect (hroom : 2039 ≤ room)
    (hplain : ∀ key, Reads f (fullArg query) key .tunnelDisconnect → Plain query key) :
    Served f P flash room query w .tunnelDisconnect := by
  apply served_tunnel hroom rfl (by decide) (by decide) fun hon => hplain _ ⟨hon, rfl⟩
  intro hon hok id hget hguard
  refine ⟨_, ?_, tunnelDisconnect_answers hroom hon hok⟩
  rw [tunnelExec, hget, ofName_name]
  simp only [Option.bind_eq_bind, Option.bind_some, if_neg hguard, Option.pure_def]

theorem served_tunnelClear (hroom : 2039 ≤ room)
    (hplain : ∀ key, Reads f (fullArg query) key .tunnelClear → Plain query key)
    (hwhole : ∀ o, denoted f (fullArg query) .tunnelClear = some o → Noticed P flash w o) :
    Served f P flash room query w .tunnelClear := by
  apply served_tunnel hroom rfl (by decide) (by decide) fun hon => hplain _ ⟨hon, rfl⟩
  intro hon hok id hget hguard
  have hflash : ∀ kv ∈ clearTable, flash kv.1 = true := by
    apply hwhole .tunnelClear
    simp only [denoted, hon, hok, Bool.and_self, if_true]
  refine ⟨_, ?_, tunnelClear_answers hroom hon hok hflash⟩
  rw [tunnelExec, hget, ofName_name]
  simp only [Option.bind_eq_bind, Option.bind_some, if_neg hguard, Option.pure_def]

theorem foldlM_tunnelConfigStep (flash : Text → Bool) (args : List (Text × Text)) (h : ∀ a ∈ args, Plain query a.1)
    (st : World σ × Bool) :
    ∃ kvs, args.foldlM (fun st a => (argString query a.1).map (tunnelConfigStep flash st a.2)) st =
        some (configLoop flash kvs st) ∧
      args.mapM (fun a => (fullArg query a.1).map fun v => (a.2, v)) = some kvs := by
  induction args generalizing st with
  | nil => exact ⟨[], rfl, rfl⟩
  | cons a args ih =>
    obtain ⟨v, harg, hfull⟩ := argString_plain (h a List.mem_cons_self)
    obtain ⟨kvs, hfold, hmap⟩ := ih (fun b hb => h b (List.mem_cons_of_mem _ hb))
      (tunnelConfigStep flash st a.2 v)
    refine ⟨(a.2, v) :: kvs, ?_, ?_⟩
    · rw [List.foldlM_cons, harg, Option.map_some, Option.bind_eq_bind, Option.bind_some, hfold]
      rfl
    · rw [List.mapM_cons, hfull, Option.map_some, Option.bind_eq_bind, Option.bind_some, hmap]
      rfl

theorem served_tunnelConfig {reqid : Text} (hroom : 2039 ≤ room) (hcap : room ≤ replyCap)
    (hstored : Stored w.registry)
    (hplain : ∀ key, Reads f (fullArg query) key .tunnelConfig → Plain query key)
    (hfits : ∀ o, denoted f (fullArg query) .tunnelConfig = some o → Fits f P flash reqid w o) :
    Served f P flash room query w .tunnelConfig := by
  apply served_tunnel hroom rfl (by decide) (by decide) fun hon => hplain _ ⟨hon, Or.inl rfl⟩
  intro hon hok id hget hguard
  obtain ⟨kvs, hfold, hmap⟩ := foldlM_tunnelConfigStep flash configArgs (fun a ha =>
    hplain a.1 ⟨hon, Or.inr ⟨hok, List.mem_map_of_mem ha⟩⟩) (w, false)
  have hgiven : given (fullArg query) = some (nonempty kvs) := by
    rw [given, hmap, Option.map_some]
  have hparts : Fits f P flash reqid w (.tunnelConfig (nonempty kvs)) := by
    apply hfits
    simp only [denoted, hon, hok, hgiven, Bool.and_self, if_true, Option.map_some]
  refine ⟨_, ?_, tunnelConfig_answers hroom hcap hstored hon hok hgiven hparts⟩
  rw [tunnelExec, hget, ofName_name]
  simp only [Option.bind_eq_bind, Option.bind_some, if_neg hguard, hfold, Option.pure_def]

theorem served_ble_off {m : Method} (hroom : 2039 ≤ room) (hm : isBle m = true)
    (hoff : f.kbdBle = false) : Served f P flash room query w m := by
  apply served_refused hroom "ble disabled" (by decide) (by decide)
  · cases m <;> first
      | exact absurd hm Bool.false_ne_true
      | simp only [denoted, hoff, Bool.false_eq_true, false_and, if_false, Bool.not_false, if_true,
          Option.bind_eq_bind, Option.bind_fun_none]
  · rw [mqttExec_ble hm, hoff, Bool.not_false, if_pos rfl]

theorem served_bleStatus (hroom : 2039 ≤ room) (hstored : Stored w.registry) :
    Served f P flash room query w .bleStatus := by
  cases hon : f.kbdBle with
  | false => exact served_ble_off hroom rfl hon
  | true =>
    refine ⟨_, ?_, bleStatus_answers hroom hstored hon⟩
    rw [mqttExec_ble rfl, hon, Bool.not_true, if_neg Bool.false_ne_true, bleExec, ofName_name]

theorem pairArg_plain (hplain : ∀ key, key = "enable".toList ∨
      fullArg query "enable".toList = some [] ∧ key = "start".toList → Plain query key) :
    ∃ enable, pairArg (queryGet query) = some enable ∧ pairArg (fullArg query) = some enable := by
  obtain ⟨enable, hget, hfull, -⟩ := queryGet_plain (hplain _ (Or.inl rfl))
  cases hempty : enable.isEmpty with
  | false =>
    refine ⟨enable, ?_, ?_⟩
    · rw [pairArg, hget, Option.bind_some, hempty, if_neg Bool.false_ne_true]
    · rw [pairArg, hfull, Option.bind_some, hempty, if_neg Bool.false_ne_true]
  | true =>
    rw [List.isEmpty_iff.mp hempty] at hget hfull
    obtain ⟨start, hgetStart, hfullStart, -⟩ := queryGet_plain (hplain _ (Or.inr ⟨hfull, rfl⟩))
    refine ⟨start, ?_, ?_⟩
    · rw [pairArg, hget, Option.bind_some, List.isEmpty_nil, if_pos rfl, hgetStart]
    · rw [pairArg, hfull, Option.bind_some, List.isEmpty_nil, if_pos rfl, hfullStart]

theorem served_blePair (hroom : 2039 ≤ room) (hcap : room ≤ replyCap)
    (hplain : ∀ key, Reads f (fullArg query) key .blePair → Plain query key) :
    Served f P flash room query w .blePair := by
  cases hon : f.kbdBle with
  | false => exact served_ble_off hroom rfl hon
  | true =>
    obtain ⟨enable, hget, hfull⟩ := pairArg_plain fun key hkey => hplain key ⟨hon, hkey⟩
    refine ⟨_, ?_, blePair_answers hroom hcap hon hfull⟩
    rw [mqttExec_ble rfl, hon, Bool.not_true, if_neg Bool.false_ne_true, bleExec, ofName_name]
    simp only [hget, Option.map_some]

theorem served_bleBondsDelete (hroom : 2039 ≤ room)
    (hplain : ∀ key, Reads f (fullArg query) key .bleBondsDelete → Plain query key)
    (hwhole : ∀ o, denoted f (fullArg query) .bleBondsDelete = some o → Noticed P flash w o) :
    Served f P flash room query w .bleBondsDelete := by
  cases hon : f.kbdBle with
  | false => exact served_ble_off hroom rfl hon
  | true =>
    obtain ⟨idx, hget, hfull, -⟩ := queryGet_plain (hplain _ ⟨hon, rfl⟩)
    have hexec : mqttExec f P flash (Method.name .bleBondsDelete) query w =
        some (bleBondsDelete P flash idx w) := by
      rw [mqttExec_ble rfl, hon, Bool.not_true, if_neg Bool.false_ne_true, bleExec, ofName_name]
      simp only [hget, Option.bind_eq_bind, Option.bind_some, Option.pure_def]
    by_cases hzero : idx = "0".toList
    · have hflash : (P.ble w.peri).bond ≠ none → flash "ble.bond".toList = true :=
        hwhole .bleBondsDelete (if_pos ⟨hon, by rw [hfull, hzero]⟩)
      exact ⟨_, hexec, bleBondsDelete_answers hroom hon hfull hflash⟩
    · apply served_refused hroom "bad idx" (by decide) (by decide)
      · exact if_neg fun h => hzero (Option.some.inj (hfull.symm.trans h.2))
      · rw [hexec, bleBondsDelete, if_pos (Or.inl hzero)]

theorem served_bleBondsClear (hroom : 2039 ≤ room)
    (hwhole : ∀ o, denoted f (fullArg query) .bleBondsClear = some o → Noticed P flash w o) :
    Served f P flash room query w .bleBondsClear := by
  cases hon : f.kbdBle with
  | false => exact served_ble_off hroom rfl hon
  | true =>
    have hflash : flash "ble.bond".toList = true := by
      apply hwhole .bleBondsClear
      simp only [denoted, hon, if_true]
    refine ⟨_, ?_, bleBondsClear_answers hroom hon hflash⟩
    rw [mqttExec_ble rfl, hon, Bool.not_true, if_neg Bool.false_ne_true, bleExec, ofName_name]

theorem mqttExec_unknown {method : Text} (hmethod : Method.ofName method = none)
    (hid : "tunnel/".toList.isPrefixOf method = true → f.rathole = true → Plain query "id".toList) :
    ∃ msg : String, Verbatim msg.toList ∧ byteLen msg.toList ≤ 40 ∧
      mqttExec f P flash method query w = some (errReply msg, w) := by
  have hunknown : Verbatim "unknown method".toList ∧ byteLen "unknown method".toList ≤ 40 := by decide
  unfold mqttExec
  split_ifs with hhws hkeyboard henabled hble hkbdBle
  · exact ⟨"hws disabled", by decide, by decide, rfl⟩
  · exact ⟨"kbd disabled", by decide, by decide, rfl⟩
  · refine ⟨"unknown method", hunknown.1, hunknown.2, ?_⟩
    rw [keyboardExec, hmethod]
  · exact ⟨"ble disabled", by decide, by decide, rfl⟩
  · refine ⟨"unknown method", hunknown.1, hunknown.2, ?_⟩
    rw [bleExec, hmethod]
  · rw [mqttMatch, hmethod]
    dsimp only
    split_ifs with htunnel hrathole
    · cases hok : idOk (fullArg query) with
      | false => exact ⟨"invalid id", by decide, by decide, tunnelExec_badId (hid htunnel hrathole) hok⟩
      | true =>
        obtain ⟨id, hget, hguard⟩ := tunnelExec_idOk (hid htunnel hrathole) hok
        refine ⟨"unknown method", hunknown.1, hunknown.2, ?_⟩
        rw [tunnelExec, hget, hmethod]
        simp only [Option.bind_eq_bind, Option.bind_some, if_neg hguard, Option.pure_def]
    · exact ⟨"tunnel disabled", by decide, by decide, rfl⟩
    · exact ⟨"unknown method", hunknown.1, hunknown.2, rfl⟩

end Arms

section Dispatched

variable {f : Features} {P : Peripherals σ} {flash : Text → Bool} {query reqid : Text} {w : World σ}
  {room : ℕ} {c : Command}

/-- Every method of the table answers with the result of its operation. -/
theorem served_of_plain (m : Method) (hroom : 2039 ≤ room) (hid : byteLen reqid + room = 2550)
    (hstored : Stored w.registry)
    (hplain : ∀ key, Reads f (fullArg query) key m → Plain query key)
    (hfits : ∀ o, denoted f (fullArg query) m = some o → Fits f P flash reqid w o)
    (hwhole : ∀ o, denoted f (fullArg query) m = some o → Noticed P flash w o)
    (hkeys : m = .keyboardKey → f.enabled → KeysNoticed P w (fullArg query)) :
    Served f P flash room query w m := by
  have hreply : replyCap = 2560 := rfl
  have hcap : room ≤ replyCap := by omega
  cases m with
  | gpioWrite => exact served_gpioWrite hroom hplain
  | gpioRead => exact served_gpioRead hroom hcap hplain
  | led => exact served_led hroom hcap hplain
  | adcRead => exact served_adcRead hroom hcap hplain hwhole
  | sysInfo => exact served_sysInfo hcap hid hfits
  | tunnelStatus => exact served_tunnelStatus hroom hcap hstored
  | tunnelEnable => exact served_tunnelEnable hroom hplain
  | tunnelConnect => exact served_tunnelConnect hroom hplain
  | tunnelDisconnect => exact served_tunnelDisconnect hroom hplain
  | tunnelClear => exact served_tunnelClear hroom hplain hwhole
  | tunnelConfig => exact served_tunnelConfig hroom hcap hstored hplain hfits
  | ability => exact served_ability hroom hcap
  | configSet => exact served_configSet hroom hplain
  | configGet => exact served_configGet hroom hcap hstored hplain
  | configList => exact served_configList hroom hcap hstored
  | keyboardTap => exact served_keyboardTap hroom hplain
  | keyboardText => exact served_keyboardText hroom hplain
  | keyboardKey => exact served_keyboardKey hroom hplain (hkeys rfl)
  | bleStatus => exact served_bleStatus hroom hstored
  | blePair => exact served_blePair hroom hcap hplain
  | bleBondsDelete => exact served_bleBondsDelete hroom hplain hwhole
  | bleBondsClear => exact served_bleBondsClear hroom hwhole

theorem operation_eq {m : Method} (h : Method.ofName c.method = some m) :
    operation f c = denoted f (fullArg c.query) m := by
  rw [operation, h, Option.bind_some]

theorem denoted_configSet {arg : Text → Option Text} {key val : Text}
    (hkey : arg "key".toList = some key) (hval : arg "val".toList = some val)
    (hgiven : key.isEmpty = false) : denoted f arg .configSet = some (.configSet key val) := by
  simp only [denoted, hkey, hval, Option.bind_eq_bind, Option.bind_some, hgiven, Bool.false_eq_true,
    if_false]

/-- A sound command is answered with the result of its operation. -/
theorem mqttExec_answers (hroom : 2039 ≤ room) (hid : byteLen c.reqid + room = 2550)
    (hstored : Stored w.registry) (hplain : ∀ key, ReadsArg f c key → Plain c.query key)
    (hfits : ∀ o, operation f c = some o → Fits f P flash c.reqid w o) (hsound : Sound f P flash c w) :
    ∃ out, mqttExec f P flash c.method c.query w = some out ∧
      Answers room (result f P flash c w) w out := by
  cases hmethod : Method.ofName c.method with
  | none =>
    have hresult : result f P flash c w = none := by
      rw [result, operation, hmethod]
      rfl
    obtain ⟨msg, hverb, hlen, hexec⟩ := mqttExec_unknown (f := f) (P := P) (w := w) hmethod
      fun htunnel hrathole => hplain _ (by rw [ReadsArg, hmethod]; exact ⟨htunnel, hrathole, rfl⟩)
    exact ⟨_, hexec, hresult ▸ answers_error hroom msg hverb hlen⟩
  | some m =>
    have hname : c.method = m.name := name_of_ofName hmethod
    have hoperation : operation f c = denoted f (fullArg c.query) m := operation_eq hmethod
    obtain ⟨out, hexec, hanswer⟩ := served_of_plain m hroom hid hstored
      (fun key hkey => hplain key (by rw [ReadsArg, hmethod]; exact hkey))
      (fun o ho => hfits o (hoperation.trans ho)) (fun o ho => hsound.noticed o (hoperation.trans ho))
      (fun hm => hsound.keys (hname.trans (congrArg Method.name hm)))
    rw [result, hoperation, hname]
    exact ⟨out, hexec, hanswer⟩

/-- The operations that can fail in part, and their methods. -/
def lossyMethod : Operation → Option Method
  | .adcRead _ => some .adcRead
  | .tunnelClear => some .tunnelClear
  | .bleBondsDelete => some .bleBondsDelete
  | .bleBondsClear => some .bleBondsClear
  | _ => none

theorem method_of_denoted {arg : Text → Option Text} {m m' : Method} {o : Operation}
    (h : denoted f arg m = some o) (ho : lossyMethod o = some m') : m = m' := by
  cases m with
  | led =>
    simp only [denoted, Option.bind_eq_bind, Option.bind_eq_some_iff] at h
    obtain ⟨color, -, h⟩ := h
    split_ifs at h
    · cases h
      cases ho
    · obtain ⟨act, -, rfl⟩ := Option.map_eq_some_iff.mp h
      cases ho
  | _ =>
    simp only [denoted, MqttOps.tap, MqttOps.text, MqttOps.key, Option.bind_eq_bind,
      Option.ite_none_right_eq_some, Option.ite_none_left_eq_some, Option.bind_eq_some_iff,
      Option.map_eq_some_iff] at h
    grind [lossyMethod]

/-- The method answers as if something had been done that has no result. -/
def Overdone (f : Features) (P : Peripherals σ) (flash : Text → Bool) (room : ℕ) (query : Text)
    (w : World σ) (m : Method) : Prop :=
  ∃ ms w₁ out, mqttExec f P flash m.name query w = some out ∧ Answers room (some (ms, w₁)) w out ∧
    serve f P flash (fullArg query) m w = none

theorem overdone_adcRead {n : ℕ} (hroom : 2039 ≤ room) (hcap : room ≤ replyCap)
    (hplain : ∀ key, Reads f (fullArg query) key .adcRead → Plain query key)
    (hdenoted : denoted f (fullArg query) .adcRead = some (.adcRead n))
    (hlossy : ¬ Noticed P flash w (.adcRead n)) : Overdone f P flash room query w .adcRead := by
  obtain ⟨hlarge, hread⟩ := Classical.not_imp.mp hlossy
  obtain ⟨mv, hmv⟩ := Option.ne_none_iff_exists'.mp hread
  have hserve : serve f P flash (fullArg query) .adcRead w = none := by
    rw [serve_eq hdenoted, perform, if_neg (Nat.not_le_of_lt hlarge)]
  simp only [denoted, Option.bind_eq_bind, Option.bind_eq_some_iff, Option.ite_none_right_eq_some] at hdenoted
  obtain ⟨ch, hch, c, hc, hhws, heq⟩ := hdenoted
  cases heq
  obtain ⟨ch', hget, hfull, -⟩ := queryGet_plain (hplain _ ⟨hhws, rfl⟩)
  have hsame : ch' = ch := Option.some.inj (hfull.symm.trans hch)
  refine ⟨_, w, _, ?_, adcMv_answers hroom hcap mv, hserve⟩
  rw [mqttExec_other rfl rfl fun _ => hhws, mqttMatch, ofName_name]
  simp only [hget, Option.map_some, MqttExec.adcRead, hsame, hc, Option.bind_some, hmv]

theorem overdone_tunnelClear (hroom : 2039 ≤ room)
    (hplain : ∀ key, Reads f (fullArg query) key .tunnelClear → Plain query key)
    (hdenoted : denoted f (fullArg query) .tunnelClear = some .tunnelClear)
    (hlossy : ¬ Noticed P flash w .tunnelClear) : Overdone f P flash room query w .tunnelClear := by
  have hon : f.rathole = true ∧ idOk (fullArg query) = true := by
    simpa only [denoted, Option.ite_none_right_eq_some, Bool.and_eq_true, and_true] using hdenoted
  obtain ⟨id, hget, hguard⟩ := tunnelExec_idOk (hplain _ ⟨hon.1, rfl⟩) hon.2
  have hrefused : ∃ kv ∈ clearTable, accepts flash kv = false := by
    by_contra hall
    refine hlossy fun kv hkv => ?_
    by_contra hflash
    exact hall ⟨kv, hkv, accepts_of_flash (Bool.eq_false_of_not_eq_true hflash)⟩
  refine ⟨[], tunnelReset P flash w, _, ?_, answers_ok hroom, ?_⟩
  · rw [mqttExec_tunnel rfl (by decide) (by decide), hon.1, if_pos rfl, tunnelExec, hget, ofName_name]
    simp only [Option.bind_eq_bind, Option.bind_some, if_neg hguard, Option.pure_def]
    rfl
  · rw [serve_eq hdenoted, perform, setAll_of_not_accepts hrefused, Option.map_none]

theorem eraseBond_of_not_flash (h : ¬ flash "ble.bond".toList = true) (w : World σ) :
    eraseBond P flash w = none := by
  rw [eraseBond, setAll_cons_of_not_accepts (accepts_of_flash (Bool.eq_false_of_not_eq_true h)),
    Option.map_none]

theorem overdone_bleBondsDelete (hroom : 2039 ≤ room)
    (hplain : ∀ key, Reads f (fullArg query) key .bleBondsDelete → Plain query key)
    (hdenoted : denoted f (fullArg query) .bleBondsDelete = some .bleBondsDelete)
    (hlossy : ¬ Noticed P flash w .bleBondsDelete) :
    Overdone f P flash room query w .bleBondsDelete := by
  obtain ⟨hbond, hflash⟩ := Classical.not_imp.mp hlossy
  obtain ⟨hon, hidx⟩ : f.kbdBle = true ∧ fullArg query "idx".toList = some "0".toList := by
    simpa only [denoted, Option.ite_none_right_eq_some, and_true] using hdenoted
  obtain ⟨idx, hget, hfull, -⟩ := queryGet_plain (hplain _ ⟨hon, rfl⟩)
  have hzero : idx = "0".toList := Option.some.inj (hfull.symm.trans hidx)
  have hsome : ¬ (P.ble w.peri).bond.isNone = true := by
    rwa [Option.isNone_iff_eq_none]
  refine ⟨[], clearBond P flash w, _, ?_, answers_ok hroom, ?_⟩
  · rw [mqttExec_ble rfl, hon, Bool.not_true, if_neg Bool.false_ne_true, bleExec, ofName_name]
    have hguard : ¬ (idx ≠ "0".toList ∨ (P.ble w.peri).bond.isNone = true) :=
      not_or.mpr ⟨fun hne => hne hzero, hsome⟩
    simp only [hget, Option.bind_eq_bind, Option.bind_some, Option.pure_def, MqttExec.bleBondsDelete,
      if_neg hguard]
  · rw [serve_eq hdenoted, perform, if_neg hsome, eraseBond_of_not_flash hflash, Option.map_none]

theorem overdone_bleBondsClear (hroom : 2039 ≤ room)
    (hdenoted : denoted f (fullArg query) .bleBondsClear = some .bleBondsClear)
    (hlossy : ¬ Noticed P flash w .bleBondsClear) :
    Overdone f P flash room query w .bleBondsClear := by
  have hon : f.kbdBle = true := by
    simpa only [denoted, Option.ite_none_right_eq_some, and_true] using hdenoted
  refine ⟨[], clearBond P flash w, _, ?_, answers_ok hroom, ?_⟩
  · rw [mqttExec_ble rfl, hon, Bool.not_true, if_neg Bool.false_ne_true, bleExec, ofName_name]
    rfl
  · rw [serve_eq hdenoted, perform, eraseBond_of_not_flash hlossy, Option.map_none]

theorem overdone_keyboardKey (hroom : 2039 ≤ room)
    (hplain : ∀ key, Reads f (fullArg query) key .keyboardKey → Plain query key)
    (henabled : f.enabled = true) (hlossy : ¬ KeysNoticed P w (fullArg query)) :
    Overdone f P flash room query w .keyboardKey := by
  simp only [KeysNoticed, Classical.not_forall, not_or] at hlossy
  obtain ⟨m, hm, hbyte, hread, hpost⟩ := hlossy
  obtain ⟨s, hs⟩ := Option.ne_none_iff_exists'.mp hpost
  have hbad : ¬ ((keys (fullArg query)).any fun v => v.any fun v => decide (255 < v)) = true := by
    intro h
    obtain ⟨v, hv, hlt⟩ := Vector.any_eq_true'.mp h
    cases v with
    | none => cases hlt
    | some n => exact hread (Or.inr ⟨n, hv, of_decide_eq_true hlt⟩)
  refine ⟨[], { w with peri := s }, _, ?_, answers_ok hroom, serve_none (denoted_key_of_not_read hread) w⟩
  rw [mqttExec_keyboardKey henabled hplain hm hbyte, keyboardKey, if_neg hbad, hs]

/-- A command that is not sound is answered with `ok` though its operation has no result. -/
theorem overdone_of_not_sound (hroom : 2039 ≤ room) (hcap : room ≤ replyCap)
    (hplain : ∀ key, ReadsArg f c key → Plain c.query key) (h : ¬ Sound f P flash c w) :
    ∃ m, Method.ofName c.method = some m ∧ Overdone f P flash room c.query w m := by
  have hreads {m : Method} (hm : Method.ofName c.method = some m) :
      ∀ key, Reads f (fullArg c.query) key m → Plain c.query key := fun key hkey =>
    hplain key (by rw [ReadsArg, hm]; exact hkey)
  by_cases hnoticed : ∀ o, operation f c = some o → Noticed P flash w o
  · have hkeys : ¬ (c.method = Method.name .keyboardKey → f.enabled → KeysNoticed P w (fullArg c.query)) :=
      fun hkeys => h ⟨hnoticed, hkeys⟩
    obtain ⟨hmethod, hkeys⟩ := Classical.not_imp.mp hkeys
    obtain ⟨henabled, hlossy⟩ := Classical.not_imp.mp hkeys
    have hm : Method.ofName c.method = some .keyboardKey := hmethod ▸ ofName_name .keyboardKey
    exact ⟨_, hm, overdone_keyboardKey hroom (hreads hm) henabled hlossy⟩
  · obtain ⟨o, ho⟩ := Classical.not_forall.mp hnoticed
    obtain ⟨hdenoted, hlossy⟩ := Classical.not_imp.mp ho
    obtain ⟨m, hm, hdenoted⟩ := Option.bind_eq_some_iff.mp hdenoted
    refine ⟨m, hm, ?_⟩
    cases o with
    | adcRead n =>
      obtain rfl := method_of_denoted hdenoted rfl
      exact overdone_adcRead hroom hcap (hreads hm) hdenoted hlossy
    | tunnelClear =>
      obtain rfl := method_of_denoted hdenoted rfl
      exact overdone_tunnelClear hroom (hreads hm) hdenoted hlossy
    | bleBondsDelete =>
      obtain rfl := method_of_denoted hdenoted rfl
      exact overdone_bleBondsDelete hroom (hreads hm) hdenoted hlossy
    | bleBondsClear =>
      obtain rfl := method_of_denoted hdenoted rfl
      exact overdone_bleBondsClear hroom hdenoted hlossy
    | _ => exact absurd trivial hlossy

end Dispatched

section Replies

variable {f : Features} {P : Peripherals σ} {flash : Text → Bool} {payload : List UInt8}
  {reqid : Text} {w : World σ} {c : Command} {ms : Members}

theorem splitBlank_eq {s front rest : Text} (h : splitBlank s = some (front, rest)) :
    s = front ++ ' ' :: rest := by
  have hsplit := List.takeWhile_append_dropWhile (p := fun c => decide (c ≠ ' ')) (l := s)
  rw [splitBlank] at h
  cases hdrop : s.dropWhile fun c => decide (c ≠ ' ') with
  | nil =>
    rw [hdrop] at h
    cases h
  | cons b t =>
    have hb : b = ' ' := by
      have hhead := List.head?_dropWhile_not (fun c => decide (c ≠ ' ')) s
      rw [hdrop] at hhead
      simpa using hhead
    rw [hdrop] at h
    cases h
    rw [hdrop, hb] at hsplit
    exact hsplit.symm

theorem byteLen_reqid (hshort : payload.length ≤ payloadMax) (h : request payload = some c) :
    byteLen c.reqid ≤ 511 := by
  obtain ⟨text, hdecode, hsplit⟩ := Option.bind_eq_some_iff.mp h
  obtain ⟨⟨front, rest⟩, hblank, rfl⟩ := Option.map_eq_some_iff.mp hsplit
  have hlen : byteLen text = payload.length := by
    rw [← length_encode, Utf8.decode_eq_some_iff.mp hdecode]
  have hspace : ' '.utf8Size = 1 := by decide
  have hmax : payloadMax = 512 := rfl
  rw [splitBlank_eq hblank, byteLen_append, byteLen_cons, hspace] at hlen
  have hfront : byteLen front ≤ 511 := by omega
  dsimp only
  cases splitBlank rest <;> exact hfront

theorem command_of_request (hshort : payload.length ≤ payloadMax) (h : request payload = some c)
    (w : World σ) : command f P flash payload w =
      (mqttExec f P flash c.method c.query w).map fun r => (some (mqttResp c.reqid r.1), r.2) := by
  obtain ⟨text, hdecode, hsplit⟩ := Option.bind_eq_some_iff.mp h
  rw [command, List.take_of_length_le hshort, hdecode, Option.getD_some, hsplit]

theorem mqttResp_body (h : byteLen reqid + byteLen (body ms) ≤ 2550) (hne : ms ≠ []) :
    mqttResp reqid (body ms) = render (reply reqid ms) := by
  have hopen : "\x7b\"id\":\"".toList = '\x7b' :: (quoted "id".toList ++ [':', '"']) := by decide
  have hmid : "\",".toList = ['"', ','] := by decide
  cases ms with
  | nil => exact absurd rfl hne
  | cons m ms =>
    rw [mqttResp_eq h, hopen, hmid, reply, Json.render_obj, body]
    simp [joined, member, render, quoted]

theorem verbatim_reply : (reply reqid ms).Verbatim ↔ Verbatim reqid ∧ MembersVerbatim ms := by
  have hid : Verbatim "id".toList := by decide
  exact ⟨fun h => ⟨h.2.1, h.2.2⟩, fun h => ⟨hid, h.1, h.2⟩⟩

theorem errBody_ne_okMember {msg : Text} (h : parse (render (reply reqid (okMember :: ms))) =
    some (reply reqid (MqttOps.errBody msg))) : False := by
  have hbool := Json.bool_of_parse h
  cases hbool

theorem not_whole_of_overdone {m : Method} {room : ℕ} (hid : byteLen c.reqid + room = 2550)
    (hshort : payload.length ≤ payloadMax) (hrequest : request payload = some c)
    (hmethod : Method.ofName c.method = some m) (h : Overdone f P flash room c.query w m) :
    ¬ Whole f P flash payload w := by
  obtain ⟨ms, w₁, out, hexec, ⟨hlen, rfl⟩, hserve⟩ := h
  have hresult : result f P flash c w = none := by
    rw [result, operation, hmethod]
    exact hserve
  have htext : mqttResp c.reqid (body (okMember :: ms)) = render (reply c.reqid (okMember :: ms)) :=
    mqttResp_body (by dsimp only at hlen; omega) (List.cons_ne_nil _ _)
  rintro ⟨c', text, w', hc', hcommand, houtcome⟩
  obtain rfl : c = c' := Option.some.inj (hrequest.symm.trans hc')
  rw [command_of_request hshort hrequest, name_of_ofName hmethod, hexec, Option.map_some, htext]
    at hcommand
  cases hcommand
  rcases houtcome with ⟨ms', hms, -⟩ | ⟨-, msg, hparse⟩
  · rw [hresult] at hms
    cases hms
  · exact errBody_ne_okMember hparse

/-- A sound command is executed whole where its reply needs no escape. -/
theorem whole_iff_of_answers {room : ℕ} {out : Text × World σ} (hid : byteLen c.reqid + room = 2550)
    (hshort : payload.length ≤ payloadMax) (hrequest : request payload = some c)
    (hexec : mqttExec f P flash c.method c.query w = some out)
    (hanswer : Answers room (result f P flash c w) w out) :
    Whole f P flash payload w ↔ Verbatim c.reqid ∧
      ∀ ms w', result f P flash c w = some (ms, w') → MembersVerbatim ms := by
  obtain ⟨hlen, hanswer⟩ := hanswer
  have hcommand : command f P flash payload w = some (some (mqttResp c.reqid out.1), out.2) := by
    rw [command_of_request hshort hrequest, hexec, Option.map_some]
  cases hresult : result f P flash c w with
  | some r =>
    obtain ⟨ms, w₁⟩ := r
    rw [hresult] at hanswer
    obtain rfl : out = (body (okMember :: ms), w₁) := hanswer
    have hok : ∀ ms, MembersVerbatim (okMember :: ms) ↔ MembersVerbatim ms := by
      have hname : Verbatim "ok".toList := by decide
      exact fun ms => ⟨fun h => h.2.2, fun h => ⟨hname, trivial, h⟩⟩
    have htext : mqttResp c.reqid (body (okMember :: ms)) = render (reply c.reqid (okMember :: ms)) :=
      mqttResp_body (by dsimp only at hlen; omega) (List.cons_ne_nil _ _)
    rw [htext] at hcommand
    constructor
    · rintro ⟨c', text, w', hc', hcommand', houtcome⟩
      obtain rfl : c = c' := Option.some.inj (hrequest.symm.trans hc')
      rw [hcommand] at hcommand'
      cases hcommand'
      rcases houtcome with ⟨ms', hms, hparse⟩ | ⟨-, msg, hparse⟩
      · rw [hresult] at hms
        cases hms
        obtain ⟨hreqid, hmembers⟩ := verbatim_reply.mp ((Json.parse_render_iff _).mp hparse)
        refine ⟨hreqid, fun ms' w' hms => ?_⟩
        cases hms
        exact (hok ms).mp hmembers
      · exact absurd hparse fun h => errBody_ne_okMember h
    · rintro ⟨hreqid, hmembers⟩
      refine ⟨c, _, w₁, hrequest, hcommand, Or.inl ⟨ms, hresult, ?_⟩⟩
      exact (Json.parse_render_iff _).mpr
        (verbatim_reply.mpr ⟨hreqid, (hok ms).mpr (hmembers ms w₁ rfl)⟩)
  | none =>
    rw [hresult] at hanswer
    obtain ⟨msg, hverb, rfl⟩ : ∃ msg, Verbatim msg ∧ out = (body (MqttOps.errBody msg), w) := hanswer
    have htext : mqttResp c.reqid (body (MqttOps.errBody msg)) =
        render (reply c.reqid (MqttOps.errBody msg)) :=
      mqttResp_body (by dsimp only at hlen; omega) (List.cons_ne_nil _ _)
    rw [htext] at hcommand
    constructor
    · rintro ⟨c', text, w', hc', hcommand', houtcome⟩
      obtain rfl : c = c' := Option.some.inj (hrequest.symm.trans hc')
      rw [hcommand] at hcommand'
      cases hcommand'
      rcases houtcome with ⟨ms', hms, -⟩ | ⟨-, msg', hparse⟩
      · rw [hresult] at hms
        cases hms
      · refine ⟨?_, fun ms' w' hms => by cases hms⟩
        exact Json.verbatim_of_parse_head (v := .str c.reqid) hparse
    · rintro ⟨hreqid, -⟩
      have hmembers : MembersVerbatim (MqttOps.errBody msg) := by
        have hok : Verbatim "ok".toList := by decide
        have herror : Verbatim "error".toList := by decide
        exact ⟨hok, trivial, herror, hverb, trivial⟩
      exact ⟨c, _, w, hrequest, hcommand, Or.inr ⟨rfl, msg,
        (Json.parse_render_iff _).mpr (verbatim_reply.mpr ⟨hreqid, hmembers⟩)⟩⟩

theorem whole_iff (hstored : Stored w.registry) (hintact : Intact f P flash payload w) :
    Whole f P flash payload w ↔ ∃ c, request payload = some c ∧ Sound f P flash c w ∧
      Verbatim c.reqid ∧ ∀ ms w', result f P flash c w = some (ms, w') → MembersVerbatim ms := by
  have hreply : replyCap = 2560 := rfl
  cases hrequest : request payload with
  | none =>
    constructor
    · rintro ⟨c, text, w', hc, -⟩
      rw [hrequest] at hc
      cases hc
    · rintro ⟨c, hc, -⟩
      cases hc
  | some c =>
    have hreqid : byteLen c.reqid ≤ 511 := byteLen_reqid hintact.short hrequest
    obtain ⟨room, hid⟩ : ∃ room, byteLen c.reqid + room = 2550 := ⟨2550 - byteLen c.reqid, by omega⟩
    have hroom : 2039 ≤ room := by omega
    have hcap : room ≤ replyCap := by omega
    have hplain := hintact.plain c hrequest
    by_cases hsound : Sound f P flash c w
    · obtain ⟨out, hexec, hanswer⟩ := mqttExec_answers hroom hid hstored hplain
        (fun o ho => hintact.fits c o hrequest ho) hsound
      rw [whole_iff_of_answers hid hintact.short hrequest hexec hanswer]
      constructor
      · rintro ⟨hverb, hmembers⟩
        exact ⟨c, rfl, hsound, hverb, hmembers⟩
      · rintro ⟨c', hc, -, hverb, hmembers⟩
        cases hc
        exact ⟨hverb, hmembers⟩
    · obtain ⟨m, hmethod, hover⟩ := overdone_of_not_sound hroom hcap hplain hsound
      constructor
      · intro hwhole
        exact absurd hwhole (not_whole_of_overdone hid hintact.short hrequest hmethod hover)
      · rintro ⟨c', hc, hsound', -⟩
        cases hc
        exact absurd hsound' hsound

end Replies

section Runs

open CfgStore (Mac Event step boot)

variable {f : Features} {P : Peripherals σ} {flash : Text → Bool}

/-- A command that the firmware reads as it is, in any state of a run from an empty flash, is executed
whole exactly when it is sound and its reply needs no escape. -/
theorem command_whole_iff (mac : Mac) (es : List Event) (s : σ) (payload : List UInt8)
    (hintact : Intact f P flash payload ⟨Run.final step (boot mac fun _ => none) es, s⟩) :
    Whole f P flash payload ⟨Run.final step (boot mac fun _ => none) es, s⟩ ↔
      ∃ c, request payload = some c ∧
        Sound f P flash c ⟨Run.final step (boot mac fun _ => none) es, s⟩ ∧ Verbatim c.reqid ∧
          ∀ ms w', result f P flash c ⟨Run.final step (boot mac fun _ => none) es, s⟩ = some (ms, w') →
            MembersVerbatim ms :=
  whole_iff (stored_run mac es).final hintact

/-- Hardware that does what it is asked and shows nothing. -/
def quiet : Peripherals Unit where
  gpioWrite _ _ s := some s
  gpioRead _ s := some (false, s)
  adcReadMv _ _ := some 0
  ledCurrent _ := ((0, 0, 0), .auto)
  ledApply _ s := s
  post _ s := some s
  tunnel _ := ⟨false, false, false, 0, 0, [], Nat.zero_le _⟩
  tunnelStart s := s
  tunnelStop s := s
  ip _ := none
  mqttRunning _ := true
  ble _ := ⟨false, false, Vector.replicate 6 0, none⟩
  pairOpen s := s
  pairClose s := s
  bondClear s := s

def everything : Features where
  kbdUsb := true
  kbdBle := true
  ledColor := true
  hws := true
  rathole := true
  mqtt := true
  http := true
  ssdp := true

theorem command_whole_kitchen :
    Whole everything quiet (fun _ => true)
      (Utf8.encode "1 config/set key=device.name&val=kitchen".toList)
      ⟨Run.final step (boot ⟨#[0, 0, 0, 0, 0, 0], rfl⟩ fun _ => none) [], ()⟩ := by
  have hrequest : request (Utf8.encode "1 config/set key=device.name&val=kitchen".toList) =
      some ⟨"1".toList, "config/set".toList, "key=device.name&val=kitchen".toList⟩ := by
    rfl
  have hplain : ∀ key ∈ ["key".toList, "val".toList],
      Plain "key=device.name&val=kitchen".toList key := by
    unfold Plain
    decide +kernel
  have hmethod : Method.ofName "config/set".toList = some .configSet := ofName_name .configSet
  have hoperation : operation everything
      ⟨"1".toList, "config/set".toList, "key=device.name&val=kitchen".toList⟩ =
        some (.configSet "device.name".toList "kitchen".toList) := by
    rw [operation_eq hmethod]
    exact denoted_configSet (by decide +kernel) (by decide +kernel) (by decide)
  refine (command_whole_iff ⟨#[0, 0, 0, 0, 0, 0], rfl⟩ [] () _ ⟨by decide +kernel, ?_, ?_⟩).mpr
    ⟨_, hrequest, ⟨?_, ?_⟩, by decide, ?_⟩
  · intro c hc key hkey
    obtain rfl := Option.some.inj (hc.symm.trans hrequest)
    rw [ReadsArg, hmethod] at hkey
    exact hplain key hkey
  · intro c o hc ho
    obtain rfl := Option.some.inj (hc.symm.trans hrequest)
    obtain rfl := Option.some.inj (ho.symm.trans hoperation)
    trivial
  · intro o ho
    obtain rfl := Option.some.inj (ho.symm.trans hoperation)
    trivial
  · intro hkeyboard
    exact absurd hkeyboard (by decide)
  · intro ms w' hms
    rw [result, hoperation, Option.bind_some, perform] at hms
    obtain ⟨w₁, -, heq⟩ := Option.map_eq_some_iff.mp hms
    cases heq
    trivial

theorem command_latin_name_not_whole :
    ¬ Whole everything quiet (fun _ => true)
      (Utf8.encode "1 config/set key=device.name&val=%C3%A9".toList)
      ⟨Run.final step (boot ⟨#[0, 0, 0, 0, 0, 0], rfl⟩ fun _ => none) [], ()⟩ := by
  rintro ⟨c, text, w', hrequest, hcommand, houtcome⟩
  have hname : (command everything quiet (fun _ => true)
      (Utf8.encode "1 config/set key=device.name&val=%C3%A9".toList)
      ⟨Run.final step (boot ⟨#[0, 0, 0, 0, 0, 0], rfl⟩ fun _ => none) [], ()⟩).map
        (fun r => getStr r.2.cfg .deviceName) = some ['Ã', '©'] := by
    decide +kernel
  have hdenoted : ((request (Utf8.encode "1 config/set key=device.name&val=%C3%A9".toList)).bind fun c =>
      result everything quiet (fun _ => true) c
        ⟨Run.final step (boot ⟨#[0, 0, 0, 0, 0, 0], rfl⟩ fun _ => none) [], ()⟩).map
          (fun r => getStr r.2.cfg .deviceName) = some ['é'] := by
    decide +kernel
  rw [hcommand, Option.map_some, Option.some.injEq] at hname
  rcases houtcome with ⟨ms, hms, -⟩ | ⟨rfl, -⟩
  · rw [hrequest, Option.bind_some, hms, Option.map_some, Option.some.injEq, hname] at hdenoted
    cases hdenoted
  · have hbefore : getStr (Run.final step (boot ⟨#[0, 0, 0, 0, 0, 0], rfl⟩ fun _ => none) []).cfg
        .deviceName ≠ ['Ã', '©'] := by
      decide +kernel
    exact hbefore hname

end Runs

end AtNode.MqttWhole
