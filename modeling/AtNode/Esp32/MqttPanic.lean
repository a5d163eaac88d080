import AtNode.Esp32.RemotePanic

/-!
# Requests that stop the firmware

A command over MQTT is cut out of its payload at blanks, and its method decodes some of its
arguments. The firmware gets through exactly where each of these has whole escapes.
-/

namespace AtNode.RemotePanic

open Config Query Utf8 MqttExec MqttOps MqttWhole

variable {σ : Type}

section Split

/-- The cuts of `run_client`, by the positions of the blanks. -/
def cutCommand (text : Text) : Option (Option Command) :=
  match find ' ' text with
  | none => some none
  | some sp1 =>
    (sliceTo text sp1).bind fun reqid => (sliceFrom text (sp1 + 1)).bind fun rest =>
      match find ' ' rest with
      | some sp2 =>
        (sliceTo rest sp2).bind fun method => (sliceFrom rest (sp2 + 1)).map fun query =>
          some ⟨reqid, method, query⟩
      | none => some (some ⟨reqid, rest, []⟩)

/-- The arm of `run_client`; without a result the firmware has stopped. -/
def runCommand (f : Api.Features) (P : Peripherals σ) (flash : Text → Bool) (payload : List UInt8)
    (w : World σ) : Option (Option Text × World σ) :=
  (cutCommand ((Utf8.decode (payload.take ConfigReplies.payloadMax)).getD [])).bind fun c =>
    match c with
    | none => some (none, w)
    | some c =>
      (mqttExec f P flash c.method c.query w).map fun r =>
        (some (ConfigReplies.mqttResp c.reqid r.1), r.2)

theorem splitBlank_none {s : Text} (h : splitBlank s = none) : find ' ' s = none := by
  rw [find_eq_none_iff]
  intro hmem
  unfold splitBlank at h
  cases hdrop : s.dropWhile fun c => decide (c ≠ ' ') with
  | nil =>
    have hall := List.dropWhile_eq_nil_iff.mp hdrop ' ' hmem
    simp at hall
  | cons b t =>
    rw [hdrop] at h
    cases h

theorem splitBlank_some {s front rest : Text} (h : splitBlank s = some (front, rest)) :
    ∃ n, find ' ' s = some n ∧ sliceTo s n = some front ∧ sliceFrom s (n + 1) = some rest := by
  have hs := splitBlank_eq h
  have hfront : front = s.takeWhile fun c => decide (c ≠ ' ') := by
    unfold splitBlank at h
    split at h
    · cases h
    · exact (Prod.mk.inj (Option.some.inj h)).1.symm
  have hno : ' ' ∉ front := by
    intro hmem
    rw [hfront] at hmem
    have hpred := List.mem_takeWhile_imp hmem
    simp at hpred
  have hlen : (encode (front ++ [' '])).length = (encode front).length + 1 := by
    rw [encode_append, List.length_append]
    rfl
  refine ⟨(encode front).length, ?_, ?_, ?_⟩
  · rw [hs, find_append hno]
  · rw [hs, sliceTo_append]
  · have hcut := sliceFrom_append (front ++ [' ']) rest
    rw [hlen, List.append_assoc, List.singleton_append] at hcut
    rw [hs, hcut]

/-- The cuts of a command never fail. -/
theorem cutCommand_eq (text : Text) : cutCommand text = some (splitCommand text) := by
  unfold cutCommand splitCommand
  cases hfirst : splitBlank text with
  | none =>
    rw [splitBlank_none hfirst]
    rfl
  | some p =>
    obtain ⟨n, hn, hto, hfrom⟩ := splitBlank_some hfirst
    rw [hn]
    dsimp only
    rw [hto, Option.bind_some, hfrom, Option.bind_some, Option.map_some]
    cases hsecond : splitBlank p.2 with
    | none => rw [splitBlank_none hsecond]
    | some q =>
      obtain ⟨m, hm, hto, hfrom⟩ := splitBlank_some hsecond
      rw [hm]
      dsimp only
      rw [hto, Option.bind_some, hfrom, Option.map_some]

theorem runCommand_eq (f : Api.Features) (P : Peripherals σ) (flash : Text → Bool)
    (payload : List UInt8) (w : World σ) :
    runCommand f P flash payload w = command f P flash payload w := by
  rw [runCommand, cutCommand_eq, Option.bind_some]
  rfl

end Split

section Arms

variable {f : Api.Features} {P : Peripherals σ} {flash : Text → Bool} {query key : Text} {w : World σ}

theorem isSome_num_iff (dflt : ℕ) : (num query key dflt).isSome ↔ ArgWhole query key := by
  rw [num, Option.isSome_map, isSome_queryGet_iff]

theorem isSome_argString_iff : (argString query key).isSome ↔ ArgWhole query key := by
  rw [argString, Option.isSome_map, isSome_queryGet_iff]

/-- The method gets through exactly where the arguments it decodes are whole. -/
def Decodes (f : Api.Features) (P : Peripherals σ) (flash : Text → Bool) (query : Text) (w : World σ)
    (m : Method) : Prop :=
  (mqttExec f P flash m.name query w).isSome ↔
    ∀ key, Reads f (queryGet query) key m → ArgWhole query key

theorem decodes_of_some {m : Method} {out : Text × World σ}
    (h : mqttExec f P flash m.name query w = some out)
    (hreads : ∀ key, ¬ Reads f (queryGet query) key m) : Decodes f P flash query w m := by
  rw [Decodes, h]
  exact ⟨fun _ key hkey => absurd hkey (hreads key), fun _ => rfl⟩

theorem decodes_hws {m : Method} (hm : isHws m = true)
    (h : f.hws = true → Decodes f P flash query w m) : Decodes f P flash query w m := by
  cases hon : f.hws with
  | true => exact h hon
  | false =>
    apply decodes_of_some (mqttExec_hws hm hon)
    intro key hkey
    cases m <;> first | exact absurd (hon.symm.trans hkey.1) Bool.false_ne_true | cases hm

theorem decodes_gpioWrite : Decodes f P flash query w .gpioWrite := by
  apply decodes_hws rfl
  intro hon
  rw [Decodes, mqttExec_other rfl rfl fun _ => hon, mqttMatch, ofName_name]
  simp only [Option.bind_eq_bind, Option.pure_def]
  rw [isSome_bind_iff fun pin => isSome_bind_iff fun level => iff_true_intro rfl]
  simp only [isSome_argString_iff, and_true, Reads, hon, true_and, List.mem_cons, List.not_mem_nil,
    or_false, forall_eq_or_imp, forall_eq]

theorem decodes_gpioRead : Decodes f P flash query w .gpioRead := by
  apply decodes_hws rfl
  intro hon
  rw [Decodes, mqttExec_other rfl rfl fun _ => hon, mqttMatch, ofName_name]
  simp only [Option.isSome_map, isSome_queryGet_iff, Reads, hon, true_and, forall_eq]

theorem decodes_adcRead : Decodes f P flash query w .adcRead := by
  apply decodes_hws rfl
  intro hon
  rw [Decodes, mqttExec_other rfl rfl fun _ => hon, mqttMatch, ofName_name]
  simp only [Option.isSome_map, isSome_queryGet_iff, Reads, hon, true_and, forall_eq]

theorem mqttExec_match {m : Method} (hkeyboard : isKeyboard m = false) (hble : isBle m = false)
    (hhws : isHws m = false) :
    mqttExec f P flash m.name query w = mqttMatch f P flash m.name query w :=
  mqttExec_other hkeyboard hble fun h => absurd (hhws.symm.trans h) Bool.false_ne_true

theorem decodes_led : Decodes f P flash query w .led := by
  rw [Decodes, mqttExec_match rfl rfl rfl, mqttMatch, ofName_name]
  simp only [Option.isSome_map, isSome_queryGet_iff, Reads, forall_eq]

theorem decodes_tunnelEnable : Decodes f P flash query w .tunnelEnable := by
  rw [Decodes, mqttExec_match rfl rfl rfl, mqttMatch, ofName_name]
  simp only [Option.isSome_map, isSome_argString_iff, Reads, forall_eq]

theorem decodes_configSet : Decodes f P flash query w .configSet := by
  rw [Decodes, mqttExec_match rfl rfl rfl, mqttMatch, ofName_name]
  simp only [Option.bind_eq_bind, Option.pure_def]
  rw [isSome_bind_iff fun key => isSome_bind_iff fun val => iff_true_intro rfl]
  simp only [isSome_argString_iff, and_true, Reads, List.mem_cons, List.not_mem_nil, or_false,
    forall_eq_or_imp, forall_eq]

theorem decodes_configGet : Decodes f P flash query w .configGet := by
  rw [Decodes, mqttExec_match rfl rfl rfl, mqttMatch, ofName_name]
  simp only [ConfigReplies.mqttConfigGet, Option.isSome_map, isSome_queryGet_iff, Reads, forall_eq]

theorem decodes_constant {m : Method} {out : Text × World σ} (hkeyboard : isKeyboard m = false)
    (hble : isBle m = false) (hhws : isHws m = false)
    (hmatch : mqttMatch f P flash m.name query w = some out)
    (hreads : ∀ key, ¬ Reads f (queryGet query) key m) : Decodes f P flash query w m := by
  have hsome : mqttExec f P flash m.name query w = some out := by
    rw [mqttExec_match hkeyboard hble hhws, hmatch]
  exact decodes_of_some hsome hreads

theorem decodes_keyboard {m : Method} (hm : isKeyboard m = true)
    (h : f.enabled = true → ((keyboardExec P m.name query w).isSome ↔
      ∀ key, Reads f (queryGet query) key m → ArgWhole query key)) : Decodes f P flash query w m := by
  cases hon : f.enabled with
  | true =>
    rw [Decodes, mqttExec_keyboard hm, hon, Bool.not_true, if_neg Bool.false_ne_true]
    exact h hon
  | false =>
    apply decodes_of_some
    · rw [mqttExec_keyboard hm, hon]
      rfl
    · intro key hkey
      cases m <;> first | exact absurd (hon.symm.trans hkey.1) Bool.false_ne_true | cases hm

theorem decodes_keyboardTap : Decodes f P flash query w .keyboardTap := by
  apply decodes_keyboard rfl
  intro hon
  rw [keyboardExec, ofName_name]
  simp only [Option.bind_eq_bind, Option.pure_def]
  rw [isSome_bind_iff fun k => isSome_bind_iff fun mods => isSome_bind_iff fun ms =>
    iff_true_intro rfl]
  simp only [isSome_num_iff, and_true, Reads, hon, true_and, List.mem_cons, List.not_mem_nil,
    or_false, forall_eq_or_imp, forall_eq]

theorem decodes_keyboardText : Decodes f P flash query w .keyboardText := by
  apply decodes_keyboard rfl
  intro hon
  rw [keyboardExec, ofName_name]
  simp only [Option.bind_eq_bind, Option.pure_def, Reads, hon, true_and, List.mem_cons,
    List.not_mem_nil, or_false, or_imp, forall_and, forall_eq, and_imp]
  rw [← isSome_queryGet_iff query "s".toList]
  cases hs : queryGet query "s".toList with
  | none => exact ⟨fun h => absurd h Bool.false_ne_true, fun h => absurd h.1 Bool.false_ne_true⟩
  | some s =>
    rw [Option.bind_some]
    cases s with
    | nil =>
      refine ⟨fun _ => ⟨rfl, fun key hne => absurd rfl hne, fun key hne => absurd rfl hne⟩, fun _ => rfl⟩
    | cons c s =>
      rw [List.isEmpty_cons, if_neg Bool.false_ne_true,
        isSome_bind_iff fun ms => isSome_bind_iff fun gap => iff_true_intro rfl]
      simp only [isSome_num_iff, and_true, Option.isSome_some, true_and, ne_eq, Option.some.injEq,
        reduceCtorEq, not_false_eq_true, true_implies, forall_eq]

theorem modsOk_iff {v : Text} (h : queryGet query "mods".toList = some v) :
    ModsOk (queryGet query) ↔
      ((if v.isEmpty then some 0 else Args.parseNum u32Max v).filter fun m => decide (m ≤ 255)).isSome := by
  have hnumber : number (queryGet query) "mods".toList 0 =
      if v.isEmpty then some 0 else Args.parseNum u32Max v := by
    rw [number, h]
    rfl
  rw [ModsOk, hnumber, Option.isSome_iff_exists]
  simp only [Option.filter_eq_some_iff, decide_eq_true_eq]

theorem decodes_keyboardKey : Decodes f P flash query w .keyboardKey := by
  apply decodes_keyboard rfl
  intro hon
  rw [keyboardExec, ofName_name]
  simp only [Option.bind_eq_bind, Option.pure_def, Reads, hon, true_and, or_imp, forall_and,
    forall_eq, and_imp, num]
  rw [← isSome_queryGet_iff query "mods".toList]
  cases hmods : queryGet query "mods".toList with
  | none => exact ⟨fun h => absurd h Bool.false_ne_true, fun h => absurd h.1 Bool.false_ne_true⟩
  | some v =>
    rw [Option.map_some, Option.bind_some]
    have hok := modsOk_iff hmods
    cases hm : (if v.isEmpty then some 0 else Args.parseNum u32Max v).filter
        fun m => decide (m ≤ 255) with
    | none =>
      rw [hm] at hok
      have hno : ¬ ModsOk (queryGet query) := fun h => absurd (hok.mp h) Bool.false_ne_true
      exact ⟨fun _ => ⟨rfl, fun key h => absurd h hno⟩, fun _ => rfl⟩
    | some m =>
      rw [hm] at hok
      dsimp only
      rw [isSome_bind_iff fun k0 => isSome_bind_iff fun k1 => isSome_bind_iff fun k2 =>
        isSome_bind_iff fun k3 => isSome_bind_iff fun k4 => isSome_bind_iff fun k5 =>
          iff_true_intro rfl]
      simp only [Option.isSome_map, isSome_queryGet_iff, and_true, Option.isSome_some, true_and,
        hok.mpr rfl, true_implies, keyNames, List.mem_cons, List.not_mem_nil, or_false,
        forall_eq_or_imp, forall_eq]

theorem decodes_ble {m : Method} (hm : isBle m = true)
    (h : f.kbdBle = true → ((bleExec P flash m.name query w).isSome ↔
      ∀ key, Reads f (queryGet query) key m → ArgWhole query key)) : Decodes f P flash query w m := by
  cases hon : f.kbdBle with
  | true =>
    rw [Decodes, mqttExec_ble hm, hon, Bool.not_true, if_neg Bool.false_ne_true]
    exact h hon
  | false =>
    apply decodes_of_some
    · rw [mqttExec_ble hm, hon]
      rfl
    · intro key hkey
      cases m <;> first
        | exact absurd (hon.symm.trans hkey.1) Bool.false_ne_true
        | exact hkey
        | cases hm

theorem decodes_blePair : Decodes f P flash query w .blePair := by
  apply decodes_ble rfl
  intro hon
  rw [bleExec, ofName_name]
  simp only [Option.isSome_map, pairArg, Reads, hon, true_and, or_imp, forall_and, forall_eq, and_imp]
  rw [← isSome_queryGet_iff query "enable".toList]
  cases henable : queryGet query "enable".toList with
  | none => exact ⟨fun h => absurd h Bool.false_ne_true, fun h => absurd h.1 Bool.false_ne_true⟩
  | some v =>
    cases v with
    | nil =>
      simp only [Option.bind_some, List.isEmpty_nil, if_true, isSome_queryGet_iff, Option.isSome_some,
        true_and, true_implies, forall_eq]
    | cons c v => exact ⟨fun _ => ⟨rfl, fun key h => (by cases h)⟩, fun _ => rfl⟩

theorem decodes_bleBondsDelete : Decodes f P flash query w .bleBondsDelete := by
  apply decodes_ble rfl
  intro hon
  rw [bleExec, ofName_name]
  simp only [Option.bind_eq_bind, Option.pure_def, Reads, hon, true_and, forall_eq]
  rw [isSome_bind_iff fun idx => iff_true_intro rfl, isSome_queryGet_iff, and_true]

theorem isSome_configLoop_iff (args : List (Text × Text)) (st : World σ × Bool) :
    (args.foldlM (fun st a => (argString query a.1).map (tunnelConfigStep flash st a.2)) st).isSome ↔
      ∀ key ∈ args.map Prod.fst, ArgWhole query key := by
  induction args generalizing st with
  | nil => exact ⟨fun _ key hkey => absurd hkey List.not_mem_nil, fun _ => rfl⟩
  | cons a args ih =>
    rw [List.foldlM_cons, List.map_cons, List.forall_mem_cons, Option.bind_eq_bind,
      isSome_bind_iff fun st => ih st, Option.isSome_map, isSome_argString_iff]

theorem isSome_tunnelExec_iff {method : Text} {p : Prop}
    (h : idOk (queryGet query) = true → ∀ id, queryGet query "id".toList = some id →
      ¬ ((!id.isEmpty) = true ∧ id ≠ "1".toList) → ((tunnelExec f P flash method query w).isSome ↔ p)) :
    (tunnelExec f P flash method query w).isSome ↔
      ArgWhole query "id".toList ∧ (idOk (queryGet query) = true → p) := by
  rw [← isSome_queryGet_iff query "id".toList]
  cases hid : queryGet query "id".toList with
  | none =>
    have hnone : tunnelExec f P flash method query w = none := by
      rw [tunnelExec, hid]
      rfl
    rw [hnone]
    exact ⟨fun h => absurd h Bool.false_ne_true, fun h => absurd h.1 Bool.false_ne_true⟩
  | some id =>
    by_cases hguard : (!id.isEmpty) = true ∧ id ≠ "1".toList
    · have hbad : idOk (queryGet query) = false := by
        rw [idOk, hid, Bool.or_eq_false_iff, decide_eq_false_iff_not, decide_eq_false_iff_not]
        refine ⟨?_, fun h => hguard.2 (Option.some.inj h)⟩
        intro h
        rw [Option.some.inj h] at hguard
        exact absurd hguard.1 Bool.false_ne_true
      have hsome : tunnelExec f P flash method query w = some (errReply "invalid id", w) := by
        simp only [tunnelExec, hid, Option.bind_eq_bind, Option.bind_some, if_pos hguard, Option.pure_def]
      rw [hsome, hbad]
      exact ⟨fun _ => ⟨rfl, fun h => absurd h Bool.false_ne_true⟩, fun _ => rfl⟩
    · have hok : idOk (queryGet query) = true := by
        rw [idOk, hid, Bool.or_eq_true, decide_eq_true_iff, decide_eq_true_iff]
        rcases not_and_or.mp hguard with hempty | hone
        · rw [Bool.not_eq_true', Bool.not_eq_false, List.isEmpty_iff] at hempty
          exact Or.inl (congrArg some hempty)
        · exact Or.inr (congrArg some (not_not.mp hone))
      rw [h hok id hid hguard, hok]
      exact ⟨fun hp => ⟨rfl, fun _ => hp⟩, fun hp => hp.2 rfl⟩

theorem decodes_tunnel {m : Method} (hm : isTunnel m = true) (hstatus : m ≠ .tunnelStatus)
    (henable : m ≠ .tunnelEnable) {p : Text → Prop}
    (hreads : ∀ key, Reads f (queryGet query) key m ↔
      f.rathole ∧ (key = "id".toList ∨ idOk (queryGet query) ∧ p key))
    (h : idOk (queryGet query) = true → ∀ id, queryGet query "id".toList = some id →
      ¬ ((!id.isEmpty) = true ∧ id ≠ "1".toList) → ((tunnelExec f P flash m.name query w).isSome ↔
        ∀ key, p key → ArgWhole query key)) :
    Decodes f P flash query w m := by
  have hexec : mqttExec f P flash m.name query w =
      if f.rathole then tunnelExec f P flash m.name query w
      else some (errReply "tunnel disabled", w) := mqttExec_tunnel hm hstatus henable
  cases hon : f.rathole with
  | false =>
    rw [hon, if_neg Bool.false_ne_true] at hexec
    apply decodes_of_some hexec
    intro key hkey
    have hrathole := ((hreads key).mp hkey).1
    rw [hon] at hrathole
    exact absurd hrathole Bool.false_ne_true
  | true =>
    rw [hon, if_pos rfl] at hexec
    rw [Decodes, hexec, isSome_tunnelExec_iff h]
    simp only [hreads, hon, true_and, or_imp, forall_and, forall_eq, and_imp]
    exact and_congr_right fun _ => forall_comm

theorem decodes_tunnelId {m : Method}
    (hm : m = .tunnelConnect ∨ m = .tunnelDisconnect ∨ m = .tunnelClear) :
    Decodes f P flash query w m := by
  rcases hm with rfl | rfl | rfl
  all_goals
    apply decodes_tunnel rfl (by decide) (by decide) (p := fun _ => False)
    · intro key
      simp only [Reads, and_false, or_false]
    · intro hok id hid hguard
      simp only [tunnelExec, hid, ofName_name, Option.bind_eq_bind, Option.bind_some, if_neg hguard,
        Option.pure_def, Option.isSome_some, false_implies, implies_true]

theorem decodes_tunnelConfig : Decodes f P flash query w .tunnelConfig := by
  apply decodes_tunnel rfl (by decide) (by decide) (p := (· ∈ configArgs.map Prod.fst))
  · intro key
    simp only [Reads]
  · intro hok id hid hguard
    simp only [tunnelExec, hid, ofName_name, Option.bind_eq_bind, Option.bind_some, if_neg hguard,
      Option.pure_def]
    rw [isSome_bind_iff fun st => iff_true_intro rfl, isSome_configLoop_iff, and_true]

theorem decodes_method (m : Method) : Decodes f P flash query w m := by
  cases m with
  | gpioWrite => exact decodes_gpioWrite
  | gpioRead => exact decodes_gpioRead
  | led => exact decodes_led
  | adcRead => exact decodes_adcRead
  | sysInfo => exact decodes_constant rfl rfl rfl (by rw [mqttMatch, ofName_name]) fun key h => h
  | tunnelStatus => exact decodes_constant rfl rfl rfl (by rw [mqttMatch, ofName_name]) fun key h => h
  | tunnelEnable => exact decodes_tunnelEnable
  | tunnelConnect => exact decodes_tunnelId (Or.inl rfl)
  | tunnelDisconnect => exact decodes_tunnelId (Or.inr (Or.inl rfl))
  | tunnelClear => exact decodes_tunnelId (Or.inr (Or.inr rfl))
  | tunnelConfig => exact decodes_tunnelConfig
  | ability => exact decodes_constant rfl rfl rfl (by rw [mqttMatch, ofName_name]) fun key h => h
  | configSet => exact decodes_configSet
  | configGet => exact decodes_configGet
  | configList => exact decodes_constant rfl rfl rfl (by rw [mqttMatch, ofName_name]) fun key h => h
  | keyboardTap => exact decodes_keyboardTap
  | keyboardText => exact decodes_keyboardText
  | keyboardKey => exact decodes_keyboardKey
  | bleStatus =>
    apply decodes_ble rfl
    intro hon
    rw [bleExec, ofName_name]
    exact ⟨fun _ key h => h.elim, fun _ => rfl⟩
  | blePair => exact decodes_blePair
  | bleBondsDelete => exact decodes_bleBondsDelete
  | bleBondsClear =>
    apply decodes_ble rfl
    intro hon
    rw [bleExec, ofName_name]
    exact ⟨fun _ key h => h.elim, fun _ => rfl⟩

theorem isSome_mqttExec_unknown {method : Text} (hmethod : Method.ofName method = none) :
    (mqttExec f P flash method query w).isSome ↔
      ("tunnel/".toList.isPrefixOf method ∧ f.rathole → ArgWhole query "id".toList) := by
  have hhws : ¬ ((method = Method.name .gpioWrite ∨ method = Method.name .gpioRead ∨
      method = Method.name .adcRead) ∧ (!f.hws) = true) := by
    rintro ⟨h | h | h, -⟩
    · rw [h, ofName_name] at hmethod
      cases hmethod
    · rw [h, ofName_name] at hmethod
      cases hmethod
    · rw [h, ofName_name] at hmethod
      cases hmethod
  rw [mqttExec, if_neg hhws]
  by_cases htunnel : "tunnel/".toList.isPrefixOf method = true
  · obtain ⟨r, hr⟩ := List.isPrefixOf_iff_prefix.mp htunnel
    have hkeyboard : "keyboard/".toList.isPrefixOf method = false := by
      rw [← hr]
      rfl
    have hble : "ble/".toList.isPrefixOf method = false := by
      rw [← hr]
      rfl
    rw [hkeyboard, if_neg Bool.false_ne_true, hble, if_neg Bool.false_ne_true, mqttMatch, hmethod]
    dsimp only
    rw [if_pos htunnel]
    cases hrathole : f.rathole with
    | false => exact ⟨fun _ h => absurd h.2 Bool.false_ne_true, fun _ => rfl⟩
    | true =>
      have hexec : (tunnelExec f P flash method query w).isSome ↔
          ArgWhole query "id".toList ∧ (idOk (queryGet query) = true → True) := by
        apply isSome_tunnelExec_iff
        intro hok id hid hguard
        simp only [tunnelExec, hid, hmethod, Option.bind_eq_bind, Option.bind_some, if_neg hguard,
          Option.pure_def, Option.isSome_some]
      rw [if_pos rfl, hexec]
      exact ⟨fun h _ => h.1, fun h => ⟨h ⟨htunnel, rfl⟩, fun _ => trivial⟩⟩
  · refine ⟨fun _ h => absurd h.1 htunnel, fun _ => ?_⟩
    rw [keyboardExec, bleExec, mqttMatch, hmethod]
    dsimp only
    rw [if_neg htunnel]
    split_ifs
    · rfl
    · rfl
    · rfl
    · rfl
    · rfl

end Arms

section Requests

/-- The arguments of a command that are decoded. -/
def Decoded (f : Api.Features) (c : Command) (key : Text) : Prop :=
  match Method.ofName c.method with
  | some m => Reads f (queryGet c.query) key m
  | none => "tunnel/".toList.isPrefixOf c.method ∧ f.rathole ∧ key = "id".toList

theorem isSome_mqttExec_iff (f : Api.Features) (P : Peripherals σ) (flash : Text → Bool) (c : Command)
    (w : World σ) :
    (mqttExec f P flash c.method c.query w).isSome ↔
      ∀ key, Decoded f c key → ArgWhole c.query key := by
  unfold Decoded
  cases hm : Method.ofName c.method with
  | none =>
    rw [isSome_mqttExec_unknown hm]
    simp only [and_imp]
    exact ⟨fun h key ht hr hk => hk ▸ h ht hr, fun h ht hr => h _ ht hr rfl⟩
  | some m =>
    rw [name_of_ofName hm]
    exact decodes_method m

/-- What a request from outside has the firmware do. -/
inductive Request (σ : Type) where
  /-- A handler of the web server takes an argument. -/
  | httpArg (a : Http.Args) (key : Text)
  | i2cWrite (n : Http.Node) (a : Http.Args)
  | mqtt (f : Api.Features) (P : Peripherals σ) (flash : Text → Bool) (payload : List UInt8)
      (w : World σ)

def Survives : Request σ → Prop
  | .httpArg a key => (a.get key).isSome
  | .i2cWrite n a => (Http.hI2cWrite n a).isSome
  | .mqtt f P flash payload w => (runCommand f P flash payload w).isSome

/-- No cut of the request is inside a character. -/
def Whole : Request σ → Prop
  | .httpArg a key => ArgWhole (source a key) key
  | .i2cWrite n a => n.hws = false ∨ I2cWriteWhole a
  | .mqtt f _ _ payload _ =>
    ∀ c, splitCommand ((Utf8.decode (payload.take ConfigReplies.payloadMax)).getD []) = some c →
      ∀ key, Decoded f c key → ArgWhole c.query key

/-- A request from outside stops the firmware exactly where one of its cuts is inside a character. -/
theorem request_survives_iff (r : Request σ) : Survives r ↔ Whole r := by
  cases r with
  | httpArg a key => exact isSome_get_iff a key
  | i2cWrite n a => exact isSome_hI2cWrite_iff n a
  | mqtt f P flash payload w =>
    unfold Survives Whole
    dsimp only
    rw [runCommand_eq, command]
    cases hc : splitCommand ((Utf8.decode (payload.take ConfigReplies.payloadMax)).getD []) with
    | none => exact ⟨fun _ c h => (by cases h), fun _ => rfl⟩
    | some c =>
      dsimp only
      rw [Option.isSome_map, isSome_mqttExec_iff]
      simp only [Option.some.injEq, forall_eq']

def bareNode : Http.Node where
  hws := true
  board :=
    { ledColor := false
      level := fun _ => false
      millivolts := fun _ => 0
      i2cRead := fun _ _ _ => none
      i2cWrite := fun _ _ => false }

/-- A percent sign in front of a digit and a letter of two bytes, and the pair of a digit and such a
letter. -/
theorem latin_letters_stop :
    ¬ Survives (σ := Unit) (.httpArg ⟨[], "pin=%1é".toList⟩ "pin".toList) ∧
      ¬ Survives (σ := Unit) (.i2cWrite bareNode ⟨"data=a%E9b".toList, []⟩) := by
  refine ⟨?_, ?_⟩
  · unfold Survives
    decide +kernel
  · unfold Survives
    decide +kernel

end Requests

end AtNode.RemotePanic
