import AtNode.Esp32.HttpConfig
import AtNode.Esp32.MqttTask

/-!
# Clearing the broker and the tunnel

`mqtt/clear` and `rathole::clear` set every key of their service to a fixed value and drop what `set`
answers. A reset does its work if the check of the key takes its value, the value counts as the
default, and flash stores it. The reset of `mqtt.auto` is the empty text, which the check of a boolean
refuses: the key keeps its value, and a client that was to start at boot still does.
-/

namespace AtNode.ClearOps

open Config CfgStore Http
open MqttExec (World Peripherals cfgSet clearTable tunnelReset)
open TunnelSwitch (isOn)

variable {σ : Type} {flash : Text → Bool} {d : Device} {k : Key}

section Defaults

/-- Booleans are compared as on and off. -/
def Equivalent (k : Key) (v w : Text) : Prop :=
  if k.flags = .bool then (v = "1".toList ↔ w = "1".toList) else v = w

theorem nil_ne_one : ([] : Text) ≠ "1".toList := by decide

theorem equivalent_bool {v w : Text} (h : k.flags = .bool) :
    Equivalent k v w ↔ (v = "1".toList ↔ w = "1".toList) := by
  rw [Equivalent, if_pos h]

theorem equivalent_off {v w : Text} (h : k.flags = .bool) (hw : w ≠ "1".toList) :
    Equivalent k v w ↔ v ≠ "1".toList := by
  rw [equivalent_bool h]
  exact ⟨fun hiff hv => hw (hiff.mp hv), fun hv => iff_of_false hv hw⟩

theorem equivalent_refl (k : Key) (v : Text) : Equivalent k v v := by
  unfold Equivalent
  split_ifs with h
  · exact Iff.rfl
  · rfl

def ReadsDefault (k : Key) (d : Device) : Prop := Equivalent k (getStr d.cfg k) (defaultFor d.cfg k)

/-- The check takes the value, in a form that counts as the default. -/
def Restores (kv : Key × Text) : Prop :=
  ∃ w, validate kv.1 kv.2 = .ok w ∧ ∀ cfg, Equivalent kv.1 w (defaultFor cfg kv.1)

theorem equivalent_readAfter {v old : Text} {ok : Bool} (h : Restores (k, v)) (cfg : Cfg) :
    Equivalent k (readAfter k v ok old) (defaultFor cfg k) ↔
      ok = true ∨ Equivalent k old (defaultFor cfg k) := by
  obtain ⟨w, hv, hw⟩ := h
  rw [readAfter, hv]
  cases ok with
  | true => exact ⟨fun _ => Or.inl rfl, fun _ => hw cfg⟩
  | false => exact ⟨Or.inr, fun h => h.resolve_left Bool.false_ne_true⟩

end Defaults

section Calls

/-- The calls of `set` for some keys, one behind the other. -/
def putAll (flash : Text → Bool) (kvs : List (Key × Text)) (d : Device) : Device :=
  kvs.foldl (fun d kv => put flash kv.1.name kv.2 d) d

theorem getStr_putAll_other {kvs : List (Key × Text)} (h : k ∉ kvs.map Prod.fst) (d : Device) :
    getStr (putAll flash kvs d).cfg k = getStr d.cfg k := by
  induction kvs generalizing d with
  | nil => rfl
  | cons kv kvs ih =>
    rw [List.map_cons, List.mem_cons, not_or] at h
    have hname : k.name ≠ kv.1.name := fun hname =>
      h.1 (name_injective k (mem_tableDef k) kv.1 (mem_tableDef kv.1) hname)
    rw [putAll, List.foldl_cons]
    exact (ih h.2 _).trans (getStr_set_other d _ hname)

theorem getStr_putAll {kvs : List (Key × Text)} (hkeys : (kvs.map Prod.fst).Nodup) {v : Text}
    (h : (k, v) ∈ kvs) (d : Device) :
    getStr (putAll flash kvs d).cfg k = readAfter k v (flash k.name) (getStr d.cfg k) := by
  induction kvs generalizing d with
  | nil => exact absurd h List.not_mem_nil
  | cons kv kvs ih =>
    rw [List.map_cons, List.nodup_cons] at hkeys
    rw [putAll, List.foldl_cons]
    rcases List.mem_cons.mp h with rfl | hmem
    · exact (getStr_putAll_other hkeys.1 _).trans (getStr_set_self d k v (flash k.name))
    · have hname : k.name ≠ kv.1.name := by
        intro hname
        have heq := name_injective k (mem_tableDef k) kv.1 (mem_tableDef kv.1) hname
        exact hkeys.1 (heq ▸ List.mem_map_of_mem hmem)
      have hrest := ih hkeys.2 hmem (put flash kv.1.name kv.2 d)
      rw [put, getStr_set_other d _ hname] at hrest
      exact hrest

theorem defaultFor_putAll (kvs : List (Key × Text)) (d : Device) :
    defaultFor (putAll flash kvs d).cfg k = defaultFor d.cfg k := by
  induction kvs generalizing d with
  | nil => rfl
  | cons kv kvs ih =>
    rw [putAll, List.foldl_cons]
    exact (ih _).trans (defaultFor_set d _)

theorem synced_putAll (kvs : List (Key × Text)) (h : Synced d) : Synced (putAll flash kvs d) := by
  induction kvs generalizing d with
  | nil => exact h
  | cons kv kvs ih => exact ih (step_follows h (.set ⟨kv.1.name, kv.2, flash kv.1.name⟩)).1

/-- A reset that restores the default fails with flash alone. -/
theorem readsDefault_putAll {kvs : List (Key × Text)} (hkeys : (kvs.map Prod.fst).Nodup) {v : Text}
    (h : (k, v) ∈ kvs) (hrestores : Restores (k, v)) :
    ReadsDefault k (putAll flash kvs d) ↔ flash k.name = true ∨ ReadsDefault k d := by
  rw [ReadsDefault, getStr_putAll hkeys h, defaultFor_putAll]
  exact equivalent_readAfter hrestores d.cfg

theorem registry_foldl (kvs : List (Text × Text)) (w : World σ) :
    (kvs.foldl (fun w kv => (cfgSet flash kv.1 kv.2 w).2) w).registry =
      kvs.foldl (fun d kv => put flash kv.1 kv.2 d) w.registry := by
  induction kvs generalizing w with
  | nil => rfl
  | cons kv kvs ih =>
    have hset : (cfgSet flash kv.1 kv.2 w).2.registry = put flash kv.1 kv.2 w.registry := by
      rw [cfgSet, put]
      rcases w.registry.set ⟨kv.1, kv.2, flash kv.1⟩ with ⟨_ | _, d⟩
      · rfl
      · rfl
    rw [List.foldl_cons, List.foldl_cons, ih, hset]

end Calls

section Tables

def mqttKeys : List Key := [.mqttBroker, .mqttUser, .mqttPass, .mqttAuto, .mqttPort]

def tunnelKeys : List Key := tableDef.filter fun k => "tunnel.1.".toList.isPrefixOf k.name

def mqttResets : List (Key × Text) :=
  [(.mqttBroker, []), (.mqttUser, []), (.mqttPass, []), (.mqttAuto, []), (.mqttPort, "8883".toList)]

def tunnelResets : List (Key × Text) :=
  [(.tunnelServer, []), (.tunnelToken, []), (.tunnelService, []), (.tunnelLocal, []),
    (.tunnelAuto, "0".toList), (.tunnelRetry, "1".toList), (.tunnelEnable, "1".toList)]

theorem tunnelKeys_eq : tunnelKeys = tunnelResets.map Prod.fst := by decide +kernel

theorem registry_mqttClear (stop : σ → σ) (w : World σ) :
    (hMqttClear true stop flash w).2.registry = putAll flash mqttResets w.registry := by
  have htable : mqttClearTable = mqttResets.map fun kv => (kv.1.name, kv.2) := rfl
  rw [hMqttClear, if_neg (by decide)]
  dsimp only
  rw [registry_foldl, htable, List.foldl_map, putAll]

theorem registry_tunnelReset (P : Peripherals σ) (w : World σ) :
    (tunnelReset P flash w).registry = putAll flash tunnelResets w.registry := by
  have htable : clearTable = tunnelResets.map fun kv => (kv.1.name, kv.2) := rfl
  rw [tunnelReset, registry_foldl, htable, List.foldl_map, putAll]

theorem nodup_mqttResets : (mqttResets.map Prod.fst).Nodup := by decide

theorem restores_tunnel : ∀ kv ∈ tunnelResets, Restores kv := by
  simp only [tunnelResets, List.forall_mem_cons, List.not_mem_nil, false_implies, implies_true,
    and_true]
  exact ⟨⟨[], rfl, fun _ => rfl⟩, ⟨[], rfl, fun _ => rfl⟩, ⟨[], rfl, fun _ => rfl⟩,
    ⟨[], rfl, fun _ => rfl⟩, ⟨"0".toList, rfl, fun _ => (equivalent_off rfl nil_ne_one).mpr (by decide)⟩,
    ⟨"1".toList, rfl, fun _ => rfl⟩, ⟨"1".toList, rfl, fun _ => equivalent_refl .tunnelEnable _⟩⟩

theorem restores_mqtt : ∀ kv ∈ mqttResets, kv.1 ≠ .mqttAuto → Restores kv := by
  simp only [mqttResets, List.forall_mem_cons, List.not_mem_nil, false_implies, implies_true, and_true]
  exact ⟨fun _ => ⟨[], rfl, fun _ => rfl⟩, fun _ => ⟨[], rfl, fun _ => rfl⟩,
    fun _ => ⟨[], rfl, fun _ => rfl⟩, fun h => absurd rfl h, fun _ => ⟨"8883".toList, rfl, fun _ => rfl⟩⟩

theorem isOk_reset_iff : ∀ kv ∈ mqttResets ++ tunnelResets,
    (validate kv.1 kv.2).isOk = true ↔ kv.1 ≠ .mqttAuto := by
  decide

/-- The check of its key refuses the reset of `mqtt.auto`, and no other. -/
theorem refused_iff {kv : Text × Text} (h : kv ∈ mqttClearTable ++ clearTable)
    (hk : k.name = kv.1) : (validate k kv.2).isOk = false ↔ k = .mqttAuto := by
  have htables : mqttClearTable ++ clearTable =
      (mqttResets ++ tunnelResets).map fun kv => (kv.1.name, kv.2) := rfl
  rw [htables] at h
  obtain ⟨kv', hmem, rfl⟩ := List.mem_map.mp h
  have hkey := name_injective k (mem_tableDef k) kv'.1 (mem_tableDef kv'.1) hk
  rw [hkey, ← Bool.not_eq_true, isOk_reset_iff kv' hmem, not_not]

end Tables

section Clearing

variable {mqtt : Bool} {stop : σ → σ} {P : Peripherals σ} {w : World σ}

/-- Both operations clear, and neither service starts by itself at the next boot. A build without
MQTT refuses the first request. -/
structure Clears (mqtt : Bool) (stop : σ → σ) (P : Peripherals σ) (flash : Text → Bool)
    (w : World σ) : Prop where
  mqttDefault : mqtt = true → ∀ k ∈ mqttKeys,
    ReadsDefault k (hMqttClear mqtt stop flash w).2.registry
  mqttQuiet : mqtt = true →
    (MqttTask.init (step (hMqttClear mqtt stop flash w).2.registry .reboot).cfg).running = false
  tunnelDefault : ∀ k ∈ tunnelKeys, ReadsDefault k (tunnelReset P flash w).registry
  tunnelQuiet : (TunnelSwitch.init (step (tunnelReset P flash w).registry .reboot).cfg).wantRun = false

/-- Flash takes the resets that are needed, and the client does not start at boot before. -/
structure Clearable (mqtt : Bool) (flash : Text → Bool) (d : Device) : Prop where
  auto : mqtt = true → isOn d.cfg .mqttAuto = false
  mqtt : mqtt = true → ∀ k ∈ mqttKeys, k ≠ .mqttAuto → flash k.name = true ∨ ReadsDefault k d
  tunnel : ∀ k ∈ tunnelKeys, flash k.name = true ∨ ReadsDefault k d

theorem readsDefault_iff_off (k : Key) (d : Device) (hbool : k.flags = .bool)
    (hoff : defaultFor d.cfg k ≠ "1".toList) : ReadsDefault k d ↔ isOn d.cfg k = false := by
  rw [ReadsDefault, equivalent_off hbool hoff, isOn, decide_eq_false_iff_not]

theorem cfg_reboot (h : Synced d) : (step d .reboot).cfg = d.cfg := h.symm

theorem readsDefault_mqttAuto (d : Device) :
    ReadsDefault .mqttAuto (putAll flash mqttResets d) ↔ isOn d.cfg .mqttAuto = false := by
  have hkeep : getStr (putAll flash mqttResets d).cfg .mqttAuto = getStr d.cfg .mqttAuto :=
    getStr_putAll nodup_mqttResets (List.mem_of_getElem? (i := 3) rfl) d
  rw [readsDefault_iff_off .mqttAuto (putAll flash mqttResets d) rfl nil_ne_one, isOn, hkeep, isOn]

theorem mqtt_reads_iff (d : Device) :
    (∀ k ∈ mqttKeys, ReadsDefault k (putAll flash mqttResets d)) ↔
      isOn d.cfg .mqttAuto = false ∧
        ∀ k ∈ mqttKeys, k ≠ .mqttAuto → flash k.name = true ∨ ReadsDefault k d := by
  have hreset : ∀ k ∈ mqttKeys, k ≠ .mqttAuto →
      (ReadsDefault k (putAll flash mqttResets d) ↔ flash k.name = true ∨ ReadsDefault k d) := by
    intro k hk hne
    obtain ⟨⟨k', v⟩, hmem, rfl⟩ := List.mem_map.mp (show k ∈ mqttResets.map Prod.fst from hk)
    exact readsDefault_putAll nodup_mqttResets hmem (restores_mqtt _ hmem hne)
  constructor
  · intro h
    have hauto : Key.mqttAuto ∈ mqttKeys := by decide
    exact ⟨(readsDefault_mqttAuto d).mp (h _ hauto), fun k hk hne => (hreset k hk hne).mp (h k hk)⟩
  · rintro ⟨hauto, hrest⟩ k hk
    by_cases hne : k = .mqttAuto
    · rw [hne]
      exact (readsDefault_mqttAuto d).mpr hauto
    · exact (hreset k hk hne).mpr (hrest k hk hne)

theorem tunnel_reads_iff (d : Device) :
    (∀ k ∈ tunnelKeys, ReadsDefault k (putAll flash tunnelResets d)) ↔
      ∀ k ∈ tunnelKeys, flash k.name = true ∨ ReadsDefault k d := by
  refine forall₂_congr fun k hk => ?_
  rw [tunnelKeys_eq] at hk
  obtain ⟨⟨k', v⟩, hmem, rfl⟩ := List.mem_map.mp hk
  exact readsDefault_putAll (by decide) hmem (restores_tunnel _ hmem)

theorem running_init (cfg : Cfg) :
    (MqttTask.init cfg).running = (isOn cfg .mqttAuto && isOn cfg .mqttEnable) := by
  rw [MqttTask.init, MqttTask.loopTop]
  dsimp only
  cases isOn cfg .mqttAuto && isOn cfg .mqttEnable with
  | false => rfl
  | true => rfl

theorem mqtt_quiet (h : Synced d) (hreads : ∀ k ∈ mqttKeys, ReadsDefault k d) :
    (MqttTask.init (step d .reboot).cfg).running = false := by
  have hauto := (readsDefault_iff_off .mqttAuto d rfl nil_ne_one).mp (hreads .mqttAuto (by decide))
  rw [cfg_reboot h, running_init, hauto, Bool.false_and]

theorem tunnel_quiet (h : Synced d) (hreads : ∀ k ∈ tunnelKeys, ReadsDefault k d) :
    (TunnelSwitch.init (step d .reboot).cfg).wantRun = false := by
  have hmem : Key.tunnelAuto ∈ tunnelKeys := by
    rw [tunnelKeys_eq]
    decide
  have hauto := (readsDefault_iff_off .tunnelAuto d rfl nil_ne_one).mp (hreads .tunnelAuto hmem)
  rw [cfg_reboot h, TunnelSwitch.init, hauto, Bool.and_false, Bool.false_and]

/-- In every reachable state the two operations clear exactly when flash takes every reset that is
needed and, where there is MQTT, `mqtt.auto` is off before; for the check refuses the reset of this
key, and no other. -/
theorem clears_iff (mqtt : Bool) (stop : σ → σ) (P : Peripherals σ) (flash : Text → Bool) (mac : Mac)
    (stored : Key → Option (List UInt8)) (es : List Event) (peri : σ) :
    (Clears mqtt stop P flash ⟨Run.final step (boot mac stored) es, peri⟩ ↔
      Clearable mqtt flash (Run.final step (boot mac stored) es)) ∧
    ∀ kv ∈ mqttClearTable ++ clearTable, ∀ k : Key, k.name = kv.1 →
      ((validate k kv.2).isOk = false ↔ k = .mqttAuto) := by
  have hsync := (run_follows (synced_boot mac stored) es).1
  generalize Run.final step (boot mac stored) es = d at hsync ⊢
  refine ⟨⟨fun h => ?_, fun h => ?_⟩, fun kv hkv k hk => refused_iff hkv hk⟩
  · have hmqtt : mqtt = true → ∀ k ∈ mqttKeys, ReadsDefault k (putAll flash mqttResets d) := by
      rintro rfl k hk
      have hk' := h.mqttDefault rfl k hk
      rwa [registry_mqttClear] at hk'
    have htunnel := h.tunnelDefault
    rw [registry_tunnelReset] at htunnel
    exact ⟨fun hm => ((mqtt_reads_iff d).mp (hmqtt hm)).1, fun hm => ((mqtt_reads_iff d).mp (hmqtt hm)).2,
      (tunnel_reads_iff d).mp htunnel⟩
  · have hmqtt : mqtt = true → ∀ k ∈ mqttKeys, ReadsDefault k (putAll flash mqttResets d) :=
      fun hm => (mqtt_reads_iff d).mpr ⟨h.auto hm, h.mqtt hm⟩
    have htunnel := (tunnel_reads_iff d).mpr h.tunnel
    refine ⟨?_, ?_, ?_, ?_⟩
    · rintro rfl
      rw [registry_mqttClear]
      exact hmqtt rfl
    · rintro rfl
      rw [registry_mqttClear]
      exact mqtt_quiet (synced_putAll mqttResets hsync) (hmqtt rfl)
    · rw [registry_tunnelReset]
      exact htunnel
    · rw [registry_tunnelReset]
      exact tunnel_quiet (synced_putAll tunnelResets hsync) htunnel

def autoOn : Device :=
  ((boot (Vector.replicate 6 0) fun _ => none).set ⟨Key.mqttAuto.name, "1".toList, true⟩).2

theorem mqtt_clear_leaves_auto :
    ¬ ReadsDefault .mqttAuto
      (hMqttClear true id (fun _ => true) (⟨autoOn, ()⟩ : World Unit)).2.registry := by
  have hon : isOn autoOn.cfg .mqttAuto = true := by
    rw [isOn, autoOn, getStr_set_self]
    rfl
  rw [registry_mqttClear, readsDefault_mqttAuto, hon]
  exact Bool.noConfusion

end Clearing

end AtNode.ClearOps
