import AtNode.Arduino.SavedConfig

/-!
# What a reboot of the Arduino firmware would load

A write is about one name of the NVS, and the writes of a command are about different ones. So a
command keeps RAM equal to what a reboot would load exactly if each of its writes does: a text
without a zero byte, a port in range, a flag, a raw string that reads back as what is in RAM, or the
removal of a name whose default is in RAM.
-/

namespace AtNode.SavedConfig

open Run CString
open ArduinoString (Str ascii cStr equals)
open RatholeClient (truthy flag)

section Reading

variable {v : Str} {s : Setting}

theorem nvsName_injective : ∀ s ∈ Setting.all, ∀ t ∈ Setting.all, s.nvsName = t.nvsName → s = t := by
  decide +kernel

theorem mem_all (s : Setting) : s ∈ Setting.all := by
  cases s with
  | _ => decide

theorem nvsName_inj {s t : Setting} (h : s.nvsName = t.nvsName) : s = t :=
  nvsName_injective s (mem_all s) t (mem_all t) h

theorem cStr_nvsName (s : Setting) : cStr s.nvsName = s.nvsName := by
  cases s with
  | _ => decide +kernel

theorem takeWhile_isDigit_cStr (v : Str) : (cStr v).takeWhile isDigit = v.takeWhile isDigit := by
  unfold cStr
  induction v with
  | nil => rfl
  | cons c v ih =>
    by_cases hc : c = 0
    · subst hc
      rfl
    · rw [List.takeWhile_cons_of_pos (by simpa using hc), List.takeWhile_cons, List.takeWhile_cons, ih]

theorem digits_cStr (v : Str) : digits (cStr v) = digits v := by
  rw [digits, digits, takeWhile_isDigit_cStr]

theorem dropWhile_isSpace_cStr (v : Str) :
    (cStr v).dropWhile isSpace = cStr (v.dropWhile isSpace) := by
  unfold cStr
  induction v with
  | nil => rfl
  | cons c v ih =>
    by_cases hc : c = 0
    · subst hc
      rfl
    · rw [List.takeWhile_cons_of_pos (by simpa using hc), List.dropWhile_cons, List.dropWhile_cons]
      by_cases hs : isSpace c = true
      · rw [if_pos hs, if_pos hs, ih]
      · rw [if_neg hs, if_neg hs, List.takeWhile_cons_of_pos (by simpa using hc)]

theorem atoi_cStr (v : Str) : atoi (cStr v) = atoi v := by
  unfold atoi
  rw [dropWhile_isSpace_cStr]
  cases v.dropWhile isSpace with
  | nil => rfl
  | cons c t =>
    by_cases hc : c = 0
    · subst hc
      rfl
    · have hcons : cStr (c :: t) = c :: cStr t := List.takeWhile_cons_of_pos (by simpa using hc)
      have hall := digits_cStr (c :: t)
      rw [hcons] at hall ⊢
      dsimp only
      rw [digits_cStr t, hall]

theorem parse_text (h : s.kind = .text) (v : Str) : parse s v = .text v := by
  unfold parse
  rw [h]

theorem parse_port (h : s.kind = .port) (v : Str) :
    parse s v = .number (if atoi v ≤ 0 then 8883 else atoi v) := by
  unfold parse
  rw [h]

theorem parse_flag (h : s.kind = .flag) (b : Bool) : parse s (cStr (flag b)) = .flag b := by
  unfold parse
  rw [h]
  cases b with
  | _ => decide +kernel

theorem cfgS_isSome_iff (s : Setting) (v : Str) : (cfgS s v).isSome ↔ PortOk s v := by
  unfold cfgS PortOk
  cases hk : s.kind with
  | text => simp
  | port =>
    dsimp only
    split_ifs with h
    · simp only [Option.isSome_none, Bool.false_eq_true, true_implies, false_iff]
      omega
    · simp only [Option.isSome_some, true_implies, true_iff]
      omega
  | flag => simp

theorem portOk_cStr (s : Setting) (v : Str) : PortOk s (cStr v) ↔ PortOk s v := by
  unfold PortOk
  rw [atoi_cStr]

end Reading

section OneWrite

variable {D : Defaults} {fl : Flash} {st : State} {w w' : Write}

/-- The name in the NVS a write is about. -/
def target : Write → Option Str
  | .put s _ _ | .reset s _ | .remove s => some s.nvsName
  | .save key _ => some (cStr key)
  | .clear => none

/-- A value that is assigned is the one the string stands for, or the one without a string. -/
def Proper : Write → Prop
  | .put s value saved =>
    match s.kind with
    | .text => value = .text saved
    | .port => value = .number (atoi saved)
    | .flag => ∃ b, value = .flag b ∧ saved = flag b
  | .reset s value => ∀ D : Defaults, value = parse s (D.string s)
  | _ => True

def ConsistentAt (D : Defaults) (st : State) (name : Str) : Prop :=
  (∀ s : Setting, s.nvsName = name → st.ram s = loadConfig D st.nvs s) ∧
    ∀ p ∈ st.taken, p.1 = name → ∀ s : Setting, s.nvsName = name → PortOk s p.2

theorem consistent_iff : Consistent D st ↔ ∀ name, ConsistentAt D st name := by
  constructor
  · intro h name
    refine ⟨fun s _ => h.loaded s, fun p hp heq s hs => ?_⟩
    exact (cfgS_isSome_iff s p.2).mp (h.accepted p hp s (heq.trans hs.symm))
  · intro h
    refine ⟨fun s => (h s.nvsName).1 s rfl, fun p hp s hs => ?_⟩
    exact (cfgS_isSome_iff s p.2).mpr ((h s.nvsName).2 p hp hs s rfl)

@[simp] theorem saveConfig_ram (key val : Str) : (st.saveConfig fl key val).ram = st.ram := by
  unfold State.saveConfig
  split_ifs <;> rfl

@[simp] theorem remove_ram (s : Setting) : (st.remove fl s).ram = st.ram := by
  unfold State.remove
  split_ifs <;> rfl

@[simp] theorem remove_taken (s : Setting) : (st.remove fl s).taken = st.taken := by
  unfold State.remove
  split_ifs <;> rfl

theorem saveConfig_taken (fl : Flash) (st : State) (key val : Str) :
    (st.saveConfig fl key val).taken = st.taken ∨
      (st.saveConfig fl key val).taken = st.taken ++ [(cStr key, cStr val)] := by
  unfold State.saveConfig
  split_ifs
  · exact Or.inr rfl
  · exact Or.inl rfl

theorem saveConfig_nvs_of_ne {key name : Str} (h : name ≠ cStr key) (val : Str) :
    (st.saveConfig fl key val).nvs name = st.nvs name := by
  unfold State.saveConfig
  split_ifs
  · exact Function.update_of_ne h _ _
  · rfl

theorem remove_nvs_of_ne {s : Setting} {name : Str} (h : name ≠ s.nvsName) :
    (st.remove fl s).nvs name = st.nvs name := by
  unfold State.remove
  split_ifs
  · exact Function.update_of_ne h _ _
  · rfl

theorem apply_ram (hw : target w ≠ none) {s : Setting} (hs : target w ≠ some s.nvsName) :
    (apply fl st w).ram s = st.ram s := by
  cases w with
  | put t value saved =>
    have hne : s ≠ t := by
      rintro rfl
      exact hs rfl
    simp only [apply, saveConfig_ram, State.assign, Function.update_of_ne hne]
  | save key val => simp only [apply, saveConfig_ram]
  | reset t value =>
    have hne : s ≠ t := by
      rintro rfl
      exact hs rfl
    simp only [apply, remove_ram, State.assign, Function.update_of_ne hne]
  | remove t => simp only [apply, remove_ram]
  | clear => exact absurd rfl hw

theorem apply_nvs (hw : target w ≠ none) {name : Str} (hs : target w ≠ some name) :
    (apply fl st w).nvs name = st.nvs name := by
  have hne : ∀ a, target w = some a → name ≠ a := fun a ha h => hs (h ▸ ha)
  cases w with
  | put t value saved =>
    refine saveConfig_nvs_of_ne ?_ saved
    rw [cStr_nvsName]
    exact hne _ rfl
  | save key val => exact saveConfig_nvs_of_ne (hne _ rfl) val
  | reset t value => exact remove_nvs_of_ne (hne _ rfl)
  | remove t => exact remove_nvs_of_ne (hne _ rfl)
  | clear => exact absurd rfl hw

theorem apply_taken (fl : Flash) (st : State) (w : Write) :
    ∃ ps, (apply fl st w).taken = st.taken ++ ps ∧ ∀ p ∈ ps, target w = some p.1 := by
  cases w with
  | put s value saved =>
    rcases saveConfig_taken fl (st.assign s value) s.nvsName saved with h | h
    · exact ⟨[], h.trans (List.append_nil _).symm, nofun⟩
    · refine ⟨[(cStr s.nvsName, cStr saved)], h, fun p hp => ?_⟩
      rw [List.mem_singleton.mp hp, cStr_nvsName]
      rfl
  | save key val =>
    rcases saveConfig_taken fl st key val with h | h
    · exact ⟨[], h.trans (List.append_nil _).symm, nofun⟩
    · refine ⟨[(cStr key, cStr val)], h, fun p hp => ?_⟩
      rw [List.mem_singleton.mp hp]
      rfl
  | reset s value => exact ⟨[], by simp [apply, State.assign], nofun⟩
  | remove s => exact ⟨[], by simp [apply], nofun⟩
  | clear =>
    refine ⟨[], ?_, nofun⟩
    simp only [apply, List.append_nil]
    split_ifs <;> rfl

theorem consistentAt_apply_of_ne (hw : target w ≠ none) {name : Str} (hn : target w ≠ some name) :
    ConsistentAt D (apply fl st w) name ↔ ConsistentAt D st name := by
  obtain ⟨ps, htaken, hps⟩ := apply_taken fl st w
  have hother : ∀ p ∈ ps, p.1 ≠ name := fun p hp h => hn (h ▸ hps p hp)
  unfold ConsistentAt
  apply and_congr
  · apply forall_congr'
    intro s
    apply forall_congr'
    rintro rfl
    rw [apply_ram hw hn, loadConfig, loadConfig, apply_nvs hw hn]
  · rw [htaken]
    constructor
    · intro h p hp
      exact h p (List.mem_append_left ps hp)
    · intro h p hp heq
      rcases List.mem_append.mp hp with hp | hp
      · exact h p hp heq
      · exact absurd heq (hother p hp)

theorem loadConfig_of_nvs {nvs : Nvs} {s : Setting} {v : Str} (h : nvs s.nvsName = some v) :
    loadConfig D nvs s = parse s v := by
  rw [loadConfig, h, Option.getD_some]

theorem loadConfig_of_none {nvs : Nvs} {s : Setting} (h : nvs s.nvsName = none) :
    loadConfig D nvs s = parse s (D.string s) := by
  rw [loadConfig, h, Option.getD_none]

theorem put_reads_back {s : Setting} {value : Value} {saved : Str} (hp : Proper (.put s value saved))
    (hport : PortOk s saved) :
    value = parse s (cStr saved) ↔ (s.kind = .text → 0 ∉ saved) := by
  simp only [Proper] at hp
  cases hk : s.kind with
  | text =>
    rw [hk] at hp
    rw [hp, parse_text hk, Value.text.injEq, eq_comm, ArduinoString.cStr_eq_self_iff]
    simp
  | port =>
    rw [hk] at hp
    have hrange := hport hk
    rw [hp, parse_port hk, atoi_cStr, if_neg (by omega)]
    simp
  | flag =>
    rw [hk] at hp
    obtain ⟨b, rfl, rfl⟩ := hp
    rw [parse_flag hk]
    simp

theorem consistent_iff_at (h : Consistent D st) {a : Str} (hw : target w = some a) :
    Consistent D (apply fl st w) ↔ ConsistentAt D (apply fl st w) a := by
  rw [consistent_iff]
  constructor
  · intro hall
    exact hall a
  · intro ha name
    by_cases hname : name = a
    · exact hname ▸ ha
    · rw [consistentAt_apply_of_ne (by rw [hw]; nofun) (by rw [hw]; simpa using fun h => hname h.symm)]
      exact consistent_iff.mp h name

theorem consistentAt_setting {s : Setting} :
    ConsistentAt D st s.nvsName ↔ st.ram s = loadConfig D st.nvs s ∧
      ∀ p ∈ st.taken, p.1 = s.nvsName → PortOk s p.2 := by
  unfold ConsistentAt
  constructor
  · rintro ⟨hl, ha⟩
    exact ⟨hl s rfl, fun p hp heq => ha p hp heq s rfl⟩
  · rintro ⟨hl, ha⟩
    refine ⟨fun t ht => ?_, fun p hp heq t ht => ?_⟩
    · obtain rfl := nvsName_inj ht
      exact hl
    · obtain rfl := nvsName_inj ht
      exact ha p hp heq

theorem saveConfig_of_takes {key val : Str} (h : fl.takes (cStr key) (cStr val) = true) :
    st.saveConfig fl key val =
      { st with
        nvs := Function.update st.nvs (cStr key) (some (cStr val))
        taken := st.taken ++ [(cStr key, cStr val)] } := if_pos h

theorem saveConfig_of_refuses {key val : Str} (h : ¬ fl.takes (cStr key) (cStr val) = true) :
    st.saveConfig fl key val = st := if_neg h

theorem accepted_append (h : Consistent D st) (s : Setting) (v : Str) :
    (∀ p ∈ st.taken ++ [(s.nvsName, v)], p.1 = s.nvsName → PortOk s p.2) ↔ PortOk s v := by
  constructor
  · intro hall
    exact hall (s.nvsName, v) (by simp) rfl
  · intro hv p hp heq
    rcases List.mem_append.mp hp with hp | hp
    · exact (cfgS_isSome_iff s p.2).mp (h.accepted p hp s heq)
    · rw [List.mem_singleton.mp hp]
      exact hv

theorem consistent_put_iff (h : Consistent D st) {s : Setting} {value : Value} {saved : Str}
    (hp : Proper (.put s value saved)) :
    Consistent D (apply fl st (.put s value saved)) ↔ Keeps D fl st (.put s value saved) := by
  rw [consistent_iff_at h rfl, consistentAt_setting]
  simp only [Keeps, apply]
  by_cases htake : fl.takes s.nvsName (cStr saved) = true
  · have hname : fl.takes (cStr s.nvsName) (cStr saved) = true := by
      rw [cStr_nvsName]
      exact htake
    rw [if_pos htake, saveConfig_of_takes hname, cStr_nvsName]
    have hload : loadConfig D (Function.update st.nvs s.nvsName (some (cStr saved))) s =
        parse s (cStr saved) := loadConfig_of_nvs (Function.update_self _ _ _)
    simp only [State.assign, Function.update_self, hload, accepted_append h, portOk_cStr]
    exact and_congr_left fun hport => put_reads_back hp hport
  · have hname : ¬ fl.takes (cStr s.nvsName) (cStr saved) = true := by
      rw [cStr_nvsName]
      exact htake
    rw [if_neg htake, saveConfig_of_refuses hname]
    simp only [State.assign, Function.update_self, ← h.loaded s]
    constructor
    · intro hv
      exact hv.1.symm
    · intro hv
      exact ⟨hv.symm, (consistentAt_setting.mp (consistent_iff.mp h s.nvsName)).2⟩

theorem consistent_save_iff (h : Consistent D st) (key val : Str) :
    Consistent D (apply fl st (.save key val)) ↔ Keeps D fl st (.save key val) := by
  by_cases htake : fl.takes (cStr key) (cStr val) = true
  · rw [consistent_iff_at h rfl]
    simp only [Keeps, apply, saveConfig_of_takes htake, htake, true_implies, ConsistentAt]
    have hload : ∀ s : Setting, s.nvsName = cStr key →
        loadConfig D (Function.update st.nvs (cStr key) (some (cStr val))) s = parse s (cStr val) := by
      intro s hs
      rw [loadConfig_of_nvs]
      rw [hs, Function.update_self]
    constructor
    · rintro ⟨hl, ha⟩ s hs
      have hport := ha (cStr key, cStr val) (by simp) rfl s hs
      exact ⟨((hl s hs).trans (hload s hs)).symm, (portOk_cStr s val).mp hport⟩
    · intro hall
      refine ⟨fun s hs => (hload s hs).symm ▸ (hall s hs).1.symm, fun p hp heq s hs => ?_⟩
      rw [← hs] at hp heq
      exact (accepted_append h s (cStr val)).mpr ((portOk_cStr s val).mpr (hall s hs).2) p hp heq
  · simp only [Keeps, apply, saveConfig_of_refuses htake]
    exact ⟨fun _ ht => absurd ht htake, fun _ => h⟩

theorem consistent_remove_iff (h : Consistent D st) (s : Setting) :
    Consistent D (apply fl st (.remove s)) ↔ Keeps D fl st (.remove s) := by
  rw [consistent_iff_at h rfl, consistentAt_setting]
  have haccepted := (consistentAt_setting.mp (consistent_iff.mp h s.nvsName)).2
  simp only [apply, remove_ram, remove_taken]
  simp only [Keeps, State.remove]
  by_cases hrem : fl.removes s.nvsName = true
  · rw [if_pos hrem]
    have hload : loadConfig D (Function.update st.nvs s.nvsName none) s = parse s (D.string s) :=
      loadConfig_of_none (Function.update_self _ _ _)
    simp only [hload, hrem, true_implies]
    exact and_iff_left haccepted
  · rw [if_neg hrem]
    exact ⟨fun _ ht => absurd ht hrem, fun _ => ⟨h.loaded s, haccepted⟩⟩

theorem consistent_reset_iff (h : Consistent D st) {s : Setting} {value : Value}
    (hp : Proper (.reset s value)) :
    Consistent D (apply fl st (.reset s value)) ↔ Keeps D fl st (.reset s value) := by
  rw [consistent_iff_at h rfl, consistentAt_setting]
  have haccepted := (consistentAt_setting.mp (consistent_iff.mp h s.nvsName)).2
  simp only [apply, State.assign, remove_taken, Function.update_self]
  rw [and_iff_left haccepted]
  simp only [Keeps, State.remove]
  by_cases hrem : fl.removes s.nvsName = true
  · rw [if_pos hrem]
    have hload : loadConfig D (Function.update st.nvs s.nvsName none) s = parse s (D.string s) :=
      loadConfig_of_none (Function.update_self _ _ _)
    simp only [hload, hrem, true_or, iff_true]
    exact hp D
  · rw [if_neg hrem, ← h.loaded s]
    simp only [hrem, Bool.false_eq_true, false_or]
    exact eq_comm

theorem consistent_clear_iff (h : Consistent D st) :
    Consistent D (apply fl st .clear) ↔ Keeps D fl st .clear := by
  simp only [Keeps, apply]
  by_cases hclear : fl.clears = true
  · rw [if_pos hclear]
    simp only [hclear, true_implies]
    constructor
    · intro hc s
      exact hc.loaded s
    · intro hall
      exact ⟨hall, h.accepted⟩
  · rw [if_neg hclear]
    exact ⟨fun _ ht => absurd ht hclear, fun _ => h⟩

theorem consistent_apply_iff (fl : Flash) (h : Consistent D st) (hp : Proper w) :
    Consistent D (apply fl st w) ↔ Keeps D fl st w := by
  cases w with
  | put s value saved => exact consistent_put_iff h hp
  | save key val => exact consistent_save_iff h key val
  | reset s value => exact consistent_reset_iff h hp
  | remove s => exact consistent_remove_iff h s
  | clear => exact consistent_clear_iff h

def Distinct (w w' : Write) : Prop := target w ≠ none ∧ target w' ≠ none ∧ target w ≠ target w'

theorem keeps_apply_iff (hd : Distinct w w') :
    Keeps D fl (apply fl st w) w' ↔ Keeps D fl st w' := by
  obtain ⟨hw, hw', hne⟩ := hd
  have hram : ∀ s : Setting, target w' = some s.nvsName → (apply fl st w).ram s = st.ram s :=
    fun s hs => apply_ram hw (hs ▸ hne)
  cases w' with
  | put s value saved =>
    simp only [Keeps]
    rw [hram s rfl]
  | save key val =>
    simp only [Keeps]
    refine forall_congr' fun _ => forall_congr' fun s => forall_congr' fun hs => ?_
    rw [hram s (congrArg some hs.symm)]
  | reset s value =>
    simp only [Keeps]
    rw [hram s rfl]
  | remove s =>
    simp only [Keeps]
    rw [hram s rfl]
  | clear => exact absurd rfl hw'

end OneWrite

section Commands

variable {D : Defaults} {fl : Flash} {st : State} {ws : List Write}

theorem consistentAt_foldl_of_ne {name : Str}
    (hws : ∀ w ∈ ws, target w ≠ none ∧ target w ≠ some name) :
    ConsistentAt D (ws.foldl (apply fl) st) name ↔ ConsistentAt D st name := by
  induction ws generalizing st with
  | nil => exact Iff.rfl
  | cons w ws ih =>
    obtain ⟨hw, hn⟩ := hws w List.mem_cons_self
    rw [List.foldl_cons, ih fun w' hw' => hws w' (List.mem_cons_of_mem w hw')]
    exact consistentAt_apply_of_ne hw hn

/-- Writes of different names keep RAM and NVS together exactly if each of them does. -/
theorem consistent_foldl_iff (h : Consistent D st) (hd : ws.Pairwise Distinct)
    (hp : ∀ w ∈ ws, Proper w) :
    Consistent D (ws.foldl (apply fl) st) ↔ ∀ w ∈ ws, Keeps D fl st w := by
  induction ws generalizing st with
  | nil => exact ⟨fun _ => nofun, fun _ => h⟩
  | cons w ws ih =>
    obtain ⟨hfirst, hrest⟩ := List.pairwise_cons.mp hd
    have hone := consistent_apply_iff fl h (hp w List.mem_cons_self)
    have hframe : (∀ w' ∈ ws, Keeps D fl (apply fl st w) w') ↔ ∀ w' ∈ ws, Keeps D fl st w' :=
      forall_congr' fun w' => forall_congr' fun hw' => keeps_apply_iff (hfirst w' hw')
    have hback : Consistent D (ws.foldl (apply fl) (apply fl st w)) → Consistent D (apply fl st w) := by
      intro hfold
      cases hws : ws with
      | nil =>
        rw [hws] at hfold
        exact hfold
      | cons v vs =>
        obtain ⟨hw, -⟩ := hfirst v (hws ▸ List.mem_cons_self)
        obtain ⟨a, ha⟩ := Option.ne_none_iff_exists'.mp hw
        refine (consistent_iff_at h ha).mpr ?_
        refine (consistentAt_foldl_of_ne fun w' hw' => ?_).mp (consistent_iff.mp hfold a)
        obtain ⟨-, hw'', hne⟩ := hfirst w' hw'
        exact ⟨hw'', fun heq => hne (ha.trans heq.symm)⟩
    rw [List.foldl_cons, List.forall_mem_cons]
    constructor
    · intro hfold
      have hstep := hback hfold
      exact ⟨hone.mp hstep, hframe.mp ((ih hstep hrest fun w' hw' =>
        hp w' (List.mem_cons_of_mem w hw')).mp hfold)⟩
    · rintro ⟨hw, hall⟩
      have hstep := hone.mpr hw
      exact (ih hstep hrest fun w' hw' => hp w' (List.mem_cons_of_mem w hw')).mpr (hframe.mpr hall)

/-- Different names, and values that go with their strings. -/
def Sound (ws : List Write) : Prop := ws.Pairwise Distinct ∧ ∀ w ∈ ws, Proper w

theorem sound_nil : Sound [] := ⟨List.Pairwise.nil, nofun⟩

theorem sound_singleton {w : Write} (h : Proper w) : Sound [w] :=
  ⟨List.pairwise_singleton _ _, fun _ hw' => List.mem_singleton.mp hw' ▸ h⟩

theorem sound_getD {o : Option (List Write)} (h : ∀ ws, o = some ws → Sound ws) :
    Sound (o.getD []) := by
  cases o with
  | none => exact sound_nil
  | some ws => exact h ws rfl

theorem cfgS_put {s : Setting} {v : Str} {w : Write} (h : cfgS s v = some w) :
    Proper w ∧ ∃ value saved, w = .put s value saved := by
  unfold cfgS at h
  cases hk : s.kind with
  | text =>
    rw [hk] at h
    obtain rfl := Option.some.inj h
    exact ⟨by simp [Proper, hk], _, _, rfl⟩
  | port =>
    rw [hk] at h
    dsimp only at h
    split_ifs at h with hr
    obtain rfl := Option.some.inj h
    have hback : atoi (natText (atoi v).toNat) = atoi v := by
      rw [atoi_natText (by omega)]
      omega
    exact ⟨by simp [Proper, hk, hback], _, _, rfl⟩
  | flag =>
    rw [hk] at h
    obtain rfl := Option.some.inj h
    exact ⟨by simp [Proper, hk], _, _, rfl⟩

variable {tunnelSet : Str → Str → Bool}

/-- The registry writes at most one setting. -/
theorem configSet_cases {key val : Str} (h : configSet tunnelSet key val = some ws) :
    ws = [] ∨ ∃ w, ws = [w] ∧ Proper w := by
  unfold configSet at h
  split_ifs at h
  · exact Or.inl (Option.some.inj h).symm
  · split at h
    · exact absurd h nofun
    · exact Or.inl (Option.some.inj h).symm
    · obtain ⟨w, hw, rfl⟩ := Option.map_eq_some_iff.mp h
      exact Or.inr ⟨w, rfl, (cfgS_put hw).1⟩

theorem sound_configSet {key val : Str} (h : configSet tunnelSet key val = some ws) : Sound ws := by
  rcases configSet_cases h with rfl | ⟨w, rfl, hw⟩
  · exact sound_nil
  · exact sound_singleton hw

def About (ss : List Setting) (ws : List Write) : Prop :=
  ∀ w ∈ ws, ∃ s ∈ ss, target w = some s.nvsName

theorem sound_append {as bs : List Write} {ss ts : List Setting} (ha : Sound as ∧ About ss as)
    (hb : Sound bs ∧ About ts bs) (hst : ∀ s ∈ ss, s ∉ ts) :
    Sound (as ++ bs) ∧ About (ss ++ ts) (as ++ bs) := by
  refine ⟨⟨List.pairwise_append.mpr ⟨ha.1.1, hb.1.1, ?_⟩, ?_⟩, ?_⟩
  · intro w hw w' hw'
    obtain ⟨s, hs, hts⟩ := ha.2 w hw
    obtain ⟨t, ht, htt⟩ := hb.2 w' hw'
    refine ⟨by rw [hts]; nofun, by rw [htt]; nofun, fun heq => ?_⟩
    rw [hts, htt] at heq
    obtain rfl := nvsName_inj (Option.some.inj heq)
    exact hst s hs ht
  · intro w hw
    rcases List.mem_append.mp hw with hw | hw
    · exact ha.1.2 w hw
    · exact hb.1.2 w hw
  · intro w hw
    rcases List.mem_append.mp hw with hw | hw
    · obtain ⟨s, hs, hts⟩ := ha.2 w hw
      exact ⟨s, List.mem_append_left ts hs, hts⟩
    · obtain ⟨s, hs, hts⟩ := hb.2 w hw
      exact ⟨s, List.mem_append_right ss hs, hts⟩

theorem sound_setArg (tunnelSet : Str → Str → Bool) (key : String) (s : Setting)
    (hkey : ∀ v, configSet tunnelSet (ascii key) v = (cfgS s v).map fun w => [w])
    (arg : Option Str) : Sound (setArg tunnelSet key arg) ∧ About [s] (setArg tunnelSet key arg) := by
  cases arg with
  | none => exact ⟨sound_nil, nofun⟩
  | some v =>
    have harg : setArg tunnelSet key (some v) = ((cfgS s v).map fun w => [w]).getD [] := by
      rw [← hkey]
      rfl
    rw [harg]
    cases hw : cfgS s v with
    | none => exact ⟨sound_nil, nofun⟩
    | some w =>
      obtain ⟨hproper, value, saved, rfl⟩ := cfgS_put hw
      refine ⟨sound_singleton hproper, fun w' hw' => ?_⟩
      rw [List.mem_singleton.mp hw']
      exact ⟨s, List.mem_singleton_self s, rfl⟩

instance (w w' : Write) : Decidable (Distinct w w') := inferInstanceAs (Decidable (_ ∧ _ ∧ _))

theorem sound_mqttClear : Sound mqttClearConfig := by
  refine ⟨by decide +kernel, ?_⟩
  intro w hw
  simp only [mqttClearConfig, List.mem_cons, List.not_mem_nil, or_false] at hw
  rcases hw with rfl | rfl | rfl | rfl | rfl | rfl
  · exact fun D => rfl
  · exact fun D => rfl
  · exact fun D => rfl
  · exact fun D => rfl
  · exact fun D => rfl
  · exact fun D => rfl

theorem sound_httpArgs {args : Str} (h : httpArgs args = some ws) : Sound ws := by
  unfold httpArgs at h
  split_ifs at h
  all_goals obtain rfl := Option.some.inj h
  · exact sound_nil
  · exact sound_singleton trivial
  · exact sound_nil
  · exact sound_nil

theorem sound_nvsArgs {sub : Str} (h : nvsArgs sub = some ws) : Sound ws := by
  unfold nvsArgs at h
  split_ifs at h
  obtain rfl := Option.some.inj h
  exact sound_singleton trivial

theorem sound_serialConf (key val : Str) : Sound (serialConf tunnelSet key val) := by
  unfold serialConf
  split_ifs
  · exact sound_getD fun ws => sound_configSet
  · exact sound_getD fun ws => sound_configSet
  · exact sound_getD fun ws => sound_configSet
  · exact sound_singleton trivial

theorem sound_serialMqtt {sub val : Str} (h : serialMqtt tunnelSet sub val = some ws) :
    Sound ws := by
  unfold serialMqtt at h
  split_ifs at h
  · exact sound_configSet h
  · exact Option.some.inj h ▸ sound_mqttClear
  · exact sound_configSet h
  · exact Option.some.inj h ▸ sound_nil
  · exact sound_configSet h
  · exact sound_configSet h
  · exact Option.some.inj h ▸ sound_nil
  · exact sound_configSet h

theorem sound_serialWifi {sub val : Str} (h : serialWifi tunnelSet sub val = some ws) :
    Sound ws := by
  unfold serialWifi at h
  split_ifs at h
  · exact sound_configSet h
  · exact sound_configSet h
  · exact Option.some.inj h ▸ sound_nil

theorem sound_serialBle {args : Str} (h : serialBle tunnelSet args = some ws) : Sound ws := by
  unfold serialBle at h
  split_ifs at h
  · exact Option.some.inj h ▸ sound_nil
  · exact sound_configSet h
  · exact sound_configSet h

theorem sound_serialExec {line : Str} (h : serialExec tunnelSet line = some ws) : Sound ws := by
  unfold serialExec at h
  dsimp only at h
  split_ifs at h
  · obtain ⟨kv, -, hset⟩ := Option.bind_eq_some_iff.mp h
    exact sound_configSet hset
  · obtain ⟨kv, -, rfl⟩ := Option.map_eq_some_iff.mp h
    exact sound_serialConf kv.1 kv.2
  · exact sound_serialMqtt h
  · obtain ⟨kv, -, hset⟩ := Option.bind_eq_some_iff.mp h
    exact sound_serialWifi hset
  · exact sound_httpArgs h
  · exact sound_serialBle h
  · exact sound_nvsArgs h

theorem proper_text {s : Setting} (h : s.kind = .text) (val : Str) :
    Proper (.put s (.text val) val) := by
  simp [Proper, h]

theorem sound_atConf (key val : Str) : Sound (atConf key val) := by
  unfold atConf
  split_ifs
  · exact sound_singleton (proper_text rfl val)
  · exact sound_singleton (proper_text rfl val)
  · exact sound_nil
  · exact sound_singleton trivial

theorem sound_atMqtt {sub val : Str} (h : atMqtt sub val = some ws) : Sound ws := by
  unfold atMqtt at h
  split_ifs at h
  all_goals obtain rfl := Option.some.inj h
  · exact sound_singleton (proper_text rfl val)
  · exact sound_singleton rfl
  · exact sound_nil
  · exact sound_mqttClear
  · exact sound_nil
  · exact sound_singleton ⟨_, rfl, rfl⟩
  · exact sound_nil
  · exact sound_singleton (proper_text rfl val)

theorem sound_atWifi {sub val : Str} (h : atWifi sub val = some ws) : Sound ws := by
  unfold atWifi at h
  split_ifs at h
  all_goals obtain rfl := Option.some.inj h
  · exact sound_singleton (proper_text rfl val)
  · exact sound_singleton (proper_text rfl val)
  · exact sound_nil

theorem sound_handleAt {body : Str} (h : handleAt body = some ws) : Sound ws := by
  unfold handleAt at h
  dsimp only at h
  split_ifs at h
  · obtain ⟨kv, -, rfl⟩ := Option.map_eq_some_iff.mp h
    exact sound_atConf kv.1 kv.2
  · exact sound_atMqtt h
  · obtain ⟨kv, -, hset⟩ := Option.bind_eq_some_iff.mp h
    exact sound_atWifi hset
  · exact sound_httpArgs h
  · exact sound_nvsArgs h

theorem sound_mqttConfig (broker port user pass auto : Option Str) :
    Sound (handleMqttConfig tunnelSet broker port user pass auto) := by
  have hbroker := sound_setArg tunnelSet "mqtt.broker" .mqttBroker
    (fun v => rfl) broker
  have hport := sound_setArg tunnelSet "mqtt.port" .mqttPort (fun v => rfl) port
  have huser := sound_setArg tunnelSet "mqtt.user" .mqttUser (fun v => rfl) user
  have hpass := sound_setArg tunnelSet "mqtt.pass" .mqttPass (fun v => rfl) pass
  have hauto := sound_setArg tunnelSet "mqtt.auto" .mqttAuto (fun v => rfl) auto
  have h2 := sound_append hbroker hport (by decide)
  have h3 := sound_append h2 huser (by decide)
  have h4 := sound_append h3 hpass (by decide)
  exact (sound_append h4 hauto (by decide)).1

theorem sound_wifiConfig (ssid pass : Option Str) :
    Sound (handleWifiConfig tunnelSet ssid pass) := by
  have hssid := sound_setArg tunnelSet "wifi.ssid" .wifiSsid (fun v => rfl) ssid
  have hpass := sound_setArg tunnelSet "wifi.pass" .wifiPass (fun v => rfl) pass
  exact (sound_append hssid hpass (by decide)).1

theorem sound_handleSave (ssid pass : Str) : Sound (handleSave ssid pass) := by
  unfold handleSave
  split_ifs
  · exact sound_nil
  · have hne : cStr (ascii "wifi_ssid") ≠ cStr (ascii "wifi_pass") := by decide +kernel
    refine ⟨List.pairwise_pair.mpr ⟨nofun, nofun, fun h => hne (Option.some.inj h)⟩, ?_⟩
    intro w hw
    simp only [List.mem_cons, List.not_mem_nil, or_false] at hw
    rcases hw with rfl | rfl
    · trivial
    · trivial

/-- Every command writes different settings. -/
theorem sound_writes (tunnelSet : Str → Str → Bool) (st : State) (c : Command) : Sound (writes tunnelSet st c) := by
  cases c with
  | serial line => exact sound_getD fun ws => sound_serialExec
  | httpAt body => exact sound_getD fun ws => sound_handleAt
  | config key val value =>
    refine sound_getD fun ws h => ?_
    obtain ⟨k, -, hset⟩ := Option.bind_eq_some_iff.mp h
    exact sound_configSet hset
  | mqttConfig broker port user pass auto => exact sound_mqttConfig broker port user pass auto
  | mqttCa fp =>
    unfold writes handleMqttCa
    dsimp only
    split_ifs
    · exact sound_nil
    · exact (sound_setArg tunnelSet "mqtt.ca" .mqttCaFp (fun v => rfl) (some fp)).1
  | mqttClear => exact sound_mqttClear
  | wifiConfig ssid pass => exact sound_wifiConfig ssid pass
  | httpClear => exact sound_singleton trivial
  | nvsClear => exact sound_singleton trivial
  | portal ssid pass => exact sound_handleSave ssid pass
  | mqtt method key val =>
    refine sound_getD fun ws h => ?_
    unfold mqttExec at h
    split_ifs at h
    exact sound_configSet h
  | connected =>
    unfold writes
    dsimp only
    split_ifs
    · exact sound_singleton ⟨true, rfl, rfl⟩
    · exact sound_nil

end Commands

theorem consistent_step_iff {D : Defaults} {tunnelSet : Str → Str → Bool} {st : State}
    (h : Consistent D st) (e : Event) :
    Consistent D (step tunnelSet st e) ↔ KeepsAll D tunnelSet st e := by
  have hs := sound_writes tunnelSet st e.command
  exact consistent_foldl_iff h hs.1 hs.2

/-- A run keeps RAM equal to what a reboot would load, and stores nothing a typed setter rejects,
exactly if each write of its commands is one that `Keeps` allows. -/
theorem config_consistent_iff (D : Defaults) (tunnelSet : Str → Str → Bool) (nvs : Nvs)
    (es : List Event) :
    Always (step tunnelSet) (Consistent D) (boot D nvs) es ↔
      Along (step tunnelSet) (KeepsAll D tunnelSet) (boot D nvs) es := by
  apply always_iff_along (I := Consistent D)
  · exact fun st h => h
  · exact fun st e h he => (consistent_step_iff h e).mpr he
  · exact fun st e h he hc => he ((consistent_step_iff h e).mp hc)
  · exact ⟨fun s => rfl, nofun⟩

section Runs

def factory : Defaults := ⟨ascii "AT-Node", ascii "at-node", [], []⟩

def willing : Flash := ⟨fun _ _ => true, fun _ => true, true⟩

def typed (line : String) : Event := ⟨.serial (ascii line), willing⟩

/-- A raw write leaves RAM as it was, the unchecked port is not the one that is loaded, and a flag
whose name is removed keeps its value. -/
theorem raw_write_is_not_loaded :
    ¬ Always (step fun _ _ => false) (Consistent factory) (boot factory fun _ => none)
        [typed "AT+CONF=wifi_ssid=home"] ∧
      ¬ Always (step fun _ _ => false) (Consistent factory) (boot factory fun _ => none)
        [⟨.httpAt (ascii "AT+MQTT=port,abc"), willing⟩] ∧
      ¬ Always (step fun _ _ => false) (Consistent factory) (boot factory fun _ => none)
        [typed "AT+SET=http.auto=0", ⟨.httpClear, willing⟩] := by
  refine ⟨fun h => ?_, fun h => ?_, fun h => ?_⟩
  · exact absurd (h.2.loaded .wifiSsid) (by decide +kernel)
  · exact absurd (h.2.loaded .mqttPort) (by decide +kernel)
  · exact absurd (h.2.2.loaded .httpAuto) (by decide +kernel)

end Runs

end AtNode.SavedConfig
