import AtNode.Esp32.HttpKeyboard
import AtNode.Esp32.RequestNarrowing

/-!
# The keyboard over the AT console, HTTP and MQTT

A tap, a text and a report have the same parameters on the three front ends. The web server and the
MQTT client find them by name, and take the default for one that is empty; the AT console finds them
by their place, and an empty field is no number. The console has no times for a text.

The parameters of a request are what the front end has decoded of it. It is proved for which
parameters the three front ends post the same operation, with the numbers that were given, or none of
them posts one.
-/

namespace AtNode.KeyboardFrontEnds

open Config
open AtNode.Args (parseNum)
open MqttExec (World Method mqttExec keyByte)
open Query (queryGet)

section Parameters

/-- The parameters of a request; none is left out. -/
inductive Params where
  | tap (k mods ms : Option Text)
  | text (s : Text) (ms gap : Option Text)
  | key (mods k0 k1 k2 k3 k4 k5 : Option Text)

/-- A parameter that is found by its name. -/
def Given (get : Text → Option Text) (name : String) (o : Option Text) : Prop :=
  get name.toList = some (o.getD [])

/-- The arguments of a request to the web server or of a query over MQTT are the parameters. -/
def HasArgs (get : Text → Option Text) : Params → Prop
  | .tap k mods ms => Given get "k" k ∧ Given get "mods" mods ∧ Given get "ms" ms
  | .text s ms gap => Given get "s" (some s) ∧ Given get "ms" ms ∧ Given get "gap" gap
  | .key mods k0 k1 k2 k3 k4 k5 =>
    Given get "mods" mods ∧ Given get "k0" k0 ∧ Given get "k1" k1 ∧ Given get "k2" k2 ∧
      Given get "k3" k3 ∧ Given get "k4" k4 ∧ Given get "k5" k5

/-- A field of a line; a parameter that is left out is written as its default. -/
def spell (dflt : String) (o : Option Text) : Text := o.getD dflt.toList

/-- The fields of a line are the parameters; those at the end may be left out. -/
def HasFields (args : Text) : Params → Prop
  | .tap k mods ms =>
    args.splitOn ',' = [spell "0" k] ∧ mods = none ∧ ms = none ∨
      args.splitOn ',' = [spell "0" k, spell "0" mods] ∧ ms = none ∨
        args.splitOn ',' = [spell "0" k, spell "0" mods, spell "50" ms]
  | .text s _ _ => args = s
  | .key mods k0 k1 k2 k3 k4 k5 =>
    ∃ n, 1 ≤ n ∧ args.splitOn ',' =
        spell "0" mods :: (([k0, k1, k2, k3, k4, k5].take n).map (spell "0")) ∧
      ∀ o ∈ [k0, k1, k2, k3, k4, k5].drop n, o = none

/-- What the console makes of the last parameter that is given, when it trims its line. -/
def trimLast : Params → Params
  | .tap k mods (some v) => .tap k mods (some (At.trim v))
  | .tap k (some v) none => .tap k (some (At.trim v)) none
  | .tap k none none => .tap (k.map At.trim) none none
  | .text s ms gap => .text (At.trim s) ms gap
  | .key mods k0 k1 k2 k3 k4 (some v) => .key mods k0 k1 k2 k3 k4 (some (At.trim v))
  | .key mods k0 k1 k2 k3 (some v) none => .key mods k0 k1 k2 k3 (some (At.trim v)) none
  | .key mods k0 k1 k2 (some v) none none => .key mods k0 k1 k2 (some (At.trim v)) none none
  | .key mods k0 k1 (some v) none none none => .key mods k0 k1 (some (At.trim v)) none none none
  | .key mods k0 (some v) none none none none => .key mods k0 (some (At.trim v)) none none none none
  | .key mods k0 none none none none none => .key mods (k0.map At.trim) none none none none none

/-- The number of a parameter, or its default. -/
def numberOf (dflt : ℕ) : Option Text → Option ℕ
  | none => some dflt
  | some v => if v.isEmpty then some dflt else parseNum u32Max v

/-- The parameter is a number up to `hi`, or the default stands for it. -/
def Within (hi : ℕ) (o : Option Text) : Prop := ∀ v, o = some v → v ≠ [] →
  ∃ n ≤ hi, parseNum u32Max v = some n

end Parameters

section Numbers

variable {get : Text → Option Text} {name : String} {o : Option Text} {d hi n : ℕ}

theorem number_of_given (h : Given get name o) :
    ((get name.toList).map fun v => if v.isEmpty then some d else parseNum u32Max v) =
      some (numberOf d o) := by
  rw [h]
  cases o with
  | none => rfl
  | some v => rfl

theorem within_iff (hd : d ≤ hi) : Within hi o ↔ ∃ n ≤ hi, numberOf d o = some n := by
  unfold Within numberOf
  cases o with
  | none => exact iff_of_true (fun v h => by cases h) ⟨d, hd, rfl⟩
  | some v =>
    cases v with
    | nil => exact iff_of_true (fun v h hne => by cases h; exact absurd rfl hne) ⟨d, hd, rfl⟩
    | cons c v => exact ⟨fun h => h _ rfl (List.cons_ne_nil c v), fun h v' hv' _ => by cases hv'; exact h⟩

theorem toU32_spell {dflt : String} (hd : parseNum u32Max dflt.toList = some d) :
    At.toU32 (spell dflt o) = if o = some [] then none else numberOf d o := by
  cases o with
  | none => exact hd
  | some v =>
    cases v with
    | nil => rfl
    | cons c v => rfl

theorem numberOf_le (hd : d ≤ u32Max) (h : numberOf d o = some n) : n ≤ u32Max := by
  unfold numberOf at h
  split at h
  · exact (Option.some.inj h) ▸ hd
  · split_ifs at h
    · exact (Option.some.inj h) ▸ hd
    · exact Args.parseNum_le h

end Numbers

section Blanks

variable {args : Text} {p : Params} {o : Option Text} {dflt : String} {d : ℕ}
variable {k mods ms k0 k1 k2 k3 k4 k5 : Option Text}

theorem spell_trim (h : At.trim dflt.toList = dflt.toList) :
    At.trim (spell dflt o) = spell dflt (o.map At.trim) := by
  cases o with
  | none => exact h
  | some v => rfl

/-- A parameter with a blank at its end is no number. -/
theorem numberOf_of_trim (hd : At.trim dflt.toList = dflt.toList)
    (h : At.trim (spell dflt o) ≠ spell dflt o) : numberOf d o = none := by
  cases o with
  | none => exact absurd hd h
  | some v =>
    cases v with
    | nil => exact absurd rfl h
    | cons c v => exact At.parseNum_of_trim_ne h

theorem numberOf_tap_of_trim (h : HasFields args (.tap k mods ms)) (hne : At.trim args ≠ args) :
    numberOf 0 k = none ∨ numberOf 0 mods = none ∨ numberOf 50 ms = none := by
  rcases h with ⟨hfields, rfl, rfl⟩ | ⟨hfields, rfl⟩ | hfields
  · have hlast := fun hv => hne (At.trim_eq_self [] hfields hv)
    exact Or.inl (numberOf_of_trim (by decide) hlast)
  · have hlast := fun hv => hne (At.trim_eq_self [_] hfields hv)
    exact Or.inr (Or.inl (numberOf_of_trim (by decide) hlast))
  · have hlast := fun hv => hne (At.trim_eq_self [_, _] hfields hv)
    exact Or.inr (Or.inr (numberOf_of_trim (by decide) hlast))

theorem numberOf_key_of_trim (h : HasFields args (.key mods k0 k1 k2 k3 k4 k5))
    (hne : At.trim args ≠ args) : ∃ o ∈ [k0, k1, k2, k3, k4, k5], numberOf 0 o = none := by
  obtain ⟨n, hn, hfields, -⟩ := h
  obtain ⟨os, o, hos⟩ : ∃ os o, [k0, k1, k2, k3, k4, k5].take n = os ++ [o] := by
    rcases List.eq_nil_or_concat' ([k0, k1, k2, k3, k4, k5].take n) with hnil | h
    · rcases List.take_eq_nil_iff.mp hnil with rfl | h
      · omega
      · cases h
    · exact h
  have hmem : o ∈ [k0, k1, k2, k3, k4, k5] := by
    apply List.mem_of_mem_take (i := n)
    rw [hos]
    exact List.mem_append_right _ List.mem_cons_self
  rw [hos, List.map_append, List.map_singleton, ← List.cons_append] at hfields
  exact ⟨o, hmem, numberOf_of_trim (by decide) fun hv => hne (At.trim_eq_self _ hfields hv)⟩

/-- The fields of the trimmed line are those of the line, with the last one trimmed. -/
theorem hasFields_trim (h : HasFields args p) (hne : At.trim args ≠ args) :
    HasFields (At.trim args) (trimLast p) := by
  have hzero : At.trim "0".toList = "0".toList := by decide
  cases p with
  | tap k mods ms =>
    rcases h with ⟨hfields, rfl, rfl⟩ | ⟨hfields, rfl⟩ | hfields
    · have htrim := At.splitOn_trim [] hfields
      rw [spell_trim hzero] at htrim
      exact Or.inl ⟨htrim, rfl, rfl⟩
    · cases mods with
      | none => exact absurd (At.trim_eq_self [_] hfields hzero) hne
      | some v => exact Or.inr (Or.inl ⟨At.splitOn_trim [_] hfields, rfl⟩)
    · cases ms with
      | none => exact absurd (At.trim_eq_self [_, _] hfields (by decide)) hne
      | some v => exact Or.inr (Or.inr (At.splitOn_trim [_, _] hfields))
  | text s ms gap => exact congrArg At.trim h
  | key mods k0 k1 k2 k3 k4 k5 =>
    obtain ⟨n, hn, hfields, hnone⟩ := h
    -- the number of keys that the line has
    match n, hn with
    | 1, _ =>
      obtain ⟨rfl, rfl, rfl, rfl, rfl⟩ : k1 = none ∧ k2 = none ∧ k3 = none ∧ k4 = none ∧ k5 = none := by
        simpa using hnone
      have htrim := At.splitOn_trim [_] hfields
      rw [spell_trim hzero] at htrim
      exact ⟨1, le_rfl, htrim, hnone⟩
    | 2, _ =>
      obtain ⟨rfl, rfl, rfl, rfl⟩ : k2 = none ∧ k3 = none ∧ k4 = none ∧ k5 = none := by
        simpa using hnone
      cases k1 with
      | none => exact absurd (At.trim_eq_self [_, _] hfields hzero) hne
      | some v => exact ⟨2, by decide, At.splitOn_trim [_, _] hfields, hnone⟩
    | 3, _ =>
      obtain ⟨rfl, rfl, rfl⟩ : k3 = none ∧ k4 = none ∧ k5 = none := by simpa using hnone
      cases k2 with
      | none => exact absurd (At.trim_eq_self [_, _, _] hfields hzero) hne
      | some v => exact ⟨3, by decide, At.splitOn_trim [_, _, _] hfields, hnone⟩
    | 4, _ =>
      obtain ⟨rfl, rfl⟩ : k4 = none ∧ k5 = none := by simpa using hnone
      cases k3 with
      | none => exact absurd (At.trim_eq_self [_, _, _, _] hfields hzero) hne
      | some v => exact ⟨4, by decide, At.splitOn_trim [_, _, _, _] hfields, hnone⟩
    | 5, _ =>
      obtain rfl : k5 = none := by simpa using hnone
      cases k4 with
      | none => exact absurd (At.trim_eq_self [_, _, _, _, _] hfields hzero) hne
      | some v => exact ⟨5, by decide, At.splitOn_trim [_, _, _, _, _] hfields, hnone⟩
    | n + 6, _ =>
      rw [List.take_of_length_le (Nat.le_add_left 6 n)] at hfields
      cases k5 with
      | none => exact absurd (At.trim_eq_self [_, _, _, _, _, _] hfields hzero) hne
      | some v =>
        exact ⟨6, by decide, At.splitOn_trim [_, _, _, _, _, _] hfields, fun o ho => by cases ho⟩

end Blanks

section Submission

/-- A queue that takes every operation, and keeps them all. -/
def recorder : At.Services (List Kb.Op) where
  gpioWrite _ _ s := some s
  gpioRead _ s := some (false, s)
  adcReadMv _ _ := some 0
  ledCurrent _ := ((0, 0, 0), .auto)
  ledApply _ s := s
  post op s := some (s ++ [op])
  tunnel _ := MqttWhole.quiet.tunnel ()
  tunnelStart s := s
  tunnelStop s := s
  ip _ := none
  mqttRunning _ := true
  ble _ := ⟨false, false, Vector.replicate 6 0, none⟩
  pairOpen s := s
  pairClose s := s
  bondClear s := s
  board := RemotePanic.bareNode.board
  probe _ := false
  target _ := .usb
  setTarget _ s := s
  mqttConnected _ := false
  mqttStart s := s
  mqttStop s := s
  httpRunning _ := false
  linkUp _ := false
  rssi _ := 0
  reset s := s

variable (f : Api.Features) (flash : Text → Bool) (erases : Bool) (d : CfgStore.Device)

def kbOp : Params → Http.KbOp
  | .tap .. => .tap
  | .text .. => .text
  | .key .. => .key

def method : Params → Method
  | .tap .. => .keyboardTap
  | .text .. => .keyboardText
  | .key .. => .keyboardKey

def front : Params → Text
  | .tap .. => "AT+TAP=".toList
  | .text .. => "AT+KEY_STR=".toList
  | .key .. => "AT+KEY=".toList

/-- What a request to the web server posts, unless the firmware stops. -/
def httpPosts (p : Params) (a : Http.Args) : Option (List Kb.Op) :=
  (Http.hKeyboardPost f recorder.toPeripherals a ⟨d, []⟩ (kbOp p)).map fun r => r.2.peri

/-- What a command over MQTT posts. -/
def mqttPosts (p : Params) (query : Text) : Option (List Kb.Op) :=
  (mqttExec f recorder.toPeripherals flash (method p).name query ⟨d, []⟩).map fun r => r.2.peri

/-- What a line of the AT console posts. -/
def atPosts (p : Params) (args : Text) : List Kb.Op :=
  (At.handleLine f recorder flash erases (front p ++ args) ⟨d, []⟩).world.peri

end Submission

section Operations

/-- A tap with all of its numbers in range. -/
def tapOps : Option ℕ → Option ℕ → Option ℕ → List Kb.Op
  | some k, some m, some t =>
    if k ≤ 255 ∧ m ≤ 255 ∧ t ≤ 60000 then [.tap m.toUInt8 k.toUInt8 t.toUInt32] else []
  | _, _, _ => []

def textOps (s : Text) : Option ℕ → Option ℕ → List Kb.Op
  | some t, some g =>
    if s = [] then []
    else if h : (String.ofList s).utf8ByteSize ≤ Kb.textCapacity then
      [.text (String.ofList s) t.toUInt32 g.toUInt32 h]
    else []
  | _, _ => []

def tooLarge (v : Option ℕ) : Bool := v.any fun v => decide (255 < v)

/-- A report, where no key is above 255; a key that is no number is zero. -/
def keyOps (mods : Option ℕ) (ks : List (Option ℕ)) : List Kb.Op :=
  match mods with
  | some m =>
    if ks.any tooLarge then []
    else [.hold (At.report m.toUInt8 (ks.map keyByte))]
  | none => []

variable {f : Api.Features} {flash : Text → Bool} {erases : Bool} {d : CfgStore.Device}
variable {a : Http.Args} {query args : Text} {k mods ms gap k0 k1 k2 k3 k4 k5 : Option Text} {s : Text}

theorem u_given {name : String} {o : Option Text} {n : ℕ} (h : Given a.get name o) :
    Http.u a name.toList n = some (numberOf n o) := number_of_given h

theorem num_given {name : String} {o : Option Text} {n : ℕ} (h : Given (queryGet query) name o) :
    MqttExec.num query name.toList n = some (numberOf n o) := number_of_given h

/-- What the queue holds after an operation was posted. -/
theorem peri_kbPost (op : Kb.Op) (done busy : Http.Reply) (w : World (List Kb.Op)) :
    (Http.kbPost recorder.toPeripherals w op done busy).2.peri = w.peri ++ [op] := rfl

theorem httpPosts_tap (hon : f.enabled = true) (h : HasArgs a.get (.tap k mods ms)) :
    httpPosts f d (.tap k mods ms) a =
      some (tapOps (numberOf 0 k) (numberOf 0 mods) (numberOf 50 ms)) := by
  obtain ⟨hk, hmods, hms⟩ := h
  unfold httpPosts Http.hKeyboardPost kbOp Http.hKeyboardTap
  rw [hon, u_given hk, u_given hmods, u_given hms, Bool.not_true, if_neg Bool.false_ne_true]
  simp only [Option.bind_eq_bind, Option.bind_some, Option.pure_def]
  cases numberOf 0 k with
  | none => rfl
  | some k =>
    cases numberOf 0 mods with
    | none => rfl
    | some m =>
      cases numberOf 50 ms with
      | none => rfl
      | some t =>
        unfold tapOps
        dsimp only
        by_cases hfit : k ≤ 255 ∧ m ≤ 255 ∧ t ≤ 60000
        · have hno : ¬ (255 < k ∨ 255 < m ∨ 60000 < t) := by omega
          rw [if_pos hfit, if_neg hno, Option.map_some, peri_kbPost]
          rfl
        · have hbad : 255 < k ∨ 255 < m ∨ 60000 < t := by omega
          rw [if_neg hfit, if_pos hbad]
          rfl

theorem mqttPosts_eq (p : Params) (hon : f.enabled = true) :
    mqttPosts f flash d p query =
      (MqttExec.keyboardExec recorder.toPeripherals (method p).name query ⟨d, []⟩).map
        fun r => r.2.peri := by
  have hkeyboard : MqttWhole.isKeyboard (method p) = true := by
    cases p <;> rfl
  rw [mqttPosts, MqttWhole.mqttExec_keyboard hkeyboard, hon, Bool.not_true, if_neg Bool.false_ne_true]

theorem mqttPosts_tap (hon : f.enabled = true) (h : HasArgs (queryGet query) (.tap k mods ms)) :
    mqttPosts f flash d (.tap k mods ms) query =
      some (tapOps (numberOf 0 k) (numberOf 0 mods) (numberOf 50 ms)) := by
  obtain ⟨hk, hmods, hms⟩ := h
  rw [mqttPosts_eq _ hon, MqttExec.keyboardExec, method, MqttWhole.ofName_name]
  simp only [num_given hk, num_given hmods, num_given hms, Option.bind_eq_bind, Option.bind_some,
    Option.pure_def]
  unfold MqttExec.keyboardTap
  cases numberOf 0 k with
  | none => rfl
  | some k =>
    cases numberOf 0 mods with
    | none => rfl
    | some m =>
      cases numberOf 50 ms with
      | none => rfl
      | some t =>
        unfold tapOps
        dsimp only
        split_ifs
        · rfl
        · rfl

def writtenOf (dflt : ℕ) (o : Option Text) : Option ℕ := if o = some [] then none else numberOf dflt o

theorem toList_tapOp {fs : List Text} {x y z : Option ℕ} (hx : At.toU32 (At.field fs 0) = x)
    (hy : (if 1 < fs.length then At.toU32 (At.field fs 1) else some 0) = y)
    (hz : (if 2 < fs.length then At.toU32 (At.field fs 2) else some 50) = z) :
    (At.tapOp fs).toList = tapOps x y z := by
  rw [At.tapOp, hx, hy, hz]
  cases x with
  | none => rfl
  | some k =>
    cases y with
    | none => rfl
    | some m =>
      cases z with
      | none => rfl
      | some t =>
        unfold tapOps
        dsimp only
        split_ifs
        · rfl
        · rfl

theorem atPosts_tap (hon : f.enabled = true) (h : HasFields (At.trim args) (.tap k mods ms)) :
    atPosts f flash erases d (.tap k mods ms) args =
      tapOps (writtenOf 0 k) (writtenOf 0 mods) (writtenOf 50 ms) := by
  have hk : At.toU32 (spell "0" k) = writtenOf 0 k := toU32_spell (by decide)
  have hmods : At.toU32 (spell "0" mods) = writtenOf 0 mods := toU32_spell (by decide)
  have hms : At.toU32 (spell "50" ms) = writtenOf 50 ms := toU32_spell (by decide)
  have hop : (At.tapOp (At.split 3 (At.trim args))).toList =
      tapOps (writtenOf 0 k) (writtenOf 0 mods) (writtenOf 50 ms) := by
    rcases h with ⟨hfields, rfl, rfl⟩ | ⟨hfields, rfl⟩ | hfields
    · rw [At.split, hfields]
      exact toList_tapOp hk rfl rfl
    · rw [At.split, hfields]
      exact toList_tapOp hk hmods rfl
    · rw [At.split, hfields]
      exact toList_tapOp hk hmods hms
  unfold atPosts front
  dsimp only
  rw [At.handleLine_tap, At.cmdTap, hon, Bool.not_true, if_neg Bool.false_ne_true, ← hop]
  cases At.tapOp (At.split 3 (At.trim args)) with
  | none => rfl
  | some op => rfl

theorem httpPosts_text (hon : f.enabled = true) (h : HasArgs a.get (.text s ms gap)) :
    httpPosts f d (.text s ms gap) a = some (textOps s (numberOf 40 ms) (numberOf 40 gap)) := by
  obtain ⟨hs, hms, hgap⟩ := h
  have hget : a.get "s".toList = some s := hs
  unfold httpPosts Http.hKeyboardPost kbOp Http.hKeyboardText
  rw [hon, hget, u_given hms, u_given hgap, Bool.not_true, if_neg Bool.false_ne_true]
  simp only [Option.bind_eq_bind, Option.bind_some, Option.pure_def]
  cases s with
  | nil =>
    cases numberOf 40 ms with
    | none => rfl
    | some t => cases numberOf 40 gap <;> rfl
  | cons c s =>
    rw [List.isEmpty_cons, if_neg Bool.false_ne_true]
    cases numberOf 40 ms with
    | none => rfl
    | some t =>
      cases numberOf 40 gap with
      | none => rfl
      | some g =>
        unfold textOps
        dsimp only
        rw [if_neg (List.cons_ne_nil c s)]
        split_ifs
        · rfl
        · rfl

theorem mqttPosts_text (hon : f.enabled = true) (h : HasArgs (queryGet query) (.text s ms gap)) :
    mqttPosts f flash d (.text s ms gap) query =
      some (textOps s (numberOf 40 ms) (numberOf 40 gap)) := by
  obtain ⟨hs, hms, hgap⟩ := h
  have hget : queryGet query "s".toList = some s := hs
  rw [mqttPosts_eq _ hon, MqttExec.keyboardExec, method, MqttWhole.ofName_name]
  simp only [hget, num_given hms, num_given hgap, Option.bind_eq_bind, Option.bind_some,
    Option.pure_def]
  cases s with
  | nil =>
    cases numberOf 40 ms with
    | none => rfl
    | some t => cases numberOf 40 gap <;> rfl
  | cons c s =>
    rw [List.isEmpty_cons, if_neg Bool.false_ne_true]
    unfold MqttExec.keyboardText
    cases numberOf 40 ms with
    | none => rfl
    | some t =>
      cases numberOf 40 gap with
      | none => rfl
      | some g =>
        unfold textOps
        dsimp only
        rw [if_neg (List.cons_ne_nil c s)]
        split_ifs
        · rfl
        · rfl

theorem atPosts_text (hon : f.enabled = true) (h : HasFields (At.trim args) (.text s ms gap)) :
    atPosts f flash erases d (.text s ms gap) args = textOps s (some 40) (some 40) := by
  have hs : At.trim args = s := h
  unfold atPosts front
  dsimp only
  rw [At.handleLine_keyStr, hs, At.cmdKeyStr, hon, Bool.not_true, if_neg Bool.false_ne_true, textOps]
  split_ifs
  · rfl
  · rfl
  · rfl

end Operations

section Keys

variable {f : Api.Features} {flash : Text → Bool} {erases : Bool} {d : CfgStore.Device}
variable {a : Http.Args} {query args : Text} {mods k0 k1 k2 k3 k4 k5 : Option Text}

theorem keyLoop_cons {name : String} {names : List Text} {o : Option Text} (h : Given a.get name o) :
    Http.keyLoop a (name.toList :: names) =
      if tooLarge (numberOf 0 o) then some none
      else (Http.keyLoop a names).map (Option.map (keyByte (numberOf 0 o) :: ·)) := by
  rw [Http.keyLoop, u_given h, Option.bind_some]
  cases numberOf 0 o with
  | none => rfl
  | some v =>
    dsimp only
    by_cases hv : v ≤ 255
    · have hfits : tooLarge (some v) = false := decide_eq_false (Nat.not_lt_of_le hv)
      rw [hfits, keyByte, if_pos hv, if_pos hv, if_neg Bool.false_ne_true]
    · have hlarge : tooLarge (some v) = true := decide_eq_true (Nat.lt_of_not_le hv)
      rw [hlarge, if_neg hv, if_pos rfl]

theorem keyLoop_eq {names : List String} {os : List (Option Text)}
    (h : List.Forall₂ (Given a.get) names os) :
    Http.keyLoop a (names.map String.toList) =
      some (if (os.map (numberOf 0)).any tooLarge then none
        else some ((os.map (numberOf 0)).map keyByte)) := by
  induction h with
  | nil => rfl
  | @cons name o names os hgiven _ ih =>
    rw [List.map_cons, keyLoop_cons hgiven, ih, List.map_cons, List.any_cons, List.map_cons]
    cases tooLarge (numberOf 0 o) with
    | true => rfl
    | false =>
      rw [if_neg Bool.false_ne_true, Bool.false_or]
      split_ifs
      · rfl
      · rfl

theorem httpPosts_key (hon : f.enabled = true) (h : HasArgs a.get (.key mods k0 k1 k2 k3 k4 k5)) :
    httpPosts f d (.key mods k0 k1 k2 k3 k4 k5) a =
      some (keyOps (numberOf 0 mods) ([k0, k1, k2, k3, k4, k5].map (numberOf 0))) := by
  obtain ⟨hmods, h0, h1, h2, h3, h4, h5⟩ := h
  have hloop : Http.keyLoop a MqttExec.keyNames = _ :=
    keyLoop_eq (.cons h0 (.cons h1 (.cons h2 (.cons h3 (.cons h4 (.cons h5 .nil))))))
  unfold httpPosts Http.hKeyboardPost kbOp Http.hKeyboardKey
  rw [hon, u_given hmods, hloop, Bool.not_true, if_neg Bool.false_ne_true]
  simp only [Option.bind_eq_bind, Option.bind_some, Option.pure_def]
  cases numberOf 0 mods with
  | none => rfl
  | some m =>
    unfold keyOps
    dsimp only
    cases hlarge : ([k0, k1, k2, k3, k4, k5].map (numberOf 0)).any tooLarge with
    | true => rfl
    | false => rfl

theorem mqttPosts_key (hon : f.enabled = true)
    (h : HasArgs (queryGet query) (.key mods k0 k1 k2 k3 k4 k5)) :
    mqttPosts f flash d (.key mods k0 k1 k2 k3 k4 k5) query =
      some (keyOps ((numberOf 0 mods).filter fun m => decide (m ≤ 255))
        ([k0, k1, k2, k3, k4, k5].map (numberOf 0))) := by
  obtain ⟨hmods, h0, h1, h2, h3, h4, h5⟩ := h
  rw [mqttPosts_eq _ hon, MqttExec.keyboardExec, method, MqttWhole.ofName_name]
  simp only [num_given hmods, num_given h0, num_given h1, num_given h2, num_given h3, num_given h4,
    num_given h5, Option.bind_eq_bind, Option.bind_some, Option.pure_def]
  cases (numberOf 0 mods).filter fun m => decide (m ≤ 255) with
  | none => rfl
  | some m =>
    have hbad : ((#v[numberOf 0 k0, numberOf 0 k1, numberOf 0 k2, numberOf 0 k3, numberOf 0 k4,
        numberOf 0 k5] : Vector (Option ℕ) 6).any fun v => v.any fun v => decide (255 < v)) =
          ([k0, k1, k2, k3, k4, k5].map (numberOf 0)).any tooLarge := by
      simp only [Vector.any_mk, List.any_toArray, List.map_cons, List.map_nil]
      rfl
    have hkeys : (#v[numberOf 0 k0, numberOf 0 k1, numberOf 0 k2, numberOf 0 k3, numberOf 0 k4,
        numberOf 0 k5] : Vector (Option ℕ) 6).map keyByte =
          (At.report 0 (([k0, k1, k2, k3, k4, k5].map (numberOf 0)).map keyByte)).keys := by
      simp only [Vector.map_mk, List.map_toArray, List.map_cons, List.map_nil]
      rfl
    unfold MqttExec.keyboardKey keyOps
    dsimp only
    rw [hbad, hkeys]
    cases ([k0, k1, k2, k3, k4, k5].map (numberOf 0)).any tooLarge with
    | true => rfl
    | false => rfl

/-- The parameter is written as a number of a byte. -/
def Written (o : Option Text) : Prop := o ≠ some [] ∧ Within 255 o

theorem byteField_spell_iff {o : Option Text} {b : UInt8} :
    At.byteField (spell "0" o) = some b ↔ Written o ∧ b = keyByte (numberOf 0 o) := by
  rw [At.byteField, toU32_spell (d := 0) (by decide), Written, within_iff (d := 0) (by decide)]
  by_cases ho : o = some []
  · rw [if_pos ho]
    exact iff_of_false (by simp) fun h => h.1.1 ho
  · rw [if_neg ho, Option.bind_eq_some_iff]
    constructor
    · rintro ⟨v, hv, hb⟩
      split_ifs at hb with hle
      cases hb
      rw [hv, keyByte, if_pos hle]
      exact ⟨⟨ho, v, hle, rfl⟩, rfl⟩
    · rintro ⟨⟨-, v, hle, hv⟩, rfl⟩
      refine ⟨v, hv, ?_⟩
      rw [hv, keyByte, if_pos hle, if_pos hle]

theorem mapM_byteField_iff {os : List (Option Text)} {bs : List UInt8} :
    (os.map (spell "0")).mapM At.byteField = some bs ↔
      (∀ o ∈ os, Written o) ∧ bs = (os.map (numberOf 0)).map keyByte := by
  induction os generalizing bs with
  | nil => simp [eq_comm]
  | cons o os ih =>
    rw [List.map_cons, List.mapM_cons, List.forall_mem_cons, List.map_cons, List.map_cons]
    simp only [Option.bind_eq_bind, Option.bind_eq_some_iff, byteField_spell_iff, ih, Option.pure_def,
      Option.some.injEq]
    constructor
    · rintro ⟨b, ⟨ho, rfl⟩, bs', ⟨hos, rfl⟩, rfl⟩
      exact ⟨⟨ho, hos⟩, rfl⟩
    · rintro ⟨⟨ho, hos⟩, rfl⟩
      exact ⟨_, ⟨ho, rfl⟩, _, ⟨hos, rfl⟩, rfl⟩

theorem written_none : Written none := ⟨by simp, fun v h => by cases h⟩

theorem getD_take {os : List (Option Text)} {n : ℕ} (h : ∀ o ∈ os.drop n, o = none) (i : ℕ) :
    (((os.take n).map (numberOf 0)).map keyByte).getD i 0 =
      ((os.map (numberOf 0)).map keyByte).getD i 0 := by
  simp only [List.getD_eq_getElem?_getD, List.getElem?_map, List.getElem?_take]
  by_cases hi : i < n
  · rw [if_pos hi]
  · rw [if_neg hi]
    cases ho : os[i]? with
    | none => rfl
    | some o =>
      have hmem : o ∈ os.drop n := by
        apply List.mem_of_getElem? (i := i - n)
        rw [List.getElem?_drop, Nat.add_sub_cancel' (Nat.le_of_not_lt hi), ho]
      rw [h o hmem]
      rfl

theorem report_take {os : List (Option Text)} {n : ℕ} (m : UInt8) (h : ∀ o ∈ os.drop n, o = none) :
    At.report m (((os.take n).map (numberOf 0)).map keyByte) =
      At.report m ((os.map (numberOf 0)).map keyByte) := by
  simp only [At.report, getD_take h]

theorem keyOp_fields {n : ℕ} (hn : 1 ≤ n) :
    At.keyOp ((spell "0" mods :: (([k0, k1, k2, k3, k4, k5].take n).map (spell "0"))).take 7) =
      (writtenOf 0 mods).bind fun m =>
        ((([k0, k1, k2, k3, k4, k5].take n).map (spell "0")).mapM At.byteField).map fun keys =>
          .hold (At.report m.toUInt8 keys) := by
  have hmods : At.toU32 (spell "0" mods) = writtenOf 0 mods := toU32_spell (by decide)
  have hlen : (spell "0" mods :: (([k0, k1, k2, k3, k4, k5].take n).map (spell "0"))).length ≤ 7 := by
    simp only [List.length_cons, List.length_map, List.length_take, List.length_nil]
    omega
  have htwo : ¬ (spell "0" mods :: (([k0, k1, k2, k3, k4, k5].take n).map (spell "0"))).length < 2 := by
    simp only [List.length_cons, List.length_map, List.length_take, List.length_nil]
    omega
  rw [List.take_of_length_le hlen, At.keyOp, if_neg htwo, ← hmods]
  rfl

theorem written_take_iff {os : List (Option Text)} {n : ℕ} (h : ∀ o ∈ os.drop n, o = none) :
    (∀ o ∈ os.take n, Written o) ↔ ∀ o ∈ os, Written o := by
  constructor
  · intro hw o ho
    rw [← List.take_append_drop n os] at ho
    rcases List.mem_append.mp ho with ho | ho
    · exact hw o ho
    · exact h o ho ▸ written_none
  · exact fun hw o ho => hw o (List.mem_of_mem_take ho)

theorem any_tooLarge_iff {os : List (Option Text)} :
    (os.map (numberOf 0)).any tooLarge = true ↔ ∃ o ∈ os, ∃ v, numberOf 0 o = some v ∧ 255 < v := by
  simp only [List.any_map, List.any_eq_true, Function.comp_apply, tooLarge, Option.any_eq_true,
    decide_eq_true_eq]

theorem not_tooLarge {os : List (Option Text)} (h : ∀ o ∈ os, Written o) :
    (os.map (numberOf 0)).any tooLarge = false := by
  rw [Bool.eq_false_iff]
  intro hlarge
  obtain ⟨o, ho, v, hv, hlt⟩ := any_tooLarge_iff.mp hlarge
  obtain ⟨n, hn, heq⟩ := (within_iff (Nat.zero_le 255)).mp (h o ho).2
  rw [heq] at hv
  cases hv
  omega

theorem atPosts_key_eq (hon : f.enabled = true) :
    atPosts f flash erases d (.key mods k0 k1 k2 k3 k4 k5) args =
      (At.keyOp (At.split 7 (At.trim args))).toList := by
  unfold atPosts front
  dsimp only
  rw [At.handleLine_key, At.cmdKey, hon, Bool.not_true, if_neg Bool.false_ne_true]
  cases At.keyOp (At.split 7 (At.trim args)) with
  | none => rfl
  | some op => rfl

theorem atPosts_key (hon : f.enabled = true)
    (h : HasFields (At.trim args) (.key mods k0 k1 k2 k3 k4 k5))
    (hkeys : ∀ o ∈ [k0, k1, k2, k3, k4, k5], Written o) :
    atPosts f flash erases d (.key mods k0 k1 k2 k3 k4 k5) args =
      keyOps (writtenOf 0 mods) ([k0, k1, k2, k3, k4, k5].map (numberOf 0)) := by
  obtain ⟨n, hn, hfields, hnone⟩ := h
  have hbytes := mapM_byteField_iff.mpr ⟨(written_take_iff hnone).mpr hkeys, rfl⟩
  rw [atPosts_key_eq hon, At.split, hfields, keyOp_fields hn, hbytes]
  cases writtenOf 0 mods with
  | none => rfl
  | some m =>
    rw [keyOps, not_tooLarge hkeys, if_neg Bool.false_ne_true, Option.bind_some, Option.map_some, report_take _ hnone]
    rfl

theorem atPosts_key_refused (hon : f.enabled = true)
    (h : HasFields (At.trim args) (.key mods k0 k1 k2 k3 k4 k5))
    (hkeys : ¬ ∀ o ∈ [k0, k1, k2, k3, k4, k5], Written o) :
    atPosts f flash erases d (.key mods k0 k1 k2 k3 k4 k5) args = [] := by
  obtain ⟨n, hn, hfields, hnone⟩ := h
  have hbytes : (([k0, k1, k2, k3, k4, k5].take n).map (spell "0")).mapM At.byteField = none := by
    rw [Option.eq_none_iff_forall_ne_some]
    intro bs hbs
    exact hkeys ((written_take_iff hnone).mp (mapM_byteField_iff.mp hbs).1)
  rw [atPosts_key_eq hon, At.split, hfields, keyOp_fields hn, hbytes]
  cases writtenOf 0 mods with
  | none => rfl
  | some m => rfl

end Keys

section Agreement

/-- The operation has the text and the numbers that were given. -/
def Faithful : Params → Kb.Op → Prop
  | .tap k mods ms, .tap m key t =>
    numberOf 0 k = some key.toNat ∧ numberOf 0 mods = some m.toNat ∧ numberOf 50 ms = some t.toNat
  | .text s ms gap, .text s' t g _ =>
    s' = String.ofList s ∧ numberOf 40 ms = some t.toNat ∧ numberOf 40 gap = some g.toNat
  | .key mods k0 k1 k2 k3 k4 k5, .hold r =>
    numberOf 0 mods = some r.mods.toNat ∧
      [k0, k1, k2, k3, k4, k5].map (numberOf 0) = r.keys.toList.map fun b => some b.toNat
  | _, _ => False

variable (f : Api.Features) (flash : Text → Bool) (erases : Bool) (d : CfgStore.Device)

/-- The three front ends post the same, with what was given, or nothing. -/
def Agree (p : Params) (a : Http.Args) (query args : Text) : Prop :=
  ∃ ops, httpPosts f d p a = some ops ∧ mqttPosts f flash d p query = some ops ∧
    atPosts f flash erases d p args = ops ∧ ∀ op ∈ ops, Faithful p op

/-- The parameters on which the front ends agree. -/
def Uniform : Params → Prop
  | .tap k mods ms =>
    (∀ o ∈ [k, mods, ms], o ≠ some []) ∨ ¬ (Within 255 k ∧ Within 255 mods ∧ Within 60000 ms)
  | .text s ms gap =>
    s = [] ∨ Kb.textCapacity < (String.ofList s).utf8ByteSize ∨
      numberOf 40 ms = some 40 ∧ numberOf 40 gap = some 40
  | .key mods k0 k1 k2 k3 k4 k5 =>
    numberOf 0 mods = none ∨
      (∃ o ∈ [k0, k1, k2, k3, k4, k5], ∃ v, numberOf 0 o = some v ∧ 255 < v) ∨
        Written mods ∧ ∀ o ∈ [k0, k1, k2, k3, k4, k5], Written o

def Refused : Params → Prop
  | .tap k mods ms => ¬ (Within 255 k ∧ Within 255 mods ∧ Within 60000 ms)
  | .text s ms gap =>
    s = [] ∨ Kb.textCapacity < (String.ofList s).utf8ByteSize ∨ numberOf 40 ms = none ∨
      numberOf 40 gap = none
  | .key mods k0 k1 k2 k3 k4 k5 =>
    numberOf 0 mods = none ∨ ∃ o ∈ [k0, k1, k2, k3, k4, k5], ∃ v, numberOf 0 o = some v ∧ 255 < v

def ConsoleRefused : Params → Prop
  | .tap k mods ms =>
    (∃ o ∈ [k, mods, ms], o = some []) ∨ ¬ (Within 255 k ∧ Within 255 mods ∧ Within 60000 ms)
  | .text s _ _ => s = [] ∨ Kb.textCapacity < (String.ofList s).utf8ByteSize
  | .key mods k0 k1 k2 k3 k4 k5 =>
    mods = some [] ∨ numberOf 0 mods = none ∨ ∃ o ∈ [k0, k1, k2, k3, k4, k5], ¬ Written o

/-- The requests on which the front ends agree. A line with something to trim at its end has another last
parameter for the console, so all three have to refuse it. -/
def Alike (args : Text) (p : Params) : Prop :=
  if At.trim args = args then Uniform p else Refused p ∧ ConsoleRefused (trimLast p)

variable {f flash erases d} {p : Params} {a : Http.Args} {query args s : Text}
variable {k mods ms gap k0 k1 k2 k3 k4 k5 : Option Text}

theorem toNat_toUInt32 {n : ℕ} (h : n ≤ u32Max) : n.toUInt32.toNat = n := by
  rw [Nat.toUInt32_eq, UInt32.toNat_ofNat']
  exact Nat.mod_eq_of_lt (Nat.lt_of_le_of_lt h (by decide))

theorem faithful_tapOps :
    ∀ op ∈ tapOps (numberOf 0 k) (numberOf 0 mods) (numberOf 50 ms), Faithful (.tap k mods ms) op := by
  intro op hop
  cases hk : numberOf 0 k with
  | none => rw [hk] at hop; cases hop
  | some x =>
    cases hmods : numberOf 0 mods with
    | none => rw [hk, hmods] at hop; cases hop
    | some m =>
      cases hms : numberOf 50 ms with
      | none => rw [hk, hmods, hms] at hop; cases hop
      | some t =>
        rw [hk, hmods, hms, tapOps] at hop
        split_ifs at hop with hfit
        · obtain rfl := List.mem_singleton.mp hop
          have ht := numberOf_le (by decide) hms
          rw [Faithful, Narrowing.toNat_toUInt8 hfit.1, Narrowing.toNat_toUInt8 hfit.2.1,
            toNat_toUInt32 ht]
          exact ⟨hk, hmods, hms⟩
        · cases hop

theorem tapOps_eq_nil_iff :
    tapOps (numberOf 0 k) (numberOf 0 mods) (numberOf 50 ms) = [] ↔
      ¬ (Within 255 k ∧ Within 255 mods ∧ Within 60000 ms) := by
  rw [within_iff (d := 0) (by decide), within_iff (d := 0) (by decide), within_iff (d := 50) (by decide)]
  cases numberOf 0 k with
  | none => exact iff_of_true rfl (by simp)
  | some x =>
    cases numberOf 0 mods with
    | none => exact iff_of_true rfl (by simp)
    | some m =>
      cases numberOf 50 ms with
      | none => exact iff_of_true rfl (by simp)
      | some t => simp [tapOps]

theorem tapOps_written (h : ∀ o ∈ [k, mods, ms], o ≠ some []) :
    tapOps (writtenOf 0 k) (writtenOf 0 mods) (writtenOf 50 ms) =
      tapOps (numberOf 0 k) (numberOf 0 mods) (numberOf 50 ms) := by
  have hk := h k (by simp)
  have hmods := h mods (by simp)
  have hms := h ms (by simp)
  rw [writtenOf, writtenOf, writtenOf, if_neg hk, if_neg hmods, if_neg hms]

theorem tapOps_empty (h : ∃ o ∈ [k, mods, ms], o = some []) :
    tapOps (writtenOf 0 k) (writtenOf 0 mods) (writtenOf 50 ms) = [] := by
  have hempty : ∀ {n : ℕ} {o : Option Text}, o = some [] → writtenOf n o = none := fun ho => if_pos ho
  obtain ⟨o, ho, heq⟩ := h
  simp only [List.mem_cons, List.not_mem_nil, or_false] at ho
  rcases ho with rfl | rfl | rfl
  · rw [hempty heq]
    rfl
  · rw [hempty (n := 0) heq]
    cases writtenOf 0 k <;> rfl
  · rw [hempty (n := 50) heq]
    cases writtenOf 0 k <;> cases writtenOf 0 mods <;> rfl

theorem tapOps_written_iff :
    tapOps (numberOf 0 k) (numberOf 0 mods) (numberOf 50 ms) =
        tapOps (writtenOf 0 k) (writtenOf 0 mods) (writtenOf 50 ms) ↔
      Uniform (.tap k mods ms) := by
  by_cases hne : ∀ o ∈ [k, mods, ms], o ≠ some []
  · exact iff_of_true (tapOps_written hne).symm (Or.inl hne)
  · have hempty : ∃ o ∈ [k, mods, ms], o = some [] := by
      by_contra hno
      exact hne fun o ho heq => hno ⟨o, ho, heq⟩
    rw [tapOps_empty hempty, tapOps_eq_nil_iff, Uniform, or_iff_right hne]

theorem faithful_textOps :
    ∀ op ∈ textOps s (numberOf 40 ms) (numberOf 40 gap), Faithful (.text s ms gap) op := by
  intro op hop
  cases hms : numberOf 40 ms with
  | none => rw [hms] at hop; cases hop
  | some t =>
    cases hgap : numberOf 40 gap with
    | none => rw [hms, hgap] at hop; cases hop
    | some g =>
      rw [hms, hgap, textOps] at hop
      split_ifs at hop
      · cases hop
      · obtain rfl := List.mem_singleton.mp hop
        rw [Faithful, toNat_toUInt32 (numberOf_le (by decide) hms),
          toNat_toUInt32 (numberOf_le (by decide) hgap)]
        exact ⟨rfl, hms, hgap⟩
      · cases hop

theorem textOps_eq_nil_iff {x y : Option ℕ} : textOps s x y = [] ↔
    s = [] ∨ Kb.textCapacity < (String.ofList s).utf8ByteSize ∨ x = none ∨ y = none := by
  cases x with
  | none => exact iff_of_true rfl (by simp)
  | some t =>
    cases y with
    | none => exact iff_of_true rfl (by simp)
    | some g =>
      rw [textOps]
      split_ifs with hs hfit
      · exact iff_of_true rfl (Or.inl hs)
      · exact iff_of_false id (by simp [hs, hfit])
      · exact iff_of_true rfl (Or.inr (Or.inl (Nat.lt_of_not_le hfit)))

theorem textOps_forty_iff :
    textOps s (numberOf 40 ms) (numberOf 40 gap) = textOps s (some 40) (some 40) ↔
      Uniform (.text s ms gap) := by
  unfold Uniform
  dsimp only
  by_cases hs : s = []
  · subst hs
    have hnil : ∀ x y, textOps [] x y = [] := by
      intro x y
      cases x <;> cases y <;> rfl
    rw [hnil, hnil]
    exact iff_of_true rfl (Or.inl rfl)
  · rw [or_iff_right hs]
    by_cases hfit : (String.ofList s).utf8ByteSize ≤ Kb.textCapacity
    · rw [or_iff_right (Nat.not_lt_of_le hfit)]
      constructor
      · intro h
        -- the operation of the console is one of the others, so it has their times
        have hop : Kb.Op.text (String.ofList s) (40 : ℕ).toUInt32 (40 : ℕ).toUInt32 hfit ∈
            textOps s (numberOf 40 ms) (numberOf 40 gap) := by
          rw [h, textOps, if_neg hs, dif_pos hfit]
          exact List.mem_singleton_self _
        exact (faithful_textOps _ hop).2
      · rintro ⟨hms, hgap⟩
        rw [hms, hgap]
    · have hnil : ∀ x y, textOps s x y = [] := by
        intro x y
        cases x with
        | none => rfl
        | some t =>
          cases y with
          | none => rfl
          | some g => rw [textOps, if_neg hs, dif_neg hfit]
      rw [hnil, hnil]
      exact iff_of_true rfl (Or.inl (Nat.lt_of_not_le hfit))

theorem keyOps_none (ks : List (Option ℕ)) : keyOps none ks = [] := rfl

theorem keyOps_large {m : Option ℕ} {ks : List (Option ℕ)} (h : ks.any tooLarge = true) :
    keyOps m ks = [] := by
  cases m with
  | none => rfl
  | some m => rw [keyOps, h, if_pos rfl]

theorem keyOps_some {m : ℕ} {ks : List (Option ℕ)} (h : ks.any tooLarge = false) :
    keyOps (some m) ks = [.hold (At.report m.toUInt8 (ks.map keyByte))] := by
  rw [keyOps, h, if_neg Bool.false_ne_true]

theorem keyOps_eq_nil_iff {m : Option ℕ} {ks : List (Option ℕ)} :
    keyOps m ks = [] ↔ m = none ∨ ks.any tooLarge = true := by
  cases m with
  | none => exact iff_of_true rfl (Or.inl rfl)
  | some m =>
    rw [keyOps]
    split_ifs with hlarge
    · exact iff_of_true rfl (Or.inr hlarge)
    · exact iff_of_false id (by simp [hlarge])

theorem written_iff {o : Option Text} : Written o ↔ o ≠ some [] ∧ ∃ n ≤ 255, numberOf 0 o = some n := by
  rw [Written, within_iff (Nat.zero_le 255)]

theorem faithful_report {m : ℕ} (hm : numberOf 0 mods = some m) (hle : m ≤ 255)
    (hkeys : ∀ o ∈ [k0, k1, k2, k3, k4, k5], Written o) :
    Faithful (.key mods k0 k1 k2 k3 k4 k5)
      (.hold (At.report m.toUInt8 (([k0, k1, k2, k3, k4, k5].map (numberOf 0)).map keyByte))) := by
  have hbyte : ∀ o ∈ [k0, k1, k2, k3, k4, k5],
      numberOf 0 o = some (keyByte (numberOf 0 o)).toNat := by
    intro o ho
    obtain ⟨-, n, hn, heq⟩ := written_iff.mp (hkeys o ho)
    rw [heq, keyByte, if_pos hn, Narrowing.toNat_toUInt8 hn]
  refine ⟨by rw [At.report, Narrowing.toNat_toUInt8 hle, hm], ?_⟩
  exact List.map_congr_left hbyte

theorem agree_key_iff (hon : f.enabled = true) (hhttp : HasArgs a.get (.key mods k0 k1 k2 k3 k4 k5))
    (hmqtt : HasArgs (queryGet query) (.key mods k0 k1 k2 k3 k4 k5))
    (hat : HasFields (At.trim args) (.key mods k0 k1 k2 k3 k4 k5)) :
    Agree f flash erases d (.key mods k0 k1 k2 k3 k4 k5) a query args ↔
      Uniform (.key mods k0 k1 k2 k3 k4 k5) := by
  unfold Agree Uniform
  rw [httpPosts_key hon hhttp, mqttPosts_key hon hmqtt]
  dsimp only
  constructor
  · rintro ⟨ops, hweb, hclient, hline, -⟩
    by_contra hno
    obtain ⟨hnumber, hno⟩ := not_or.mp hno
    obtain ⟨hlarge, hwritten⟩ := not_or.mp hno
    obtain ⟨m, hm⟩ := Option.ne_none_iff_exists'.mp hnumber
    have hsmall : ([k0, k1, k2, k3, k4, k5].map (numberOf 0)).any tooLarge = false :=
      Bool.eq_false_iff.mpr fun h => hlarge (any_tooLarge_iff.mp h)
    -- the web server posts, so the others do
    rw [hm, keyOps_some hsmall] at hweb
    obtain rfl := Option.some.inj hweb
    have hle : m ≤ 255 := by
      by_contra hgt
      have hfilter : (some m).filter (fun m => decide (m ≤ 255)) = none :=
        Option.filter_eq_none_iff.mpr fun v hv => by cases hv; simpa using hgt
      rw [hm, hfilter, keyOps_none] at hclient
      cases hclient
    by_cases hkeys : ∀ o ∈ [k0, k1, k2, k3, k4, k5], Written o
    · rw [atPosts_key hon hat hkeys] at hline
      by_cases hempty : mods = some []
      · rw [writtenOf, if_pos hempty, keyOps_none] at hline
        cases hline
      · exact hwritten ⟨written_iff.mpr ⟨hempty, m, hle, hm⟩, hkeys⟩
    · rw [atPosts_key_refused hon hat hkeys] at hline
      cases hline
  · rintro (hnumber | hlarge | ⟨hmods, hkeys⟩)
    · have hnone : writtenOf 0 mods = none := by
        rw [writtenOf, hnumber, ite_self]
      refine ⟨[], by rw [hnumber]; rfl, by rw [hnumber]; rfl, ?_, fun op hop => by cases hop⟩
      by_cases hkeys : ∀ o ∈ [k0, k1, k2, k3, k4, k5], Written o
      · rw [atPosts_key hon hat hkeys, hnone, keyOps_none]
      · exact atPosts_key_refused hon hat hkeys
    · have hany := any_tooLarge_iff.mpr hlarge
      refine ⟨[], by rw [keyOps_large hany], by rw [keyOps_large hany], ?_, fun op hop => by cases hop⟩
      apply atPosts_key_refused hon hat
      intro hkeys
      rw [not_tooLarge hkeys] at hany
      cases hany
    · obtain ⟨hempty, m, hle, hm⟩ := written_iff.mp hmods
      have hsmall := not_tooLarge hkeys
      have hfilter : (some m).filter (fun m => decide (m ≤ 255)) = some m :=
        Option.filter_eq_some_iff.mpr ⟨rfl, decide_eq_true hle⟩
      refine ⟨_, by rw [hm, keyOps_some hsmall], by rw [hm, hfilter, keyOps_some hsmall], ?_, ?_⟩
      · rw [atPosts_key hon hat hkeys, writtenOf, if_neg hempty, hm, keyOps_some hsmall]
      · intro op hop
        obtain rfl := List.mem_singleton.mp hop
        exact faithful_report hm hle hkeys

theorem httpPosts_eq_nil_iff (hon : f.enabled = true) (h : HasArgs a.get p) :
    httpPosts f d p a = some [] ↔ Refused p := by
  cases p with
  | tap k mods ms => rw [httpPosts_tap hon h, Option.some.injEq, tapOps_eq_nil_iff, Refused]
  | text s ms gap =>
    rw [httpPosts_text hon h, Option.some.injEq, textOps_eq_nil_iff, Refused]
  | key mods k0 k1 k2 k3 k4 k5 =>
    rw [httpPosts_key hon h, Option.some.injEq, keyOps_eq_nil_iff, any_tooLarge_iff, Refused]

theorem mqttPosts_of_refused (hon : f.enabled = true) (h : HasArgs (queryGet query) p) (hp : Refused p) :
    mqttPosts f flash d p query = some [] := by
  cases p with
  | tap k mods ms => rw [mqttPosts_tap hon h, tapOps_eq_nil_iff.mpr hp]
  | text s ms gap => rw [mqttPosts_text hon h, textOps_eq_nil_iff.mpr hp]
  | key mods k0 k1 k2 k3 k4 k5 =>
    rw [mqttPosts_key hon h, Option.some.injEq, keyOps_eq_nil_iff, any_tooLarge_iff]
    rcases hp with hmods | hlarge
    · exact Or.inl (by rw [hmods]; rfl)
    · exact Or.inr hlarge

theorem atPosts_eq_nil_iff (hon : f.enabled = true) (h : HasFields (At.trim args) p) :
    atPosts f flash erases d p args = [] ↔ ConsoleRefused p := by
  cases p with
  | tap k mods ms =>
    rw [atPosts_tap hon h, ConsoleRefused]
    by_cases hempty : ∃ o ∈ [k, mods, ms], o = some []
    · exact iff_of_true (tapOps_empty hempty) (Or.inl hempty)
    · rw [tapOps_written fun o ho heq => hempty ⟨o, ho, heq⟩, tapOps_eq_nil_iff, or_iff_right hempty]
  | text s ms gap =>
    rw [atPosts_text hon h, textOps_eq_nil_iff, ConsoleRefused]
    simp
  | key mods k0 k1 k2 k3 k4 k5 =>
    rw [ConsoleRefused]
    by_cases hkeys : ∀ o ∈ [k0, k1, k2, k3, k4, k5], Written o
    · have hno : ¬ ∃ o ∈ [k0, k1, k2, k3, k4, k5], ¬ Written o := fun ⟨o, ho, h⟩ => h (hkeys o ho)
      rw [atPosts_key hon h hkeys, keyOps_eq_nil_iff, not_tooLarge hkeys, or_iff_left Bool.false_ne_true,
        or_iff_left hno, writtenOf]
      split_ifs with hmods
      · exact iff_of_true rfl (Or.inl hmods)
      · exact (or_iff_right hmods).symm
    · refine iff_of_true (atPosts_key_refused hon h hkeys) (Or.inr (Or.inr ?_))
      simpa only [not_forall, exists_prop] using hkeys

theorem front_trimLast (p : Params) : front (trimLast p) = front p := by
  unfold trimLast
  split <;> rfl

/-- What the console posts from a line that it trims is not what was given. -/
theorem not_faithful_of_trim (hon : f.enabled = true) (h : HasFields args p) (hne : At.trim args ≠ args) :
    ∀ op ∈ atPosts f flash erases d p args, ¬ Faithful p op := by
  intro op hop hfaithful
  cases p with
  | tap k mods ms =>
    cases op with
    | tap m key t =>
      obtain ⟨hk, hmods, hms⟩ := hfaithful
      rcases numberOf_tap_of_trim h hne with hnone | hnone | hnone
      · cases hk.symm.trans hnone
      · cases hmods.symm.trans hnone
      · cases hms.symm.trans hnone
    | _ => exact hfaithful
  | text s ms gap =>
    obtain rfl : args = s := h
    have hposts : atPosts f flash erases d (.text args ms gap) args =
        textOps (At.trim args) (some 40) (some 40) :=
      atPosts_text hon (show HasFields (At.trim args) (.text (At.trim args) ms gap) from rfl)
    rw [hposts, textOps] at hop
    split_ifs at hop
    · cases hop
    · obtain rfl := List.mem_singleton.mp hop
      exact hne (String.ofList_injective hfaithful.1)
    · cases hop
  | key mods k0 k1 k2 k3 k4 k5 =>
    cases op with
    | hold r =>
      obtain ⟨o, ho, hnone⟩ := numberOf_key_of_trim h hne
      have hmem : none ∈ r.keys.toList.map fun b => some b.toNat := by
        rw [← hfaithful.2, ← hnone]
        exact List.mem_map_of_mem ho
      obtain ⟨b, -, hb⟩ := List.mem_map.mp hmem
      cases hb
    | _ => exact hfaithful

/-- A line that the console trims is refused by all three, or they disagree. -/
theorem agree_trim_iff (hon : f.enabled = true) (hhttp : HasArgs a.get p)
    (hmqtt : HasArgs (queryGet query) p) (hat : HasFields args p) (hne : At.trim args ≠ args) :
    Agree f flash erases d p a query args ↔ Refused p ∧ ConsoleRefused (trimLast p) := by
  have hposts : atPosts f flash erases d (trimLast p) args = atPosts f flash erases d p args := by
    rw [atPosts, front_trimLast, atPosts]
  rw [← httpPosts_eq_nil_iff hon hhttp, ← atPosts_eq_nil_iff hon (hasFields_trim hat hne), hposts]
  constructor
  · rintro ⟨ops, hweb, -, rfl, hfaithful⟩
    have hnil : atPosts f flash erases d p args = [] := by
      rw [List.eq_nil_iff_forall_not_mem]
      exact fun op hop => not_faithful_of_trim hon hat hne op hop (hfaithful op hop)
    exact ⟨hweb.trans (congrArg some hnil), hnil⟩
  · rintro ⟨hweb, hline⟩
    have hp := (httpPosts_eq_nil_iff hon hhttp).mp hweb
    exact ⟨[], hweb, mqttPosts_of_refused hon hmqtt hp, hline, fun op hop => by cases hop⟩

/-- Of a line that the console takes as it is. -/
theorem agree_untrimmed_iff (hon : f.enabled = true) (hhttp : HasArgs a.get p)
    (hmqtt : HasArgs (queryGet query) p) (hat : HasFields (At.trim args) p) :
    Agree f flash erases d p a query args ↔ Uniform p := by
  cases p with
  | tap k mods ms =>
    rw [Agree, httpPosts_tap hon hhttp, mqttPosts_tap hon hmqtt, atPosts_tap hon hat,
      ← tapOps_written_iff]
    constructor
    · rintro ⟨ops, hops, -, hline, -⟩
      rw [hline]
      exact Option.some.inj hops
    · exact fun h => ⟨_, rfl, rfl, h.symm, faithful_tapOps⟩
  | text s ms gap =>
    rw [Agree, httpPosts_text hon hhttp, mqttPosts_text hon hmqtt, atPosts_text hon hat,
      ← textOps_forty_iff]
    constructor
    · rintro ⟨ops, hops, -, hline, -⟩
      rw [hline]
      exact Option.some.inj hops
    · exact fun h => ⟨_, rfl, rfl, h.symm, faithful_textOps⟩
  | key mods k0 k1 k2 k3 k4 k5 => exact agree_key_iff hon hhttp hmqtt hat

theorem agree_off (hoff : f.enabled = false) : Agree f flash erases d p a query args := by
  have hkeyboard : MqttWhole.isKeyboard (method p) = true := by
    cases p <;> rfl
  refine ⟨[], ?_, ?_, ?_, fun op hop => by cases hop⟩
  · unfold httpPosts Http.hKeyboardPost
    rw [hoff]
    rfl
  · rw [mqttPosts, MqttWhole.mqttExec_keyboard hkeyboard, hoff]
    rfl
  · cases p with
    | tap k mods ms =>
      unfold atPosts front
      dsimp only
      rw [At.handleLine_tap, At.cmdTap, hoff]
      rfl
    | text s ms gap =>
      unfold atPosts front
      dsimp only
      rw [At.handleLine_keyStr, At.cmdKeyStr, hoff]
      rfl
    | key mods k0 k1 k2 k3 k4 k5 =>
      unfold atPosts front
      dsimp only
      rw [At.handleLine_key, At.cmdKey, hoff]
      rfl

/-- The front ends agree on a request exactly where its parameters are alike for them, or there is no
keyboard. -/
theorem agree_iff (hhttp : HasArgs a.get p) (hmqtt : HasArgs (queryGet query) p) (hat : HasFields args p) :
    Agree f flash erases d p a query args ↔ f.enabled = false ∨ Alike args p := by
  cases hon : f.enabled with
  | false => exact iff_of_true (agree_off hon) (Or.inl rfl)
  | true =>
    rw [or_iff_right (by decide), Alike]
    split_ifs with htrim
    · exact agree_untrimmed_iff hon hhttp hmqtt (htrim.symm ▸ hat)
    · exact agree_trim_iff hon hhttp hmqtt hat htrim

theorem get_query (query : Text) : Http.Args.get ⟨[], query⟩ = queryGet query := by
  funext key
  have hbody : Http.hasIn [] key = false :=
    decide_eq_false fun h => List.append_ne_nil_of_right_ne_nil key (List.cons_ne_nil '=' [])
      (List.infix_nil.mp h)
  rw [Http.Args.get, hbody, if_neg Bool.false_ne_true]

theorem agree_tap_four :
    Agree MqttWhole.everything (fun _ => true) true
      (CfgStore.boot (Vector.replicate 6 0) fun _ => none)
      (.tap (some "4".toList) none none) ⟨[], "k=4".toList⟩ "k=4".toList "4".toList := by
  have hget : HasArgs (queryGet "k=4".toList) (.tap (some "4".toList) none none) := by
    unfold HasArgs Given
    decide +kernel
  have htrim : At.trim "4".toList = "4".toList := by decide
  refine (agree_iff ?_ hget (Or.inl ⟨by decide +kernel, rfl, rfl⟩)).mpr (Or.inr ?_)
  · rw [get_query]
    exact hget
  · rw [Alike, if_pos htrim]
    exact Or.inl (by decide)

/-- Modifiers above 255 are cut to a byte by the web server and the console, and refused over MQTT. -/
theorem wide_modifiers_disagree :
    ¬ ∀ p a query args, HasArgs (Http.Args.get a) p → HasArgs (queryGet query) p →
      HasFields args p → Agree MqttWhole.everything (fun _ => true) true
        (CfgStore.boot (Vector.replicate 6 0) fun _ => none) p a query args := by
  intro h
  have hget : HasArgs (queryGet "mods=256&k0=4".toList)
      (.key (some "256".toList) (some "4".toList) none none none none none) := by
    unfold HasArgs Given
    decide +kernel
  have hfields : HasFields "256,4".toList
      (.key (some "256".toList) (some "4".toList) none none none none none) :=
    ⟨1, Nat.le_refl 1, by decide +kernel, by decide⟩
  obtain ⟨ops, hweb, hclient, -⟩ := h _ ⟨[], "mods=256&k0=4".toList⟩ "mods=256&k0=4".toList
    "256,4".toList (get_query _ ▸ hget) hget hfields
  have hone : (httpPosts MqttWhole.everything (CfgStore.boot (Vector.replicate 6 0) fun _ => none)
      (.key (some "256".toList) (some "4".toList) none none none none none)
      ⟨[], "mods=256&k0=4".toList⟩).map List.length = some 1 := by
    decide +kernel
  have hzero : (mqttPosts MqttWhole.everything (fun _ => true)
      (CfgStore.boot (Vector.replicate 6 0) fun _ => none)
      (.key (some "256".toList) (some "4".toList) none none none none none)
      "mods=256&k0=4".toList).map List.length = some 0 := by
    decide +kernel
  rw [hweb] at hone
  rw [hclient, hone] at hzero
  cases hzero

end Agreement

end AtNode.KeyboardFrontEnds
