import AtNode.Ch582.AtTable

/-!
# Numbers that are cut on their way to a setter

Seven handlers of the CH582 firmware cast what `atoi` reads of an argument to 8 or 16 bits before
anything checks its range. The check, where there is one, sees the remainder.

A command acts as written when it is refused, or each number that a setter takes is the number the
argument at its place stands for. It is proved for each handler when it does: when the arguments fit
their types, or what is left of them is refused. An argument that is no decimal number asks for
nothing.
-/

namespace AtNode.AtCmds

open ArgProgram Ble CString Router

variable {n : ℕ} {σ : Type}

section Meaning

/-- The handlers that cut. -/
inductive Cutting where
  | pace | gpioW | gpioR | adc | keyCfg | btConn | led
  deriving DecidableEq

def Cutting.command : Cutting → Command
  | .pace => .pace
  | .gpioW => .gpioW
  | .gpioR => .gpioR
  | .adc => .adc
  | .keyCfg => .keyCfg
  | .btConn => .btConn
  | .led => .led

/-- `argv` with the tokens of the line in front of what earlier lines left. -/
def argOf (tokens : List Text) (stale : ℕ → Option Text) (i : ℕ) : Option Text :=
  tokens[i]?.or (stale i)

/-- The number at a place, if there is one, is `v`. -/
def WrittenAt (tokens : List Text) (i : ℕ) (v : ℤ) : Prop :=
  ∀ t ∈ tokens[i]?, ∀ z ∈ numeral t, v = z

/-- The numbers that a setter takes are those that are written. A pin is driven with 20 mA when that
is written, and the index form alone of `AT+BT_CONN` has an index. -/
def Setting.Written (tokens : List Text) : Setting → Prop
  | .pace _ ms => WrittenAt tokens 1 ms.toNat
  | .gpioWrite pin level drive20 =>
    WrittenAt tokens 1 pin.toNat ∧ WrittenAt tokens 2 level.toNat ∧
      ∀ t ∈ tokens[3]?, ∀ z ∈ numeral t, drive20 = true ↔ z = 20
  | .gpioRead pin mode => WrittenAt tokens 1 pin.toNat ∧ WrittenAt tokens 2 mode.toNat
  | .adc ch pga => WrittenAt tokens 1 ch.toNat ∧ WrittenAt tokens 2 pga.toNat
  | .blink _ duty period => WrittenAt tokens 2 period.toNat ∧ WrittenAt tokens 3 duty.toNat
  | .keyShown pin => WrittenAt tokens 1 pin.toNat
  | .keySet pin mods kc =>
    WrittenAt tokens 1 pin.toNat ∧ WrittenAt tokens 2 mods.toNat ∧ WrittenAt tokens 3 kc.toNat
  | .connect index =>
    (∃ form ∈ tokens[1]?, sameName form (bytes "index")) → WrittenAt tokens 2 index.toNat
  | .watch seconds => WrittenAt tokens 3 seconds.toNat

/-- The handler refuses the command, or its setters take nothing but what is written. -/
def ActsAsWritten (C : Chip n σ) (c : Command) (tokens : List Text) (stale : ℕ → Option Text)
    (w : Node n σ) : Prop :=
  let r := (handler C tokens.length c).run (argOf tokens stale) w
  r.ending = .value (-1) ∨ ∀ s ∈ r.state.taken.drop w.taken.length, s.Written tokens

def Within (tokens : List Text) (i : ℕ) (lo hi : ℤ) : Prop :=
  ∀ t ∈ tokens[i]?, ∀ z ∈ numeral t, lo ≤ z ∧ z ≤ hi

/-- What the casts leave of the argument at a place. -/
def byteAt (tokens : List Text) (i : ℕ) (dflt : UInt8) : UInt8 :=
  tokens[i]?.elim dflt fun t => toU8 (atoi t)

def wordAt (tokens : List Text) (i : ℕ) (dflt : UInt16) : UInt16 :=
  tokens[i]?.elim dflt fun t => toU16 (atoi t)

variable {tokens : List Text} {i : ℕ} {t : Text}

theorem byteAt_eq (h : tokens[i]? = some t) (dflt : UInt8) :
    byteAt tokens i dflt = toU8 (atoi t) := by
  rw [byteAt, h, Option.elim_some]

theorem wordAt_eq (h : tokens[i]? = some t) (dflt : UInt16) :
    wordAt tokens i dflt = toU16 (atoi t) := by
  rw [wordAt, h, Option.elim_some]

theorem writtenAt_byteAt_iff (dflt : UInt8) :
    WrittenAt tokens i (byteAt tokens i dflt).toNat ↔ Within tokens i 0 255 := by
  refine forall_congr' fun t => forall_congr' fun ht => ?_
  rw [byteAt_eq ht]
  exact forall_congr' fun z => forall_congr' fun hz => toU8_atoi_eq_iff hz

theorem writtenAt_wordAt_iff (dflt : UInt16) :
    WrittenAt tokens i (wordAt tokens i dflt).toNat ↔ Within tokens i 0 65535 := by
  refine forall_congr' fun t => forall_congr' fun ht => ?_
  rw [wordAt_eq ht]
  exact forall_congr' fun z => forall_congr' fun hz => toU16_atoi_eq_iff hz

theorem within_of_absent {lo hi : ℤ} (h : tokens.length ≤ i) : Within tokens i lo hi := by
  intro t ht
  rw [List.getElem?_eq_none h] at ht
  cases ht

theorem getElem?_of_lt (tokens : List Text) {i : ℕ} (h : i < tokens.length) :
    ∃ t, tokens[i]? = some t :=
  ⟨tokens[i], List.getElem?_eq_getElem h⟩

theorem argOf_eq {stale : ℕ → Option Text} (h : tokens[i]? = some t) :
    argOf tokens stale i = some t := by
  rw [argOf, h, Option.some_or]

/-- An argument that the line does not have is not written. -/
theorem writtenAt_argOf_iff {stale : ℕ → Option Text} (h : argOf tokens stale i = some t) :
    WrittenAt tokens i (toU8 (atoi t)).toNat ↔ Within tokens i 0 255 := by
  refine forall_congr' fun t' => forall_congr' fun ht' => ?_
  rw [argOf_eq ht'] at h
  cases h
  exact forall_congr' fun z => forall_congr' fun hz => toU8_atoi_eq_iff hz

end Meaning

section Conditions

variable (C : Chip n σ) (tokens : List Text) (stale : ℕ → Option Text) (w : Node n σ)

/-- A slot of the keyboard is active, and what is left of the number passes the check. -/
def PaceFits : Prop :=
  (activeSlot n w.keyboard.kbTarget).isSome → 5 ≤ wordAt tokens 1 0 → wordAt tokens 1 0 ≤ 2000 →
    Within tokens 1 0 65535

def GpioWFits : Prop :=
  C.build.gpio → 3 ≤ tokens.length → byteAt tokens 1 0 ≤ hwsGpioPLast →
    Within tokens 1 0 255 ∧ Within tokens 2 0 255

def GpioRFits : Prop :=
  C.build.gpio → 2 ≤ tokens.length → byteAt tokens 1 0 ≤ hwsGpioPLast → byteAt tokens 2 0 ≤ 2 →
    Within tokens 1 0 255 ∧ Within tokens 2 0 255

def AdcFits : Prop :=
  C.build.adc → 2 ≤ tokens.length → byteAt tokens 1 0 ≤ 13 → byteAt tokens 2 2 ≤ 3 →
    Within tokens 1 0 255 ∧ Within tokens 2 0 255

/-- With two arguments the handler reads a third that the line does not have. -/
def KeyCfgFits : Prop :=
  2 ≤ tokens.length → (keyIndex (byteAt tokens 1 0)).isSome →
    (tokens.length = 3 → (stale 3).isSome) →
      Within tokens 1 0 255 ∧ Within tokens 2 0 255 ∧ Within tokens 3 0 255

/-- A dongle that idles takes the seconds of the two forms that scan, and the index of the third. -/
def ConnFits : Prop :=
  C.build.hasDongle → roleCurrent C w.rest = .dongle → w.dongle.state = .idle →
    ∀ form value, tokens[1]? = some form → tokens[2]? = some value →
      (sameName form (bytes "name") ∨ sameName form (bytes "mac") ∧ (parseMac value).isSome →
        w.dongle.watchActive = false → Within tokens 3 0 255) ∧
      (sameName form (bytes "index") → (byteAt tokens 2 0).toNat < w.dongle.scanList.length →
        Within tokens 2 0 255)

def LedFits : Prop :=
  ∀ m, tokens[1]? = some m → ledMode m = some ledModeBlink ∨ ledMode m = some ledModeFlash →
    Within tokens 2 0 65535 ∧ Within tokens 3 0 255

def Cutting.Fits : Cutting → Prop
  | .pace => PaceFits tokens w
  | .gpioW => GpioWFits C tokens
  | .gpioR => GpioRFits C tokens
  | .adc => AdcFits C tokens
  | .keyCfg => KeyCfgFits tokens stale
  | .btConn => ConnFits C tokens w
  | .led => LedFits tokens

end Conditions

section Outcomes

variable {C : Chip n σ} {c : Command} {tokens : List Text} {stale : ℕ → Option Text}
  {w w' : Node n σ} {e : Ending Stop Int} {s : Setting}

theorem acts_of_refused
    (h : ((handler C tokens.length c).outcome (argOf tokens stale) w).1 = .value (-1)) :
    ActsAsWritten C c tokens stale w := Or.inl h

theorem acts_of_untaken
    (h : ((handler C tokens.length c).outcome (argOf tokens stale) w).2.taken = w.taken) :
    ActsAsWritten C c tokens stale w := by
  have hstate : ((handler C tokens.length c).run (argOf tokens stale) w).state.taken = w.taken := h
  refine Or.inr fun s hs => ?_
  rw [hstate, List.drop_length] at hs
  cases hs

theorem acts_iff_of_taken
    (h : (handler C tokens.length c).outcome (argOf tokens stale) w = (e, w'))
    (he : e ≠ .value (-1)) (ht : w'.taken = w.taken ++ [s]) :
    ActsAsWritten C c tokens stale w ↔ s.Written tokens := by
  obtain ⟨hend, hstate⟩ := Prod.ext_iff.mp h
  have hending : ((handler C tokens.length c).run (argOf tokens stale) w).ending = e := hend
  have hstate' : ((handler C tokens.length c).run (argOf tokens stale) w).state = w' := hstate
  unfold ActsAsWritten
  simp only [hending, hstate', ht, List.drop_left, List.mem_singleton, forall_eq, or_iff_right he]

theorem zero_ne_refused : (.value 0 : Ending Stop Int) ≠ .value (-1) := fun h => by cases h

@[simp] theorem outcome_refuse (argv : ℕ → Option Text) (t : Text) (w : Node n σ) :
    (refuse t : Program n σ Int).outcome argv w = (.value (-1), w.respond t) := rfl

@[simp] theorem outcome_respond_bind {α : Type} (argv : ℕ → Option Text) (t : Text)
    (f : Unit → Program n σ α) (w : Node n σ) :
    (respond t >>= f).outcome argv w = (f ()).outcome argv (w.respond t) := rfl

@[simp] theorem outcome_map_respond {α : Type} (argv : ℕ → Option Text) (t : Text) (f : Unit → α)
    (w : Node n σ) :
    (f <$> (respond t : Program n σ Unit)).outcome argv w = (.value (f ()), w.respond t) := rfl

theorem outcome_askU8_bind {α : Type} (i : ℕ) (dflt : UInt8) (f : UInt8 → Program n σ α) :
    (askU8 tokens.length i dflt >>= f).outcome (argOf tokens stale) w =
      (f (byteAt tokens i dflt)).outcome (argOf tokens stale) w := by
  unfold askU8
  by_cases hi : i < tokens.length
  · obtain ⟨t, ht⟩ := getElem?_of_lt tokens hi
    rw [if_pos hi, byteAt_eq ht]
    simp [argOf_eq ht]
  · rw [if_neg hi, byteAt, List.getElem?_eq_none (Nat.not_lt.mp hi)]
    rfl

end Outcomes

section Pins

variable {C : Chip n σ} {tokens : List Text} {stale : ℕ → Option Text} {w : Node n σ}

theorem gpioW_iff : ActsAsWritten C .gpioW tokens stale w ↔ GpioWFits C tokens := by
  unfold GpioWFits
  by_cases hb : C.build.gpio = true
  case neg =>
    exact iff_of_true (acts_of_refused (by simp [handler, atCmdGpioW, hb])) fun h => absurd h hb
  by_cases hlen : 3 ≤ tokens.length
  case neg =>
    refine iff_of_true (acts_of_refused ?_) fun _ h => absurd h hlen
    simp [handler, atCmdGpioW, hb, Nat.not_le.mp hlen]
  obtain ⟨pin, hpin⟩ := getElem?_of_lt tokens (i := 1) (by omega)
  obtain ⟨level, hlevel⟩ := getElem?_of_lt tokens (i := 2) (by omega)
  obtain ⟨drive, hdrive, hout⟩ : ∃ drive : Bool,
      (∀ t ∈ tokens[3]?, ∀ z ∈ numeral t, drive = true ↔ z = 20) ∧
      (handler C tokens.length .gpioW).outcome (argOf tokens stale) w =
        let r := hwsGpioWrite C w (byteAt tokens 1 0) (byteAt tokens 2 0) drive
        if r.1 < 0 then (.value (-1), r.2.respond (bytes "ERROR: bad pin (0-15=PA, 16-39=PB)"))
        else (.value 0, r.2) := by
    rw [byteAt_eq hpin, byteAt_eq hlevel]
    by_cases hfour : 3 < tokens.length
    · obtain ⟨d, hd⟩ := getElem?_of_lt tokens hfour
      refine ⟨atoi d == 20, fun t ht z hz => ?_, ?_⟩
      · rw [hd] at ht
        cases ht
        have hatoi := atoi_of_numeral hz
        rw [beq_iff_eq]
        omega
      · simp [handler, atCmdGpioW, hb, hlen.not_gt, hfour, argOf_eq hpin, argOf_eq hlevel,
          argOf_eq hd]
    · refine ⟨false, fun t ht => ?_, ?_⟩
      · rw [List.getElem?_eq_none (Nat.not_lt.mp hfour)] at ht
        cases ht
      · simp [handler, atCmdGpioW, hb, hlen.not_gt, hfour, argOf_eq hpin, argOf_eq hlevel]
  by_cases hp : hwsGpioPLast < byteAt tokens 1 0
  · refine iff_of_true (acts_of_refused ?_) fun _ _ h => absurd h (UInt8.not_le.mpr hp)
    rw [hout]
    simp [hwsGpioWrite, hp]
  · rw [hwsGpioWrite, if_neg hp] at hout
    rw [acts_iff_of_taken hout zero_ne_refused rfl]
    simp only [Setting.Written, writtenAt_byteAt_iff, iff_true_intro hdrive, and_true, hb, hlen,
      UInt8.not_lt.mp hp, true_implies]

theorem gpioR_iff : ActsAsWritten C .gpioR tokens stale w ↔ GpioRFits C tokens := by
  unfold GpioRFits
  by_cases hb : C.build.gpio = true
  case neg =>
    exact iff_of_true (acts_of_refused (by simp [handler, atCmdGpioR, hb])) fun h => absurd h hb
  by_cases hlen : 2 ≤ tokens.length
  case neg =>
    refine iff_of_true (acts_of_refused ?_) fun _ h => absurd h hlen
    simp [handler, atCmdGpioR, hb, Nat.not_le.mp hlen]
  obtain ⟨pin, hpin⟩ := getElem?_of_lt tokens (i := 1) (by omega)
  have hout : (handler C tokens.length .gpioR).outcome (argOf tokens stale) w =
      let r := hwsGpioRead C w (byteAt tokens 1 0) (byteAt tokens 2 0)
      if r.1 < 0 then (.value (-1), r.2.respond (bytes "ERROR: bad pin (0-15=PA, 16-39=PB)"))
      else (.value 0, r.2.respond (dec r.1)) := by
    simp [handler, atCmdGpioR, hb, hlen.not_gt, outcome_askU8_bind, argOf_eq hpin, byteAt_eq hpin]
  by_cases hp : hwsGpioPLast < byteAt tokens 1 0 ∨ 2 < byteAt tokens 2 0
  · refine iff_of_true (acts_of_refused ?_) fun _ _ h₁ h₂ => ?_
    · rw [hout]
      simp [hwsGpioRead, hp]
    · exact absurd hp (not_or.mpr ⟨UInt8.not_lt.mpr h₁, UInt8.not_lt.mpr h₂⟩)
  · obtain ⟨h₁, h₂⟩ := not_or.mp hp
    rw [hwsGpioRead, if_neg hp] at hout
    dsimp only at hout
    rw [if_neg (by split_ifs <;> decide)] at hout
    rw [acts_iff_of_taken hout zero_ne_refused rfl]
    simp only [Setting.Written, writtenAt_byteAt_iff, hb, hlen, UInt8.not_lt.mp h₁,
      UInt8.not_lt.mp h₂, true_implies]

/-- The voltage of a sample of 12 bits is never the mark of a bad channel. -/
theorem pgaRawToMv_ne (raw : UInt16) {pga : UInt8} (hraw : raw.toNat ≤ 0x0FFF) (hpga : pga ≤ 3) :
    pgaRawToMv raw pga ≠ 0xFFFF := by
  intro h
  have hnat := congrArg UInt16.toNat h
  have hvref : hwsAdcVrefMv.toNat = 1050 := rfl
  have hthree : (3 * hwsAdcVrefMv).toNat = 3150 := rfl
  have hmark : (0xFFFF : UInt16).toNat = 65535 := rfl
  have hfit : raw.toNat * 1050 % 2 ^ 32 = raw.toNat * 1050 := Nat.mod_eq_of_lt (by omega)
  have hsum : (raw.toNat + 2048) % 2 ^ 32 = raw.toNat + 2048 := Nat.mod_eq_of_lt (by omega)
  have hfit' : (raw.toNat + 2048) * 1050 % 2 ^ 32 = (raw.toNat + 2048) * 1050 :=
    Nat.mod_eq_of_lt (by omega)
  -- no quotient is just below what is subtracted from it
  have hlow : raw.toNat * 1050 / 512 ≠ 3149 ∧ raw.toNat * 1050 / 512 < 8400 := by omega
  have hmid : raw.toNat * 1050 / 1024 ≠ 1049 ∧ raw.toNat * 1050 / 1024 < 4200 := by omega
  have hhigh : raw.toNat * 1050 / 2048 < 2100 := by omega
  have htop : (raw.toNat + 2048) * 1050 / 4096 < 2100 := Nat.div_lt_of_lt_mul (by omega)
  unfold pgaRawToMv at hnat
  dsimp only at hnat
  split_ifs at hnat with h0 h1 h2 h3
  iterate 4
    simp only [UInt32.toNat_toUInt16, UInt32.toNat_sub, UInt32.toNat_div, UInt32.toNat_mul,
      UInt32.toNat_add, UInt16.toNat_toUInt32, hthree, hvref, hmark, hsum, hfit, hfit',
      UInt32.reduceToNat] at hnat
    omega
  · have hp : pga.toNat ≤ 3 := UInt8.le_iff_toNat_le.mp hpga
    simp only [← UInt8.toNat_inj, UInt8.reduceToNat] at h0 h1 h2 h3
    omega

theorem adc_iff : ActsAsWritten C .adc tokens stale w ↔ AdcFits C tokens := by
  unfold AdcFits
  by_cases hb : C.build.adc = true
  case neg =>
    exact iff_of_true (acts_of_refused (by simp [handler, atCmdAdc, hb])) fun h => absurd h hb
  by_cases hlen : 2 ≤ tokens.length
  case neg =>
    refine iff_of_true (acts_of_refused ?_) fun _ h => absurd h hlen
    simp [handler, atCmdAdc, hb, Nat.not_le.mp hlen]
  obtain ⟨ch, hch⟩ := getElem?_of_lt tokens (i := 1) (by omega)
  by_cases hp : 13 < byteAt tokens 1 0 ∨ 3 < byteAt tokens 2 2
  · refine iff_of_true (acts_of_refused ?_) fun _ _ h₁ h₂ => ?_
    · rw [byteAt_eq hch] at hp
      simp [handler, atCmdAdc, hb, hlen.not_gt, outcome_askU8_bind, argOf_eq hch, hp]
    · exact absurd hp (not_or.mpr ⟨UInt8.not_lt.mpr h₁, UInt8.not_lt.mpr h₂⟩)
  · obtain ⟨h₁, h₂⟩ := not_or.mp hp
    have hraw : ((C.adcSample (byteAt tokens 1 0) (byteAt tokens 2 2) w.rest).1 &&& 0x0FFF).toNat ≤
        0x0FFF := by
      rw [UInt16.toNat_and]
      exact Nat.and_le_right
    have hmv := pgaRawToMv_ne _ hraw (UInt8.not_lt.mp h₂)
    have hout : ∃ t, (handler C tokens.length .adc).outcome (argOf tokens stale) w =
        (.value 0, (w.take (.adc (byteAt tokens 1 0) (byteAt tokens 2 2))
          (C.adcSample (byteAt tokens 1 0) (byteAt tokens 2 2) w.rest).2).respond t) := by
      rw [byteAt_eq hch] at hp hmv ⊢
      simp [handler, atCmdAdc, hb, hlen.not_gt, outcome_askU8_bind, argOf_eq hch, hp,
        hwsAdcReadMv, hmv]
    obtain ⟨t, ht⟩ := hout
    rw [acts_iff_of_taken ht zero_ne_refused rfl]
    simp only [Setting.Written, writtenAt_byteAt_iff, hb, hlen, UInt8.not_lt.mp h₁,
      UInt8.not_lt.mp h₂, true_implies]

end Pins

section Keyboard

variable {C : Chip n σ} {tokens : List Text} {stale : ℕ → Option Text} {w : Node n σ}

theorem slotAt_activeSlot {m : UInt8} {s : Fin n} (h : activeSlot n m = some s) :
    slotAt n (UInt8.ofNat s) = some s := by
  have hmem : s ∈ bleSlots n m := List.mem_of_head? h
  have hlt : (s : ℕ) < 7 := lt_seven_of_and_slotBit (of_decide_eq_true (List.mem_filter.mp hmem).2)
  have hnat : (UInt8.ofNat s).toNat = s := UInt8.toNat_ofNat_of_lt' (Nat.lt_trans hlt (by decide))
  rw [slotAt, dif_pos (hnat.symm ▸ s.isLt)]
  exact congrArg some (Fin.ext hnat)

theorem pace_iff : ActsAsWritten C .pace tokens stale w ↔ PaceFits tokens w := by
  unfold PaceFits
  cases hs : activeSlot n w.keyboard.kbTarget with
  | none =>
    refine iff_of_true (acts_of_refused ?_) fun h => ?_
    · simp [handler, atCmdPace, hs]
    · cases h
  | some s =>
    by_cases hlen : tokens.length < 2
    · refine iff_of_true (acts_of_untaken ?_) fun _ _ _ t ht => ?_
      · simp only [handler, atCmdPace, outcome_get, hs, if_pos hlen, outcome_respond_bind,
          outcome_pure]
        rfl
      · rw [List.getElem?_eq_none (Nat.le_of_lt_succ hlen)] at ht
        cases ht
    obtain ⟨v, hv⟩ := getElem?_of_lt tokens (i := 1) (Nat.not_lt.mp hlen)
    have hslot := slotAt_activeSlot hs
    rw [wordAt_eq hv]
    by_cases hms : toU16 (atoi v) < 5 ∨ 2000 < toU16 (atoi v)
    · refine iff_of_true (acts_of_refused ?_) fun _ h₁ h₂ => ?_
      · simp [handler, atCmdPace, hs, hlen, argOf_eq hv, keyboardSetPace, kbBleSlotSetPace, hslot,
          hms]
      · exact absurd hms (not_or.mpr ⟨UInt16.not_lt.mpr h₁, UInt16.not_lt.mpr h₂⟩)
    · obtain ⟨h₁, h₂⟩ := not_or.mp hms
      have hout : ∃ w', (handler C tokens.length .pace).outcome (argOf tokens stale) w =
          (.value 0, w') ∧ w'.taken = w.taken ++ [.pace (UInt8.ofNat s) (wordAt tokens 1 0)] := by
        rw [wordAt_eq hv]
        simp [handler, atCmdPace, hs, hlen, argOf_eq hv, keyboardSetPace, kbBleSlotSetPace, hslot,
          hms]
        rfl
      obtain ⟨w', hw', htaken⟩ := hout
      rw [acts_iff_of_taken hw' zero_ne_refused htaken]
      simp only [Setting.Written, writtenAt_wordAt_iff, Option.isSome_some, UInt16.not_lt.mp h₁,
        UInt16.not_lt.mp h₂, true_implies]

theorem taken_keyCfgReady : (keyCfgReady C w).taken = w.taken := by
  unfold keyCfgReady
  split_ifs
  · rfl
  · rfl

section KeyCfg

variable (C stale w) {pin mods : Text} {idx : Fin 2}

theorem outcome_keyCfg_shown (hpin : tokens[1]? = some pin)
    (hk : keyIndex (toU8 (atoi pin)) = some idx) (h : tokens.length = 2) :
    ∃ w', (handler C tokens.length .keyCfg).outcome (argOf tokens stale) w = (.value 0, w') ∧
      w'.taken = w.taken ++ [.keyShown (byteAt tokens 1 0)] := by
  rw [byteAt_eq hpin, ← taken_keyCfgReady (C := C)]
  simp [handler, atCmdKeyCfg, h, argOf_eq hpin, hk]
  rfl

theorem outcome_keyCfg_set {kc : Text} (hpin : tokens[1]? = some pin)
    (hk : keyIndex (toU8 (atoi pin)) = some idx) (hmods : tokens[2]? = some mods)
    (hkc : argOf tokens stale 3 = some kc) :
    ∃ w', (handler C tokens.length .keyCfg).outcome (argOf tokens stale) w = (.value 0, w') ∧
      w'.taken = w.taken ++
        [.keySet (byteAt tokens 1 0) (byteAt tokens 2 0) (toU8 (atoi kc))] := by
  have hthree : ¬ tokens.length < 3 := Nat.not_lt.mpr (List.getElem?_eq_some_iff.mp hmods).1
  have htwo : ¬ tokens.length < 2 := by omega
  rw [byteAt_eq hpin, byteAt_eq hmods, ← taken_keyCfgReady (C := C)]
  simp [handler, atCmdKeyCfg, htwo, hthree, argOf_eq hpin, argOf_eq hmods, hk, hkc]
  rfl

theorem taken_keyCfg_fault (hpin : tokens[1]? = some pin)
    (hk : keyIndex (toU8 (atoi pin)) = some idx) (hmods : tokens[2]? = some mods)
    (hkc : argOf tokens stale 3 = none) :
    ((handler C tokens.length .keyCfg).outcome (argOf tokens stale) w).2.taken = w.taken := by
  have hthree : ¬ tokens.length < 3 := Nat.not_lt.mpr (List.getElem?_eq_some_iff.mp hmods).1
  have htwo : ¬ tokens.length < 2 := by omega
  refine Eq.trans ?_ (taken_keyCfgReady (C := C))
  simp [handler, atCmdKeyCfg, htwo, hthree, argOf_eq hpin, argOf_eq hmods, hk, hkc]

end KeyCfg

theorem keyCfg_iff : ActsAsWritten C .keyCfg tokens stale w ↔ KeyCfgFits tokens stale := by
  unfold KeyCfgFits
  cases hpin : tokens[1]? with
  | none =>
    have hshort : tokens.length < 2 := Nat.lt_succ_of_le (List.getElem?_eq_none_iff.mp hpin)
    refine iff_of_true (acts_of_untaken ?_) fun h => absurd h (Nat.not_le.mpr hshort)
    simp only [handler, atCmdKeyCfg, outcome_edit_bind, if_pos hshort, outcome_pure]
    exact taken_keyCfgReady
  | some pin =>
    have hlen : 2 ≤ tokens.length := (List.getElem?_eq_some_iff.mp hpin).1
    rw [byteAt_eq hpin]
    cases hk : keyIndex (toU8 (atoi pin)) with
    | none =>
      refine iff_of_true (acts_of_refused ?_) fun _ h => ?_
      · simp [handler, atCmdKeyCfg, hlen.not_gt, argOf_eq hpin, hk]
      · cases h
    | some idx =>
      have hidx : (some idx).isSome = true := rfl
      cases hmods : tokens[2]? with
      | none =>
        have hlength : tokens.length = 2 :=
          Nat.le_antisymm (List.getElem?_eq_none_iff.mp hmods) hlen
        obtain ⟨w', hw', htaken⟩ := outcome_keyCfg_shown C stale w hpin hk hlength
        have habsent : ¬ tokens.length = 3 := by omega
        have htwo : Within tokens 2 0 255 := within_of_absent (by omega)
        have hthird : Within tokens 3 0 255 := within_of_absent (by omega)
        rw [acts_iff_of_taken hw' zero_ne_refused htaken]
        simp only [Setting.Written, writtenAt_byteAt_iff, hlen, hidx, habsent, htwo, hthird,
          false_implies, true_implies, and_true]
      | some mods =>
        cases hkc : argOf tokens stale 3 with
        | none =>
          obtain ⟨habsent, hstale⟩ := Option.or_eq_none_iff.mp hkc
          have hlength : tokens.length = 3 := Nat.le_antisymm
            (List.getElem?_eq_none_iff.mp habsent) (List.getElem?_eq_some_iff.mp hmods).1
          refine iff_of_true (acts_of_untaken (taken_keyCfg_fault C stale w hpin hk hmods hkc))
            fun _ _ h => ?_
          rw [hstale] at h
          cases h hlength
        | some kc =>
          obtain ⟨w', hw', htaken⟩ := outcome_keyCfg_set C stale w hpin hk hmods hkc
          have hthird : tokens.length = 3 → (stale 3).isSome = true := by
            intro hlength
            rw [argOf, List.getElem?_eq_none hlength.le, Option.none_or] at hkc
            rw [hkc]
            rfl
          rw [acts_iff_of_taken hw' zero_ne_refused htaken]
          simp only [Setting.Written, writtenAt_byteAt_iff, writtenAt_argOf_iff hkc, hlen, hidx,
            iff_true_intro hthird, true_implies]

end Keyboard

section Led

variable {C : Chip n σ} {tokens : List Text} {stale : ℕ → Option Text} {w : Node n σ}

theorem taken_hwsLedBlink (count duty : UInt8) (period : UInt16) :
    (hwsLedBlink C w count duty period).taken = w.taken ++ [.blink count duty period] := by
  unfold hwsLedBlink
  dsimp only
  split_ifs
  all_goals rfl

theorem led_iff : ActsAsWritten C .led tokens stale w ↔ LedFits tokens := by
  unfold LedFits
  by_cases hlen : 2 ≤ tokens.length
  case neg =>
    refine iff_of_true (acts_of_refused ?_) fun m hm => ?_
    · simp [handler, atCmdLed, Nat.not_le.mp hlen]
    · rw [List.getElem?_eq_none (Nat.le_of_lt_succ (Nat.not_le.mp hlen))] at hm
      cases hm
  obtain ⟨m, hm⟩ := getElem?_of_lt tokens (i := 1) (by omega)
  cases hmode : ledMode m with
  | none =>
    refine iff_of_true (acts_of_refused ?_) fun m' hm' h => ?_
    · simp [handler, atCmdLed, hlen.not_gt, argOf_eq hm, hmode]
    · rw [hm] at hm'
      cases hm'
      rw [hmode] at h
      rcases h with h | h
      · cases h
      · cases h
  | some mode =>
    by_cases hblink : mode = ledModeBlink ∨ mode = ledModeFlash
    · have hout : (handler C tokens.length .led).outcome (argOf tokens stale) w =
          (.value 0, (hwsLedBlink C w (if mode = ledModeFlash then 0 else 1) (byteAt tokens 3 50)
            (wordAt tokens 2 500)).respond (bytes "LED=" ++ m ++ bytes " period=" ++
              dec (wordAt tokens 2 500).toNat ++ bytes "ms duty=" ++
                dec (byteAt tokens 3 50).toNat ++ bytes "%")) := by
        by_cases hthree : 3 ≤ tokens.length
        · obtain ⟨p, hp⟩ := getElem?_of_lt tokens (i := 2) (by omega)
          simp [handler, atCmdLed, hlen.not_gt, argOf_eq hm, hmode, hblink, hthree, argOf_eq hp,
            wordAt_eq hp, outcome_askU8_bind]
        · have hword : wordAt tokens 2 500 = 500 := by
            rw [wordAt, List.getElem?_eq_none (by omega), Option.elim_none]
          simp [handler, atCmdLed, hlen.not_gt, argOf_eq hm, hmode, hblink, hthree, hword,
            outcome_askU8_bind]
      rw [acts_iff_of_taken hout zero_ne_refused (taken_hwsLedBlink _ _ _)]
      simp only [Setting.Written, writtenAt_byteAt_iff, writtenAt_wordAt_iff, hm, Option.some.injEq,
        forall_eq', hmode, hblink, true_implies]
    · refine iff_of_true (acts_of_untaken ?_) fun m' hm' h => ?_
      · simp [handler, atCmdLed, hlen.not_gt, argOf_eq hm, hmode, hblink]
        rfl
      · rw [hm] at hm'
        cases hm'
        rw [hmode] at h
        exact absurd (h.imp Option.some.inj Option.some.inj) hblink

end Led

section Dongle

variable {C : Chip n σ} {tokens : List Text} {stale : ℕ → Option Text} {w : Node n σ}

theorem not_sameName {form s t : Text} (hs : sameName form s = true)
    (h : s.map toLower ≠ t.map toLower) : sameName form t = false := by
  by_contra ht
  rw [Bool.not_eq_false] at ht
  exact h ((beq_iff_eq.mp hs).symm.trans (beq_iff_eq.mp ht))

theorem taken_dongleConnect {index : UInt8}
    (h : ¬ (w.dongle.state ≠ .idle ∨ w.dongle.scanList.length ≤ index.toNat)) :
    (dongleConnect w index).2.taken = w.taken ++ [.connect index] := by
  simp [dongleConnect, Central.bleDongleConnect, h]
  rfl

theorem outcome_connectOrRefuse (idx : ℤ) (t : Text) (argv : ℕ → Option Text) :
    (connectOrRefuse idx t).outcome argv w =
      if w.dongle.state ≠ .idle ∨ w.dongle.scanList.length ≤ (toU8 idx).toNat then
        (.value (-1), w.respond t)
      else (.value 0, ((dongleConnect w (toU8 idx)).2.respond
        (bytes "connecting #" ++ dec idx ++ bytes "..."))) := by
  by_cases h : w.dongle.state ≠ .idle ∨ w.dongle.scanList.length ≤ (toU8 idx).toNat
  · simp [connectOrRefuse, dongleConnect, Central.bleDongleConnect, h]
  · simp [connectOrRefuse, dongleConnect, Central.bleDongleConnect, h]

theorem outcome_btConnWatch (stale : ℕ → Option Text) (w : Node n σ) (form : Text) {value : Text}
    {isMac : Bool} {addr : Addr} (hvalue : tokens[2]? = some value)
    (haddr : (if isMac then parseMac value else some fun _ => 0) = some addr) :
    (w.dongle.state ≠ .idle ∨ w.dongle.watchActive = true →
      ((btConnWatch tokens.length form isMac).outcome (argOf tokens stale) w).1 = .value (-1)) ∧
    (¬ (w.dongle.state ≠ .idle ∨ w.dongle.watchActive = true) →
      ∃ w', (btConnWatch tokens.length form isMac).outcome (argOf tokens stale) w = (.value 0, w') ∧
        w'.taken = w.taken ++ [.watch (byteAt tokens 3 5)]) := by
  have hlen : 2 < tokens.length := (List.getElem?_eq_some_iff.mp hvalue).1
  obtain ⟨sec, hsec, hout⟩ : ∃ sec : ℤ, toU8 sec = byteAt tokens 3 5 ∧
      (btConnWatch tokens.length form isMac).outcome (argOf tokens stale) w =
        let r := dongleConnectWatch w isMac addr value (toU8 sec)
        if r.1 < 0 then (.value (-1), r.2.respond (bytes "ERROR: busy"))
        else (.value 0, r.2.respond (bytes "watching " ++ dec sec ++ bytes "s for " ++ value ++
          bytes "...")) := by
    by_cases hfour : 3 < tokens.length
    · obtain ⟨t, ht⟩ := getElem?_of_lt tokens hfour
      refine ⟨atoi t, (byteAt_eq ht 5).symm, ?_⟩
      simp [btConnWatch, Nat.not_lt.mpr hlen, argOf_eq hvalue, haddr, hfour, argOf_eq ht]
    · refine ⟨5, ?_, ?_⟩
      · rw [byteAt, List.getElem?_eq_none (Nat.not_lt.mp hfour)]
        rfl
      · simp [btConnWatch, Nat.not_lt.mpr hlen, argOf_eq hvalue, haddr, hfour]
  rw [hout, ← hsec]
  constructor
  · intro hbusy
    simp [dongleConnectWatch, Central.bleDongleConnectWatch, hbusy]
  · intro hfree
    obtain ⟨hidle, -⟩ := not_or.mp hfree
    obtain ⟨d, hd⟩ : ∃ d, Central.bleDongleConnectWatch w.dongle isMac addr value (toU8 sec) =
        (d, 0) := by
      rw [Central.bleDongleConnectWatch, if_neg hfree]
      exact ⟨_, if_neg hidle⟩
    have htake : dongleConnectWatch w isMac addr value (toU8 sec) =
        (0, { w.take (.watch (toU8 sec)) w.rest with dongle := d }) := by
      rw [dongleConnectWatch, hd]
      rfl
    rw [htake]
    exact ⟨_, rfl, rfl⟩

/-- What is asked of the values of a form. -/
def FormFits (tokens : List Text) (w : Node n σ) (form : Text) : Prop :=
  w.dongle.state = .idle → ∀ value, tokens[2]? = some value →
    (sameName form (bytes "name") ∨ sameName form (bytes "mac") ∧ (parseMac value).isSome →
      w.dongle.watchActive = false → Within tokens 3 0 255) ∧
    (sameName form (bytes "index") → (byteAt tokens 2 0).toNat < w.dongle.scanList.length →
      Within tokens 2 0 255)

theorem connFits_iff {form : Text} (hb : C.build.hasDongle = true)
    (hr : roleCurrent C w.rest = .dongle) (hform : tokens[1]? = some form) :
    ConnFits C tokens w ↔ FormFits tokens w form := by
  constructor
  · intro h hidle value
    exact h hb hr hidle form value hform
  · intro h _ _ hidle form' value hform'
    rw [hform] at hform'
    cases hform'
    exact h hidle value

theorem outcome_btConn (stale : ℕ → Option Text) {form : Text} (hb : C.build.hasDongle = true)
    (hr : roleCurrent C w.rest = .dongle) (hform : tokens[1]? = some form) :
    (handler C tokens.length .btConn).outcome (argOf tokens stale) w =
      if sameName form (bytes "mac") || sameName form (bytes "name") then
        (btConnWatch tokens.length form (sameName form (bytes "mac"))).outcome
          (argOf tokens stale) w
      else if sameName form (bytes "index") then
        if tokens.length < 3 then (.value (-1), w.respond (bytes "usage: AT+BT_CONN=index,<n>"))
        else (argOf tokens stale 2).elim (.fault, w) fun a =>
          (connectOrRefuse (atoi a)
            (bytes "ERROR: no such index or busy — run AT+BT_SCAN first")).outcome
              (argOf tokens stale) w
      else match bleDongleFind w.dongle form with
        | none => (.value (-1), w.respond (bytes "ERROR: no match or busy — run AT+BT_SCAN first"))
        | some idx =>
          (connectOrRefuse idx (bytes "ERROR: no match or busy — run AT+BT_SCAN first")).outcome
            (argOf tokens stale) w := by
  have hlen : 1 < tokens.length := (List.getElem?_eq_some_iff.mp hform).1
  have hhandler : (handler C tokens.length .btConn).outcome (argOf tokens stale) w =
      (btConnDgl tokens.length).outcome (argOf tokens stale) w := by
    simp [handler, atCmdBtConn, dongleOnly, hb, hr]
  rw [hhandler, btConnDgl, if_neg (Nat.not_lt.mpr hlen), outcome_ask_bind, argOf_eq hform,
    Option.elim_some, outcome_ite, outcome_ite, outcome_ite, outcome_ask_bind, outcome_get]
  cases bleDongleFind w.dongle form with
  | none => rfl
  | some idx => rfl

theorem conn_iff_of_scan {form : Text} (hb : C.build.hasDongle = true)
    (hr : roleCurrent C w.rest = .dongle) (hform : tokens[1]? = some form)
    (hscan : (sameName form (bytes "mac") || sameName form (bytes "name")) = true) :
    ActsAsWritten C .btConn tokens stale w ↔ FormFits tokens w form := by
  have hout := outcome_btConn stale hb hr hform
  rw [if_pos hscan] at hout
  have hindex : sameName form (bytes "index") = false := by
    rcases (Bool.or_eq_true _ _).mp hscan with hmac | hname
    · exact not_sameName hmac (by decide)
    · exact not_sameName hname (by decide)
  unfold FormFits
  rw [hindex]
  cases hvalue : tokens[2]? with
  | none =>
    have hshort : tokens.length < 3 := Nat.lt_succ_of_le (List.getElem?_eq_none_iff.mp hvalue)
    refine iff_of_true (acts_of_refused ?_) fun _ value h => ?_
    · rw [hout, btConnWatch, if_pos hshort]
      rfl
    · cases h
  | some value =>
    have hthree : 2 < tokens.length := (List.getElem?_eq_some_iff.mp hvalue).1
    cases haddr : (if sameName form (bytes "mac") then parseMac value else some fun _ => 0) with
    | none =>
      have hmac : sameName form (bytes "mac") = true := by
        by_contra hno
        rw [if_neg hno] at haddr
        cases haddr
      rw [if_pos hmac] at haddr
      refine iff_of_true (acts_of_refused ?_) fun _ v hv => ?_
      · rw [hout]
        simp [btConnWatch, Nat.not_lt.mpr hthree, argOf_eq hvalue, hmac, haddr]
      · cases hv
        rw [haddr, not_sameName hmac (by decide)]
        exact ⟨fun h => by simp at h, fun h => by cases h⟩
    | some addr =>
      have hread : sameName form (bytes "name") = true ∨
          sameName form (bytes "mac") = true ∧ (parseMac value).isSome = true := by
        rcases (Bool.or_eq_true _ _).mp hscan with hmac | hname
        · rw [if_pos hmac] at haddr
          rw [haddr]
          exact Or.inr ⟨hmac, rfl⟩
        · exact Or.inl hname
      obtain ⟨hbusy, hfree⟩ :=
        outcome_btConnWatch stale w form hvalue haddr
      by_cases hstate : w.dongle.state ≠ .idle ∨ w.dongle.watchActive = true
      · refine iff_of_true (acts_of_refused (hout ▸ hbusy hstate)) fun hidle v hv => ?_
        refine ⟨fun _ hwatch => ?_, fun h => by cases h⟩
        rcases hstate with hstate | hstate
        · exact absurd hidle hstate
        · rw [hwatch] at hstate
          cases hstate
      · obtain ⟨w', hw', htaken⟩ := hfree hstate
        obtain ⟨hidle, hwatch⟩ := not_or.mp hstate
        rw [acts_iff_of_taken (hout.trans hw') zero_ne_refused htaken]
        simp only [Setting.Written, writtenAt_byteAt_iff, Option.some.injEq, forall_eq', hread,
          not_not.mp hidle, Bool.eq_false_iff.mpr hwatch, Bool.false_eq_true, false_implies,
          true_implies, and_true]

theorem conn_iff_of_index {form : Text} (hb : C.build.hasDongle = true)
    (hr : roleCurrent C w.rest = .dongle) (hform : tokens[1]? = some form)
    (hindex : sameName form (bytes "index") = true) :
    ActsAsWritten C .btConn tokens stale w ↔ FormFits tokens w form := by
  have hmac : sameName form (bytes "mac") = false := not_sameName hindex (by decide)
  have hname : sameName form (bytes "name") = false := not_sameName hindex (by decide)
  have hout := outcome_btConn stale hb hr hform
  rw [hmac, hname, hindex, Bool.or_self, if_neg Bool.false_ne_true, if_pos rfl] at hout
  unfold FormFits
  rw [hmac, hname, hindex]
  cases hvalue : tokens[2]? with
  | none =>
    have hshort : tokens.length < 3 := Nat.lt_succ_of_le (List.getElem?_eq_none_iff.mp hvalue)
    refine iff_of_true (acts_of_refused ?_) fun _ value h => ?_
    · rw [hout, if_pos hshort]
    · cases h
  | some value =>
    have hthree : 2 < tokens.length := (List.getElem?_eq_some_iff.mp hvalue).1
    rw [if_neg (by omega), argOf_eq hvalue, Option.elim_some, outcome_connectOrRefuse,
      ← byteAt_eq hvalue 0] at hout
    by_cases hstate : w.dongle.state ≠ .idle ∨
        w.dongle.scanList.length ≤ (byteAt tokens 2 0).toNat
    · rw [if_pos hstate] at hout
      refine iff_of_true (acts_of_refused (congrArg Prod.fst hout)) fun hidle v hv => ?_
      refine ⟨fun h => by simp at h, fun _ hlt => ?_⟩
      rcases hstate with hstate | hstate
      · exact absurd hidle hstate
      · exact absurd hlt (Nat.not_lt.mpr hstate)
    · rw [if_neg hstate] at hout
      obtain ⟨hidle, hlt⟩ := not_or.mp hstate
      rw [acts_iff_of_taken hout zero_ne_refused (taken_dongleConnect hstate)]
      have hguard : ∃ f ∈ tokens[1]?, sameName f (bytes "index") = true := ⟨form, hform, hindex⟩
      simp only [Setting.Written, writtenAt_byteAt_iff, hguard, Option.some.injEq, forall_eq',
        not_not.mp hidle, Nat.not_le.mp hlt, Bool.false_eq_true, false_and, or_self, false_implies,
        true_implies, true_and]

theorem acts_of_legacy {form : Text} (hb : C.build.hasDongle = true)
    (hr : roleCurrent C w.rest = .dongle) (hform : tokens[1]? = some form)
    (hscan : ¬ (sameName form (bytes "mac") || sameName form (bytes "name")) = true)
    (hindex : ¬ sameName form (bytes "index") = true) :
    ActsAsWritten C .btConn tokens stale w := by
  have hout := outcome_btConn stale hb hr hform
  rw [if_neg hscan, if_neg hindex] at hout
  cases hfind : bleDongleFind w.dongle form with
  | none =>
    rw [hfind] at hout
    exact acts_of_refused (congrArg Prod.fst hout)
  | some idx =>
    rw [hfind] at hout
    dsimp only at hout
    rw [outcome_connectOrRefuse] at hout
    by_cases hstate : w.dongle.state ≠ .idle ∨ w.dongle.scanList.length ≤ (toU8 idx).toNat
    · rw [if_pos hstate] at hout
      exact acts_of_refused (congrArg Prod.fst hout)
    · rw [if_neg hstate] at hout
      refine (acts_iff_of_taken hout zero_ne_refused (taken_dongleConnect hstate)).mpr ?_
      rintro ⟨f, hf, hsame⟩
      rw [hform] at hf
      cases hf
      exact absurd hsame hindex

theorem btConn_iff : ActsAsWritten C .btConn tokens stale w ↔ ConnFits C tokens w := by
  by_cases hb : C.build.hasDongle = true
  case neg =>
    exact iff_of_true (acts_of_refused (by simp [handler, atCmdBtConn, dongleOnly, hb]))
      fun h => absurd h hb
  by_cases hr : roleCurrent C w.rest = .dongle
  case neg =>
    exact iff_of_true (acts_of_refused (by simp [handler, atCmdBtConn, dongleOnly, hb, hr]))
      fun _ h => absurd h hr
  cases hform : tokens[1]? with
  | none =>
    have hshort : tokens.length < 2 := Nat.lt_succ_of_le (List.getElem?_eq_none_iff.mp hform)
    refine iff_of_true (acts_of_refused ?_) fun _ _ _ form value h => ?_
    · simp [handler, atCmdBtConn, dongleOnly, hb, hr, btConnDgl, hshort]
    · rw [hform] at h
      cases h
  | some form =>
    rw [connFits_iff hb hr hform]
    by_cases hscan : (sameName form (bytes "mac") || sameName form (bytes "name")) = true
    · exact conn_iff_of_scan hb hr hform hscan
    by_cases hindex : sameName form (bytes "index") = true
    · exact conn_iff_of_index hb hr hform hindex
    obtain ⟨hmac, hname⟩ := not_or.mp (fun h => hscan ((Bool.or_eq_true _ _).mpr h))
    refine iff_of_true (acts_of_legacy hb hr hform hscan hindex) fun _ value _ => ⟨?_, ?_⟩
    · rintro (h | ⟨h, -⟩)
      · exact absurd h hname
      · exact absurd h hmac
    · exact fun h => absurd h hindex

end Dongle

section Results

/-- Each of the seven commands acts as it is written exactly when its arguments fit their types, or
what the casts leave of them is refused. -/
theorem acts_as_written_iff (C : Chip n σ) (k : Cutting) (tokens : List Text)
    (stale : ℕ → Option Text) (w : Node n σ) :
    ActsAsWritten C k.command tokens stale w ↔ k.Fits C tokens stale w := by
  cases k with
  | pace => exact pace_iff
  | gpioW => exact gpioW_iff
  | gpioR => exact gpioR_iff
  | adc => exact adc_iff
  | keyCfg => exact keyCfg_iff
  | btConn => exact btConn_iff
  | led => exact led_iff

def dongleChip : Chip 1 Unit := { bareChip with build := { bareChip.build with mode := .dongle } }

def scannedNode : Node 1 Unit :=
  { bareNode with dongle := { bareNode.dongle with scanList := [⟨fun _ => 0, 0, 0, []⟩] } }

def index256 : List Text := [bytes "AT+BT_CONN", bytes "index", bytes "256"]

theorem index_256_connects_first :
    ¬ ActsAsWritten dongleChip .btConn index256 (fun _ => none) scannedNode := by
  have hend : ((handler dongleChip 3 .btConn).run (argOf index256 fun _ => none)
      scannedNode).ending = .value 0 := by
    decide +kernel
  have htaken : ((handler dongleChip 3 .btConn).run (argOf index256 fun _ => none)
      scannedNode).state.taken = [.connect 0] := by
    decide +kernel
  have hnumeral : numeral (bytes "256") = some 256 := by decide +kernel
  have hform : sameName (bytes "index") (bytes "index") = true := by decide +kernel
  rintro (hrefused | hwritten)
  · exact zero_ne_refused (hend.symm.trans hrefused)
  · have hmem : Setting.connect 0 ∈ List.drop scannedNode.taken.length [Setting.connect 0] :=
      List.mem_cons_self
    have hzero := hwritten (.connect 0) (htaken ▸ hmem) ⟨bytes "index", rfl, hform⟩
    exact absurd (hzero (bytes "256") rfl 256 hnumeral) (by decide)

end Results

end AtNode.AtCmds
