import AtNode.Ch582.LedEngine

/-!
# What the LEDs show

`hws_led_state` is what `AT+STATUS` and the like may ask; it says what the LEDs show as long as no LED is
toggled while it blinks. A blink runs through its phases, however the others are used, and leaves behind
what was there before.
-/

namespace AtNode.HwsLed

open AtCmds (Led ledModeOff ledModeOn ledModeBlink ledModeFlash ledModeToggle)

section Truthful

variable {b : Blinker} {a : Action}

/-- An LED that does not blink is on or off, and what is remembered is what it shows. -/
structure Blinker.Good (b : Blinker) : Prop where
  truthful : b.shown = b.lit
  plain : ¬ b.Blinking → b.ctrl.mode = ledModeOn ∨ b.ctrl.mode = ledModeOff

theorem good_setMode (m : UInt8) (hm : m = ledModeOn ∨ m = ledModeOff) : (b.setMode m).Good := by
  rcases hm with rfl | rfl
  · exact ⟨rfl, fun _ => Or.inl rfl⟩
  · exact ⟨rfl, fun _ => Or.inr rfl⟩

theorem good_toggle (h : b.Good) (hb : ¬ b.Blinking) : (b.setMode ledModeToggle).Good := by
  have hmode : (b.setMode ledModeToggle).ctrl.mode = b.ctrl.mode ^^^ ledModeOn := rfl
  rcases h.plain hb with hon | hoff
  · rw [hon] at hmode
    refine ⟨?_, fun _ => Or.inr hmode⟩
    rw [Blinker.setMode, hon]
    rfl
  · rw [hoff] at hmode
    refine ⟨?_, fun _ => Or.inl hmode⟩
    rw [Blinker.setMode, hoff]
    rfl

/-- The macro wants exactly ON, and the memory takes every mode but OFF. -/
theorem toggle_blinking (hb : b.Blinking) : (b.setMode ledModeToggle).shown = true ∧
    (b.setMode ledModeToggle).lit = false := by
  have hbit : Has (b.ctrl.mode ^^^ ledModeOn) 1 :=
    (has_xor_led b.ctrl.mode 0 1 (by decide)).mpr hb
  have hoff : b.ctrl.mode ^^^ ledModeOn ≠ ledModeOff := fun h => (h ▸ hbit) rfl
  have hon : b.ctrl.mode ^^^ ledModeOn ≠ ledModeOn := fun h => (h ▸ hbit) rfl
  constructor
  · simpa [Blinker.setMode, Blinker.onOff] using hoff
  · simpa [Blinker.setMode, Blinker.onOff] using hon

theorem good_start (h : b.Good) (count percent : UInt8) (period : UInt16) (now : UInt32) :
    (b.start count percent period now).Good := by
  have hblinking : (b.start count percent period now).Blinking := by
    unfold Blinker.start Blinker.Blinking
    dsimp only
    split_ifs <;> decide
  exact ⟨h.truthful, fun hn => absurd hblinking hn⟩

theorem good_flip (hb : b.Blinking) (now : UInt32) : (b.flip now).1.Good := by
  unfold Blinker.flip
  dsimp only
  split_ifs with hon hmore hsaved
  · exact ⟨rfl, fun hn => absurd hmore hn⟩
  · exact ⟨rfl, fun _ => Or.inl rfl⟩
  · exact ⟨rfl, fun _ => Or.inr rfl⟩
  · have hbit : Has (b.ctrl.mode ||| ledModeOn) 1 := (has_or b.ctrl.mode ledModeOn 1).mpr (Or.inl hb)
    exact ⟨rfl, fun hn => absurd hbit hn⟩

theorem good_tick (h : b.Good) (now : UInt32) : (b.tick now).1.Good := by
  unfold Blinker.tick
  by_cases hdue : b.Due now
  · rw [if_pos hdue]
    exact good_flip hdue.1 now
  · rw [if_neg hdue]
    exact h

theorem good_act (h : b.Good) (ha : ∀ m, a = .mode m → m = ledModeOn ∨ m = ledModeOff ∨
    m = ledModeToggle ∧ ¬ b.Blinking) : (b.act a).Good := by
  cases a with
  | mode m =>
    rcases ha m rfl with hm | hm | ⟨rfl, hb⟩
    · exact good_setMode m (Or.inl hm)
    · exact good_setMode m (Or.inr hm)
    · exact good_toggle h hb
  | start count percent period now => exact good_start h count percent period now
  | tick now => exact good_tick h now

end Truthful

section Register

variable {s : Leds} {e : Event} {j : Fin 4}

/-- `hws_led_state` says what the LEDs show. -/
def Truthful (s : Leds) : Prop := ∀ j, Has s.state j ↔ s.lit j = true

/-- No LED is toggled while it blinks. -/
def SparesBlinking (s : Leds) (e : Event) : Prop :=
  ∀ j, e.on j = some (.mode ledModeToggle) → ¬ (view s j).Blinking

theorem mode_of_on {m : UInt8} (h : e.on j = some (.mode m)) :
    m = ledModeOn ∨ m = ledModeOff ∨ m = ledModeToggle := by
  unfold Event.on at h
  cases e with
  | set leds mode now =>
    unfold setAction at h
    dsimp only at h
    split_ifs at h with hj hblink hflash hplain
    · cases h
    · cases h
    · cases h
      exact hplain
  | blink leds count percent period now =>
    unfold blinkAction at h
    dsimp only at h
    split_ifs at h
    · cases h
    · cases h
      exact Or.inl rfl
    · cases h
      exact Or.inr (Or.inl rfl)
  | update now => cases h

theorem good_blinker_step {b : Blinker} (h : b.Good)
    (he : e.on j = some (.mode ledModeToggle) → ¬ b.Blinking) : (b.step j e).Good := by
  unfold Blinker.step
  cases ha : e.on j with
  | none => exact h
  | some a =>
    apply good_act h
    rintro m rfl
    rcases mode_of_on ha with hm | hm | rfl
    · exact Or.inl hm
    · exact Or.inr (Or.inl hm)
    · exact Or.inr (Or.inr ⟨rfl, he ha⟩)

theorem truthful_iff : Truthful s ↔ ∀ j, (view s j).shown = (view s j).lit := by
  apply forall_congr'
  intro j
  unfold view
  dsimp only
  by_cases h : Has s.state j <;> cases s.lit j <;> simp [h]

theorem view_hwsLedInit (lit : Fin 4 → Bool) (j : Fin 4) :
    view (hwsLedInit lit) j = ⟨⟨0, 0, 0, 0, 0⟩, false, false, false⟩ := by
  have hall : Has 0x0F j := by
    revert j
    decide
  change view (setPlain _ 0x0F ledModeOff) j = _
  rw [view_setPlain, if_pos hall]
  have hmode : ledModeOff ≠ ledModeToggle := by decide
  have hbit : Has 0 j ↔ False := by simp [Has]
  simp only [view, Blinker.setMode, Blinker.onOff, if_pos hmode, hbit]
  rfl

/-- What the service remembers is what the LEDs show, as long as none is toggled while it blinks. -/
theorem led_state_truthful_iff (lit : Fin 4 → Bool) (es : List Event) :
    Run.Always step Truthful (hwsLedInit lit) es ↔ Run.Along step SparesBlinking (hwsLedInit lit) es := by
  apply Run.always_iff_along (I := fun s => s.sleepActive = false ∧ ∀ j, (view s j).Good)
  · intro s hs
    exact truthful_iff.mpr fun j => (hs.2 j).truthful
  · intro s e hs he
    refine ⟨sleepActive_step hs.1 e, fun j => ?_⟩
    rw [view_step j hs.1]
    exact good_blinker_step (hs.2 j) (he j)
  · intro s e hs he htrue
    obtain ⟨j, hj⟩ := not_forall.mp he
    obtain ⟨hon, hb⟩ := Classical.not_imp.mp hj
    have hb := not_not.mp hb
    have hview := truthful_iff.mp htrue j
    rw [view_step j hs.1, Blinker.step, hon] at hview
    obtain ⟨hshown, hlit⟩ := toggle_blinking hb
    exact absurd (hshown.symm.trans (hview.trans hlit)) (by decide)
  · refine ⟨rfl, fun j => ?_⟩
    rw [view_hwsLedInit]
    exact ⟨rfl, fun _ => Or.inr rfl⟩

end Register

section Blink

/-- A blink without an end. -/
def Endless (n : UInt8) : Prop := n = 0 ∨ n = 0xFF

instance (n : UInt8) : Decidable (Endless n) := inferInstanceAs (Decidable (_ ∨ _))

/-- A blink of `n` cycles in its phase `k`; `restore` is what comes after it. -/
structure Playing (n : UInt8) (restore : Bool) (k : ℕ) (b : Blinker) : Prop where
  mode : b.ctrl.mode = (if n = 0 then 0x06 else 0x02) ||| (if k % 2 = 1 then ledModeOn else 0)
  endless : Endless n → b.ctrl.todo = n
  todo : ¬ Endless n → b.ctrl.todo.toNat + k / 2 = n.toNat
  saved : b.saved = restore
  seen : 0 < k → b.shown = decide (k % 2 = 1) ∧ b.lit = decide (k % 2 = 1)

structure Over (restore : Bool) (b : Blinker) : Prop where
  still : ¬ b.Blinking
  shown : b.shown = restore
  lit : b.lit = restore

variable {n : UInt8} {restore : Bool} {k : ℕ} {b : Blinker}

theorem Playing.blinking (h : Playing n restore k b) : b.Blinking := by
  unfold Blinker.Blinking
  rw [h.mode]
  split_ifs <;> decide

theorem Playing.on_iff (h : Playing n restore k b) : b.ctrl.mode &&& ledModeOn ≠ 0 ↔ k % 2 = 1 := by
  rw [h.mode]
  split_ifs with hn hk hk <;> simp only [hk, iff_true, iff_false] <;> decide

theorem playing_start (n percent : UInt8) (period : UInt16) (now : UInt32) (b : Blinker) :
    Playing n (b.saved || b.shown) 0 (b.start n percent period now) where
  mode := by
    rw [if_neg (by decide : ¬ 0 % 2 = 1)]
    unfold Blinker.start
    dsimp only
    split_ifs <;> rfl
  endless _ := rfl
  todo _ := rfl
  saved := rfl
  seen h := absurd h (Nat.lt_irrefl 0)

theorem playing_turnOn (h : Playing n restore k b) (hk : ¬ k % 2 = 1) (now : UInt32) :
    Playing n restore (k + 1) (b.flip now).1 := by
  have hon : ¬ b.ctrl.mode &&& ledModeOn ≠ 0 := fun hon => hk (h.on_iff.mp hon)
  have hodd : (k + 1) % 2 = 1 := by omega
  have hhalf : (k + 1) / 2 = k / 2 := by omega
  rw [Blinker.flip, if_neg hon]
  constructor
  · change b.ctrl.mode ||| ledModeOn = _
    rw [h.mode, if_neg hk, if_pos hodd]
    split_ifs <;> rfl
  · exact h.endless
  · rw [hhalf]
    exact h.todo
  · exact h.saved
  · intro _
    simp only [hodd]
    exact ⟨rfl, rfl⟩

/-- The phases that go on count down, and an endless blink does not. -/
theorem ended_playing (h : Playing n restore k b) (hk : k % 2 = 1) (hn : Endless n ∨ k + 1 < 2 * n.toNat) :
    (ended b.ctrl).mode = (if n = 0 then 0x06 else 0x02) ∧ (Endless n → (ended b.ctrl).todo = n) ∧
      (¬ Endless n → (ended b.ctrl).todo.toNat + (k + 1) / 2 = n.toNat) := by
  have hmode := h.mode
  rw [if_pos hk] at hmode
  unfold ended
  rw [hmode]
  by_cases hn0 : n = 0
  · rw [if_pos hn0, if_pos (by decide)]
    exact ⟨rfl, fun he => h.endless he, fun he => absurd (Or.inl hn0) he⟩
  · rw [if_neg hn0, if_neg (by decide)]
    dsimp only
    by_cases hff : n = 0xFF
    · have htodo : b.ctrl.todo = 0xFF := (h.endless (Or.inr hff)).trans hff
      rw [htodo, if_neg (by decide), if_neg (by decide)]
      exact ⟨rfl, fun _ => hff.symm, fun he => absurd (Or.inr hff) he⟩
    · have hfin : ¬ Endless n := fun he => he.elim hn0 hff
      have htodo := h.todo hfin
      have hlt := hn.resolve_left hfin
      have hbyte := n.toNat_lt
      have hne : b.ctrl.todo ≠ 0xFF := by
        intro he
        have hn : n.toNat ≠ 255 := fun h => hff (UInt8.toNat_inj.mp h)
        have h255 : b.ctrl.todo.toNat = 255 := by rw [he]; rfl
        omega
      have hpred : (b.ctrl.todo - 1).toNat = b.ctrl.todo.toNat - 1 :=
        UInt8.toNat_sub_of_le _ _ (UInt8.le_iff_toNat_le.mpr (by change 1 ≤ _; omega))
      have hmore : b.ctrl.todo - 1 ≠ 0 := by
        intro he
        have hzero : (b.ctrl.todo - 1).toNat = 0 := by rw [he]; rfl
        omega
      rw [if_pos hne, if_neg hmore, hpred]
      exact ⟨rfl, fun he => absurd he hfin, fun _ => by omega⟩

theorem playing_turnOff (h : Playing n restore k b) (hk : k % 2 = 1)
    (hn : Endless n ∨ k + 1 < 2 * n.toNat) (now : UInt32) :
    Playing n restore (k + 1) (b.flip now).1 := by
  obtain ⟨hmode, hendless, htodo⟩ := ended_playing h hk hn
  have hmore : (ended b.ctrl).mode &&& ledModeBlink ≠ 0 := by
    rw [hmode]
    split_ifs <;> decide
  have heven : ¬ (k + 1) % 2 = 1 := by omega
  rw [Blinker.flip, if_pos (h.on_iff.mpr hk), if_pos hmore]
  constructor
  · change (ended b.ctrl).mode = _
    rw [hmode, if_neg heven]
    split_ifs <;> rfl
  · exact hendless
  · exact htodo
  · exact h.saved
  · intro _
    simp only [heven]
    exact ⟨rfl, rfl⟩

/-- The last phase of a blink ends in what was there before. -/
theorem playing_last (h : Playing n restore k b) (hn : ¬ Endless n) (hk : k + 1 = 2 * n.toNat)
    (now : UInt32) : Over restore (b.flip now).1 := by
  have hodd : k % 2 = 1 := by omega
  have htodo : b.ctrl.todo = 1 := by
    apply UInt8.toNat_inj.mp
    have := h.todo hn
    change _ = 1
    omega
  have hmode := h.mode
  rw [if_pos hodd, if_neg fun h0 => hn (Or.inl h0)] at hmode
  have hended : (ended b.ctrl).mode = 0 := by
    unfold ended
    rw [hmode, htodo]
    rfl
  have hover : ¬ (ended b.ctrl).mode &&& ledModeBlink ≠ 0 := by
    rw [hended]
    decide
  rw [Blinker.flip, if_pos (h.on_iff.mpr hodd), if_neg hover, h.saved]
  cases restore
  · exact ⟨show ¬ (ledModeOff &&& ledModeBlink ≠ 0) by decide, rfl, rfl⟩
  · exact ⟨show ¬ (ledModeOn &&& ledModeBlink ≠ 0) by decide, rfl, rfl⟩

theorem over_tick (h : Over restore b) (now : UInt32) : (b.tick now).1 = b := by
  rw [Blinker.tick, if_neg fun hdue => h.still hdue.1]

/-- How far the blink is after `k` phases. -/
def Plays (n : UInt8) (restore : Bool) (k : ℕ) (b : Blinker) : Prop :=
  (Endless n ∨ k < 2 * n.toNat) ∧ Playing n restore k b ∨
    ¬ Endless n ∧ k = 2 * n.toNat ∧ Over restore b

theorem plays_tick (h : Plays n restore k b) (now : UInt32) :
    Plays n restore (if b.Due now then k + 1 else k) (b.tick now).1 := by
  rcases h with ⟨hk, h⟩ | ⟨hn, hk, h⟩
  · unfold Blinker.tick
    by_cases hdue : b.Due now
    · rw [if_pos hdue, if_pos hdue]
      by_cases hlast : ¬ Endless n ∧ k + 1 = 2 * n.toNat
      · exact Or.inr ⟨hlast.1, hlast.2, playing_last h hlast.1 hlast.2 now⟩
      · have hmore : Endless n ∨ k + 1 < 2 * n.toNat := by
          rcases hk with hk | hk
          · exact Or.inl hk
          · by_cases hn : Endless n
            · exact Or.inl hn
            · exact Or.inr (lt_of_le_of_ne hk fun he => hlast ⟨hn, he⟩)
        refine Or.inl ⟨hmore, ?_⟩
        by_cases hodd : k % 2 = 1
        · exact playing_turnOff h hodd hmore now
        · exact playing_turnOn h hodd now
    · rw [if_neg hdue, if_neg hdue]
      exact Or.inl ⟨hk, h⟩
  · rw [over_tick h, if_neg fun hdue => h.still hdue.1]
    exact Or.inr ⟨hn, hk, h⟩

def due (j : Fin 4) (s : Leds) : Event → ℕ
  | .update now => if (view s j).Due (now j) then 1 else 0
  | _ => 0

/-- How often the LED was due. -/
def phases (j : Fin 4) : Leds → List Event → ℕ
  | _, [] => 0
  | s, e :: es => due j s e + phases j (step s e) es

def LeavesAlone (j : Fin 4) : Event → Prop
  | .set leds _ _ => ¬ Has leds j
  | .blink leds _ _ _ _ => ¬ Has leds j
  | .update _ => True

variable {s : Leds} {j : Fin 4}

theorem plays_run (hs : s.sleepActive = false) (h : Plays n restore k (view s j)) (es : List Event)
    (hes : ∀ e ∈ es, LeavesAlone j e) :
    Plays n restore (k + phases j s es) (view (Run.final step s es) j) := by
  induction es generalizing s k with
  | nil => exact h
  | cons e es ih =>
    have hview := view_step j hs e
    have hstep : Plays n restore (k + due j s e) (view (step s e) j) := by
      have hleaves := hes e List.mem_cons_self
      rw [hview]
      unfold Blinker.step Event.on due
      cases e with
      | set leds mode now =>
        dsimp only
        rw [if_neg hleaves]
        exact h
      | blink leds count percent period now =>
        dsimp only
        rw [if_neg hleaves]
        exact h
      | update now =>
        have htick := plays_tick h (now j)
        dsimp only
        split_ifs at htick ⊢ <;> exact htick
    rw [Run.final_cons, phases, ← Nat.add_assoc]
    exact ih (sleepActive_step hs e) hstep fun e he => hes e (List.mem_cons_of_mem _ he)

/-- A blink shows its phases one after the other, whatever is done with the other LEDs; after the last one the
LED is on if it was on before, or before an earlier blink that was cut short. -/
theorem blink_plays (lit : Fin 4 → Bool) (before after : List Event) {leds n percent : UInt8}
    {period : UInt16} (now : Fin 4 → UInt32) {j : Fin 4} (hj : Has leds j)
    (hpercent : percent ≠ 0 ∧ percent < 100) (hperiod : period ≠ 0)
    (hafter : ∀ e ∈ after, LeavesAlone j e) :
    let s := Run.final step (hwsLedInit lit) before
    let s' := step s (.blink leds n percent period now)
    Plays n (Has s.preBlink j || Has s.state j) (phases j s' after)
      (view (Run.final step s' after) j) := by
  intro s s'
  have hs : s.sleepActive = false := (view_final j (s := hwsLedInit lit) rfl before).2
  have hstart : view s' j = (view s j).start n percent period (now j) := by
    change view (step s _) j = _
    rw [view_step j hs]
    unfold Blinker.step Event.on blinkAction
    dsimp only
    rw [if_pos hj, if_pos ⟨hpercent.1, hperiod⟩, if_pos hpercent.2]
    rfl
  have hplays : Plays n (Has s.preBlink j || Has s.state j) 0 (view s' j) := by
    rw [hstart]
    refine Or.inl ⟨?_, playing_start n percent period (now j) (view s j)⟩
    by_cases h0 : n = 0
    · exact Or.inl (Or.inl h0)
    · exact Or.inr (Nat.mul_pos (by decide) (Nat.pos_of_ne_zero fun h => h0 (UInt8.toNat_inj.mp h)))
  have hrun := plays_run (sleepActive_step hs _) hplays after hafter
  rwa [Nat.zero_add] at hrun

/-- One blink of LED 1, which is on: off again after 250 ticks, and then on as before. -/
theorem lit_led_blinks_once :
    let s := Run.final step (hwsLedInit fun _ => false) [.set 0x01 ledModeOn fun _ => 0]
    let s' := step s (.blink 0x01 1 50 500 fun _ => 7)
    Plays 1 true 2 (view (Run.final step s' [.update fun _ => 7, .update fun _ => 100,
      .update fun _ => 257]) 0) := by
  exact blink_plays (fun _ => false) [.set 0x01 ledModeOn fun _ => 0]
    [.update fun _ => 7, .update fun _ => 100, .update fun _ => 257] (n := 1) (fun _ => 7)
    (show Has 0x01 0 by decide) (show (50 : UInt8) ≠ 0 ∧ (50 : UInt8) < 100 by decide)
    (show (500 : UInt16) ≠ 0 by decide) (by simp [LeavesAlone])

end Blink

end AtNode.HwsLed
