import AtNode.Ch582.AtTable

/-!
# Which arguments the AT command handlers read

A handler is confined when it reads no entry of `argv` from `argc` on, whatever the node is. All are
but `at_cmd_KEY_CFG`, which reads a third argument when it has checked for a second.
-/

namespace AtNode.AtCmds

open ArgProgram CString Router

variable {n : ℕ} {σ : Type} (C : Chip n σ) (argc : ℕ) (argv : ℕ → Option Text)

section Parts

@[simp] theorem confined_respond (t : Text) : (respond t : Program n σ Unit).Confined argc argv :=
  fun _ => trivial

@[simp] theorem confined_respond_bind {α : Type} (t : Text) (f : Unit → Program n σ α) :
    (respond t >>= f).Confined argc argv ↔ ∀ _ : Node n σ, (f ()).Confined argc argv := Iff.rfl

@[simp] theorem confined_refuse (t : Text) : (refuse t : Program n σ Int).Confined argc argv :=
  fun _ => trivial

@[simp] theorem confined_flushOrRefuse (r : Hid.Report) :
    (flushOrRefuse C r).Confined argc argv := by
  simp [flushOrRefuse, kbFlush]

@[simp] theorem confined_connectOrRefuse (idx : ℤ) (t : Text) :
    (connectOrRefuse idx t : Program n σ Int).Confined argc argv := by
  simp [connectOrRefuse]

theorem confined_keyCodes (k i : ℕ) :
    (keyCodes argc k i : Program n σ (List UInt8)).Confined argc argv := by
  induction k generalizing i with
  | zero => trivial
  | succ k ih =>
    simp only [keyCodes, confined_ite, confined_ask_bind]
    refine ⟨fun hi => ⟨hi, fun t _ => ?_⟩, fun _ => ?_⟩
    · exact (ih (i + 1)).bind fun rest => trivial
    · exact (ih (i + 1)).bind fun rest => trivial

end Parts

section Core

theorem confined_atCmdHelp (help : List (Text × Text)) :
    (atCmdHelp help argc : Program n σ Int).Confined argc argv := by
  simp only [atCmdHelp, confined_ite, confined_ask_bind]
  refine ⟨fun hc => ⟨hc, fun name _ => ?_⟩, fun _ => by simp⟩
  cases help.find? fun r => sameName name r.1 with
  | none => simp
  | some r => simp

theorem confined_atCmdEcho : (atCmdEcho argc : Program n σ Int).Confined argc argv := by
  simp only [atCmdEcho, confined_ite, confined_ask_bind]
  exact ⟨fun _ => by simp, fun hc => ⟨by omega, fun text _ => by simp⟩⟩

theorem confined_atCmdWdg : (atCmdWdg C argc).Confined argc argv := by
  simp only [atCmdWdg, confined_ite, confined_ask_bind]
  exact ⟨fun _ => by simp, fun hc => ⟨by omega, fun v _ => by simp⟩⟩

theorem confined_atCmdFactory : (atCmdFactory C).Confined argc argv := by
  simp [atCmdFactory, btPairDgl]

theorem confined_atCmdRole : (atCmdRole C argc).Confined argc argv := by
  simp only [atCmdRole, confined_ite, confined_ask_bind]
  refine ⟨fun _ => by simp, fun hc => ⟨by omega, fun name _ => ?_⟩⟩
  cases roleParse name with
  | none => simp
  | some r => simp

end Core

section Keyboard

theorem confined_atCmdDev : (atCmdDev C argc).Confined argc argv := by
  simp only [atCmdDev, confined_ite, confined_ask_bind]
  exact ⟨fun _ => by simp, fun hc => ⟨by omega, fun name _ => by simp⟩⟩

theorem confined_atCmdKey : (atCmdKey C argc).Confined argc argv := by
  simp only [atCmdKey, confined_ite, confined_ask_bind]
  refine ⟨fun _ => by simp, fun hc => ⟨by omega, fun mods _ => ?_⟩⟩
  exact (confined_keyCodes argc argv 6 2).bind fun codes => by simp

theorem confined_atCmdMod : (atCmdMod C argc).Confined argc argv := by
  simp only [atCmdMod, confined_ite, confined_ask_bind]
  exact ⟨fun _ => by simp, fun hc => ⟨by omega, fun mods _ => by simp⟩⟩

theorem confined_atCmdTap : (atCmdTap argc : Program n σ Int).Confined argc argv := by
  simp only [atCmdTap, confined_ite, confined_ask_bind]
  refine ⟨fun _ => by simp, fun hc => ⟨by omega, fun ms _ => ?_⟩⟩
  exact (confined_askMany (by omega)).bind fun vals => by simp

theorem confined_atCmdKeySeq : (atCmdKeySeq argc : Program n σ Int).Confined argc argv := by
  simp only [atCmdKeySeq, confined_ite, confined_ask_bind]
  refine ⟨fun _ => by simp, fun hc => ⟨fun _ => by simp, fun _ => ⟨by omega, fun delay _ => ?_⟩⟩⟩
  exact (confined_askMany (by omega)).bind fun vals => by simp

theorem confined_atCmdKeyStr : (atCmdKeyStr argc : Program n σ Int).Confined argc argv := by
  simp only [atCmdKeyStr, confined_ite, confined_ask_bind]
  exact ⟨fun _ => by simp, fun hc => ⟨by omega, fun text _ => by simp⟩⟩

theorem confined_atCmdPace : (atCmdPace C argc).Confined argc argv := by
  simp only [atCmdPace, confined_get]
  intro w
  cases Ble.activeSlot n w.keyboard.kbTarget with
  | none => simp
  | some s =>
    simp only [confined_ite, confined_ask_bind]
    exact ⟨fun _ => by simp, fun hc => ⟨by omega, fun v _ => by simp⟩⟩

theorem confined_atCmdName : (atCmdName C argc).Confined argc argv := by
  simp only [atCmdName, confined_ite, confined_ask_bind]
  refine ⟨fun _ => by simp, fun _ => ⟨fun _ => by simp, fun hc => ⟨by omega, fun slot _ => ?_⟩⟩⟩
  refine ⟨fun _ => by simp, fun _ => ?_⟩
  cases (Ble.bleSlots n (devTargetParse slot)).head? with
  | none => simp
  | some s =>
    simp
    omega

theorem confined_atCmdMac : (atCmdMac C argc).Confined argc argv := by
  simp only [atCmdMac, confined_ite, confined_ask_bind]
  refine ⟨fun _ => by simp, fun _ => ⟨by omega, fun name _ => ⟨fun _ => by simp, fun _ => ?_⟩⟩⟩
  cases (Ble.bleSlots n (devTargetParse name)).getLast? with
  | none => simp
  | some s =>
    simp only [confined_ite, confined_ask_bind]
    refine ⟨fun _ => by simp, fun hc => ⟨by omega, fun text _ => ?_⟩⟩
    cases parseMac text with
    | none => simp
    | some addr => simp

/-- Two arguments of which the first names a pin are not enough for the handler. -/
theorem confined_atCmdKeyCfg
    (h : argc = 3 → ∀ a, argv 1 = some a → keyIndex (toU8 (atoi a)) = none) :
    (atCmdKeyCfg C argc).Confined argc argv := by
  simp only [atCmdKeyCfg, confined_edit_bind, confined_ite, confined_ask_bind]
  refine fun _ => ⟨fun _ => by simp, fun hc => ⟨by omega, fun a ha => ?_⟩⟩
  cases hk : keyIndex (toU8 (atoi a)) with
  | none => simp
  | some idx =>
    have hthree : argc ≠ 3 := by
      intro heq
      rw [h heq a ha] at hk
      cases hk
    simp
    grind

end Keyboard

section Hardware

theorem confined_atCmdGpioW : (atCmdGpioW C argc).Confined argc argv := by
  simp [atCmdGpioW]
  grind

theorem confined_atCmdGpioR : (atCmdGpioR C argc).Confined argc argv := by
  simp [atCmdGpioR, askU8]
  grind

theorem confined_atCmdAdc : (atCmdAdc C argc).Confined argc argv := by
  simp only [atCmdAdc, confined_ite, confined_ask_bind]
  refine ⟨fun _ => by simp, fun _ => ⟨fun _ => by simp, fun hc => ⟨by omega, fun a _ => ?_⟩⟩⟩
  simp [askU8]

theorem confined_atCmdLed : (atCmdLed C argc).Confined argc argv := by
  simp only [atCmdLed, confined_ite, confined_ask_bind]
  refine ⟨fun _ => by simp, fun _ => ⟨by omega, fun m _ => ?_⟩⟩
  cases ledMode m with
  | none => simp
  | some mode =>
    simp [askU8]
    omega

theorem confined_atCmdI2cScan : (atCmdI2cScan C).Confined argc argv := by
  simp [atCmdI2cScan]

theorem confined_atCmdI2cR : (atCmdI2cR C argc).Confined argc argv := by
  simp only [atCmdI2cR, confined_ite, confined_ask_bind, confined_act_bind]
  refine ⟨fun _ => by simp, fun _ => ⟨fun _ => by simp, fun hc => ?_⟩⟩
  refine ⟨by omega, fun addr _ => ⟨by omega, fun reg _ => ⟨by omega, fun len _ => ?_⟩⟩⟩
  refine ⟨fun _ => by simp, fun _ w => ?_⟩
  cases (C.i2cRead (strtoul addr).toUInt8 (strtoul reg).toUInt8 (atoi len).toNat
    (i2cLazyInit C w).rest).1 with
  | none => simp
  | some buf => simp

theorem confined_atCmdI2cW : (atCmdI2cW C argc).Confined argc argv := by
  simp only [atCmdI2cW, confined_ite, confined_ask_bind]
  refine ⟨fun _ => by simp, fun _ => ⟨fun _ => by simp, fun hc => ?_⟩⟩
  refine ⟨by omega, fun addr _ => ⟨by omega, fun reg _ => ?_⟩⟩
  exact (confined_askMany (by omega)).bind fun data => by simp

theorem confined_atCmdSleep : (atCmdSleep C argc).Confined argc argv := by
  simp only [atCmdSleep, confined_ite, confined_ask_bind]
  refine ⟨fun _ => by simp, fun _ => ⟨fun _ => by simp, fun hc => ⟨by omega, fun m _ => ?_⟩⟩⟩
  simp

end Hardware

section Wireless

theorem confined_btScanDgl : (btScanDgl argc : Program n σ Int).Confined argc argv := by
  simp [btScanDgl]

theorem confined_btConnWatch (form : Text) (isMac : Bool) :
    (btConnWatch argc form isMac : Program n σ Int).Confined argc argv := by
  simp only [btConnWatch, confined_ite, confined_ask_bind]
  refine ⟨fun _ => by simp, fun hc => ⟨by omega, fun value _ => ?_⟩⟩
  cases if isMac then parseMac value else some fun _ => 0 with
  | none => simp
  | some addr => simp

theorem confined_btConnDgl : (btConnDgl argc : Program n σ Int).Confined argc argv := by
  simp only [btConnDgl, confined_ite, confined_ask_bind, confined_get]
  refine ⟨fun _ => by simp, fun hc => ⟨by omega, fun form _ => ⟨fun _ => ?_, fun _ => ?_⟩⟩⟩
  · exact confined_btConnWatch argc argv _ _
  · refine ⟨fun _ => ⟨fun _ => by simp, fun h => ⟨by omega, fun a _ => by simp⟩⟩, fun _ w => ?_⟩
    cases bleDongleFind w.dongle form with
    | none => simp
    | some idx => simp

theorem confined_btPasskeyDgl : (btPasskeyDgl C argc).Confined argc argv := by
  simp only [btPasskeyDgl, confined_ite, confined_ask_bind]
  exact ⟨fun _ => by simp, fun hc => ⟨by omega, fun code _ => by simp⟩⟩

theorem confined_btAutoDgl : (btAutoDgl argc : Program n σ Int).Confined argc argv := by
  simp only [btAutoDgl, confined_ite, confined_ask_bind]
  exact ⟨fun _ => by simp, fun hc => ⟨by omega, fun v _ => by simp⟩⟩

theorem confined_btDiscKbd : (btDiscKbd argc : Program n σ Int).Confined argc argv := by
  simp [btDiscKbd]
  omega

theorem confined_btPairKbd : (btPairKbd C argc).Confined argc argv := by
  simp only [btPairKbd, pairKbd, confined_ite, confined_ask_bind, confined_get]
  refine ⟨fun hc => ⟨by omega, fun name _ => by simp⟩, fun _ w => ?_⟩
  cases Ble.activeSlot n w.keyboard.kbTarget with
  | none => simp
  | some s => simp

theorem confined_btUnbindKbd : (btUnbindKbd C argc).Confined argc argv := by
  simp only [btUnbindKbd, confined_ite, confined_ask_bind]
  exact ⟨fun _ => by simp, fun hc => ⟨by omega, fun name _ => by simp⟩⟩

variable {argc argv}

theorem confined_dongleOnly (missing : Text) {p : Program n σ Int} (hp : p.Confined argc argv) :
    (dongleOnly C missing p).Confined argc argv := by
  simp [dongleOnly, hp]

theorem confined_byRole {dgl kbd : Program n σ Int} (hd : dgl.Confined argc argv)
    (hk : kbd.Confined argc argv) : (byRole C dgl kbd).Confined argc argv := by
  simp [byRole, hd, hk]

end Wireless

section Table

variable {argc argv}

theorem confined_handler (c : Command)
    (h : c = .keyCfg → argc = 3 → ∀ a, argv 1 = some a → keyIndex (toU8 (atoi a)) = none) :
    (handler C argc c).Confined argc argv := by
  cases c with
  | «at» => trivial
  | ver => simp [handler, atCmdVer]
  | help => exact confined_atCmdHelp argc argv _
  | echo => exact confined_atCmdEcho argc argv
  | status => simp [handler, atCmdStatus]
  | rst => simp [handler, atCmdRst]
  | factory => exact confined_atCmdFactory C argc argv
  | isp => simp [handler, atCmdIsp]
  | wdg => exact confined_atCmdWdg C argc argv
  | role => exact confined_atCmdRole C argc argv
  | dev => exact confined_atCmdDev C argc argv
  | key => exact confined_atCmdKey C argc argv
  | tap => exact confined_atCmdTap argc argv
  | mod => exact confined_atCmdMod C argc argv
  | keySeq => exact confined_atCmdKeySeq argc argv
  | keyStr => exact confined_atCmdKeyStr argc argv
  | pace => exact confined_atCmdPace C argc argv
  | name => exact confined_atCmdName C argc argv
  | mac => exact confined_atCmdMac C argc argv
  | gpioW => exact confined_atCmdGpioW C argc argv
  | gpioR => exact confined_atCmdGpioR C argc argv
  | led => exact confined_atCmdLed C argc argv
  | keyCfg => exact confined_atCmdKeyCfg C argc argv (h rfl)
  | adc => exact confined_atCmdAdc C argc argv
  | temp => simp [handler, atCmdTemp]
  | i2cScan => exact confined_atCmdI2cScan C argc argv
  | i2cR => exact confined_atCmdI2cR C argc argv
  | i2cW => exact confined_atCmdI2cW C argc argv
  | sleep => exact confined_atCmdSleep C argc argv
  | btScan => exact confined_dongleOnly C _ (confined_btScanDgl argc argv)
  | btConn => exact confined_dongleOnly C _ (confined_btConnDgl argc argv)
  | btDisc => exact confined_byRole C (by simp [btDiscDgl]) (confined_btDiscKbd argc argv)
  | btPair => exact confined_byRole C (by simp [btPairDgl]) (confined_btPairKbd C argc argv)
  | btUnbind => exact confined_byRole C (by simp) (confined_btUnbindKbd C argc argv)
  | btState => exact confined_dongleOnly C _ (by simp [btStateDgl])
  | btBatt => exact confined_dongleOnly C _ (by simp [btBattDgl])
  | btPasskey => exact confined_dongleOnly C _ (confined_btPasskeyDgl C argc argv)
  | btList => exact confined_dongleOnly C _ (by simp [btListDgl])
  | btAuto => exact confined_dongleOnly C _ (confined_btAutoDgl argc argv)

/-- Every row reads the name; the handler of the row that has it reads the rest. -/
theorem confined_dispatch (hpos : 0 < argc)
    (h : ∀ name, argv 0 = some name → sameName name Command.keyCfg.text → argc = 3 →
      ∀ a, argv 1 = some a → keyIndex (toU8 (atoi a)) = none) (cs : List Command) :
    (dispatch C argc cs).Confined argc argv := by
  induction cs with
  | nil => simp [dispatch]
  | cons c cs ih =>
    simp only [dispatch, confined_ask_bind, confined_ite]
    refine ⟨hpos, fun name hname => ⟨fun hsame => ?_, fun _ => ih⟩⟩
    apply (confined_handler C c _).bind
    · intro ret
      simp
    · rintro rfl
      exact h name hname hsame

theorem reads_keyCfg {a b : Text} {idx : Fin 2} (ha : argv 1 = some a)
    (hk : keyIndex (toU8 (atoi a)) = some idx) (hb : argv 2 = some b) (w : Node n σ) :
    3 ∈ ((atCmdKeyCfg C 3).run argv w).reads := by
  rw [atCmdKeyCfg, run_edit_bind, if_neg (by omega), reads_ask_bind_some ha]
  simp only [hk]
  rw [if_neg (by omega), reads_ask_bind_some hb]
  apply List.mem_cons_of_mem
  apply List.mem_cons_of_mem
  exact mem_reads_ask_bind argv 3 _ _

def rowNamed (t : Text) : Option Command :=
  (cmdTable bareChip.build).find? fun d => d.text.map toLower == t.map toLower

theorem rowNamed_text (c : Command) : rowNamed c.text = some c := by
  cases c <;> decide

theorem eq_of_sameName {name : Text} {c d : Command} (hd : sameName name d.text)
    (hc : sameName name c.text) : c = d := by
  have htext : c.text.map toLower = d.text.map toLower := (eq_of_beq hc).symm.trans (eq_of_beq hd)
  have hrow : rowNamed c.text = rowNamed d.text := by rw [rowNamed, htext, rowNamed]
  rw [rowNamed_text, rowNamed_text] at hrow
  exact Option.some.inj hrow

/-- The row that has the name decides how the line ends. -/
theorem outcome_dispatch {name : Text} {c : Command} (hname : argv 0 = some name)
    (hsame : sameName name c.text) (w : Node n σ) {cs : List Command} (hmem : c ∈ cs) :
    (dispatch C argc cs).outcome argv w =
      (handler C argc c >>= fun ret => respond (if ret = 0 then ok else error)).outcome argv w := by
  induction cs with
  | nil => cases hmem
  | cons d cs ih =>
    rw [dispatch, outcome_ask_bind, hname, Option.elim_some]
    by_cases hd : sameName name d.text
    · obtain rfl := eq_of_sameName hsame hd
      rw [if_pos hd]
    · rw [if_neg hd]
      apply ih
      rcases List.mem_cons.mp hmem with rfl | hrest
      · exact absurd hsame hd
      · exact hrest

theorem reads_dispatch_keyCfg {name a b : Text} {idx : Fin 2} (hname : argv 0 = some name)
    (hsame : sameName name Command.keyCfg.text) (ha : argv 1 = some a)
    (hk : keyIndex (toU8 (atoi a)) = some idx) (hb : argv 2 = some b) (w : Node n σ)
    {cs : List Command} (hmem : .keyCfg ∈ cs) : 3 ∈ ((dispatch C 3 cs).run argv w).reads := by
  induction cs with
  | nil => cases hmem
  | cons c cs ih =>
    rw [dispatch, reads_ask_bind_some hname]
    apply List.mem_cons_of_mem
    by_cases hc : sameName name c.text
    · obtain rfl := eq_of_sameName hsame hc
      rw [if_pos hc]
      exact mem_reads_bind _ (reads_keyCfg C ha hk hb w)
    · rw [if_neg hc]
      apply ih
      rcases List.mem_cons.mp hmem with rfl | hrest
      · exact absurd hsame hc
      · exact hrest

end Table

end AtNode.AtCmds
