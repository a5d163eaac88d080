import AtNode.Ch582.AtCmds

/-!
# The wireless commands and the command table of the CH582 firmware

The wireless commands go to the dongle or to the keyboard by the role the node runs in. The rows of
the table depend on the build; a line is handled by the first row whose name is the line's,
whatever its case.
-/

namespace AtNode.AtCmds

open ArgProgram Ble CString Router

variable {n : ℕ} {σ : Type} (C : Chip n σ)

section Dongle

open Central

def dglState (d : Dongle) : ℕ :=
  match d.state with
  | .idle => 0
  | .scanning => 1
  | .connecting => 2
  | .connected => 3
  | .armed => 4
  | .autoconn => 5

def btScanDgl (argc : ℕ) : Program n σ Int := do
  let sec ← if 1 < argc then do
      let a ← ask 1
      pure (atoi a)
    else pure 5
  let filter ← if 2 < argc then do
      let f ← ask 2
      pure (some f)
    else pure none
  let st ← act fun w =>
    let r := Central.btScanDgl w.dongle sec (filter.getD [])
    (r.2, { w with dongle := r.1 })
  if st < 0 then do
    edit fun w => w.respond (bytes "ERROR: busy state=" ++ dec (dglState w.dongle))
    pure (-1)
  else
    respond (bytes "scanning " ++ dec (max 1 (min sec 30)) ++ bytes "s" ++
      (match filter with
        | some f => bytes " filter=" ++ f
        | none => []) ++ bytes "...")
    pure 0

def addrText (a : Ble.Addr) : Text :=
  hex2 (a 5) ++ hex2 (a 4) ++ hex2 (a 3) ++ hex2 (a 2) ++ hex2 (a 1) ++ hex2 (a 0)

/-- The pattern stands somewhere in the name; bit 5 of a character does not matter. -/
def nameHit (name s : Text) : Bool :=
  name.tails.any fun t => t ≠ [] ∧ (s.map (· ||| 0x20)).isPrefixOf (t.map (· ||| 0x20))

/-- The loop that looks for the strongest hit; the first of two equals stays. -/
def strongest (s : Text) : List ScanRec → ℕ → Option (ℕ × Int8) → Option ℕ
  | [], _, best => best.map Prod.fst
  | r :: rs, i, best =>
    let better : Bool := match best with
      | none => true
      | some b => b.2 < r.rssi
    strongest s rs (i + 1) (if nameHit r.name s && better then some (i, r.rssi) else best)

/-- A connect target: an index of up to three digits, an address of twelve, or a part of a name. -/
def bleDongleFind (d : Dongle) (s : Text) : Option ℕ :=
  if s = [] ∨ d.scanList = [] then none
  else if s.all isDigit ∧ s.length ≤ 3 then
    if digits s < d.scanList.length then some (digits s) else none
  else if s.all (fun c => isDigit c || 'A'.toUInt8 ≤ c && c ≤ 'F'.toUInt8) ∧ s.length = 12 then
    d.scanList.findIdx? fun r => addrText r.addr = s
  else strongest s d.scanList 0 none

def connectOrRefuse (idx : ℤ) (t : Text) : Program n σ Int := do
  let st ← act fun w => dongleConnect w (toU8 idx)
  if st < 0 then refuse t
  else
    respond (bytes "connecting #" ++ dec idx ++ bytes "...")
    pure 0

/-- The two forms that scan for a keyboard. -/
def btConnWatch (argc : ℕ) (form : Text) (isMac : Bool) : Program n σ Int :=
  if argc < 3 then refuse (bytes "usage: AT+BT_CONN=" ++ form ++ bytes ",<value>[,<sec>]")
  else do
    let value ← ask 2
    match if isMac then parseMac value else some fun _ => 0 with
    | none => refuse (bytes "ERROR: bad MAC")
    | some addr =>
      let sec ← if 3 < argc then do
          let a ← ask 3
          pure (atoi a)
        else pure 5
      let st ← act fun w => dongleConnectWatch w isMac addr value (toU8 sec)
      if st < 0 then refuse (bytes "ERROR: busy")
      else
        respond (bytes "watching " ++ dec sec ++ bytes "s for " ++ value ++ bytes "...")
        pure 0

def btConnDgl (argc : ℕ) : Program n σ Int :=
  if argc < 2 then refuse (bytes "usage: AT+BT_CONN=mac|name|index,<value>[,<sec>]")
  else do
    let form ← ask 1
    if sameName form (bytes "mac") || sameName form (bytes "name") then
      btConnWatch argc form (sameName form (bytes "mac"))
    else if sameName form (bytes "index") then
      if argc < 3 then refuse (bytes "usage: AT+BT_CONN=index,<n>")
      else do
        let a ← ask 2
        connectOrRefuse (atoi a) (bytes "ERROR: no such index or busy — run AT+BT_SCAN first")
    else .get fun w =>
      match bleDongleFind w.dongle form with
      | none => refuse (bytes "ERROR: no match or busy — run AT+BT_SCAN first")
      | some idx => connectOrRefuse idx (bytes "ERROR: no match or busy — run AT+BT_SCAN first")

def btDiscDgl : Program n σ Int := do
  let st ← act fun w =>
    let r := bleDongleDisconnect (C.gap w.rest) w.dongle
    (r.2, { w with dongle := r.1 })
  if st < 0 then refuse (bytes "ERROR: not connected") else pure 0

def btPasskeyDgl (argc : ℕ) : Program n σ Int :=
  if argc < 2 then refuse (bytes "usage: AT+BT_PASSKEY=<6digits>")
  else do
    let code ← ask 1
    edit fun w => { w with rest := C.passkey (atoi code % 2 ^ 32).toNat w.rest }
    respond (bytes "passkey set")
    pure 0

def btListDgl : Program n σ Int := do
  edit fun w => (C.listBonds w.rest).foldl Node.respond w
  pure 0

def btAutoDgl (argc : ℕ) : Program n σ Int :=
  if argc < 2 then do
    edit fun w => w.respond (bytes "auto=" ++ dec (if w.dongle.auto then 1 else 0) ++
      bytes " state=" ++ dec (dglState w.dongle))
    pure 0
  else do
    let v ← ask 1
    edit fun w => { w with dongle := bleDongleAuto w.dongle (atoi v ≠ 0) }
    edit fun w => w.respond (bytes "auto=" ++ dec (if w.dongle.auto then 1 else 0))
    pure 0

def btStateDgl : Program n σ Int := do
  edit fun w => w.respond (bytes "state=" ++ dec (dglState w.dongle) ++ bytes " startDev=" ++
    dec (C.startStatus w.rest).toNat ++ bytes " (0=ok,24=badTask,0xFF=never)")
  pure 0

def btBattDgl : Program n σ Int := do
  let st ← act fun w =>
    let r := bleDongleBattRead (C.gap w.rest) w.dongle
    (r.2, { w with dongle := r.1 })
  if st < 0 then refuse (bytes "ERROR: no battery service or not armed") else pure 0

end Dongle

section Keyboard

/-- `kb_ble_unbind_slot`, with the bond of the host. -/
def unbindSlot (w : Node n σ) (s : Fin n) : Node n σ × Int :=
  let r := kbBleUnbindSlot C.ble w.keyboard s
  ({ w with
      keyboard := r.1
      rest := if r.2 = 0 then C.eraseBond (w.keyboard.slotmap s) w.rest else w.rest }, r.2)

def countSlots (f : Node n σ → Fin n → Node n σ × Int) (w : Node n σ) : List (Fin n) → ℕ × Node n σ
  | [] => (0, w)
  | s :: ss =>
    let r := f w s
    let rest := countSlots f r.1 ss
    (rest.1 + if r.2 = 0 then 1 else 0, rest.2)

def disconnectSlot (w : Node n σ) (s : Fin n) : Node n σ × Int :=
  let r := kbBleDisconnectSlot w.keyboard s
  ({ w with keyboard := r.1 }, r.2)

def btDiscKbd (argc : ℕ) : Program n σ Int :=
  if 2 ≤ argc then do
    let name ← ask 1
    let m := devTargetParse name
    if m &&& kbTgtBleAll = 0 then refuse (bytes "usage: AT+BT_DISC[=BLE1|BLE2|BLE3]")
    else
      let count ← act fun w => countSlots disconnectSlot w (bleSlots n m)
      if count = 0 then refuse (bytes "ERROR: not connected") else pure 0
  else do
    let st ← act fun w =>
      let r := kbBleDisconnect w.keyboard
      (r.2, { w with keyboard := r.1 })
    if st < 0 then refuse (bytes "ERROR: not connected") else pure 0

/-- Point the output at the slot and open the pairing window. -/
def pairKbd (slot : Option (Fin n)) : Program n σ Int := do
  edit fun w => { w with keyboard := pairInto C.ble w.keyboard slot }
  pure 0

def btPairKbd (argc : ℕ) : Program n σ Int :=
  if 2 ≤ argc then do
    let name ← ask 1
    let m := devTargetParse name
    if m &&& kbTgtBleAll = 0 then refuse (bytes "usage: AT+BT_PAIR[=<BLE1|BLE2|BLE3>]")
    else
      let slot := (bleSlots n m).getLast?
      edit fun w => match slot with
        | some s => (unbindSlot C w s).1
        | none => w
      pairKbd C slot
  else .get fun w =>
    match activeSlot n w.keyboard.kbTarget with
    | none => refuse (bytes "ERROR: AT+DEV=BLEn first")
    | some s => pairKbd C (some s)

def btUnbindKbd (argc : ℕ) : Program n σ Int :=
  if argc < 2 then refuse (bytes "usage: AT+BT_UNBIND=<BLE1|BLE2|BLE3>")
  else do
    let name ← ask 1
    let m := devTargetParse name
    if m &&& kbTgtBleAll = 0 then refuse (bytes "usage: AT+BT_UNBIND=<BLE1|BLE2|BLE3>")
    else
      let count ← act fun w => countSlots (unbindSlot C) w (bleSlots n m)
      if count = 0 then refuse (bytes "ERROR: slot not bound") else pure 0

end Keyboard

section Roles

/-- A command of the dongle: a build without a dongle answers `missing`, the keyboard role of a DUAL
build a hint. -/
def dongleOnly (missing : Text) (p : Program n σ Int) : Program n σ Int :=
  if !C.build.hasDongle then refuse missing
  else .get fun w =>
    if roleCurrent C w.rest ≠ .dongle then
      refuse (bytes "ERROR: dongle-role command (AT+ROLE=DONGLE to switch)")
    else p

def noScan : Text := bytes "ERROR: scan needs dongle mode (BLE_DONGLE)"

def noDongle : Text := bytes "ERROR: dongle mode disabled (BLE_DONGLE=FALSE)"

def atCmdBtScan (argc : ℕ) : Program n σ Int := dongleOnly C noScan (btScanDgl argc)

def atCmdBtConn (argc : ℕ) : Program n σ Int := dongleOnly C noScan (btConnDgl argc)

def atCmdBtPasskey (argc : ℕ) : Program n σ Int := dongleOnly C noDongle (btPasskeyDgl C argc)

def atCmdBtList : Program n σ Int := dongleOnly C noDongle (btListDgl C)

def atCmdBtAuto (argc : ℕ) : Program n σ Int := dongleOnly C noDongle (btAutoDgl argc)

def atCmdBtState : Program n σ Int := dongleOnly C noDongle (btStateDgl C)

def atCmdBtBatt : Program n σ Int :=
  dongleOnly C (bytes "ERROR: dongle mode only") (btBattDgl C)

/-- A command of both roles. -/
def byRole (dgl kbd : Program n σ Int) : Program n σ Int := .get fun w =>
  if roleCurrent C w.rest = .dongle then dgl else kbd

def atCmdBtDisc (argc : ℕ) : Program n σ Int := byRole C (btDiscDgl C) (btDiscKbd argc)

def atCmdBtPair (argc : ℕ) : Program n σ Int := byRole C (btPairDgl C) (btPairKbd C argc)

def atCmdBtUnbind (argc : ℕ) : Program n σ Int :=
  byRole C (refuse (bytes "ERROR: kbd role only")) (btUnbindKbd C argc)

end Roles

section Table

inductive Command where
  | at | ver | help | echo | status | rst | factory | isp | wdg | role
  | dev | key | tap | mod | keySeq | keyStr | pace | name | mac
  | gpioW | gpioR | led | keyCfg
  | adc | temp | i2cScan | i2cR | i2cW | sleep
  | btScan | btConn | btDisc | btPair | btUnbind | btState | btBatt | btPasskey | btList | btAuto
  deriving DecidableEq

def Command.text : Command → Text
  | .at => bytes "AT"
  | .ver => bytes "AT+VER"
  | .help => bytes "AT+HELP"
  | .echo => bytes "AT+ECHO"
  | .status => bytes "AT+STATUS"
  | .rst => bytes "AT+RST"
  | .factory => bytes "AT+FACTORY"
  | .isp => bytes "AT+ISP"
  | .wdg => bytes "AT+WDG"
  | .role => bytes "AT+ROLE"
  | .dev => bytes "AT+DEV"
  | .key => bytes "AT+KEY"
  | .tap => bytes "AT+TAP"
  | .mod => bytes "AT+MOD"
  | .keySeq => bytes "AT+KEY_SEQ"
  | .keyStr => bytes "AT+KEY_STR"
  | .pace => bytes "AT+PACE"
  | .name => bytes "AT+NAME"
  | .mac => bytes "AT+MAC"
  | .gpioW => bytes "AT+GPIO_W"
  | .gpioR => bytes "AT+GPIO_R"
  | .led => bytes "AT+LED"
  | .keyCfg => bytes "AT+KEY_CFG"
  | .adc => bytes "AT+ADC"
  | .temp => bytes "AT+TEMP"
  | .i2cScan => bytes "AT+I2C_SCAN"
  | .i2cR => bytes "AT+I2C_R"
  | .i2cW => bytes "AT+I2C_W"
  | .sleep => bytes "AT+SLEEP"
  | .btScan => bytes "AT+BT_SCAN"
  | .btConn => bytes "AT+BT_CONN"
  | .btDisc => bytes "AT+BT_DISC"
  | .btPair => bytes "AT+BT_PAIR"
  | .btUnbind => bytes "AT+BT_UNBIND"
  | .btState => bytes "AT+BT_STATE"
  | .btBatt => bytes "AT+BT_BATT"
  | .btPasskey => bytes "AT+BT_PASSKEY"
  | .btList => bytes "AT+BT_LIST"
  | .btAuto => bytes "AT+BT_AUTO"

def Command.helpText : Command → Text
  | .at => bytes "handshake -> OK"
  | .ver => bytes "firmware version"
  | .help => bytes "command list"
  | .echo => bytes "echo <text>"
  | .status => bytes "device status (role/dev/ble/batt)"
  | .rst => bytes "software reset"
  | .factory => bytes "wipe all config + bonds, reset"
  | .isp => bytes "enter ISP bootloader (erases app!)"
  | .wdg => bytes "watchdog [0|1], default off"
  | .role => bytes "query/switch role KBD|DONGLE (DUAL)"
  | .dev => bytes "output target USB|BLE"
  | .key => bytes "raw HID report <mods>,<k1>,..,<k6>"
  | .tap => bytes "press+release <ms>,<mods>,<k1>..<k6>"
  | .mod => bytes "set modifiers <mask>"
  | .keySeq => bytes "batch HID <delay>,<mods>,<k1>..<k6>,..."
  | .keyStr => bytes "type text <string> (US layout)"
  | .pace => bytes "KEY_STR pacing <ms> (per-slot)"
  | .name => bytes "slot label <BLEn>,<name>"
  | .mac => bytes "slot own MAC <BLEn>[,<addr>]"
  | .gpioW => bytes "write <pin>,<level> (PA0-15,PB16-39)"
  | .gpioR => bytes "read <pin>"
  | .led => bytes "LED ON|OFF|BLINK|FLASH|TOGGLE[,ms[,duty%%]]"
  | .keyCfg => bytes "custom key <pin 38|39>,<mods>,<keycode>"
  | .adc => bytes "read ADC <ch>[,<pga>] -> +ADC:<raw>,<mV> mV"
  | .temp => bytes "temperature sensor -> +TEMP:<raw>,<C> C"
  | .i2cScan => bytes "scan I2C bus"
  | .i2cR => bytes "I2C read <addr>,<reg>,<len> (hex)"
  | .i2cW => bytes "I2C write <addr>,<reg>,<data> (hex)"
  | .sleep => bytes "sleep <mode 0-2>[,<sec>] RTC wake"
  | .btScan => bytes "scan HID devices [sec] (dongle)"
  | .btConn => bytes "connect <idx|addr|name> (dongle)"
  | .btDisc => bytes "drop BLE link (hold reconnect)"
  | .btPair => bytes "open pairing window <BLEn>"
  | .btUnbind => bytes "forget one host <BLE1..3>"
  | .btState => bytes "diag dongle state (dongle)"
  | .btBatt => bytes "peer battery % (dongle)"
  | .btPasskey => bytes "SMP passkey <6digits> (dongle)"
  | .btList => bytes "bonded devices (dongle)"
  | .btAuto => bytes "auto-reconnect [0|1] (dongle)"

/-- `cmd_table`; four rows are of the builds with a keyboard. -/
def cmdTable (b : Build) : List Command :=
  List.flatten
    [[.at, .ver, .help, .echo, .status, .rst, .factory, .isp, .wdg, .role],
      if b.hasKbd then [.dev] else [],
      [.key, .tap, .mod, .keySeq, .keyStr],
      if b.hasKbd then [.pace, .name, .mac] else [],
      [.gpioW, .gpioR, .led, .keyCfg, .adc, .temp, .i2cScan, .i2cR, .i2cW, .sleep, .btScan, .btConn,
        .btDisc, .btPair, .btUnbind, .btState, .btBatt, .btPasskey, .btList, .btAuto]]

def handler (argc : ℕ) : Command → Program n σ Int
  | .at => atCmdAt
  | .ver => atCmdVer C
  | .help => atCmdHelp ((cmdTable C.build).map fun c => (c.text, c.helpText)) argc
  | .echo => atCmdEcho argc
  | .status => atCmdStatus C
  | .rst => atCmdRst
  | .factory => atCmdFactory C
  | .isp => atCmdIsp C
  | .wdg => atCmdWdg C argc
  | .role => atCmdRole C argc
  | .dev => atCmdDev C argc
  | .key => atCmdKey C argc
  | .tap => atCmdTap argc
  | .mod => atCmdMod C argc
  | .keySeq => atCmdKeySeq argc
  | .keyStr => atCmdKeyStr argc
  | .pace => atCmdPace C argc
  | .name => atCmdName C argc
  | .mac => atCmdMac C argc
  | .gpioW => atCmdGpioW C argc
  | .gpioR => atCmdGpioR C argc
  | .led => atCmdLed C argc
  | .keyCfg => atCmdKeyCfg C argc
  | .adc => atCmdAdc C argc
  | .temp => atCmdTemp C
  | .i2cScan => atCmdI2cScan C
  | .i2cR => atCmdI2cR C argc
  | .i2cW => atCmdI2cW C argc
  | .sleep => atCmdSleep C argc
  | .btScan => atCmdBtScan C argc
  | .btConn => atCmdBtConn C argc
  | .btDisc => atCmdBtDisc C argc
  | .btPair => atCmdBtPair C argc
  | .btUnbind => atCmdBtUnbind C argc
  | .btState => atCmdBtState C
  | .btBatt => atCmdBtBatt C
  | .btPasskey => atCmdBtPasskey C argc
  | .btList => atCmdBtList C
  | .btAuto => atCmdBtAuto C argc

def ok : Text := bytes "OK"

def error : Text := bytes "ERROR"

/-- The end of `at_process_line`: the rows are tried in order, each reads the name again. -/
def dispatch (argc : ℕ) : List Command → Program n σ Unit
  | [] => respond error
  | c :: cs => do
    let name ← ask 0
    if sameName name c.text then do
      let ret ← handler C argc c
      respond (if ret = 0 then ok else error)
    else dispatch argc cs

end Table

end AtNode.AtCmds
