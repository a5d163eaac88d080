import AtNode.Ch582.Node

/-!
# The AT command handlers of the CH582 firmware

Each handler is a program that reads `argv` through `ask` and changes the node; `argc` is all it is
told about the number of arguments. A handler returns 0 or −1, or does not return when it resets the
chip.
-/

namespace AtNode.AtCmds

open ArgProgram Ble CString Router

/-- Why a handler does not return. -/
inductive Stop where
  | reset
  | bootloader
  deriving DecidableEq

variable {n : ℕ} {σ : Type}

abbrev Program (n : ℕ) (σ α : Type) := ArgProgram Text (Node n σ) Stop α

section Responses

/-- What `AT_Response` sends of a text: its buffer has 256 bytes. -/
def atResponse (t : Text) : Text :=
  if t.length < 254 then t ++ [0x0D, 0x0A] else t.take 255

def Node.respond (w : Node n σ) (t : Text) : Node n σ :=
  { w with replies := w.replies ++ [atResponse t] }

def respond (t : Text) : Program n σ Unit := edit (·.respond t)

/-- Respond, and return −1. -/
def refuse (t : Text) : Program n σ Int := do
  respond t
  pure (-1)

def dec (z : ℤ) : Text := bytes (toString z)

def hex2 (b : UInt8) : Text := [hex (b >>> 4), hex (b &&& 0xF)]

def dec2 (v : ℕ) : Text := if v < 10 then bytes "0" ++ dec v else dec v

/-- Bytes 5 to 0 with colons between them. -/
def macText (a : Addr) : Text :=
  hex2 (a 5) ++ bytes ":" ++ hex2 (a 4) ++ bytes ":" ++ hex2 (a 3) ++ bytes ":" ++ hex2 (a 2) ++
    bytes ":" ++ hex2 (a 1) ++ bytes ":" ++ hex2 (a 0)

def labelText (l : Label) : Text := (List.ofFn l).takeWhile (· != 0)

def bleText (s : Fin n) : Text := bytes "BLE" ++ dec (s + 1)

end Responses

section Core

variable (C : Chip n σ)

def atCmdAt : Program n σ Int := pure 0

def atCmdVer : Program n σ Int := do
  edit fun w => w.respond (bytes "AT-Node v1.0 [" ++ roleName (roleCurrent C w.rest) ++
    bytes "] BLE: " ++ C.build.verLib)
  pure 0

/-- The texts of `AT+HELP` without an argument. -/
def helpTexts : List Text :=
  [bytes "AT-Node Commands:\r\n  [Core]\r\n  AT       - handshake\r\n  AT+VER   - version\r\n  AT+HELP  - this help\r\n  AT+ECHO  - echo <text>\r\n  AT+STATUS - role/kb/ble/batt\r\n  AT+RST   - software reset\r\n  AT+ISP   - enter ISP bootloader (erases app!)\r\n  AT+WDG   - watchdog [0|1], default off",
    bytes "  AT+ROLE  - role KBD|DONGLE (DUAL)\r\n  [Keyboard]\r\n  AT+DEV   - output target USB|BLE\r\n  AT+KEY   - raw HID <mods>,<k1>,..,<k6>\r\n  AT+TAP   - press+release <ms>,<mods>,<k1>..<k6>\r\n  AT+MOD   - modifiers <mask>\r\n  AT+KEY_SEQ  - batch HID <delay>,<mods>,<k1>..<k6>,...",
    bytes "  [GPIO]\r\n  AT+GPIO_W   - write <pin>,<level> (PA0-15,PB16-39)\r\n  AT+GPIO_R   - read <pin>\r\n  [Sensor]\r\n  AT+ADC      - read <ch>[,<pga>] -> +ADC:<raw>,<mV> mV\r\n  AT+I2C_SCAN - scan bus",
    bytes "  AT+I2C_R    - read <addr>,<reg>,<len> (hex)\r\n  AT+I2C_W    - write <addr>,<reg>,<data> (hex)\r\n  [Power]\r\n  AT+TEMP     - read internal temperature sensor -> °C\r\n",
    bytes "  [Wireless]\r\n  AT+BT_SCAN  - scan HID devices [sec] (dongle)\r\n  AT+BT_CONN  - connect <idx|addr|name> (dongle)\r\n  AT+BT_DISC  - drop BLE link (suppress reconnect)\r\n  AT+BT_PAIR  - drop link + erase bonds",
    bytes "  AT+BT_STATE - diag dongle state (dongle)\r\n  AT+BT_PASSKEY - SMP passkey <6digits> (dongle)\r\n  AT+BT_LIST  - bonded devices (dongle)\r\n  AT+BT_AUTO  - auto-reconnect [0|1] (dongle)"]

/-- `strcasecmp` finds the strings equal. -/
def sameName (s t : Text) : Bool := s.map toLower == t.map toLower

/-- `help` has the names and the help texts of the command table. -/
def atCmdHelp (help : List (Text × Text)) (argc : ℕ) : Program n σ Int :=
  if 1 < argc then do
    let name ← ask 1
    match help.find? fun r => sameName name r.1 with
    | some r =>
      respond (r.1 ++ bytes " - " ++ r.2)
      pure 0
    | none => refuse (bytes "ERROR: unknown command (try AT+HELP)")
  else do
    edit fun w => helpTexts.foldl Node.respond w
    pure 0

def atCmdEcho (argc : ℕ) : Program n σ Int :=
  if argc < 2 then refuse (bytes "usage: AT+ECHO=text")
  else do
    let text ← ask 1
    respond text
    pure 0

def targetText (m : UInt8) : Text :=
  let names := (if m &&& kbTgtUsb ≠ 0 then [bytes "USB"] else []) ++
    (bleSlots n m).map fun s => bleText s
  if names = [] then bytes "NONE" else (names.intersperse (bytes "+")).flatten

def atCmdStatus : Program n σ Int := do
  edit fun w => w.respond (bytes "role=" ++ roleName (roleCurrent C w.rest) ++ bytes " dev=" ++
    targetText (n := n) w.keyboard.kbTarget ++ bytes " ble=" ++ dec (kbBleConnCount w.keyboard) ++
    bytes "conn batt=" ++ dec (C.battMv w.rest).toNat ++ bytes "mV")
  pure 0

def atCmdRst : Program n σ Int := do
  respond (bytes "resetting...")
  .stop .reset

def atCmdIsp : Program n σ Int := do
  respond (bytes "entering ISP — app flash erased, reflash via wchisp (1a86:8010)")
  edit fun w => { w with rest := C.eraseApp w.rest }
  .stop .bootloader

def atCmdWdg (argc : ℕ) : Program n σ Int :=
  if argc < 2 then do
    edit fun w => w.respond (bytes "wdg=" ++ dec (if C.wdgArmed w.rest then 1 else 0) ++
      bytes " (0=off,1=armed)")
    pure 0
  else do
    let v ← ask 1
    edit fun w =>
      { w with rest := if atoi v ≠ 0 then C.wdgArm w.rest else C.wdgDisarm w.rest }
    pure 0

def btPairDgl : Program n σ Int := do
  edit fun w => { w with dongle := Central.btPairDgl (C.gap w.rest) w.dongle }
  respond (bytes "bonds erased — scan+conn to pair a new keyboard")
  pure 0

def atCmdFactory : Program n σ Int := do
  respond (bytes "factory reset...")
  if C.build.hasKbd then
    edit fun w => hwsKeyCfgFactoryReset C { w with
      keyboard := kbBleFactoryReset C.ble (kbBleDisconnect w.keyboard).1
      rest := C.forgetBonds w.rest }
  if C.build.hasDongle then
    edit fun w => { w with dongle := (Central.bleDongleDisconnect (C.gap w.rest) w.dongle).1 }
    let _ ← btPairDgl C
  .stop .reset

def atCmdRole (argc : ℕ) : Program n σ Int :=
  if argc < 2 then do
    edit fun w => w.respond <| match C.build.mode with
      | .dual => bytes "role=" ++ roleName (roleCurrent C w.rest) ++ bytes " mode=DUAL"
      | .dongle => bytes "role=dongle mode=DONGLE"
      | .kbd => bytes "role=kbd mode=KBD"
    pure 0
  else do
    let name ← ask 1
    match roleParse name with
    | none => refuse (bytes "usage: AT+ROLE=KBD|DONGLE")
    | some r =>
      .get fun w =>
      if C.build.mode ≠ .dual then
        refuse (bytes "ERROR: single-role build (role=" ++ roleName (roleCurrent C w.rest) ++
          bytes ")")
      else if r = roleCurrent C w.rest then do
        respond (bytes "role=" ++ roleName r ++ bytes " (unchanged)")
        pure 0
      else do
        let written ← act fun w =>
          let q := roleRequest C r w.rest
          (q.1, { w with rest := q.2 })
        if written then
          respond (bytes "switching to " ++ roleName r ++ bytes " — resetting...")
          .stop .reset
        else refuse (bytes "ERROR: role flag write failed")

end Core

section Keyboard

variable (C : Chip n σ)

def kbFlush (r : Hid.Report) : Program n σ Int := act fun w =>
  let env : Env n := ⟨C.usbReady w.rest, fun s => ¬ ConnFree w.keyboard s, C.send w.rest⟩
  let q := Router.kbFlush w.keyboard.kbTarget env w.diagnostics
  (q.2, { w with
    diagnostics := q.1
    rest := C.sendReport (reached w.keyboard.kbTarget env) r w.rest })

def flushOrRefuse (r : Hid.Report) : Program n σ Int := do
  let st ← kbFlush C r
  if st < 0 then refuse (bytes "ERROR: no active output — check AT+DEV status")
  else pure 0

def devLine (w : Node n σ) (s : Fin n) : Text :=
  let k := w.keyboard
  let active := if k.kbTarget &&& slotBit s ≠ 0 then bytes ",active" else []
  let name := labelText (k.slotname s)
  let named := if name ≠ [] then bytes ",name=" else []
  dec (s + 2) ++ bytes "," ++ bleText s ++ bytes "," ++
    if ConnFree k s then
      if LooksFree (k.slotmap s) then bytes "-,free" ++ active
      else macText (k.slotmap s) ++ bytes ",reserved" ++ active ++ named ++ name
    else
      let q := C.slotParams w.rest s
      macText (k.conns s).addr ++ bytes ",connected" ++
        (if C.slotSecure w.rest s then bytes ",secure" else bytes ",INSECURE") ++
        (if C.slotNotify w.rest s then bytes ",notify" else bytes ",NO-CCCD") ++ active ++
        (if w.diagnostics.drops s ≠ 0 then bytes ",drops" else []) ++ bytes ",err=" ++
        hex2 (w.diagnostics.lasterr s) ++ bytes ",int=" ++ dec (q.1 * 125 / 100 : ℕ) ++ bytes "." ++
        dec2 (q.1 * 125 % 100) ++ bytes "ms/lat" ++ dec q.2 ++ named ++ name

def devQuery (w : Node n σ) : Node n σ :=
  let usb := w.respond (bytes "1,USB," ++
    (if C.usbReady w.rest then bytes "ready" else bytes "not-ready") ++
    if w.keyboard.kbTarget &&& kbTgtUsb ≠ 0 then bytes ",active" else [])
  (List.finRange n).foldl (fun v s => v.respond (devLine C w s)) usb

def atCmdDev (argc : ℕ) : Program n σ Int :=
  if argc < 2 then do
    edit (devQuery C)
    pure 0
  else do
    let name ← ask 1
    let m := devTargetParse name
    if m = 0 ∨ m &&& ~~~ validTargets n ≠ 0 then refuse (bytes "usage: AT+DEV[=USB|BLE1|BLE2|BLE3]")
    else
      edit fun w =>
        let k := { w.keyboard with kbTarget := m }
        { w with keyboard :=
            if m &&& kbTgtBleAll ≠ 0 then
              match activeSlot n m with
              | some s => kbBleActivateSlot C.ble k (some s)
              | none => k
            else kbBleActivateSlot C.ble k none }
      respond (bytes "DEV=" ++ name)
      pure 0

/-- `k` values from `argv[i]` on; those from `argc` on are 0. -/
def keyCodes (argc : ℕ) : ℕ → ℕ → Program n σ (List UInt8)
  | 0, _ => pure []
  | k + 1, i =>
    if i < argc then do
      let a ← ask i
      let rest ← keyCodes argc k (i + 1)
      pure (toU8 (atoi a) :: rest)
    else do
      let rest ← keyCodes argc k (i + 1)
      pure (0 :: rest)

def atCmdKey (argc : ℕ) : Program n σ Int :=
  if argc < 2 then refuse (bytes "usage: AT+KEY=<mods>,<k1>,..,<k6>")
  else do
    let mods ← ask 1
    let codes ← keyCodes argc 6 2
    let keys := codes.filter (· ≠ 0)
    flushOrRefuse C ⟨toU8 (atoi mods), Vector.ofFn fun i => keys.getD i 0⟩

def atCmdMod (argc : ℕ) : Program n σ Int :=
  if argc < 2 then refuse (bytes "usage: AT+MOD=<mask>")
  else do
    let mods ← ask 1
    flushOrRefuse C ⟨toU8 (atoi mods), Hid.Report.rest.keys⟩

def atCmdTap (argc : ℕ) : Program n σ Int :=
  if argc < 3 then refuse (bytes "usage: AT+TAP=<ms>,<mods>,<k1>,..,<k6>")
  else do
    let ms ← ask 1
    let vals ← askMany (min argc 9 - 2) 2
    edit fun w => { w with playback := { w.playback with
      seqBuf := [Playback.reportOf vals, .rest]
      seqIdx := 0
      seqDelayMs := Playback.holdMs ms
      registered := true
      timer := some 0 } }
    pure 0

def atCmdKeySeq (argc : ℕ) : Program n σ Int :=
  let nvals := argc - 2
  if nvals < 7 ∨ nvals % 7 ≠ 0 then
    refuse (bytes "usage: AT+KEY_SEQ=<delay_ms>,<mods>,<k1>..<k6>,...")
  else if Playback.seqMaxReports < nvals / 7 then
    refuse (bytes "ERROR: max " ++ dec Playback.seqMaxReports ++ bytes " reports per command")
  else do
    let delay ← ask 1
    let vals ← askMany (nvals / 7 * 7) 2
    edit fun w => { w with playback := { w.playback with
      seqBuf := Playback.seqReports (nvals / 7) vals
      seqIdx := 0
      seqDelayMs := (min (max (atoi delay) 1) 200).toNat
      registered := true
      timer := some 0 } }
    respond (dec (nvals / 7 : ℕ) ++ bytes " reports queued")
    pure 0

def atCmdKeyStr (argc : ℕ) : Program n σ Int :=
  if argc < 2 then
    refuse (bytes
      "usage: AT+KEY_STR=<text> (no ',' or '='; \\n=Enter \\t=Tab \\\\=backslash)")
  else do
    let text ← ask 1
    let q := Playback.keystrCopy Playback.keystrMax text
    edit fun w => { w with playback := { w.playback with
      keystrBuf := q.1
      keystrIdx := 0
      keystrActive := true
      registered := true
      timer := some 0 } }
    if q.2 ≠ [] then respond (bytes "truncated to " ++ dec Playback.keystrMax ++ bytes " chars")
    pure 0

def atCmdPace (argc : ℕ) : Program n σ Int := .get fun w =>
  match activeSlot n w.keyboard.kbTarget with
  | none => refuse (bytes "pace: no BLE slot active (AT+DEV=BLEn first)")
  | some s =>
    if argc < 2 then do
      respond (bleText s ++ bytes " pace=" ++ dec (w.keyboard.slotpace s).toNat ++ bytes "ms")
      pure 0
    else do
      let v ← ask 1
      let st ← act fun w => keyboardSetPace C w (UInt8.ofNat s) (toU16 (atoi v))
      if st < 0 then refuse (bytes "usage: AT+PACE=<ms 5-2000>")
      else
        respond (bleText s ++ bytes " pace=" ++ dec (atoi v) ++ bytes "ms")
        pure 0

def nameLine (k : Ble.Keyboard n) (s : Fin n) : Text :=
  let name := labelText (k.slotname s)
  dec (s + 1) ++ bytes "," ++ bleText s ++ bytes "," ++ if name ≠ [] then name else bytes "-"

def atCmdName (argc : ℕ) : Program n σ Int :=
  if argc < 2 then do
    edit fun w => (List.finRange n).foldl (fun v s => v.respond (nameLine w.keyboard s)) w
    pure 0
  else if argc < 3 then refuse (bytes "usage: AT+NAME=<BLE1|BLE2|BLE3>,<label>")
  else do
    let slot ← ask 1
    let m := devTargetParse slot
    if m &&& kbTgtBleAll = 0 then refuse (bytes "usage: AT+NAME=<BLE1|BLE2|BLE3>,<label>")
    else match (bleSlots n m).head? with
      | none => pure (-1)
      | some s => do
        let label ← ask 2
        let st ← act fun w =>
          let q := kbBleSlotSetName C.ble w.keyboard (UInt8.ofNat s) label
          (q.2, { w with keyboard := q.1 })
        if st < 0 then refuse (bytes "ERROR: label chars A-Z a-z 0-9 - _ (max 11)")
        else
          edit fun w => w.respond (bleText s ++ bytes " name=" ++
            labelText (w.keyboard.slotname s))
          pure 0

def hexDigit (c : UInt8) : Option UInt8 :=
  if '0'.toUInt8 ≤ c ∧ c ≤ '9'.toUInt8 then some (c - '0'.toUInt8)
  else if 'a'.toUInt8 ≤ c ||| 0x20 ∧ c ||| 0x20 ≤ 'f'.toUInt8 then
    some ((c ||| 0x20) - 'a'.toUInt8 + 10)
  else none

/-- The bytes of an address in the order they are written, and what follows them is not read. -/
def macBytes : ℕ → Text → Option (List UInt8)
  | 0, _ => some []
  | k + 1, a :: b :: t => do
    let x ← hexDigit a
    let y ← hexDigit b
    if k = 0 then some [x <<< 4 ||| y]
    else match t with
      | c :: t' => if c = ':'.toUInt8 then do return (x <<< 4 ||| y) :: (← macBytes k t') else none
      | [] => none
  | _ + 1, _ => none

def parseMac (t : Text) : Option Addr :=
  (macBytes 6 t).map fun bs i => bs.getD (5 - i) 0

def macLine (k : Ble.Keyboard n) (s : Fin n) : Text :=
  dec (s + 1) ++ bytes "," ++ bleText s ++ bytes "," ++ macText (k.slotmac s)

def atCmdMac (argc : ℕ) : Program n σ Int :=
  if argc < 2 then do
    edit fun w => (List.finRange n).foldl (fun v s => v.respond (macLine w.keyboard s)) w
    pure 0
  else do
    let name ← ask 1
    let m := devTargetParse name
    if m &&& kbTgtBleAll = 0 then
      refuse (bytes "usage: AT+MAC[=<BLE1|BLE2|BLE3>[,<AA:BB:CC:DD:EE:FF>]]")
    else match (bleSlots n m).getLast? with
      | none => pure (-1)
      | some s =>
        if argc < 3 then do
          edit fun w => w.respond (bleText s ++ bytes "," ++ macText (w.keyboard.slotmac s))
          pure 0
        else do
          let text ← ask 2
          match parseMac text with
          | none => refuse (bytes "usage: AT+MAC=<BLEn>,<AA:BB:CC:DD:EE:FF>")
          | some addr => do
            let st ← act fun w =>
              let q := kbBleSlotSetMac C.ble w.keyboard (UInt8.ofNat s) addr
              (q.2, { w with keyboard := q.1 })
            if st < 0 then refuse (bytes "ERROR: need static-random MAC (MSB top bits = 11)")
            else
              respond (bleText s ++ bytes " mac=" ++ macText addr)
              pure 0

/-- `PB22` is entry 0, `PB23` entry 1. -/
def keyIndex (pin : UInt8) : Option (Fin 2) :=
  if pin = 38 then some 0 else if pin = 39 then some 1 else none

def keyCfgLine (i : Fin 2) (c : KeyCfg) : Text :=
  dec i ++ bytes "," ++ dec c.pin.toNat ++ bytes "," ++
    if c.kc ≠ 0 then bytes "active" else bytes "disabled"

/-- The flash is read once, before the arguments are looked at. -/
def keyCfgReady (w : Node n σ) : Node n σ :=
  if w.keyCfgLoaded then w else { keyCfgLoad C w with keyCfgLoaded := true }

/-- The count is checked for a second argument, the third is read with it. -/
def atCmdKeyCfg (argc : ℕ) : Program n σ Int := do
  edit (keyCfgReady C)
  if argc < 2 then
    edit fun w => (w.respond (keyCfgLine 0 (w.keyCfg 0))).respond (keyCfgLine 1 (w.keyCfg 1))
    pure 0
  else
    let a ← ask 1
    let pin := toU8 (atoi a)
    match keyIndex pin with
    | none => refuse (bytes "ERROR: pin 38(PB22) or 39(PB23)")
    | some idx =>
      if argc < 3 then
        edit fun w => (w.take (.keyShown pin) w.rest).respond (dec idx ++ bytes "," ++
          dec pin.toNat ++ bytes ",mods=" ++ dec (w.keyCfg idx).mods.toNat ++ bytes ",kc=" ++
          hex2 (w.keyCfg idx).kc)
        pure 0
      else
        let b ← ask 2
        let c ← ask 3
        let mods := toU8 (atoi b)
        let kc := toU8 (atoi c)
        edit fun w => (keyCfgSave C { w.take (.keySet pin mods kc) w.rest with
          keyCfg := Function.update w.keyCfg idx ⟨pin, mods, kc, 0⟩ }).respond
            (bytes "KEY_CFG=" ++ dec pin.toNat ++ bytes " mods=" ++ dec mods.toNat ++
              bytes " kc=" ++ hex2 kc)
        pure 0

end Keyboard

section Hardware

variable (C : Chip n σ)

def atCmdGpioW (argc : ℕ) : Program n σ Int :=
  if !C.build.gpio then refuse (bytes "ERROR: disabled (HWS_GPIO=FALSE)")
  else if argc < 3 then refuse (bytes "usage: AT+GPIO_W=<pin>,<level>[,<drive 5|20>]")
  else do
    let drive ← if 3 < argc then do
        let d ← ask 3
        pure (atoi d == 20)
      else pure false
    let pin ← ask 1
    let level ← ask 2
    let st ← act fun w => hwsGpioWrite C w (toU8 (atoi pin)) (toU8 (atoi level)) drive
    if st < 0 then refuse (bytes "ERROR: bad pin (0-15=PA, 16-39=PB)") else pure 0

def askU8 (argc i : ℕ) (dflt : UInt8) : Program n σ UInt8 :=
  if i < argc then do
    let a ← ask i
    pure (toU8 (atoi a))
  else pure dflt

def atCmdGpioR (argc : ℕ) : Program n σ Int :=
  if !C.build.gpio then refuse (bytes "ERROR: disabled (HWS_GPIO=FALSE)")
  else if argc < 2 then refuse (bytes "usage: AT+GPIO_R=<pin>[,<mode 0=PU 1=FLOAT 2=PD>]")
  else do
    let mode ← askU8 argc 2 0
    let pin ← ask 1
    let v ← act fun w => hwsGpioRead C w (toU8 (atoi pin)) mode
    if v < 0 then refuse (bytes "ERROR: bad pin (0-15=PA, 16-39=PB)")
    else
      respond (dec v)
      pure 0

def atCmdAdc (argc : ℕ) : Program n σ Int :=
  if !C.build.adc then refuse (bytes "ERROR: disabled (HWS_ADC=FALSE)")
  else if argc < 2 then refuse (bytes "usage: AT+ADC=<ch 0-13>[,<pga 0-3>]")
  else do
    let a ← ask 1
    let ch := toU8 (atoi a)
    let pga ← askU8 argc 2 2
    if 13 < ch ∨ 3 < pga then
      refuse (bytes "ERROR: ch 0-13, pga 0-3 (0=-12dB,1=-6dB,2=0dB,3=6dB)")
    else
      let r ← act fun w => hwsAdcReadMv C w ch pga
      if r.1 = 0xFFFF then refuse (bytes "ERROR: bad channel")
      else
        respond (bytes "+ADC:" ++ dec r.2.toNat ++ bytes "," ++ dec r.1.toNat ++ bytes " mV")
        pure 0

def atCmdTemp : Program n σ Int := do
  edit fun w =>
    let raw := C.temp w.rest &&& 0x0FFF
    w.respond (bytes "+TEMP:" ++ dec raw.toNat ++ bytes "," ++ dec (C.celsius raw) ++ bytes " C")
  pure 0

def ledMode (m : Text) : Option UInt8 :=
  if sameName m (bytes "ON") then some ledModeOn
  else if sameName m (bytes "OFF") then some ledModeOff
  else if sameName m (bytes "TOGGLE") then some ledModeToggle
  else if sameName m (bytes "BLINK") then some ledModeBlink
  else if sameName m (bytes "FLASH") then some ledModeFlash
  else none

def atCmdLed (argc : ℕ) : Program n σ Int :=
  if argc < 2 then refuse (bytes "usage: AT+LED=ON|OFF|BLINK|FLASH|TOGGLE[,ms[,duty%]]")
  else do
    let m ← ask 1
    match ledMode m with
    | none => refuse (bytes "ERROR: ON|OFF|BLINK|FLASH|TOGGLE")
    | some mode =>
      if mode = ledModeBlink ∨ mode = ledModeFlash then
        let period ← if 3 ≤ argc then do
            let p ← ask 2
            pure (toU16 (atoi p))
          else pure 500
        let duty ← askU8 argc 3 50
        edit fun w => (hwsLedBlink C w (if mode = ledModeFlash then 0 else 1) duty period).respond
          (bytes "LED=" ++ m ++ bytes " period=" ++ dec period.toNat ++ bytes "ms duty=" ++
            dec duty.toNat ++ bytes "%")
        pure 0
      else
        edit fun w => (hwsLedSet C w mode).respond (bytes "LED=" ++ m)
        pure 0

/-- The bus is set up by the first command that uses it. -/
def i2cLazyInit (w : Node n σ) : Node n σ :=
  if w.i2cInited then w else { w with i2cInited := true, rest := C.i2cInit w.rest }

def i2cProbe (w : Node n σ) (a : ℕ) : Node n σ :=
  let r := C.i2cProbe (UInt8.ofNat a) w.rest
  let w := { w with rest := r.2 }
  if r.1 then w.respond (bytes "+I2C: 0x" ++ hex2 (UInt8.ofNat a)) else w

def atCmdI2cScan : Program n σ Int :=
  if !C.build.i2c then refuse (bytes "not implemented")
  else do
    edit fun w =>
      let v := (List.range' 0x03 (0x78 - 0x03)).foldl (i2cProbe C) (i2cLazyInit C w)
      if v.replies.length = w.replies.length then v.respond (bytes "no devices") else v
    pure 0

def atCmdI2cR (argc : ℕ) : Program n σ Int :=
  if !C.build.i2c then refuse (bytes "ERROR: disabled (HWS_I2C=FALSE)")
  else if argc < 4 then refuse (bytes "usage: AT+I2C_R=<addr>,<reg>,<len> (hex)")
  else do
    let addr ← ask 1
    let reg ← ask 2
    let len ← ask 3
    if atoi len < 1 ∨ 32 < atoi len then refuse (bytes "ERROR: len 1-32")
    else
      let buf ← act fun w =>
        let v := i2cLazyInit C w
        let r := C.i2cRead (strtoul addr).toUInt8 (strtoul reg).toUInt8 (atoi len).toNat v.rest
        (r.1, { v with rest := r.2 })
      match buf with
      | none => refuse (bytes "ERROR: i2c read failed")
      | some buf =>
        respond ((buf.map hex2).intersperse (bytes " ")).flatten
        pure 0

def atCmdI2cW (argc : ℕ) : Program n σ Int :=
  if !C.build.i2c then refuse (bytes "ERROR: disabled (HWS_I2C=FALSE)")
  else if argc < 4 then refuse (bytes "usage: AT+I2C_W=<addr>,<reg>,<d0>[,<d1>,...] (hex)")
  else do
    let addr ← ask 1
    let reg ← ask 2
    let data ← askMany (min (argc - 3) 16) 3
    let ok ← act fun w =>
      let v := i2cLazyInit C w
      let r := C.i2cWrite (strtoul addr).toUInt8 (strtoul reg).toUInt8
        (data.map fun d => (strtoul d).toUInt8) v.rest
      (r.1, { v with rest := r.2 })
    if ok then pure 0 else refuse (bytes "ERROR: i2c write failed")

def atCmdSleep (argc : ℕ) : Program n σ Int :=
  if C.build.usb then
    refuse (bytes "ERROR: sleep excluded with USB — use HWS_SLEEP build over UART")
  else if argc < 2 then refuse (bytes "usage: AT+SLEEP=<mode 0-2>[,<sec>]")
  else do
    let m ← ask 1
    let mode := atoi m
    let sec ← if 2 < argc then do
        let s ← ask 2
        pure (atoi s)
      else pure 5
    if mode < 0 ∨ 2 < mode ∨ sec < 1 ∨ 3600 < sec then
      refuse (bytes "usage: AT+SLEEP=<mode 0-2>[,<sec 1-3600>]")
    else
      edit fun w =>
        if roleCurrent C w.rest = .dongle then
          { w with dongle := (Central.bleDongleDisconnect (C.gap w.rest) w.dongle).1 }
        else { w with keyboard := (kbBleDisconnect w.keyboard).1 }
      respond (bytes "sleeping mode=" ++ dec mode ++ bytes " wake=" ++ dec sec ++ bytes "s")
      edit fun w => { w with rest := C.sleep mode.toNat sec.toNat w.rest }
      edit fun w =>
        if roleCurrent C w.rest = .kbd then
          { w with keyboard := { w.keyboard with
              air := { w.keyboard.air with advertEnabled := true } } }
        else w
      respond (bytes "awake")
      pure 0

end Hardware

end AtNode.AtCmds
