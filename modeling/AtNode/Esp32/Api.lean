import AtNode.Esp32.ConfigReplies
import AtNode.Esp32.KbEngine

/-!
# The status texts of the ESP32 firmware

The abilities, the catalog of the services, the manifest of the device and the state of the tunnel
are assembled as JSON in strings of a fixed capacity, from the features that are compiled in, the
registry and the state of the tasks. A text is the JSON of what it describes where all of it fits.
The abilities always fit; the state of the tunnel does in the states of a run; the catalog and the
manifest may not.
-/

namespace AtNode.Api

open Config Heapless
open Json (Value render renderMembers quoted)
open TunnelSwitch (isOn masterOn tunnelEnabled configured)

structure Features extends Kb.Features where
  ledColor : Bool
  hws : Bool
  rathole : Bool
  mqtt : Bool
  http : Bool
  ssdp : Bool

def boolText (b : Bool) : Text := if b then "true".toList else "false".toList

def digits (n : ℕ) : Text := Nat.toDigits 10 n

section Ability

abbrev abilityCap : ℕ := 128

def Features.ledCap (f : Features) : Text := if f.ledColor then "color".toList else "none".toList

def Features.kbdCap (f : Features) : Text := if f.kbdUsb then "usb".toList else "none".toList

def abilityFormat : List Text :=
  ["\x7b\"ble\":".toList, ",\"kbd\":\"".toList, "\",\"mqtt\":".toList, ",\"rathole\":".toList,
    ",\"i2c\":".toList, ",\"http\":".toList, ",\"ssdp\":".toList, ",\"led\":\"".toList,
    "\"\x7d".toList]

def abilityArgs (f : Features) : List Text :=
  [boolText f.kbdBle, f.kbdCap, boolText f.mqtt, boolText f.rathole, boolText f.hws, boolText f.http,
    boolText f.ssdp, f.ledCap]

def abilityJson (f : Features) : Text :=
  (write abilityCap [] (formatArgs abilityFormat (abilityArgs f))).1

def abilityValue (f : Features) : Value :=
  .obj [("ble".toList, .bool f.kbdBle), ("kbd".toList, .str f.kbdCap), ("mqtt".toList, .bool f.mqtt),
    ("rathole".toList, .bool f.rathole), ("i2c".toList, .bool f.hws), ("http".toList, .bool f.http),
    ("ssdp".toList, .bool f.ssdp), ("led".toList, .str f.ledCap)]

end Ability

section Catalog

structure ApiEntry where
  method : String
  params : List (String × String)
  desc : String

def pGw : List (String × String) :=
  [("pin", "GPIO number (safe set, see docs)"), ("level", "0=LOW 1=HIGH")]

def pGr : List (String × String) := [("pin", "GPIO number (input pullup)")]

def pAdc : List (String × String) := [("ch", "ADC1 channel 0-9 (GPIO1-10)")]

def pI2cR : List (String × String) :=
  [("addr", "I2C device address (hex ok)"), ("reg", "register address"),
    ("len", "bytes to read, default 1")]

def pI2cW : List (String × String) :=
  [("addr", "I2C device address (hex ok)"), ("reg", "register address"),
    ("data", "hex bytes to write (e.g. FF01)")]

def pCfgSet : List (String × String) := [("key", "config key (see config/list)"), ("val", "value")]

def pCfgGet : List (String × String) := [("key", "config key")]

def pLed : List (String × String) := [("color", "#RRGGBB | r,g,b | off | auto (empty = status)")]

def pTunCfg : List (String × String) :=
  [("id", "tunnel id (always 1)"), ("server", "rathole server host:port"),
    ("token", "service token"), ("service", "service name (must match server)"),
    ("local", "LAN host:port to forward to (NOT the device itself)"),
    ("retry", "reconnect backoff base s (1-60)"), ("auto", "1|0 auto-connect at boot"),
    ("enable", "1|0 per-tunnel switch")]

def pTunId : List (String × String) := [("id", "tunnel id (always 1)")]

def pTunEn : List (String × String) := [("enable", "1|0 rathole master switch (NVS)")]

def pKbTap : List (String × String) :=
  [("k", "HID keycode (hex ok)"), ("mods", "modifier bitmask, default 0"),
    ("ms", "hold time ms, default 50")]

def pKbText : List (String × String) :=
  [("s", "ASCII text"), ("ms", "press time ms, default 40"),
    ("gap", "gap between chars ms, default 40")]

def pKbKey : List (String × String) :=
  [("mods", "modifier bitmask"), ("k0..k5", "keycodes (hold; all-zero = release)")]

def pBlePair : List (String × String) := [("enable", "1|0 open/close the 60s pairing window")]

def pBleDel : List (String × String) := [("idx", "bond index (always 0, single bond)")]

def catalogCore : List ApiEntry :=
  [⟨"gpio/write", pGw, "set GPIO output level"⟩,
    ⟨"gpio/read", pGr, "read GPIO input (pullup)"⟩,
    ⟨"adc/read", pAdc, "read ADC millivolts"⟩,
    ⟨"i2c/scan", [], "scan I2C bus for devices"⟩,
    ⟨"i2c/read", pI2cR, "read I2C register"⟩,
    ⟨"i2c/write", pI2cW, "write I2C register"⟩,
    ⟨"led", pLed, "WS2812 color (AT+LED semantics)"⟩,
    ⟨"tunnel/status", [], "rathole tunnel states"⟩,
    ⟨"tunnel/config", pTunCfg, "configure rathole tunnel (NVS)"⟩,
    ⟨"tunnel/connect", pTunId, "start tunnel control channel"⟩,
    ⟨"tunnel/disconnect", pTunId, "stop tunnel"⟩,
    ⟨"tunnel/clear", pTunId, "wipe tunnel config (NVS)"⟩,
    ⟨"tunnel/enable", pTunEn, "rathole master switch (NVS)"⟩,
    ⟨"keyboard/tap", pKbTap, "atomic key press+release"⟩,
    ⟨"keyboard/text", pKbText, "type ASCII text"⟩,
    ⟨"keyboard/key", pKbKey, "raw 8-byte boot report (hold)"⟩]

def catalogBle : List ApiEntry :=
  [⟨"ble/status", [], "BLE name, addr, connection, bonds"⟩,
    ⟨"ble/pair", pBlePair, "open/close the 60s pairing window"⟩,
    ⟨"ble/bonds/delete", pBleDel, "delete the bonded host"⟩,
    ⟨"ble/bonds/clear", [], "delete all bonded hosts"⟩]

def catalogConfig : List ApiEntry :=
  [⟨"ability", [], "compile-time feature flags"⟩,
    ⟨"config/set", pCfgSet, "unified config: set key=val (NVS)"⟩,
    ⟨"config/get", pCfgGet, "unified config: read key"⟩,
    ⟨"config/list", [], "unified config: list all keys"⟩,
    ⟨"sys/info", [], "device manifest + this API catalog"⟩]

/-- `CATALOG`; the second part is compiled in with the BLE keyboard. -/
def catalog (f : Features) : List ApiEntry :=
  catalogCore ++ (if f.kbdBle then catalogBle else []) ++ catalogConfig

abbrev servicesCap : ℕ := 2560

def isHwsMethod (method : String) : Bool :=
  method ∈ ["gpio/write", "gpio/read", "adc/read", "i2c/scan", "i2c/read", "i2c/write"]

def hidden (f : Features) (e : ApiEntry) : Bool :=
  e.method = "led" && !f.ledColor || "tunnel/".toList.isPrefixOf e.method.toList && !f.rathole ||
    "keyboard/".toList.isPrefixOf e.method.toList && !f.enabled || isHwsMethod e.method && !f.hws

def paramStep (s : Text) (p : (String × String) × ℕ) : Text :=
  let s := if 0 < p.2 then push servicesCap s ',' else s
  (write servicesCap s (formatArgs ["\"".toList, "\":\"".toList, "\"".toList]
    [p.1.1.toList, p.1.2.toList])).1

def entryStep (f : Features) (st : Text × Bool) (e : ApiEntry) : Text × Bool :=
  if hidden f e then st
  else
    let s := if st.2 then st.1 else push servicesCap st.1 ','
    let s := (write servicesCap s (formatArgs
      ["\"".toList, "\":\x7b\"d\":\"".toList, "\",\"p\":\x7b".toList]
      [e.method.toList, e.desc.toList])).1
    let s := e.params.zipIdx.foldl paramStep s
    (put servicesCap s "\x7d\x7d".toList, false)

def servicesJson (f : Features) : Text :=
  push servicesCap ((catalog f).foldl (entryStep f) (push servicesCap [] '\x7b', true)).1 '\x7d'

def paramMember (p : String × String) : Text × Value := (p.1.toList, .str p.2.toList)

def entryMember (e : ApiEntry) : Text × Value :=
  (e.method.toList, .obj [("d".toList, .str e.desc.toList), ("p".toList, .obj (e.params.map paramMember))])

def servicesValue (f : Features) : Value :=
  .obj (((catalog f).filter fun e => !hidden f e).map entryMember)

end Catalog

section SysInfo

abbrev sysInfoCap : ℕ := 2560

def ipText : Option (Vector UInt8 4) → Text
  | none => []
  | some a => (write 16 [] (formatArgs [[], ".".toList, ".".toList, ".".toList]
      [digits a[0].toNat, digits a[1].toNat, digits a[2].toNat, digits a[3].toNat])).1

def sysInfoFormat : List Text :=
  ["\x7b\"device\":\"".toList, "\",\"hostname\":\"".toList, "\",\"ip\":\"".toList,
    "\",\"ble_addr\":\"\",\"ble_connected\":false,\"typing\":false,\"mqtt\":".toList,
    ",\"services\":".toList, "\x7d".toList]

/-- `sys_info_json` with the address of the node and the second flag of `mqttc::status`. -/
def sysInfoJson (f : Features) (cfg : Cfg) (ip : Option (Vector UInt8 4)) (running : Bool) : Text :=
  (write sysInfoCap [] (formatArgs sysInfoFormat
    [getStr cfg .deviceName, getStr cfg .deviceHostname, ipText ip, boolText running,
      servicesJson f])).1

def sysInfoValue (f : Features) (cfg : Cfg) (ip : Option (Vector UInt8 4)) (running : Bool) : Value :=
  .obj [("device".toList, .str (getStr cfg .deviceName)),
    ("hostname".toList, .str (getStr cfg .deviceHostname)), ("ip".toList, .str (ipText ip)),
    ("ble_addr".toList, .str []), ("ble_connected".toList, .bool false), ("typing".toList, .bool false),
    ("mqtt".toList, .bool running), ("services".toList, servicesValue f)]

end SysInfo

section Tunnel

structure Tunnel where
  running : Bool
  connected : Bool
  pooled : Bool
  dataChannels : UInt8
  freeHeap : UInt32
  lastError : Text
  lastError_le : byteLen lastError ≤ 64

abbrev statusCap : ℕ := 768

def statusFormat : List Text :=
  ["\x7b\"id\":1,\"configured\":".toList, ",\"server\":\"".toList, "\",\"service\":\"".toList,
    "\",\"local\":\"".toList, "\",\"auto\":".toList, ",\"retry\":".toList, ",\"master\":".toList,
    ",\"enabled\":".toList, ",\"running\":".toList, ",\"connected\":".toList,
    ",\"pool\":".toList, ",\"data_channels\":".toList, ",\"free_heap\":".toList,
    ",\"last_error\":\"".toList, "\"\x7d".toList]

def statusArgs (cfg : Cfg) (t : Tunnel) : List Text :=
  [boolText (configured cfg), getStr cfg .tunnelServer, getStr cfg .tunnelService,
    getStr cfg .tunnelLocal, boolText (isOn cfg .tunnelAuto), getStr cfg .tunnelRetry,
    boolText (masterOn cfg), boolText (tunnelEnabled cfg), boolText t.running, boolText t.connected,
    digits (if t.pooled then 1 else 0), digits t.dataChannels.toNat, digits t.freeHeap.toNat,
    t.lastError]

def statusJson (cfg : Cfg) (t : Tunnel) : Text :=
  (write statusCap [] (formatArgs statusFormat (statusArgs cfg t))).1

def numberValue (s : Text) : Value := if h : Json.isNumber s then .num ⟨s, h⟩ else .str s

def statusValue (cfg : Cfg) (t : Tunnel) : Value :=
  .obj [("id".toList, .num (.ofNat 1)), ("configured".toList, .bool (configured cfg)),
    ("server".toList, .str (getStr cfg .tunnelServer)),
    ("service".toList, .str (getStr cfg .tunnelService)),
    ("local".toList, .str (getStr cfg .tunnelLocal)), ("auto".toList, .bool (isOn cfg .tunnelAuto)),
    ("retry".toList, numberValue (getStr cfg .tunnelRetry)), ("master".toList, .bool (masterOn cfg)),
    ("enabled".toList, .bool (tunnelEnabled cfg)), ("running".toList, .bool t.running),
    ("connected".toList, .bool t.connected), ("pool".toList, .num (.ofNat (if t.pooled then 1 else 0))),
    ("data_channels".toList, .num (.ofNat t.dataChannels.toNat)),
    ("free_heap".toList, .num (.ofNat t.freeHeap.toNat)), ("last_error".toList, .str t.lastError)]

end Tunnel

section Texts

variable {f : Features} {cfg : Cfg} {b : Bool} {n d : ℕ}

theorem render_bool (b : Bool) : render (.bool b) = boolText b := by
  cases b <;> rfl

theorem byteLen_boolText (b : Bool) : byteLen (boolText b) ≤ 5 := by
  cases b <;> decide

theorem byteLen_digits (hd : n < 10 ^ d) (hpos : 0 < d) : byteLen (digits n) ≤ d := by
  rw [digits, byteLen_toDigits]
  exact (Nat.length_toDigits_le_iff (by decide) hpos).mpr hd

theorem statusFormat_eq : statusFormat =
    ['\x7b' :: (quoted "id".toList ++ ':' :: (digits 1 ++ ',' :: (quoted "configured".toList ++ [':']))),
      ',' :: (quoted "server".toList ++ [':', '"']), '"' :: ',' :: (quoted "service".toList ++ [':', '"']),
      '"' :: ',' :: (quoted "local".toList ++ [':', '"']), '"' :: ',' :: (quoted "auto".toList ++ [':']),
      ',' :: (quoted "retry".toList ++ [':']), ',' :: (quoted "master".toList ++ [':']),
      ',' :: (quoted "enabled".toList ++ [':']), ',' :: (quoted "running".toList ++ [':']),
      ',' :: (quoted "connected".toList ++ [':']), ',' :: (quoted "pool".toList ++ [':']),
      ',' :: (quoted "data_channels".toList ++ [':']), ',' :: (quoted "free_heap".toList ++ [':']),
      ',' :: (quoted "last_error".toList ++ [':', '"']), ['"', '\x7d']] := by
  decide +kernel

theorem abilityJson_eq (f : Features) : abilityJson f = render (abilityValue f) := by
  have hkbd : byteLen f.kbdCap ≤ 4 := by
    unfold Features.kbdCap
    split_ifs <;> decide
  have hled : byteLen f.ledCap ≤ 5 := by
    unfold Features.ledCap
    split_ifs <;> decide
  have hargs : byteLen (abilityArgs f).flatten ≤ 39 :=
    byteLen_flatten_le (.cons (byteLen_boolText _) (.cons hkbd (.cons (byteLen_boolText _)
      (.cons (byteLen_boolText _) (.cons (byteLen_boolText _) (.cons (byteLen_boolText _)
        (.cons (byteLen_boolText _) (.cons hled .nil))))))))
  have hformat : byteLen abilityFormat.flatten = 68 := by decide
  rw [abilityJson, write_fits]
  · rw [abilityArgs]
    simp [formatArgs, abilityFormat, abilityValue, render, renderMembers, quoted, render_bool]
  · rw [byteLen_formatArgs, hformat, byteLen_nil]
    exact Nat.le_trans (Nat.add_le_add_left (Nat.add_le_add_left hargs _) _) (by decide)

open ConfigReplies (Bounded valueMax) in
/-- With bounded values nothing of the status is left out. -/
theorem statusJson_fits (h : Bounded cfg) (t : Tunnel) :
    statusJson cfg t = (formatArgs statusFormat (statusArgs cfg t)).flatten ∧
      byteLen (statusJson cfg t) ≤ 569 := by
  have hserver : byteLen (getStr cfg .tunnelServer) ≤ 95 := h .tunnelServer
  have hservice : byteLen (getStr cfg .tunnelService) ≤ 95 := h .tunnelService
  have hlocal : byteLen (getStr cfg .tunnelLocal) ≤ 95 := h .tunnelLocal
  have hseconds : byteLen (getStr cfg .tunnelRetry) ≤ 2 := h .tunnelRetry
  have hpool : byteLen (digits (if t.pooled then 1 else 0)) ≤ 1 := by
    apply byteLen_digits _ Nat.one_pos
    split_ifs <;> decide
  have hchannels : byteLen (digits t.dataChannels.toNat) ≤ 3 :=
    byteLen_digits (Nat.lt_trans t.dataChannels.toNat_lt (by decide)) (by decide)
  have hheap : byteLen (digits t.freeHeap.toNat) ≤ 10 :=
    byteLen_digits (Nat.lt_trans t.freeHeap.toNat_lt (by decide)) (by decide)
  have hformat : byteLen statusFormat.flatten = 174 := by decide +kernel
  have hargs : byteLen (statusArgs cfg t).flatten ≤ 395 :=
    byteLen_flatten_le (.cons (byteLen_boolText _) (.cons hserver (.cons hservice (.cons hlocal
      (.cons (byteLen_boolText _) (.cons hseconds (.cons (byteLen_boolText _)
        (.cons (byteLen_boolText _) (.cons (byteLen_boolText _) (.cons (byteLen_boolText _)
          (.cons hpool (.cons hchannels (.cons hheap (.cons t.lastError_le .nil))))))))))))))
  have hlen : byteLen (formatArgs statusFormat (statusArgs cfg t)).flatten ≤ 569 := by
    rw [byteLen_formatArgs, hformat]
    exact Nat.add_le_add_left hargs 174
  rw [statusJson, write_fits]
  · exact ⟨List.nil_append _, by rwa [List.nil_append]⟩
  · rw [byteLen_nil, Nat.zero_add]
    exact Nat.le_trans hlen (by decide)

open ConfigReplies (Bounded) in
theorem statusJson_eq (h : Bounded cfg) (hretry : Json.isNumber (getStr cfg .tunnelRetry))
    (t : Tunnel) :
    statusJson cfg t = render (statusValue cfg t) ∧ byteLen (statusJson cfg t) ≤ 569 := by
  obtain ⟨r, hr, hnumber⟩ : ∃ r : Json.Number, r.text = getStr cfg .tunnelRetry ∧
      numberValue (getStr cfg .tunnelRetry) = .num r := ⟨⟨_, hretry⟩, rfl, dif_pos hretry⟩
  obtain ⟨htext, hlen⟩ := statusJson_fits h t
  refine ⟨?_, hlen⟩
  rw [htext, statusValue, hnumber, statusFormat_eq, statusArgs]
  simp only [formatArgs, List.flatten_cons, List.flatten_nil, List.append_assoc, List.cons_append,
    List.append_nil]
  simp only [render, renderMembers, render_bool, quoted, List.append_assoc, List.cons_append,
    List.nil_append, Json.Number.text_ofNat, digits, hr]

end Texts

section Services

open Json (joined member)

variable {α : Type} {cap : ℕ} {f : Features} {cfg : Cfg} {s : Text} {es : List ApiEntry}

def separator (i : ℕ) : Text := if 0 < i then [','] else []

theorem flatMap_separator (item : α → Text) (as : List α) (i : ℕ) :
    (as.zipIdx (i + 1)).flatMap (fun a => separator a.2 ++ item a.1) =
      (as.map item).flatMap (',' :: ·) := by
  induction as generalizing i with
  | nil => rfl
  | cons a as ih =>
    rw [List.zipIdx_cons, List.flatMap_cons, ih, List.map_cons, List.flatMap_cons, separator,
      if_pos (Nat.succ_pos i)]
    rfl

/-- Items with commas between them, each written in full where it fits. -/
theorem foldl_joined {g : Text → α × ℕ → Text} {item : α → Text} {as : List α}
    (hg : ∀ out a i, byteLen out + byteLen (separator i ++ item a) ≤ cap →
      g out (a, i) = out ++ (separator i ++ item a))
    (h : byteLen s + byteLen (joined (as.map item)) ≤ cap) :
    as.zipIdx.foldl g s = s ++ joined (as.map item) := by
  have hjoined : as.zipIdx.flatMap (fun a => separator a.2 ++ item a.1) = joined (as.map item) := by
    cases as with
    | nil => rfl
    | cons a as =>
      rw [List.zipIdx_cons, List.flatMap_cons, flatMap_separator, List.map_cons, joined]
      rfl
  rw [← hjoined] at h ⊢
  exact foldl_fits (fun out a _ => hg out a.1 a.2) h

theorem push_separator {i : ℕ} (h : byteLen s + byteLen (separator i) ≤ cap) :
    (if 0 < i then push cap s ',' else s) = s ++ separator i := by
  unfold separator at h ⊢
  split_ifs with hi
  · rw [if_pos hi] at h
    exact put_fits h
  · exact (List.append_nil s).symm

theorem paramStep_eq (out : Text) (p : String × String) (i : ℕ)
    (h : byteLen out + byteLen (separator i ++ member (paramMember p)) ≤ servicesCap) :
    paramStep out (p, i) = out ++ (separator i ++ member (paramMember p)) := by
  have hmember : member (paramMember p) =
      (formatArgs ["\"".toList, "\":\"".toList, "\"".toList] [p.1.toList, p.2.toList]).flatten := by
    simp [member, paramMember, formatArgs, quoted, render]
  rw [hmember] at h ⊢
  rw [byteLen_append] at h
  unfold paramStep
  dsimp only
  rw [push_separator (by omega), write_fits (by rw [byteLen_append]; omega), List.append_assoc]

theorem entryStep_eq {first : Bool} {e : ApiEntry} (he : hidden f e = false)
    (h : byteLen s + byteLen ((if first then [] else [',']) ++ member (entryMember e)) ≤ servicesCap) :
    entryStep f (s, first) e = (s ++ ((if first then [] else [',']) ++ member (entryMember e)), false) := by
  have hmember : member (entryMember e) = (formatArgs
      ["\"".toList, "\":\x7b\"d\":\"".toList, "\",\"p\":\x7b".toList]
      [e.method.toList, e.desc.toList]).flatten ++
        (joined ((e.params.map paramMember).map member) ++ "\x7d\x7d".toList) := by
    rw [member, entryMember, render, renderMembers, Json.render_obj]
    simp [formatArgs, quoted, render, renderMembers]
  have hsep : (if first then s else push servicesCap s ',') = s ++ if first then [] else [','] := by
    cases first with
    | true => exact (List.append_nil s).symm
    | false =>
      rw [if_neg Bool.false_ne_true, byteLen_append] at h
      exact put_fits (by omega)
  have hparams : (e.params.map paramMember).map member =
      e.params.map fun p => member (paramMember p) := List.map_map
  rw [hmember, hparams] at h ⊢
  simp only [byteLen_append] at h
  unfold entryStep
  rw [he, if_neg Bool.false_ne_true]
  dsimp only
  rw [hsep, write_fits (by rw [byteLen_append]; omega),
    foldl_joined (paramStep_eq · · ·) (by simp only [byteLen_append]; omega),
    put_fits (by simp only [byteLen_append]; omega)]
  simp only [List.append_assoc]

theorem entryStep_hidden {st : Text × Bool} {e : ApiEntry} (he : hidden f e = true) :
    entryStep f st e = st := if_pos he

/-- The members of the entries that are shown. -/
def entryMembers (f : Features) (es : List ApiEntry) : List Text :=
  ((es.filter fun e => !hidden f e).map entryMember).map member

theorem entryMembers_hidden {e : ApiEntry} (he : hidden f e = true) :
    entryMembers f (e :: es) = entryMembers f es := by
  rw [entryMembers, List.filter_cons_of_neg (by simp [he]), entryMembers]

theorem entryMembers_shown {e : ApiEntry} (he : hidden f e = false) :
    entryMembers f (e :: es) = member (entryMember e) :: entryMembers f es := by
  rw [entryMembers, List.filter_cons_of_pos (by simp [he]), entryMembers]
  rfl

theorem foldl_entryStep (es : List ApiEntry) (s : Text)
    (h : byteLen s + byteLen ((entryMembers f es).flatMap (',' :: ·)) ≤ servicesCap) :
    (es.foldl (entryStep f) (s, false)).1 = s ++ (entryMembers f es).flatMap (',' :: ·) := by
  induction es generalizing s with
  | nil => exact (List.append_nil s).symm
  | cons e es ih =>
    rw [List.foldl_cons]
    cases he : hidden f e with
    | true =>
      rw [entryMembers_hidden he] at h ⊢
      rw [entryStep_hidden he, ih s h]
    | false =>
      rw [entryMembers_shown he, List.flatMap_cons, byteLen_append] at h
      rw [entryStep_eq he (by simpa using Nat.le_trans (by omega) h), ih _ (by
        rw [byteLen_append]
        exact Nat.le_trans (Nat.le_of_eq (Nat.add_assoc _ _ _)) h), entryMembers_shown he, List.flatMap_cons,
        List.append_assoc]
      rfl

theorem foldl_entryStep_first (es : List ApiEntry) (s : Text)
    (h : byteLen s + byteLen (joined (entryMembers f es)) ≤ servicesCap) :
    (es.foldl (entryStep f) (s, true)).1 = s ++ joined (entryMembers f es) := by
  induction es with
  | nil => exact (List.append_nil s).symm
  | cons e es ih =>
    rw [List.foldl_cons]
    cases he : hidden f e with
    | true =>
      rw [entryMembers_hidden he] at h ⊢
      rw [entryStep_hidden he, ih h]
    | false =>
      rw [entryMembers_shown he, joined, byteLen_append] at h
      rw [entryStep_eq he (by simpa using Nat.le_trans (by omega) h), foldl_entryStep _ _ (by
        rw [byteLen_append]
        exact Nat.le_trans (Nat.le_of_eq (Nat.add_assoc _ _ _)) h), entryMembers_shown he, joined,
        List.append_assoc]
      rfl

/-- The catalog is the JSON of its entries where all of it fits. -/
theorem servicesJson_eq (h : byteLen (render (servicesValue f)) ≤ servicesCap) :
    servicesJson f = render (servicesValue f) := by
  have hrender : render (servicesValue f) =
      '\x7b' :: (joined (entryMembers f (catalog f)) ++ ['\x7d']) := Json.render_obj _
  have hopen : push servicesCap [] '\x7b' = ['\x7b'] := rfl
  have hbrace : byteLen ['\x7b'] = 1 := rfl
  have hbrace' : byteLen ['\x7d'] = 1 := rfl
  rw [hrender] at h ⊢
  rw [← List.singleton_append, byteLen_append, byteLen_append, hbrace, hbrace'] at h
  rw [servicesJson, hopen, foldl_entryStep_first _ _ (by omega), push, put_fits]
  · rfl
  · rw [byteLen_append, hbrace, hbrace']
    omega

theorem sysInfoFormat_eq : sysInfoFormat =
    ['\x7b' :: (quoted "device".toList ++ [':', '"']),
      '"' :: ',' :: (quoted "hostname".toList ++ [':', '"']), '"' :: ',' :: (quoted "ip".toList ++ [':', '"']),
      '"' :: ',' :: (quoted "ble_addr".toList ++ ':' :: '"' :: '"' :: ',' ::
        (quoted "ble_connected".toList ++ ':' :: ("false".toList ++ ',' ::
          (quoted "typing".toList ++ ':' :: ("false".toList ++ ',' :: (quoted "mqtt".toList ++ [':'])))))),
      ',' :: (quoted "services".toList ++ [':']), ['\x7d']] := by
  decide +kernel

/-- The manifest is the JSON of what it describes where all of it fits. -/
theorem sysInfoJson_eq {ip : Option (Vector UInt8 4)} {running : Bool}
    (h : byteLen (render (sysInfoValue f cfg ip running)) ≤ sysInfoCap) :
    sysInfoJson f cfg ip running = render (sysInfoValue f cfg ip running) := by
  have htext : render (sysInfoValue f cfg ip running) = (formatArgs sysInfoFormat
      [getStr cfg .deviceName, getStr cfg .deviceHostname, ipText ip, boolText running,
        render (servicesValue f)]).flatten := by
    rw [sysInfoValue, sysInfoFormat_eq]
    simp only [formatArgs, List.flatten_cons, List.flatten_nil, List.nil_append, List.append_assoc,
      List.cons_append, List.append_nil]
    simp only [render, renderMembers, render_bool, quoted, List.append_assoc, List.cons_append,
      List.nil_append]
  rw [htext] at h ⊢
  have hservices : byteLen (render (servicesValue f)) ≤ servicesCap := by
    rw [byteLen_formatArgs] at h
    simp only [List.flatten_cons, List.flatten_nil, byteLen_append] at h
    have hcap : sysInfoCap = servicesCap := rfl
    omega
  rw [sysInfoJson, servicesJson_eq hservices, write_fits (by simpa using h), List.nil_append]

end Services

end AtNode.Api
