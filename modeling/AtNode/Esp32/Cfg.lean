import Mathlib.Algebra.Group.Nat.Defs
import Mathlib.Data.List.Basic
import Mathlib.Logic.Function.Basic
import AtNode.Lib.Utf8

/-!
# The configuration registry of the ESP32 firmware

The registry has a fixed table of keys with flags. `set` checks and normalises a value, stores it in
flash and in the cache, and publishes the key; whether flash takes the value is an input. `get_str`
reads the cache, or the default of a key that was never set.

Values are lists of characters; the limits on their lengths count bytes.
-/

namespace AtNode.Config

abbrev Text := List Char

def byteLen (s : Text) : ℕ := s.foldl (fun n c => n + c.utf8Size) 0

abbrev valMax : ℕ := 96

inductive Error where
  | unknownKey
  | writeOnly
  | badValue
  | flash
  deriving DecidableEq

inductive Key where
  | deviceName
  | wifiSsid
  | wifiPass
  | mqttBroker
  | mqttPort
  | mqttUser
  | mqttPass
  | mqttAuto
  | mqttEnable
  | httpAuto
  | httpEnable
  | bleAuto
  | bleEnable
  | deviceHostname
  | ratholeEnable
  | tunnelServer
  | tunnelToken
  | tunnelService
  | tunnelLocal
  | tunnelAuto
  | tunnelRetry
  | tunnelEnable
  | bleBond
  deriving DecidableEq

def Key.name : Key → Text
  | .deviceName => "device.name".toList
  | .wifiSsid => "wifi.ssid".toList
  | .wifiPass => "wifi.pass".toList
  | .mqttBroker => "mqtt.broker".toList
  | .mqttPort => "mqtt.port".toList
  | .mqttUser => "mqtt.user".toList
  | .mqttPass => "mqtt.pass".toList
  | .mqttAuto => "mqtt.auto".toList
  | .mqttEnable => "mqtt.enable".toList
  | .httpAuto => "http.auto".toList
  | .httpEnable => "http.enable".toList
  | .bleAuto => "ble.auto".toList
  | .bleEnable => "ble.enable".toList
  | .deviceHostname => "device.hostname".toList
  | .ratholeEnable => "rathole.enable".toList
  | .tunnelServer => "tunnel.1.server".toList
  | .tunnelToken => "tunnel.1.token".toList
  | .tunnelService => "tunnel.1.service".toList
  | .tunnelLocal => "tunnel.1.local".toList
  | .tunnelAuto => "tunnel.1.auto".toList
  | .tunnelRetry => "tunnel.1.retry".toList
  | .tunnelEnable => "tunnel.1.enable".toList
  | .bleBond => "ble.bond".toList

/-- The registry in its order. -/
def tableDef : List Key :=
  [.deviceName, .wifiSsid, .wifiPass, .mqttBroker, .mqttPort, .mqttUser, .mqttPass, .mqttAuto,
    .mqttEnable, .httpAuto, .httpEnable, .bleAuto, .bleEnable, .deviceHostname, .ratholeEnable,
    .tunnelServer, .tunnelToken, .tunnelService, .tunnelLocal, .tunnelAuto, .tunnelRetry,
    .tunnelEnable, .bleBond]

/-- `F_WO`, `F_BOOL`, `F_INT` and `F_INT60`; no key has two of them. -/
inductive Flag where
  | none
  | writeOnly
  | bool
  | int
  | int60
  deriving DecidableEq

def Key.flags : Key → Flag
  | .wifiPass | .mqttPass | .tunnelToken | .bleBond => .writeOnly
  | .mqttPort => .int
  | .mqttAuto | .mqttEnable | .httpAuto | .httpEnable | .bleAuto | .bleEnable | .ratholeEnable
  | .tunnelAuto | .tunnelEnable => .bool
  | .tunnelRetry => .int60
  | .deviceName | .wifiSsid | .mqttBroker | .mqttUser | .deviceHostname | .tunnelServer
  | .tunnelService | .tunnelLocal => .none

section Numbers

/-- `str::parse` of an unsigned type: an optional plus sign, digits, and no overflow. -/
def parseUnsigned (max : ℕ) (s : Text) : Option ℕ :=
  let digits := match s with
    | '+' :: t => t
    | _ => s
  if digits = [] ∨ ¬ digits.all Char.isDigit then none
  else
    let v := digits.foldl (fun n c => 10 * n + (c.toNat - '0'.toNat)) 0
    if v ≤ max then some v else none

/-- `char::to_digit(16)`. -/
def toDigit16 (c : Char) : Option ℕ :=
  if '0' ≤ c ∧ c ≤ '9' then some (c.toNat - '0'.toNat)
  else if 'a' ≤ c ∧ c ≤ 'f' then some (c.toNat - 'a'.toNat + 10)
  else if 'A' ≤ c ∧ c ≤ 'F' then some (c.toNat - 'A'.toNat + 10)
  else none

theorem utf8Size_of_toDigit16 {c : Char} (h : (toDigit16 c).isSome) : c.utf8Size = 1 := by
  have hle : c.toNat ≤ 127 := by
    unfold toDigit16 at h
    split_ifs at h with h9 hf hF
    · exact Nat.le_trans (Char.le_def.mp h9.2) (by decide)
    · exact Nat.le_trans (Char.le_def.mp hf.2) (by decide)
    · exact Nat.le_trans (Char.le_def.mp hF.2) (by decide)
    · cases h
  rw [Char.utf8Size_eq_one_iff, UInt32.le_iff_toNat_le]
  exact hle

theorem parseUnsigned_le {max v : ℕ} {s : Text} (h : parseUnsigned max s = some v) : v ≤ max := by
  unfold parseUnsigned at h
  dsimp only at h
  generalize (match s with
    | '+' :: t => t
    | _ => s) = digits at h
  split_ifs at h with hdigits hle
  cases h
  exact hle

abbrev u8Max : ℕ := 255

abbrev u16Max : ℕ := 65535

abbrev u32Max : ℕ := 4294967295

end Numbers

section Registry

/-- An integer key takes the numbers of a range and keeps their plain decimal form. -/
def validateInt (hi : ℕ) (raw : Text) : Except Error Text :=
  match parseUnsigned u32Max raw with
  | some v => if 1 ≤ v ∧ v ≤ hi then .ok (Nat.toDigits 10 v) else .error .badValue
  | none => .error .badValue

def validate (key : Key) (raw : Text) : Except Error Text :=
  match key.flags with
  | .bool =>
    if raw = "1".toList ∨ raw = "true".toList then .ok "1".toList
    else if raw = "0".toList ∨ raw = "false".toList then .ok "0".toList
    else .error .badValue
  | .int => validateInt 65535 raw
  | .int60 => validateInt 60 raw
  | .none | .writeOnly => if valMax ≤ byteLen raw then .error .badValue else .ok raw

structure Cfg where
  /-- The value of a key that is set. -/
  table : Key → Option Text
  defName : Text
  defHostname : Text

def defaultFor (cfg : Cfg) : Key → Text
  | .deviceName => cfg.defName
  | .deviceHostname => cfg.defHostname
  | .mqttPort => "8883".toList
  | .ratholeEnable | .tunnelEnable | .tunnelRetry => "1".toList
  | _ => []

def getStr (cfg : Cfg) (key : Key) : Text := (cfg.table key).getD (defaultFor cfg key)

/-- The AT-facing read. -/
def get (cfg : Cfg) (key : Text) : Except Error Text :=
  match tableDef.find? (fun k => k.name = key) with
  | none => .error .unknownKey
  | some k => if k.flags = .writeOnly then .error .writeOnly else .ok (getStr cfg k)

def store (cfg : Cfg) (key : Key) (val : Text) : Cfg :=
  { cfg with table := Function.update cfg.table key (some val) }

/-- `set` up to the publication: the new cache and the key to be published. -/
def set (cfg : Cfg) (key val : Text) (flash : Bool) : Except Error (Cfg × Key) :=
  match tableDef.find? (fun k => k.name = key) with
  | none => .error .unknownKey
  | some k =>
    match validate k val with
    | .error e => .error e
    | .ok normalized => if flash then .ok (store cfg k normalized, k) else .error .flash

end Registry

section Lengths

@[simp] theorem byteLen_nil : byteLen [] = 0 := rfl

theorem byteLen_append (s t : Text) : byteLen (s ++ t) = byteLen s + byteLen t := by
  have h : ∀ n, t.foldl (fun n c => n + c.utf8Size) n = n + byteLen t := by
    induction t with
    | nil => exact fun n => rfl
    | cons c t ih =>
      intro n
      have hc : byteLen (c :: t) = t.foldl (fun n c => n + c.utf8Size) (0 + c.utf8Size) := rfl
      rw [List.foldl_cons, hc, ih, ih]
      omega
  rw [byteLen, List.foldl_append, h]
  rfl

theorem byteLen_cons (c : Char) (s : Text) : byteLen (c :: s) = c.utf8Size + byteLen s := by
  rw [← List.singleton_append, byteLen_append, byteLen, List.foldl_cons, List.foldl_nil,
    Nat.zero_add]

/-- The bytes a length counts are those of the UTF-8 form. -/
theorem length_encode (s : Text) : (Utf8.encode s).length = byteLen s := by
  induction s with
  | nil => rfl
  | cons c s ih =>
    rw [Utf8.encode_cons, List.length_append, String.length_utf8EncodeChar, ih, byteLen_cons]

theorem byteLen_of_utf8Size_one {s : Text} (h : ∀ c ∈ s, c.utf8Size = 1) :
    byteLen s = s.length := by
  induction s with
  | nil => rfl
  | cons c s ih =>
    rw [byteLen_cons, h c List.mem_cons_self, ih fun d hd => h d (List.mem_cons_of_mem _ hd),
      List.length_cons]
    omega

theorem byteLen_toDigits (n : ℕ) : byteLen (Nat.toDigits 10 n) = (Nat.toDigits 10 n).length := by
  apply byteLen_of_utf8Size_one
  intro c hc
  have hdigit := Nat.isDigit_of_mem_toDigits (by decide) (by decide) hc
  have hle : c.toNat ≤ 57 := (Char.isDigit_iff_toNat.mp hdigit).2
  rw [Char.utf8Size_eq_one_iff, UInt32.le_iff_toNat_le]
  exact Nat.le_trans hle (by decide)

end Lengths

section Laws

variable {cfg : Cfg} {key k : Key} {raw out : Text}

@[simp] theorem getStr_store_self (cfg : Cfg) (key : Key) (val : Text) :
    getStr (store cfg key val) key = val := by
  have h : (store cfg key val).table key = some val := Function.update_self _ _ _
  rw [getStr, h]
  rfl

theorem getStr_store_of_ne (cfg : Cfg) (val : Text) (h : k ≠ key) :
    getStr (store cfg key val) k = getStr cfg k := by
  have ht : (store cfg key val).table k = cfg.table k := Function.update_of_ne h _ _
  have hd : defaultFor (store cfg key val) k = defaultFor cfg k := by
    cases k with
    | _ => rfl
  rw [getStr, getStr, ht, hd]

theorem validateInt_ok {hi : ℕ} (h : validateInt hi raw = .ok out) :
    ∃ v, 1 ≤ v ∧ v ≤ hi ∧ out = Nat.toDigits 10 v := by
  unfold validateInt at h
  split at h
  · split at h
    · rename_i v hv hr
      cases h
      exact ⟨v, hr.1, hr.2, rfl⟩
    · cases h
  · cases h

theorem mem_tableDef (k : Key) : k ∈ tableDef := by
  cases k with
  | _ => decide

theorem name_injective : ∀ k ∈ tableDef, ∀ k' ∈ tableDef, k.name = k'.name → k = k' := by
  decide +kernel

theorem find_name (k : Key) : tableDef.find? (fun k' => k'.name = k.name) = some k := by
  cases h : tableDef.find? (fun k' => k'.name = k.name) with
  | none =>
    have hne := List.find?_eq_none.mp h k (mem_tableDef k)
    simp at hne
  | some k' =>
    have hsome := List.find?_some h
    have hname : k'.name = k.name := of_decide_eq_true hsome
    rw [name_injective k' (mem_tableDef k') k (mem_tableDef k) hname]

theorem byteLen_validateInt {hi : ℕ} (hhi : hi ≤ 65535) (h : validateInt hi raw = .ok out) :
    byteLen out < valMax := by
  obtain ⟨v, -, hv, rfl⟩ := validateInt_ok h
  rw [byteLen_toDigits]
  have hlen : (Nat.toDigits 10 v).length ≤ 5 :=
    (Nat.length_toDigits_le_iff (by decide) (by decide)).mpr (by omega)
  exact Nat.lt_of_le_of_lt hlen (by decide)

theorem byteLen_validate (h : validate key raw = .ok out) : byteLen out < valMax := by
  unfold validate at h
  split at h
  · split_ifs at h
    · cases h
      decide
    · cases h
      decide
  · exact byteLen_validateInt (by decide) h
  · exact byteLen_validateInt (by decide) h
  · split at h
    · cases h
    · rename_i hlt
      cases h
      exact Nat.lt_of_not_le hlt
  · split at h
    · cases h
    · rename_i hlt
      cases h
      exact Nat.lt_of_not_le hlt

theorem parse_toDigits_retry : ∀ v ∈ List.range 61,
    parseUnsigned u8Max (Nat.toDigits 10 v) = some v := by
  decide +kernel

end Laws

end AtNode.Config
