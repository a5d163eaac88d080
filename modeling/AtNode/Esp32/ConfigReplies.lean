import AtNode.Lib.Json
import AtNode.Esp32.CfgStore
import AtNode.Esp32.Query

/-!
# The replies to configuration queries

The registry can be listed, and a key can be read, over the AT console, HTTP and MQTT. Each reply is
assembled from pieces in strings of a fixed capacity; a piece that does not fit is left out, and a
value stands in it as it is.

No reply depends on the value of a write-only key. In every state of a run from an empty flash the
replies fit their strings, so they are JSON that decodes to the readable values exactly when no
readable value and no request id needs an escape.
-/

namespace AtNode.ConfigReplies

open Config Heapless Query

abbrev listCap : ℕ := 1600

abbrev replyCap : ℕ := 2560

abbrev payloadMax : ℕ := 512

section Model

def listEntry (cfg : Cfg) (out : Text) (e : Key × ℕ) : Text :=
  let out := if 0 < e.2 then push listCap out ',' else out
  let out := (write listCap out ["\x7b\"key\":\"".toList, e.1.name, "\"".toList]).1
  let out :=
    if e.1.flags = .writeOnly then put listCap out ",\"secret\":true".toList
    else (write listCap out [",\"value\":\"".toList, getStr cfg e.1, "\"".toList]).1
  push listCap out '\x7d'

def listJson (cfg : Cfg) : Text :=
  push listCap (tableDef.zipIdx.foldl (listEntry cfg) (push listCap [] '[')) ']'

/-- `insert_str` at the front. -/
def insertFront (cap : ℕ) (t s : Text) : Text := if byteLen s + byteLen t ≤ cap then t ++ s else s

section At

def atGet (cfg : Cfg) (key : Text) : List Text :=
  match get cfg key with
  | .ok val =>
    let buf := write listCap [] ["+GET:".toList, key, "=".toList, val]
    if buf.2 then [buf.1, "OK".toList] else ["ERROR bad value".toList]
  | .error .unknownKey => ["ERROR unknown key".toList]
  | .error .writeOnly => ["ERROR write-only".toList]
  | .error _ => ["ERROR bad value".toList]

def atKeys (cfg : Cfg) : List Text :=
  [insertFront listCap "+KEYS:".toList (listJson cfg), "OK".toList]

end At

section Http

structure JsonResp where
  code : ℕ
  body : Text

def errBody (msg : Text) : Text :=
  "\x7b\"ok\":false,\"error\":\"".toList ++ msg ++ "\"\x7d".toList

def hConfigGet (cfg : Cfg) (query : Text) : Option JsonResp :=
  (queryGet query "key".toList).map fun key =>
    match get cfg key with
    | .ok val =>
      ⟨200, "\x7b\"ok\":true,\"key\":\"".toList ++ key ++ "\",\"value\":\"".toList ++ val ++
        "\"\x7d".toList⟩
    | .error _ => ⟨400, errBody "unknown key".toList⟩

def hConfigList (cfg : Cfg) : JsonResp :=
  ⟨200, "\x7b\"ok\":true,\"keys\":".toList ++ listJson cfg ++ "\x7d".toList⟩

end Http

section Mqtt

def mqttConfigGet (cfg : Cfg) (query : Text) : Option Text :=
  (queryGet query "key".toList).map fun key =>
    match get cfg (ofStr scratchCap key) with
    | .ok val => (write replyCap [] ["\"ok\":true,\"value\":\"".toList, val, "\"".toList]).1
    | .error _ => put replyCap [] "\"ok\":false,\"error\":\"unknown key\"".toList

def mqttConfigList (cfg : Cfg) : Text :=
  (write replyCap [] ["\"ok\":true,\"keys\":".toList, listJson cfg]).1

def mqttResp (reqid inner : Text) : Text :=
  (write replyCap [] ["\x7b\"id\":\"".toList, reqid, "\",".toList, inner, "\x7d".toList]).1

end Mqtt

/-- A configuration query on one of the front ends. -/
inductive Request where
  | atGet (key : Text)
  | atKeys
  | httpGet (query : Text)
  | httpList
  | mqttGet (reqid query : Text)
  | mqttList (reqid : Text)

inductive Response where
  | lines (ls : List Text)
  | http (resp : JsonResp)
  | publish (payload : Text)

/-- Without a response the firmware has stopped in the decoder of the query. -/
def respond (cfg : Cfg) : Request → Option Response
  | .atGet key => some (.lines (atGet cfg key))
  | .atKeys => some (.lines (atKeys cfg))
  | .httpGet query => (hConfigGet cfg query).map .http
  | .httpList => some (.http (hConfigList cfg))
  | .mqttGet reqid query => (mqttConfigGet cfg query).map fun inner => .publish (mqttResp reqid inner)
  | .mqttList reqid => some (.publish (mqttResp reqid (mqttConfigList cfg)))

end Model

section Secrets

variable {cfg cfg' : Cfg}

/-- The states differ in the values of write-only keys at most. -/
structure SameReadable (cfg cfg' : Cfg) : Prop where
  table : ∀ k : Key, k.flags ≠ .writeOnly → cfg.table k = cfg'.table k
  defName : cfg.defName = cfg'.defName
  defHostname : cfg.defHostname = cfg'.defHostname

theorem SameReadable.getStr_eq (h : SameReadable cfg cfg') {k : Key} (hk : k.flags ≠ .writeOnly) :
    getStr cfg k = getStr cfg' k := by
  have hdefault : defaultFor cfg k = defaultFor cfg' k := by
    cases k with
    | deviceName => exact h.defName
    | deviceHostname => exact h.defHostname
    | _ => rfl
  rw [getStr, getStr, h.table k hk, hdefault]

theorem SameReadable.get_eq (h : SameReadable cfg cfg') (key : Text) :
    Config.get cfg key = Config.get cfg' key := by
  unfold Config.get
  cases tableDef.find? (fun k => k.name = key) with
  | none => rfl
  | some k =>
    dsimp only
    by_cases hk : k.flags = .writeOnly
    · rw [if_pos hk, if_pos hk]
    · rw [if_neg hk, if_neg hk, h.getStr_eq hk]

theorem SameReadable.listJson_eq (h : SameReadable cfg cfg') : listJson cfg = listJson cfg' := by
  have hentry : listEntry cfg = listEntry cfg' := by
    funext out e
    unfold listEntry
    by_cases hk : e.1.flags = .writeOnly
    · simp only [if_pos hk]
    · simp only [if_neg hk, h.getStr_eq hk]
  rw [listJson, listJson, hentry]

/-- The secrets are write-only: states that differ in them answer every query alike. -/
theorem respond_of_sameReadable (h : SameReadable cfg cfg') (q : Request) :
    respond cfg q = respond cfg' q := by
  cases q with
  | atGet key => rw [respond, respond, atGet, atGet, h.get_eq]
  | atKeys => rw [respond, respond, atKeys, atKeys, h.listJson_eq]
  | httpGet query => simp only [respond, hConfigGet, h.get_eq]
  | httpList => rw [respond, respond, hConfigList, hConfigList, h.listJson_eq]
  | mqttGet reqid query => simp only [respond, mqttConfigGet, h.get_eq]
  | mqttList reqid => rw [respond, respond, mqttConfigList, mqttConfigList, h.listJson_eq]

theorem respond_two_passwords :
    let cfg : Cfg := ⟨fun _ => none, "AT-Node-ESP-0A1B".toList, "atnodeesp-0a1b".toList⟩
    respond (store cfg .wifiPass "hunter2".toList) .atKeys =
      respond (store cfg .wifiPass "correct horse".toList) .atKeys := by
  intro cfg
  have hsame : SameReadable (store cfg .wifiPass "hunter2".toList)
      (store cfg .wifiPass "correct horse".toList) := by
    constructor
    · intro k hk
      have hne : k ≠ .wifiPass := by
        rintro rfl
        exact hk rfl
      exact (Function.update_of_ne hne _ _).trans (Function.update_of_ne hne _ _).symm
    · rfl
    · rfl
  exact respond_of_sameReadable hsame .atKeys

end Secrets

section Bounds

variable {cfg : Cfg} {key k : Key} {raw v : Text}

/-- No value of the key is longer. -/
def valueMax (k : Key) : ℕ :=
  match k.flags with
  | .bool => 1
  | .int => 5
  | .int60 => 2
  | .none | .writeOnly => 95

def Bounded (cfg : Cfg) : Prop := ∀ k, byteLen (getStr cfg k) ≤ valueMax k

theorem byteLen_validateInt_le {hi d : ℕ} (hd : hi < 10 ^ d) (hpos : 0 < d)
    (h : validateInt hi raw = .ok v) : byteLen v ≤ d := by
  obtain ⟨n, -, hn, rfl⟩ := validateInt_ok h
  rw [byteLen_toDigits]
  exact (Nat.length_toDigits_le_iff (by decide) hpos).mpr (by omega)

theorem byteLen_validate_le (h : validate k raw = .ok v) : byteLen v ≤ valueMax k := by
  have hmax : byteLen v < 96 := byteLen_validate h
  unfold validate at h
  unfold valueMax
  cases hflag : k.flags with
  | none => exact Nat.le_of_lt_succ hmax
  | writeOnly => exact Nat.le_of_lt_succ hmax
  | int =>
    rw [hflag] at h
    exact byteLen_validateInt_le (by decide) (by decide) h
  | int60 =>
    rw [hflag] at h
    exact byteLen_validateInt_le (by decide) (by decide) h
  | bool =>
    rw [hflag] at h
    dsimp only at h
    split_ifs at h <;>
      · cases h
        decide

theorem byteLen_le (s : Text) : byteLen s ≤ 4 * s.length := by
  induction s with
  | nil => exact Nat.le_refl _
  | cons c s ih =>
    have hc := c.utf8Size_le_four
    rw [byteLen_cons, List.length_cons]
    omega

theorem bounded_boot (mac : CfgStore.Mac) : Bounded (CfgStore.load mac fun _ => none) := by
  intro k
  have hset : (CfgStore.load mac fun _ => none).table k = none := rfl
  rw [getStr, hset, Option.getD_none]
  cases k with
  | deviceName => exact Nat.le_trans (byteLen_le _) (by decide : 4 * 16 ≤ 95)
  | deviceHostname => exact Nat.le_trans (byteLen_le _) (by decide : 4 * 14 ≤ 95)
  | _ => exact Nat.le_of_ble_eq_true rfl

open CfgStore in
/-- What the defaults and every value the registry takes have stays true of the values. -/
theorem values_step {P : Key → Text → Prop} {d : Device} (hsync : Synced d)
    (hdefault : ∀ k, P k (getStr (load d.mac fun _ => none) k))
    (hvalid : ∀ {k raw v}, validate k raw = .ok v → P k v) (h : ∀ k, P k (getStr d.cfg k)) (e : Event) :
    ∀ k, P k (getStr (step d e).cfg k) := by
  cases e with
  | set c =>
    rcases set_cases d c with ⟨-, e, heq⟩ | ⟨key, v, -, -, hv, heq⟩
    · rw [step, heq]
      exact h
    · rw [step, heq]
      intro k
      by_cases hk : k = key
      · rw [hk, getStr_store_self]
        exact hvalid hv
      · rw [getStr_store_of_ne d.cfg v hk]
        exact h k
  | eraseAll flash =>
    cases flash with
    | false => exact h
    | true =>
      have hcfg : (step d (.eraseAll true)).cfg = load d.mac fun _ => none := by
        have hd : d.cfg = load d.mac d.flash := hsync
        simp only [step, Device.eraseAll, if_true, hd]
        rfl
      rw [hcfg]
      exact hdefault
  | reboot =>
    have hcfg : (step d .reboot).cfg = d.cfg := hsync.symm
    rw [hcfg]
    exact h
  | read i => exact h

open CfgStore in
/-- It is true of the values of every state of a run from an empty flash. -/
theorem values_run {P : Key → Text → Prop}
    (hdefault : ∀ (mac : Mac) k, P k (getStr (load mac fun _ => none) k))
    (hvalid : ∀ {k raw v}, validate k raw = .ok v → P k v) (mac : Mac) (es : List Event) :
    Run.Always step (fun d => ∀ k, P k (getStr d.cfg k)) (boot mac fun _ => none) es := by
  have hall : Run.Always step (fun d => Synced d ∧ ∀ k, P k (getStr d.cfg k)) (boot mac fun _ => none) es :=
    Run.always_of_step
      (fun d e h => ⟨(step_follows h.1 e).1, values_step h.1 (hdefault d.mac) hvalid h.2 e⟩)
      ⟨synced_boot mac _, hdefault mac⟩
  exact hall.mono fun d h => h.2

open CfgStore in
theorem bounded_step {d : Device} (hsync : Synced d) (h : Bounded d.cfg) (e : Event) :
    Bounded (step d e).cfg :=
  values_step (P := fun k v => byteLen v ≤ valueMax k) hsync (bounded_boot d.mac) byteLen_validate_le h e

open CfgStore in
/-- The values of every state of a run from an empty flash are bounded. -/
theorem bounded_run (mac : Mac) (es : List Event) :
    Run.Always step (fun d => Bounded d.cfg) (boot mac fun _ => none) es :=
  values_run (P := fun k v => byteLen v ≤ valueMax k) bounded_boot byteLen_validate_le mac es

end Bounds

section Listing

open Json (Value render renderElements renderMembers quoted)

variable {cfg : Cfg} {k : Key} {out : Text}

/-- What the list says of a key. -/
def entryValue (cfg : Cfg) (k : Key) : Value :=
  if k.flags = .writeOnly then .obj [("key".toList, .str k.name), ("secret".toList, .bool true)]
  else .obj [("key".toList, .str k.name), ("value".toList, .str (getStr cfg k))]

def listValue (cfg : Cfg) : Value := .arr (tableDef.map (entryValue cfg))

theorem render_entry_secret (hk : k.flags = .writeOnly) : render (entryValue cfg k) =
    "\x7b\"key\":\"".toList ++ (k.name ++ ("\"".toList ++ (",\"secret\":true".toList ++ ['\x7d']))) := by
  rw [entryValue, if_pos hk]
  simp [render, renderMembers, quoted]

theorem render_entry_readable (hk : k.flags ≠ .writeOnly) : render (entryValue cfg k) =
    "\x7b\"key\":\"".toList ++ (k.name ++ ("\"".toList ++ (",\"value\":\"".toList ++
      (getStr cfg k ++ ("\"".toList ++ ['\x7d']))))) := by
  rw [entryValue, if_neg hk]
  simp [render, renderMembers, quoted]

/-- No entry is longer, where the values are bounded. -/
def entryMax (k : Key) : ℕ :=
  if k.flags = .writeOnly then 24 + byteLen k.name else 21 + byteLen k.name + valueMax k

theorem byteLen_render_entry (h : Bounded cfg) (k : Key) :
    byteLen (render (entryValue cfg k)) ≤ entryMax k := by
  have hkey : byteLen "\x7b\"key\":\"".toList = 8 := by decide
  have hquote : byteLen "\"".toList = 1 := by decide
  have hsecret : byteLen ",\"secret\":true".toList = 14 := by decide
  have hvalue : byteLen ",\"value\":\"".toList = 10 := by decide
  have hend : byteLen ['\x7d'] = 1 := by decide
  have hk := h k
  rw [entryMax]
  by_cases hflag : k.flags = .writeOnly
  · rw [render_entry_secret hflag, if_pos hflag]
    simp only [byteLen_append, hkey, hquote, hsecret, hend]
    omega
  · rw [render_entry_readable hflag, if_neg hflag]
    simp only [byteLen_append, hkey, hquote, hvalue, hend]
    omega

/-- An entry that fits is written in full. -/
theorem listEntry_eq (k : Key) (i : ℕ)
    (h : byteLen out + 1 + byteLen (render (entryValue cfg k)) ≤ listCap) :
    listEntry cfg out (k, i) =
      (if 0 < i then out ++ [','] else out) ++ render (entryValue cfg k) := by
  have hcomma : byteLen [','] = 1 := by decide
  have hsep : (if 0 < i then push listCap out ',' else out) = if 0 < i then out ++ [','] else out := by
    split_ifs
    · exact put_fits (by omega)
    · rfl
  have hlen : byteLen (if 0 < i then out ++ [','] else out) ≤ byteLen out + 1 := by
    split_ifs
    · exact Nat.le_of_eq (byteLen_append _ _)
    · omega
  rw [listEntry]
  dsimp only
  rw [hsep]
  generalize (if 0 < i then out ++ [','] else out) = out' at hlen ⊢
  by_cases hflag : k.flags = .writeOnly
  · rw [render_entry_secret hflag] at h ⊢
    simp only [byteLen_append] at h
    have hkey : write listCap out' ["\x7b\"key\":\"".toList, k.name, "\"".toList] =
        (out' ++ ("\x7b\"key\":\"".toList ++ (k.name ++ "\"".toList)), true) := by
      rw [write_fits] <;>
        simp only [List.flatten_cons, List.flatten_nil, List.append_nil, byteLen_append]
      omega
    rw [hkey, if_pos hflag, put_fits, push, put_fits]
    · simp
    · simp only [byteLen_append]
      omega
    · simp only [byteLen_append]
      omega
  · rw [render_entry_readable hflag] at h ⊢
    simp only [byteLen_append] at h
    have hkey : write listCap out' ["\x7b\"key\":\"".toList, k.name, "\"".toList] =
        (out' ++ ("\x7b\"key\":\"".toList ++ (k.name ++ "\"".toList)), true) := by
      rw [write_fits] <;>
        simp only [List.flatten_cons, List.flatten_nil, List.append_nil, byteLen_append]
      omega
    rw [hkey, if_neg hflag, write_fits, push, put_fits]
    · simp
    · simp only [List.flatten_cons, List.flatten_nil, List.append_nil, byteLen_append]
      omega
    · simp only [List.flatten_cons, List.flatten_nil, List.append_nil, byteLen_append]
      omega

/-- The room a list of entries takes, with a comma in front of each. -/
def room : List Key → ℕ
  | [] => 0
  | k :: ks => 1 + entryMax k + room ks

theorem foldl_listEntry (h : Bounded cfg) (ks : List Key) (i : ℕ) (out : Text)
    (hroom : byteLen out + room ks ≤ listCap) :
    (ks.zipIdx (i + 1)).foldl (listEntry cfg) out ++ [']'] =
        out ++ renderElements (ks.map (entryValue cfg)) ∧
      byteLen ((ks.zipIdx (i + 1)).foldl (listEntry cfg) out) ≤ byteLen out + room ks := by
  induction ks generalizing i out with
  | nil => exact ⟨rfl, Nat.le_refl _⟩
  | cons k ks ih =>
    have hk := byteLen_render_entry h k
    have hsum : room (k :: ks) = 1 + entryMax k + room ks := rfl
    have hcomma : byteLen [','] = 1 := by decide
    have hentry : listEntry cfg out (k, i + 1) = out ++ [','] ++ render (entryValue cfg k) := by
      rw [listEntry_eq k (i + 1) (by omega), if_pos (Nat.succ_pos i)]
    have hlen : byteLen (out ++ [','] ++ render (entryValue cfg k)) ≤ byteLen out + (1 + entryMax k) := by
      rw [byteLen_append, byteLen_append]
      omega
    obtain ⟨htext, hbound⟩ := ih (i + 1) (out ++ [','] ++ render (entryValue cfg k)) (by omega)
    rw [List.zipIdx_cons, List.foldl_cons, hentry]
    constructor
    · rw [htext, List.map_cons, renderElements]
      simp
    · omega

/-- With bounded values nothing of the list is left out. -/
theorem listJson_eq (h : Bounded cfg) :
    listJson cfg = render (listValue cfg) ∧ byteLen (listJson cfg) ≤ 1558 := by
  obtain ⟨k, ks, hks⟩ : ∃ k ks, tableDef = k :: ks := ⟨_, _, rfl⟩
  have hroom : room (k :: ks) = 1557 := by
    rw [← hks]
    decide
  have hsum : room (k :: ks) = 1 + entryMax k + room ks := rfl
  have hk := byteLen_render_entry h k
  have hcap : listCap = 1600 := rfl
  have hopen : push listCap [] '[' = ['['] := rfl
  have hone : byteLen ['['] = 1 := rfl
  have hfirst : listEntry cfg ['['] (k, 0) = ['['] ++ render (entryValue cfg k) :=
    listEntry_eq k 0 (by omega)
  have hlen : byteLen (['['] ++ render (entryValue cfg k)) ≤ 1 + entryMax k := by
    rw [byteLen_append]
    omega
  obtain ⟨htext, hbound⟩ := foldl_listEntry h ks 0 (['['] ++ render (entryValue cfg k)) (by omega)
  have hclose : byteLen [']'] = 1 := rfl
  rw [listJson, listValue, hks, List.zipIdx_cons, List.foldl_cons, hopen, hfirst, push,
    put_fits (by omega), htext]
  refine ⟨?_, ?_⟩
  · rw [List.map_cons, render]
    rfl
  · rw [← htext, byteLen_append]
    omega

end Listing

section Faithful

open Json (Value render renderElements renderMembers quoted parse)

variable {cfg : Cfg} {reqid : Text}

/-- The configuration replies are JSON that decodes to the registry. -/
structure Faithful (cfg : Cfg) (reqid : Text) : Prop where
  atKeys : ∃ body, respond cfg .atKeys = some (.lines ["+KEYS:".toList ++ body, "OK".toList]) ∧
    parse body = some (listValue cfg)
  httpList : ∃ body, respond cfg .httpList = some (.http ⟨200, body⟩) ∧
    parse body = some (.obj [("ok".toList, .bool true), ("keys".toList, listValue cfg)])
  mqttList : ∃ payload, respond cfg (.mqttList reqid) = some (.publish payload) ∧
    parse payload = some (.obj [("id".toList, .str reqid), ("ok".toList, .bool true),
      ("keys".toList, listValue cfg)])
  httpGet : ∀ (k : Key) (query : Text), k.flags ≠ .writeOnly →
    queryGet query "key".toList = some k.name →
      ∃ body, respond cfg (.httpGet query) = some (.http ⟨200, body⟩) ∧
        parse body = some (.obj [("ok".toList, .bool true), ("key".toList, .str k.name),
          ("value".toList, .str (getStr cfg k))])
  mqttGet : ∀ (k : Key) (query : Text), k.flags ≠ .writeOnly →
    queryGet query "key".toList = some k.name →
      ∃ payload, respond cfg (.mqttGet reqid query) = some (.publish payload) ∧
        parse payload = some (.obj [("id".toList, .str reqid), ("ok".toList, .bool true),
          ("value".toList, .str (getStr cfg k))])

theorem atKeys_eq (h : Bounded cfg) :
    respond cfg .atKeys = some (.lines ["+KEYS:".toList ++ render (listValue cfg), "OK".toList]) := by
  obtain ⟨htext, hlen⟩ := listJson_eq h
  have hcap : listCap = 1600 := rfl
  have hfront : byteLen "+KEYS:".toList = 6 := rfl
  rw [respond, ConfigReplies.atKeys, insertFront, if_pos (by omega), htext]

theorem hConfigList_eq (h : Bounded cfg) : hConfigList cfg =
    ⟨200, render (.obj [("ok".toList, .bool true), ("keys".toList, listValue cfg)])⟩ := by
  rw [hConfigList, (listJson_eq h).1]
  simp [render, renderMembers, quoted]

theorem mqttResp_eq {inner : Text} (h : byteLen reqid + byteLen inner ≤ 2550) :
    mqttResp reqid inner = "\x7b\"id\":\"".toList ++ (reqid ++ ("\",".toList ++ (inner ++ ['\x7d']))) := by
  have hcap : replyCap = 2560 := rfl
  have hopen : byteLen "\x7b\"id\":\"".toList = 7 := by decide
  have hmid : byteLen "\",".toList = 2 := by decide
  have hclose : byteLen "\x7d".toList = 1 := by decide
  rw [mqttResp, write_fits]
  · simp
  · simp only [List.flatten_cons, List.flatten_nil, List.append_nil, byteLen_append, byteLen_nil]
    omega

theorem mqttList_eq (h : Bounded cfg) (hid : byteLen reqid ≤ payloadMax) :
    mqttResp reqid (mqttConfigList cfg) = render (.obj [("id".toList, .str reqid),
      ("ok".toList, .bool true), ("keys".toList, listValue cfg)]) := by
  obtain ⟨htext, hlen⟩ := listJson_eq h
  have hcap : replyCap = 2560 := rfl
  have hmax : payloadMax = 512 := rfl
  have hhead : byteLen "\"ok\":true,\"keys\":".toList = 17 := by decide
  have hinner : mqttConfigList cfg = "\"ok\":true,\"keys\":".toList ++ listJson cfg := by
    rw [mqttConfigList, write_fits]
    · simp
    · simp only [List.flatten_cons, List.flatten_nil, List.append_nil, byteLen_append, byteLen_nil]
      omega
  rw [hinner, mqttResp_eq (by rw [byteLen_append]; omega), htext]
  simp [render, renderMembers, quoted]

theorem get_name (cfg : Cfg) {k : Key} (hk : k.flags ≠ .writeOnly) :
    Config.get cfg k.name = .ok (getStr cfg k) := by
  rw [Config.get, find_name]
  exact if_neg hk

theorem hConfigGet_eq {k : Key} (hk : k.flags ≠ .writeOnly) {query : Text}
    (hq : queryGet query "key".toList = some k.name) : hConfigGet cfg query =
      some ⟨200, render (.obj [("ok".toList, .bool true), ("key".toList, .str k.name),
        ("value".toList, .str (getStr cfg k))])⟩ := by
  rw [hConfigGet, hq, Option.map_some, get_name cfg hk]
  simp [render, renderMembers, quoted]

theorem byteLen_name_le (k : Key) : byteLen k.name ≤ 16 := by
  cases k with
  | _ => decide

theorem mqttGet_eq (h : Bounded cfg) (hid : byteLen reqid ≤ payloadMax) {k : Key}
    (hk : k.flags ≠ .writeOnly) {query : Text} (hq : queryGet query "key".toList = some k.name) :
    (mqttConfigGet cfg query).map (fun inner => mqttResp reqid inner) =
      some (render (.obj [("id".toList, .str reqid), ("ok".toList, .bool true),
        ("value".toList, .str (getStr cfg k))])) := by
  have hkey : ofStr scratchCap k.name = k.name :=
    ofStr_fits (Nat.le_trans (byteLen_name_le k) (by decide))
  have hmax : valueMax k ≤ 95 := by
    cases k with
    | _ => decide
  have hvalue := Nat.le_trans (h k) hmax
  have hcap : replyCap = 2560 := rfl
  have hmaxid : payloadMax = 512 := rfl
  have hhead : byteLen "\"ok\":true,\"value\":\"".toList = 19 := by decide
  have hend : byteLen "\"".toList = 1 := by decide
  rw [mqttConfigGet, hq, Option.map_some, hkey, get_name cfg hk, Option.map_some]
  dsimp only
  rw [write_fits, mqttResp_eq]
  · simp [render, renderMembers, quoted]
  · simp only [List.nil_append, List.flatten_cons, List.flatten_nil, List.append_nil, byteLen_append]
    omega
  · simp only [List.flatten_cons, List.flatten_nil, List.append_nil, byteLen_append, byteLen_nil]
    omega

theorem verbatim_name (k : Key) : Json.Verbatim k.name := by
  cases k with
  | _ => decide

theorem verbatim_listValue_iff : (listValue cfg).Verbatim ↔
    ∀ k : Key, k.flags ≠ .writeOnly → Json.Verbatim (getStr cfg k) := by
  have hkey : Json.Verbatim "key".toList := by decide
  have hvalue : Json.Verbatim "value".toList := by decide
  have hsecret : Json.Verbatim "secret".toList := by decide
  have hentry : ∀ k, (entryValue cfg k).Verbatim ↔
      (k.flags ≠ .writeOnly → Json.Verbatim (getStr cfg k)) := by
    intro k
    unfold entryValue
    split_ifs with hk
    · exact ⟨fun _ hne => absurd hk hne,
        fun _ => ⟨hkey, verbatim_name k, hsecret, trivial, trivial⟩⟩
    · exact ⟨fun h _ => h.2.2.2.1, fun h => ⟨hkey, verbatim_name k, hvalue, h hk, trivial⟩⟩
  have hlist : (listValue cfg).Verbatim ↔ ∀ e ∈ tableDef.map (entryValue cfg), e.Verbatim :=
    Json.elementsVerbatim_iff
  rw [hlist, List.forall_mem_map]
  exact ⟨fun h k => (hentry k).mp (h k (mem_tableDef k)), fun h k _ => (hentry k).mpr (h k)⟩

theorem faithful_iff (h : Bounded cfg) (hid : byteLen reqid ≤ payloadMax) :
    Faithful cfg reqid ↔ Json.Verbatim reqid ∧
      ∀ k : Key, k.flags ≠ .writeOnly → Json.Verbatim (getStr cfg k) := by
  have hok : Json.Verbatim "ok".toList := by decide
  have hidkey : Json.Verbatim "id".toList := by decide
  have hkeys : Json.Verbatim "keys".toList := by decide
  have hkey : Json.Verbatim "key".toList := by decide
  have hvalue : Json.Verbatim "value".toList := by decide
  constructor
  · intro hf
    obtain ⟨body, hbody, hlist⟩ := hf.atKeys
    obtain ⟨payload, hpayload, hmqtt⟩ := hf.mqttList
    rw [atKeys_eq h] at hbody
    have hlines : "+KEYS:".toList ++ render (listValue cfg) = "+KEYS:".toList ++ body := by
      injection hbody with hbody
      injection hbody with hbody
      injection hbody
    rw [← List.append_cancel_left hlines, Json.parse_render_iff] at hlist
    rw [respond, mqttList_eq h hid] at hpayload
    cases hpayload
    rw [Json.parse_render_iff] at hmqtt
    exact ⟨hmqtt.2.1, verbatim_listValue_iff.mp hlist⟩
  · rintro ⟨hreqid, hvalues⟩
    have hlist := verbatim_listValue_iff.mpr hvalues
    refine ⟨⟨_, atKeys_eq h, (Json.parse_render_iff _).mpr hlist⟩, ?_, ?_, ?_, ?_⟩
    · refine ⟨_, congrArg (some ∘ Response.http) (hConfigList_eq h), ?_⟩
      exact (Json.parse_render_iff _).mpr ⟨hok, trivial, hkeys, hlist, trivial⟩
    · refine ⟨_, congrArg (some ∘ Response.publish) (mqttList_eq h hid), ?_⟩
      exact (Json.parse_render_iff _).mpr ⟨hidkey, hreqid, hok, trivial, hkeys, hlist, trivial⟩
    · intro k query hk hq
      refine ⟨_, congrArg (Option.map Response.http) (hConfigGet_eq hk hq), ?_⟩
      exact (Json.parse_render_iff _).mpr
        ⟨hok, trivial, hkey, verbatim_name k, hvalue, hvalues k hk, trivial⟩
    · intro k query hk hq
      refine ⟨_, ?_, (Json.parse_render_iff _).mpr
        ⟨hidkey, hreqid, hok, trivial, hvalue, hvalues k hk, trivial⟩⟩
      have hget := congrArg (Option.map Response.publish) (mqttGet_eq h hid hk hq)
      rwa [Option.map_map] at hget

open CfgStore in
/-- In every state of a run from an empty flash, and for every request id a command can carry, the
replies are faithful exactly when neither the id nor a readable value needs an escape. -/
theorem replies_faithful_iff (mac : Mac) (es : List Event) :
    Run.Always step (fun d => ∀ reqid, byteLen reqid ≤ payloadMax →
      (Faithful d.cfg reqid ↔ Json.Verbatim reqid ∧
        ∀ k : Key, k.flags ≠ .writeOnly → Json.Verbatim (getStr d.cfg k)))
      (boot mac fun _ => none) es :=
  (bounded_run mac es).mono fun _ h _ hid => faithful_iff h hid

open CfgStore in
theorem quoted_ssid_not_faithful :
    let d := Run.final step (boot ⟨#[0, 0, 0, 0, 0, 0], rfl⟩ fun _ => none)
      [.set ⟨"wifi.ssid".toList, "my\"net".toList, true⟩]
    hConfigGet d.cfg "key=wifi.ssid".toList =
        some ⟨200, "\x7b\"ok\":true,\"key\":\"wifi.ssid\",\"value\":\"my\"net\"\x7d".toList⟩ ∧
      (parse "\x7b\"ok\":true,\"key\":\"wifi.ssid\",\"value\":\"my\"net\"\x7d".toList).isNone ∧
        ¬ Faithful d.cfg "1".toList := by
  intro d
  have hbounded : Bounded d.cfg := (bounded_run _ _).final
  have hssid : getStr d.cfg .wifiSsid = "my\"net".toList := by
    decide +kernel
  refine ⟨?_, ?_, fun hf => ?_⟩
  · have hquery : queryGet "key=wifi.ssid".toList "key".toList = some (Key.name .wifiSsid) := by
      decide +kernel
    rw [hConfigGet_eq (by decide) hquery, hssid]
    rfl
  · decide +kernel
  · have hverb := ((faithful_iff hbounded (by decide)).mp hf).2 .wifiSsid (by decide)
    rw [hssid] at hverb
    exact absurd hverb (by decide)

end Faithful

end AtNode.ConfigReplies
