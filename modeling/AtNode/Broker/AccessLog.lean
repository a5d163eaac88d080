import AtNode.Broker.KeyAuth
import AtNode.Lib.Records

/-!
# The access logs of the broker

An access is written as one line of the file that is named after its key, with everything but the
characters of a portable file name replaced. The line has the time, the event, the name of the key and
the fields with blanks between them, each as it came from the network.

It is proved for which accesses the lines of the files are those of the accesses, and each file is that
of one key, of the rejected attempts or of the localhost.
-/

namespace AtNode.AccessLog

open KeyAuth (safeChar logFile)
open Manage PyText Records

section Write

/-- `isoformat(timespec="seconds")` -/
structure Stamp where
  text : Text
  plain : ∀ c ∈ text, c ≠ ' ' ∧ c ≠ '\n'

def parts (fields : List (Text × Text)) : Text :=
  [' '].intercalate (fields.map fun f => f.1 ++ '=' :: f.2)

def shown (keyName : Text) : Text := if keyName = [] then ['-'] else keyName

def lineBody (ts : Stamp) (keyName event : Text) (fields : List (Text × Text)) : Text :=
  ts.text ++ " event=".toList ++ event ++ " key=".toList ++ shown keyName ++ ' ' :: parts fields

/-- `AccessLog.write`: the contents of the files after it. -/
def write (opens : Text → Bool) (ts : Stamp) (keyName event : Text) (fields : List (Text × Text))
    (logs : Text → Text) : Text → Text :=
  if opens (logFile keyName) then
    Function.update logs (logFile keyName)
      (logs (logFile keyName) ++ (lineBody ts keyName event fields ++ ['\n']))
  else logs

end Write

section Accesses

inductive Owner where
  | rejected
  | localhost
  | key (name : Text)
  deriving DecidableEq

def Owner.keyName : Owner → Text
  | .rejected => []
  | .localhost => "local".toList
  | .key name => name

structure Access where
  owner : Owner
  event : Text
  fields : List (Text × Text)
  deriving DecidableEq

/-- What `authenticate` logs. -/
def connectAccess (base : KeyAuth.Session → Option Bool) (ks : KeyStore)
    (session : KeyAuth.Session) : Option Access :=
  if base session = some false then none
  else
    let host := session.remoteAddress.getD []
    let cid := session.clientId.getD []
    let username := session.username.getD []
    let fields := [("client_id".toList, cid), ("ip".toList, host)]
    if ManageAcl.localHosts.contains host then some ⟨.localhost, "mqtt_connect".toList, fields⟩
    else
      match KeyAuth.KeyStore.valid ks username with
      | some rec => some ⟨.key rec.name, "mqtt_connect".toList, fields⟩
      | none =>
        some ⟨.rejected, "mqtt_connect_deny".toList,
          fields ++ [("tried_key".toList, username.take 8)]⟩

structure HttpRequest where
  clientIp : Text
  authorization : Text
  path : Text

/-- `_auth_name`, and `if not name` behind it. -/
def authName (ks : KeyStore) (r : HttpRequest) : Owner :=
  if ManageAcl.localHosts.contains r.clientIp then .localhost
  else if "Bearer ".toList <+: r.authorization then
    match KeyAuth.KeyStore.valid ks (strip (r.authorization.drop 7)) with
    | some rec => if rec.name = [] then .rejected else .key rec.name
    | none => .rejected
  else .rejected

def httpDeny (r : HttpRequest) : Access :=
  ⟨.rejected, "http_deny".toList, [("path".toList, r.path), ("ip".toList, r.clientIp)]⟩

def http (owner : Owner) (r : HttpRequest) : Access :=
  ⟨owner, "http".toList, [("path".toList, r.path), ("ip".toList, r.clientIp)]⟩

/-- What `do_GET` logs; `known` says which devices the bridge has. -/
def getAccess (ks : KeyStore) (known : Text → Bool) (r : HttpRequest) : Option Access :=
  if r.path = "/api/help".toList then none
  else if authName ks r = .rejected then some (httpDeny r)
  else if r.path = "/api/devices".toList then some (http (authName ks r) r)
  else if "/api/devices/".toList <+: r.path then
    if known ((r.path.splitOn '/').getD 3 []) then some (http (authName ks r) r) else none
  else none

def stripSlashes (t : Text) : Text :=
  ((t.dropWhile (· = '/')).reverse.dropWhile (· = '/')).reverse

/-- What `do_POST` logs; `readable` says whether `_params` returns. -/
def postAccess (ks : KeyStore) (readable : Bool) (r : HttpRequest) : Option Access :=
  if authName ks r = .rejected then some (httpDeny r)
  else
    let parts := (stripSlashes r.path).splitOn '/'
    if 5 ≤ parts.length ∧ parts.getD 0 [] = "api".toList ∧ parts.getD 1 [] = "devices".toList ∧
        parts.getD 3 [] = "cmd".toList ∧ readable then
      some ⟨authName ks r, "http_cmd".toList, [("device".toList, parts.getD 2 []),
        ("method".toList, ['/'].intercalate (parts.drop 4)), ("ip".toList, r.clientIp)]⟩
    else none

def manageAccess (ks : KeyStore) (op : KeyAuth.Op) : Option Access :=
  (op.exec ks).bind fun r => (KeyAuth.logged r.2).map fun l => ⟨.key l.1, l.2, []⟩

inductive Caller where
  | connect (base : KeyAuth.Session → Option Bool) (ks : KeyStore) (session : KeyAuth.Session)
  | get (ks : KeyStore) (known : Text → Bool) (r : HttpRequest)
  | post (ks : KeyStore) (readable : Bool) (r : HttpRequest)
  | manage (ks : KeyStore) (op : KeyAuth.Op)

def Caller.access : Caller → Option Access
  | .connect base ks session => connectAccess base ks session
  | .get ks known r => getAccess ks known r
  | .post ks readable r => postAccess ks readable r
  | .manage ks op => manageAccess ks op

theorem authenticate_entry (opens : Text → Bool) (base : KeyAuth.Session → Option Bool)
    (ks : KeyStore) (session : KeyAuth.Session) :
    ((KeyAuth.authenticate opens base ks session).bind (·.2)) =
      (connectAccess base ks session).bind fun a =>
        KeyAuth.write opens a.owner.keyName a.event a.fields := by
  have hsnd (o : Option KeyAuth.Entry) (b : Bool) :
      ((o.map fun e => (b, some e)).bind (·.2)) = o := by
    cases o <;> rfl
  unfold KeyAuth.authenticate connectAccess
  by_cases hbase : base session = some false
  · rw [if_pos hbase, if_pos hbase]
    rfl
  rw [if_neg hbase, if_neg hbase]
  simp only [List.contains_iff_mem]
  split_ifs
  · exact hsnd _ _
  · cases KeyAuth.KeyStore.valid ks (session.username.getD []) with
    | none => exact hsnd _ _
    | some rec => exact hsnd _ _

/-- A part of a line of its own. -/
def Plain (t : Text) : Prop := ' ' ∉ t ∧ '\n' ∉ t

instance (t : Text) : Decidable (Plain t) := inferInstanceAs (Decidable (_ ∧ _))

/-- The events and the names of the fields are the program's own. -/
structure FixedWords (a : Access) : Prop where
  event : Plain a.event
  fields : ∀ f ∈ a.fields, Plain f.1 ∧ '=' ∉ f.1

theorem fixedWords_httpDeny (r : HttpRequest) : FixedWords (httpDeny r) :=
  ⟨(by decide : Plain "http_deny".toList), by simp [httpDeny, Plain]⟩

theorem fixedWords_http (owner : Owner) (r : HttpRequest) : FixedWords (http owner r) :=
  ⟨(by decide : Plain "http".toList), by simp [http, Plain]⟩

theorem fixedWords_connectAccess {base : KeyAuth.Session → Option Bool} {ks : KeyStore}
    {session : KeyAuth.Session} {a : Access} (h : connectAccess base ks session = some a) :
    FixedWords a := by
  have hconnect : Plain "mqtt_connect".toList := by decide
  have hdeny : Plain "mqtt_connect_deny".toList := by decide
  unfold connectAccess at h
  dsimp only at h
  split_ifs at h with hbase hhost
  · obtain rfl := Option.some.inj h
    exact ⟨hconnect, by simp [Plain]⟩
  · cases hv : KeyAuth.KeyStore.valid ks (session.username.getD []) with
    | none =>
      rw [hv] at h
      obtain rfl := Option.some.inj h
      exact ⟨hdeny, by simp [Plain]⟩
    | some rec =>
      rw [hv] at h
      obtain rfl := Option.some.inj h
      exact ⟨hconnect, by simp [Plain]⟩

theorem plain_logged {reply : Body} {l : Text × Text} (h : KeyAuth.logged reply = some l) :
    Plain l.2 := by
  unfold KeyAuth.logged at h
  split at h
  · rw [← Option.some.inj h]
    exact (by decide : Plain "key_add".toList)
  · rw [← Option.some.inj h]
    exact (by decide : Plain "key_revoke".toList)
  · rw [← Option.some.inj h]
    exact (by decide : Plain "key_enable".toList)
  · rw [← Option.some.inj h]
    exact (by decide : Plain "key_remove".toList)
  · exact absurd h nofun

theorem fixedWords_access {c : Caller} {a : Access} (h : c.access = some a) : FixedWords a := by
  cases c with
  | connect base ks session => exact fixedWords_connectAccess h
  | get ks known r =>
    simp only [Caller.access, getAccess] at h
    split_ifs at h with hhelp hdeny hall hone hknown
    · rw [← Option.some.inj h]
      exact fixedWords_httpDeny r
    · rw [← Option.some.inj h]
      exact fixedWords_http _ r
    · rw [← Option.some.inj h]
      exact fixedWords_http _ r
  | post ks readable r =>
    simp only [Caller.access, postAccess] at h
    split_ifs at h with hdeny hcmd
    · rw [← Option.some.inj h]
      exact fixedWords_httpDeny r
    · rw [← Option.some.inj h]
      exact ⟨(by decide : Plain "http_cmd".toList), by simp [Plain]⟩
  | manage ks op =>
    simp only [Caller.access, manageAccess, Option.bind_eq_some_iff, Option.map_eq_some_iff] at h
    obtain ⟨r, -, l, hl, rfl⟩ := h
    exact ⟨plain_logged hl, by simp⟩

end Accesses

section Reading

/-- What a line says. -/
structure Reading where
  time : Text
  event : Text
  keyName : Text
  fields : List (Text × Text)
  deriving DecidableEq

def behind (word t : Text) : Option Text :=
  if word <+: t then some (t.drop word.length) else none

def readField (t : Text) : Option (Text × Text) :=
  match t.dropWhile (· ≠ '=') with
  | [] => none
  | _ :: v => some (t.takeWhile (· ≠ '='), v)

/-- Without a field, there is nothing behind the last blank. -/
def readFields (texts : List Text) : Option (List (Text × Text)) :=
  if texts = [[]] then some [] else texts.mapM readField

/-- The documented format, `<iso-time> event=<e> key=<name> <k=v ...>`. -/
def readLine (line : Text) : Option Reading :=
  match line.splitOn ' ' with
  | time :: event :: key :: fields => do
    let event ← behind "event=".toList event
    let name ← behind "key=".toList key
    let fields ← readFields fields
    return ⟨time, event, if name = ['-'] then [] else name, fields⟩
  | _ => none

def Access.reading (ts : Stamp) (a : Access) : Reading :=
  ⟨ts.text, a.event, a.owner.keyName, a.fields⟩

/-- The pieces of a line. -/
def pieces (ts : Stamp) (a : Access) : List Text :=
  ts.text :: ("event=".toList ++ a.event) :: ("key=".toList ++ shown a.owner.keyName) ::
    if a.fields = [] then [[]] else a.fields.map fun f => f.1 ++ '=' :: f.2

def body (e : Stamp × Access) : Text := lineBody e.1 e.2.owner.keyName e.2.event e.2.fields

theorem body_eq (e : Stamp × Access) : body e = [' '].intercalate (pieces e.1 e.2) := by
  have hevent : " event=".toList = ' ' :: "event=".toList := by decide
  have hkey : " key=".toList = ' ' :: "key=".toList := by decide
  simp only [body, lineBody, pieces, parts, hevent, hkey, List.intercalate_cons_cons]
  by_cases hf : e.2.fields = []
  · simp [hf]
  · rw [if_neg hf, List.intercalate_cons_of_ne_nil (by simpa using hf)]
    simp

theorem behind_append (word t : Text) : behind word (word ++ t) = some t := by
  rw [behind, if_pos (List.prefix_append word t), List.drop_left]

theorem readField_eq {k v : Text} (hk : '=' ∉ k) : readField (k ++ '=' :: v) = some (k, v) := by
  have hne : ∀ c ∈ k, decide (c ≠ '=') = true := by
    intro c hc
    have hce : c ≠ '=' := by
      rintro rfl
      exact hk hc
    simpa using hce
  rw [readField, List.dropWhile_append_of_pos hne, List.takeWhile_append_of_pos hne]
  simp

theorem mapM_readField {fields : List (Text × Text)} (h : ∀ f ∈ fields, '=' ∉ f.1) :
    (fields.map fun f => f.1 ++ '=' :: f.2).mapM readField = some fields := by
  induction fields with
  | nil => rfl
  | cons f fields ih =>
    obtain ⟨hf, hfields⟩ := List.forall_mem_cons.mp h
    rw [List.map_cons, List.mapM_cons, readField_eq hf, ih hfields]
    rfl

theorem length_of_mapM {texts : List Text} {fields : List (Text × Text)}
    (h : texts.mapM readField = some fields) : texts.length = fields.length := by
  induction texts generalizing fields with
  | nil =>
    obtain rfl := Option.some.inj h
    rfl
  | cons t texts ih =>
    rw [List.mapM_cons] at h
    obtain ⟨f, -, h⟩ := Option.bind_eq_some_iff.mp h
    obtain ⟨rest, hrest, h⟩ := Option.bind_eq_some_iff.mp h
    obtain rfl := Option.some.inj h
    rw [List.length_cons, List.length_cons, ih hrest]

theorem length_of_readFields {texts : List Text} {fields : List (Text × Text)}
    (h : readFields texts = some fields) : texts.length ≤ max 1 fields.length := by
  unfold readFields at h
  split_ifs at h with hempty
  · rw [hempty]
    exact le_max_left 1 _
  · rw [length_of_mapM h]
    exact le_max_right 1 _

/-- The fields are read as they were written. -/
theorem readFields_eq {fields : List (Text × Text)} (h : ∀ f ∈ fields, '=' ∉ f.1) :
    readFields (if fields = [] then [[]] else fields.map fun f => f.1 ++ '=' :: f.2) =
      some fields := by
  unfold readFields
  by_cases hf : fields = []
  · simp [hf]
  · have hne : ¬ (fields.map fun f => f.1 ++ '=' :: f.2) = [[]] := by
      intro heq
      have hmem : ([] : Text) ∈ fields.map fun f => f.1 ++ '=' :: f.2 := by
        rw [heq]
        exact List.mem_singleton_self []
      obtain ⟨f, -, hnil⟩ := List.mem_map.mp hmem
      simp at hnil
    rw [if_neg hf, if_neg hne, mapM_readField h]

theorem length_of_readLine {line : Text} {r : Reading} (h : readLine line = some r) :
    (line.splitOn ' ').length ≤ 3 + max 1 r.fields.length := by
  unfold readLine at h
  split at h
  · rename_i time event key fields heq
    rw [heq]
    obtain ⟨e, -, h⟩ := Option.bind_eq_some_iff.mp h
    obtain ⟨n, -, h⟩ := Option.bind_eq_some_iff.mp h
    obtain ⟨fs, hfs, h⟩ := Option.bind_eq_some_iff.mp h
    obtain rfl := Option.some.inj h
    have hlen := length_of_readFields hfs
    simp only [List.length_cons]
    omega
  · exact absurd h nofun

theorem length_pieces (ts : Stamp) (a : Access) :
    (pieces ts a).length = 3 + max 1 a.fields.length := by
  unfold pieces
  by_cases hf : a.fields = []
  · simp [hf]
  · have hpos := List.length_pos_iff.mpr hf
    simp only [if_neg hf, List.length_cons, List.length_map]
    omega

/-- The pieces of a clean line are read one by one. -/
theorem readLine_of_clean {e : Stamp × Access} (h : FixedWords e.2)
    (hclean : ∀ p ∈ pieces e.1 e.2, ' ' ∉ p) :
    readLine (body e) = some ⟨e.1.text, e.2.event,
      if shown e.2.owner.keyName = ['-'] then [] else shown e.2.owner.keyName, e.2.fields⟩ := by
  have hsplit : (body e).splitOn ' ' = pieces e.1 e.2 := by
    rw [body_eq]
    exact List.splitOn_intercalate ' ' hclean (by simp [pieces])
  unfold readLine
  rw [hsplit]
  unfold pieces
  simp only [behind_append, readFields_eq fun f hmem => (h.fields f hmem).2]
  rfl

/-- Name and values are plain, and no key is called `-`. -/
structure Tidy (a : Access) : Prop where
  name : Plain a.owner.keyName ∧ a.owner.keyName ≠ ['-']
  values : ∀ f ∈ a.fields, Plain f.2

theorem not_mem_shown_iff {c : Char} (hkey : c ∉ "key=-".toList) (name : Text) :
    c ∉ "key=".toList ++ shown name ↔ c ∉ name := by
  have hword : "key=-".toList = "key=".toList ++ ['-'] := by decide
  rw [hword, List.mem_append, not_or] at hkey
  rw [List.mem_append, not_or]
  unfold shown
  split_ifs with hname
  · exact ⟨fun _ => by simp [hname], fun _ => hkey⟩
  · exact ⟨And.right, fun h => ⟨hkey.1, h⟩⟩

theorem not_mem_fields_iff {c : Char} {fields : List (Text × Text)}
    (hwords : ∀ f ∈ fields, c ∉ f.1 ++ ['=']) :
    (∀ p ∈ if fields = [] then [[]] else fields.map fun f => f.1 ++ '=' :: f.2, c ∉ p) ↔
      ∀ f ∈ fields, c ∉ f.2 := by
  split_ifs with hf
  · simp [hf]
  · rw [List.forall_mem_map]
    apply forall₂_congr
    intro f hmem
    have hword := hwords f hmem
    simp only [List.mem_append, List.mem_singleton, not_or] at hword
    simp [hword]

/-- A character that the program does not write itself is in a piece exactly when it is in the name
or in a value. -/
theorem forall_pieces_iff {e : Stamp × Access} {c : Char} (htime : c ∉ e.1.text)
    (hevent : c ∉ "event=".toList ++ e.2.event) (hkey : c ∉ "key=-".toList)
    (hwords : ∀ f ∈ e.2.fields, c ∉ f.1 ++ ['=']) :
    (∀ p ∈ pieces e.1 e.2, c ∉ p) ↔
      c ∉ e.2.owner.keyName ∧ ∀ f ∈ e.2.fields, c ∉ f.2 := by
  unfold pieces
  rw [List.forall_mem_cons, List.forall_mem_cons, List.forall_mem_cons, not_mem_shown_iff hkey,
    not_mem_fields_iff hwords]
  exact ⟨fun h => h.2.2, fun h => ⟨htime, hevent, h⟩⟩

theorem blank_pieces_iff {e : Stamp × Access} (h : FixedWords e.2) :
    (∀ p ∈ pieces e.1 e.2, ' ' ∉ p) ↔ ' ' ∉ e.2.owner.keyName ∧ ∀ f ∈ e.2.fields, ' ' ∉ f.2 := by
  refine forall_pieces_iff (fun hmem => (e.1.plain _ hmem).1 rfl) ?_ (by decide) ?_
  · rw [List.mem_append, not_or]
    exact ⟨by decide, h.event.1⟩
  · intro f hf
    rw [List.mem_append, not_or]
    exact ⟨(h.fields f hf).1.1, by decide⟩

theorem newline_pieces_iff {e : Stamp × Access} (h : FixedWords e.2) :
    '\n' ∉ body e ↔ '\n' ∉ e.2.owner.keyName ∧ ∀ f ∈ e.2.fields, '\n' ∉ f.2 := by
  rw [body_eq, Records.not_mem_intercalate (by decide)]
  refine forall_pieces_iff (fun hmem => (e.1.plain _ hmem).2 rfl) ?_ (by decide) ?_
  · rw [List.mem_append, not_or]
    exact ⟨by decide, h.event.2⟩
  · intro f hf
    rw [List.mem_append, not_or]
    exact ⟨(h.fields f hf).1.2, by decide⟩

theorem shown_read (name : Text) :
    (if shown name = ['-'] then [] else shown name) = name ↔ name ≠ ['-'] := by
  unfold shown
  by_cases hname : name = []
  · simp [hname]
  · by_cases hdash : name = ['-']
    · simp [hdash]
    · simp [hname, hdash]

/-- An entry is one line, and is read as what it was written for, exactly when it is tidy. -/
theorem readLine_iff {e : Stamp × Access} (h : FixedWords e.2) :
    '\n' ∉ body e ∧ readLine (body e) = some (e.2.reading e.1) ↔ Tidy e.2 := by
  have hpieces : pieces e.1 e.2 ≠ [] := by simp [pieces]
  have hread (hclean : ∀ p ∈ pieces e.1 e.2, ' ' ∉ p) :
      readLine (body e) = some (e.2.reading e.1) ↔ e.2.owner.keyName ≠ ['-'] := by
    rw [readLine_of_clean h hclean, ← shown_read, Access.reading]
    simp
  constructor
  · rintro ⟨hline, hreading⟩
    have hlen := length_of_readLine hreading
    rw [body_eq, Access.reading, ← length_pieces e.1 e.2,
      Records.length_pieces_iff hpieces] at hlen
    obtain ⟨hname, hvalues⟩ := (blank_pieces_iff h).mp hlen
    obtain ⟨hname', hvalues'⟩ := (newline_pieces_iff h).mp hline
    exact ⟨⟨⟨hname, hname'⟩, (hread hlen).mp hreading⟩, fun f hf => ⟨hvalues f hf, hvalues' f hf⟩⟩
  · rintro ⟨⟨⟨hname, hname'⟩, hdash⟩, hvalues⟩
    have hclean := (blank_pieces_iff h).mpr ⟨hname, fun f hf => (hvalues f hf).1⟩
    exact ⟨(newline_pieces_iff h).mpr ⟨hname', fun f hf => (hvalues f hf).2⟩,
      (hread hclean).mpr hdash⟩

end Reading

section Files

def accesses (callers : List (Stamp × Caller)) : List (Stamp × Access) :=
  callers.filterMap fun c => c.2.access.map fun a => (c.1, a)

/-- The files after the accesses, with no file before them. -/
def logs (opens : Text → Bool) (es : List (Stamp × Access)) : Text → Text :=
  es.foldl (fun files e => write opens e.1 e.2.owner.keyName e.2.event e.2.fields files) fun _ => []

def Access.file (a : Access) : Text := logFile a.owner.keyName

/-- Every file has one line for each access that is logged in it, in their order, which is read as this
access, and no two that are not of one key, both rejected or both of the localhost share a file. -/
def Integrity (opens : Text → Bool) (es : List (Stamp × Access)) : Prop :=
  (∀ F, (readLines '\n' (logs opens es F)).map readLine =
    (es.filter fun e => e.2.file = F).map fun e => some (e.2.reading e.1)) ∧
  ∀ e ∈ es, ∀ e' ∈ es, e.2.file = e'.2.file → e.2.owner = e'.2.owner

/-- A character that is `_` in the name of a file. -/
def Folds (c : Char) : Prop := safeChar c = '_'

/-- The names differ in characters alone that are replaced. -/
def Alike (m n : Text) : Prop := List.Forall₂ (fun c d => c = d ∨ Folds c ∧ Folds d) m n

def Owner.title : Owner → Text
  | .rejected => "auth_fail".toList
  | .localhost => "local".toList
  | .key name => if name = [] then "auth_fail".toList else name

structure Condition (opens : Text → Bool) (es : List (Stamp × Access)) : Prop where
  open_files : ∀ e ∈ es, opens e.2.file = true
  tidy : ∀ e ∈ es, Tidy e.2
  apart : ∀ e ∈ es, ∀ e' ∈ es, e.2.owner ≠ e'.2.owner → ¬ Alike e.2.owner.title e'.2.owner.title

theorem safeChar_eq_or_folds (c : Char) : safeChar c = c ∨ Folds c := by
  unfold Folds safeChar
  split_ifs
  · exact Or.inl rfl
  · exact Or.inr rfl

theorem safeChar_eq_iff (c d : Char) : safeChar c = safeChar d ↔ c = d ∨ Folds c ∧ Folds d := by
  constructor
  · intro h
    rcases safeChar_eq_or_folds c with hc | hc
    · rcases safeChar_eq_or_folds d with hd | hd
      · exact Or.inl (hc.symm.trans (h.trans hd))
      · exact Or.inr ⟨h.trans hd, hd⟩
    · exact Or.inr ⟨hc, h.symm.trans hc⟩
  · rintro (rfl | ⟨hc, hd⟩)
    · rfl
    · unfold Folds at hc hd
      rw [hc, hd]

theorem map_safeChar_eq_iff (m n : Text) : m.map safeChar = n.map safeChar ↔ Alike m n := by
  have hrel : (fun c d => safeChar c = safeChar d) = fun c d => c = d ∨ Folds c ∧ Folds d := by
    funext c d
    exact propext (safeChar_eq_iff c d)
  rw [Alike, ← hrel, ← List.forall₂_eq_eq_eq, List.forall₂_map_left_iff, List.forall₂_map_right_iff]

theorem logFile_of_ne {name : Text} (h : name ≠ []) :
    logFile name = name.map safeChar ++ ".log".toList := by
  have hmap : name.map safeChar ≠ [] := fun hnil => h (List.map_eq_nil_iff.mp hnil)
  unfold logFile
  dsimp only
  rw [if_neg hmap]

theorem Owner.logFile_keyName (o : Owner) :
    logFile o.keyName = o.title.map safeChar ++ ".log".toList := by
  cases o with
  | rejected => decide
  | localhost => decide
  | key name =>
    by_cases hname : name = []
    · subst hname
      decide
    · have htitle : (Owner.key name).title = name := if_neg hname
      rw [htitle]
      exact logFile_of_ne hname

theorem file_eq_iff (a b : Access) : a.file = b.file ↔ Alike a.owner.title b.owner.title := by
  rw [Access.file, Access.file, Owner.logFile_keyName, Owner.logFile_keyName, List.append_left_inj,
    map_safeChar_eq_iff]

theorem write_apply (opens : Text → Bool) (e : Stamp × Access) (files : Text → Text) (F : Text) :
    write opens e.1 e.2.owner.keyName e.2.event e.2.fields files F =
      files F ++ if e.2.file = F ∧ opens F then body e ++ ['\n'] else [] := by
  rw [write]
  change (ite (opens e.2.file = true) _ _ : Text → Text) F = _
  by_cases hfile : e.2.file = F
  · subst hfile
    by_cases hopen : opens e.2.file = true
    · rw [if_pos hopen, if_pos ⟨rfl, hopen⟩]
      exact Function.update_self _ _ _
    · rw [if_neg hopen, if_neg fun h => hopen h.2, List.append_nil]
  · have hother : F ≠ logFile e.2.owner.keyName := Ne.symm hfile
    rw [if_neg (c := e.2.file = F ∧ opens F = true) fun h => hfile h.1, List.append_nil]
    split_ifs
    · exact Function.update_of_ne hother _ _
    · rfl

/-- A file has the lines of its own accesses if it can be opened. -/
theorem logs_eq (opens : Text → Bool) (es : List (Stamp × Access)) (F : Text) :
    logs opens es F =
      writeLines '\n' ((es.filter fun e => e.2.file = F ∧ opens F).map body) := by
  induction es using List.reverseRecOn with
  | nil => rfl
  | append_singleton es e ih =>
    have hstep : logs opens (es ++ [e]) =
        write opens e.1 e.2.owner.keyName e.2.event e.2.fields (logs opens es) := by
      rw [logs, List.foldl_append]
      rfl
    rw [hstep, write_apply, List.filter_append, List.map_append, writeLines, List.flatMap_append,
      ← writeLines, ← ih]
    congr 1
    by_cases hfile : e.2.file = F ∧ opens F = true
    · simp [hfile]
    · simp [hfile]

/-- In a file that can be opened the lines are the accesses exactly when each of them is tidy. -/
theorem lines_iff {opens : Text → Bool} {es : List (Stamp × Access)} {F : Text}
    (h : ∀ e ∈ es, FixedWords e.2) (hopen : opens F = true) :
    (readLines '\n' (logs opens es F)).map readLine =
        ((es.filter fun e => e.2.file = F).map fun e => some (e.2.reading e.1)) ↔
      ∀ e ∈ es, e.2.file = F → Tidy e.2 := by
  have hfilter : (es.filter fun e => e.2.file = F ∧ opens F) = es.filter fun e => e.2.file = F := by
    simp [hopen]
  rw [logs_eq, hfilter, map_readLines_iff]
  simp only [List.mem_filter, decide_eq_true_eq, and_imp]
  apply forall₂_congr
  intro e he
  rw [readLine_iff (h e he)]

theorem integrity_iff {opens : Text → Bool} {es : List (Stamp × Access)}
    (h : ∀ e ∈ es, FixedWords e.2) : Integrity opens es ↔ Condition opens es := by
  constructor
  · rintro ⟨hlines, hapart⟩
    have hopen : ∀ e ∈ es, opens e.2.file = true := by
      intro e he
      by_contra hclosed
      have hnil := hlines e.2.file
      have hempty : (es.filter fun e' => e'.2.file = e.2.file ∧ opens e.2.file) = [] := by
        simp [hclosed]
      rw [logs_eq, hempty, List.map_nil, eq_comm, readLines_writeLines, List.flatMap_nil,
        List.map_nil, List.map_eq_nil_iff, List.filter_eq_nil_iff] at hnil
      exact hnil e he (by simp)
    refine ⟨hopen, ?_, ?_⟩
    · intro e he
      exact (lines_iff h (hopen e he)).mp (hlines e.2.file) e he rfl
    · intro e he e' he' hne hlike
      exact hne (hapart e he e' he' ((file_eq_iff e.2 e'.2).mpr hlike))
  · intro hc
    constructor
    · intro F
      by_cases hF : opens F = true
      · exact (lines_iff h hF).mpr fun e he _ => hc.tidy e he
      · have hnone : (es.filter fun e => e.2.file = F) = [] := by
          rw [List.filter_eq_nil_iff]
          intro e he hfile
          obtain rfl := of_decide_eq_true hfile
          exact hF (hc.open_files e he)
        have hempty : (es.filter fun e => e.2.file = F ∧ opens F) = [] := by
          simp [hF]
        rw [logs_eq, hempty, hnone]
        rfl
    · intro e he e' he' hfile
      by_contra hne
      exact hc.apart e he e' he' hne ((file_eq_iff e.2 e'.2).mp hfile)

end Files

/-- The logs are those of the accesses exactly when the condition holds. -/
theorem access_log_iff (opens : Text → Bool) (callers : List (Stamp × Caller)) :
    Integrity opens (accesses callers) ↔ Condition opens (accesses callers) := by
  apply integrity_iff
  intro e he
  obtain ⟨c, -, hc⟩ := List.mem_filterMap.mp he
  obtain ⟨a, ha, rfl⟩ := Option.map_eq_some_iff.mp hc
  exact fixedWords_access ha

section Run

def noon : Stamp := ⟨"2026-05-01T12:00:00".toList, by simp⟩

/-- A remote session without a key, whose client id has a line of its own in it. -/
def forger : KeyAuth.Session where
  remoteAddress := some "10.0.0.7".toList
  clientId := some "x\n2026-05-01T12:00:01 event=mqtt_connect key=alice client_id=a".toList
  username := none

/-- The one rejected attempt is read as two accesses, the second of them with the key of alice. -/
theorem forged_entry :
    ¬ Integrity KeyAuth.shortNames (accesses [(noon, .connect (fun _ => some true) [] forger)]) := by
  rintro ⟨hlines, -⟩
  have hlength := congrArg List.length (hlines "auth_fail.log".toList)
  exact absurd hlength (by decide +kernel)

example :
    let es := accesses [(noon, .connect (fun _ => some true) [] forger)]
    es.map (·.2.owner) = [.rejected] ∧
      ((readLines '\n' (logs KeyAuth.shortNames es "auth_fail.log".toList)).filterMap readLine).map
        (·.keyName) = [[], "alice".toList] := by
  decide +kernel

end Run

end AtNode.AccessLog
