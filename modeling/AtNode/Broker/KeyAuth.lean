import Mathlib.Data.List.Induction
import Mathlib.Data.List.Nodup
import AtNode.Broker.Manage
import AtNode.Broker.ManageAcl

/-!
# Whom the keys of the broker let in

The management service adds, revokes, enables and removes keys; a remote session is let in when the
user name it presents is an active key. Both write a line to a log that is named after the record,
and a file that cannot be opened raises, in the service after the table was changed.

A key is in force when it was added, has not been removed since and its latest status is active. It
is proved that the service changes exactly the record its argument denotes, and when the keys in
force are those that let a remote session in.
-/

namespace AtNode.KeyAuth

open Manage PyText Run

section Log

structure Entry where
  file : Text
  event : Text
  name : Text
  fields : List (Text × Text)
  deriving DecidableEq

def safeChar (c : Char) : Char :=
  if c.isAlphanum ∨ c = '_' ∨ c = '.' ∨ c = '-' then c else '_'

def logFile (keyName : Text) : Text :=
  let safe := keyName.map safeChar
  (if safe = [] then "auth_fail".toList else safe) ++ ".log".toList

/-- `AccessLog.write`; `opens` says of a file whether the system opens it for appending. -/
def write (opens : Text → Bool) (keyName event : Text) (fields : List (Text × Text)) :
    Option Entry :=
  if opens (logFile keyName) then
    some ⟨logFile keyName, event, if keyName = [] then ['-'] else keyName, fields⟩
  else none

end Log

section Service

def hexDigit (d : UInt8) : Char :=
  Char.ofNat (if d < 10 then 48 + d.toNat else 87 + d.toNat)

/-- `secrets.token_hex(16)` of the bytes that were drawn. -/
def tokenHex (drawn : Fin 16 → UInt8) : Text :=
  (List.ofFn drawn).flatMap fun (b : UInt8) => [hexDigit (b >>> 4), hexDigit (b &&& 0xF)]

inductive Op where
  | add (name : Text) (drawn : Fin 16 → UInt8) (now : Text)
  | revoke (arg now : Text)
  | enable (arg now : Text)
  | remove (arg : Text)

/-- `_exec` without its log lines. -/
def Op.exec (ks : KeyStore) : Op → Option (KeyStore × Body)
  | .add name drawn now => Manage.exec ks "add".toList name (tokenHex drawn) now
  | .revoke arg now => Manage.exec ks "revoke".toList arg [] now
  | .enable arg now => Manage.exec ks "enable".toList arg [] now
  | .remove arg => Manage.exec ks "remove".toList arg [] []

/-- The name and the event that `_exec` logs before it returns. -/
def logged : Body → Option (Text × Text)
  | .added _ name => some (name, "key_add".toList)
  | .status _ name .revoked => some (name, "key_revoke".toList)
  | .status _ name .active => some (name, "key_enable".toList)
  | .removed row => some (row.name, "key_remove".toList)
  | _ => none

/-- The table after a command, and the response unless something was raised. -/
structure Executed where
  store : KeyStore
  reply : Option Body

def perform (opens : Text → Bool) (ks : KeyStore) (op : Op) : Executed :=
  match op.exec ks with
  | none => ⟨ks, none⟩
  | some (ks', body) =>
    ⟨ks', match logged body with
      | none => some body
      | some (name, event) => (write opens name event []).map fun _ => body⟩

def KeyStore.valid (ks : KeyStore) (key : Text) : Option Row :=
  if key = [] then none else (ks.get key).filter fun rec => rec.status = .active

structure Session where
  remoteAddress : Option Text
  clientId : Option Text
  username : Option Text

/-- `authenticate`: the answer with the line it logs, or nothing if it raises. `base` is what the
method of the base class answers. -/
def authenticate (opens : Text → Bool) (base : Session → Option Bool) (ks : KeyStore)
    (session : Session) : Option (Bool × Option Entry) :=
  if base session = some false then some (false, none)
  else
    let host := session.remoteAddress.getD []
    let cid := session.clientId.getD []
    let username := session.username.getD []
    let fields := [("client_id".toList, cid), ("ip".toList, host)]
    if host ∈ ManageAcl.localHosts then
      (write opens "local".toList "mqtt_connect".toList fields).map fun e => (true, some e)
    else
      match KeyStore.valid ks username with
      | some rec => (write opens rec.name "mqtt_connect".toList fields).map fun e => (true, some e)
      | none =>
        (write opens [] "mqtt_connect_deny".toList
          (fields ++ [("tried_key".toList, username.take 8)])).map fun e => (false, some e)

end Service

section Law

/-- The argument is the key of the record, or no key but the name of this record alone. -/
def Denotes (ks : KeyStore) (arg k : Text) : Prop :=
  ∃ row ∈ ks, row.key = k ∧
    (k = arg ∨ (∀ r ∈ ks, r.key ≠ arg) ∧ row.name = arg ∧ ∀ r ∈ ks, r.name = arg → r = row)

instance (ks : KeyStore) (arg k : Text) : Decidable (Denotes ks arg k) :=
  inferInstanceAs (Decidable (∃ row ∈ ks, _))

def Adds (ks : KeyStore) (k : Text) : Op → Prop
  | .add name drawn _ => name ≠ [] ∧ tokenHex drawn = k ∧ ∀ row ∈ ks, row.key ≠ k
  | _ => False

def Removes (ks : KeyStore) (k : Text) : Op → Prop
  | .remove arg => Denotes ks arg k
  | _ => False

def newStatus (ks : KeyStore) (k : Text) (op : Op) (status : Status) : Status :=
  match op with
  | .revoke arg _ => if Denotes ks arg k then .revoked else status
  | .enable arg _ => if Denotes ks arg k then .active else status
  | _ => status

/-- The table after a command; it is the same whether its log line is written or raises. -/
def step (ks : KeyStore) (op : Op) : KeyStore := ((op.exec ks).map (·.1)).getD ks

/-- The latest status of a key that had `status` before. -/
def latestStatus (k : Text) : KeyStore → List Op → Status → Status
  | _, [], status => status
  | ks, op :: ops, status =>
    latestStatus k (step ks op) ops (newStatus ks k op status)

/-- The key was added, has not been removed since, and its latest status is `status`. -/
def HasStatus (ops : List Op) (k : Text) (status : Status) : Prop :=
  ∃ pre op post, ops = pre ++ op :: post ∧ Adds (final step [] pre) k op ∧
    Along step (fun ks op => ¬ Removes ks k op) (final step [] (pre ++ [op])) post ∧
    latestStatus k (final step [] (pre ++ [op])) post .active = status

/-- What `revoke`, `enable` and `remove` make of the record they act on. -/
def Op.effect (row : Row) : Op → Option Row
  | .revoke _ now => some { row with status := .revoked, revokedAt := some now }
  | .enable _ _ => some { row with status := .active, revokedAt := none }
  | .remove _ => none
  | .add _ _ _ => some row

def Op.arg : Op → Option Text
  | .revoke arg _ | .enable arg _ | .remove arg => some arg
  | .add _ _ _ => none

def Failed : Body → Prop
  | .usage _ | .notFound | .unknownOp _ => True
  | _ => False

/-- At most one record is denoted; the operation acts on it alone, or changes nothing and says so. -/
def ActsOnDenoted (ks : KeyStore) (op : Op) : Prop :=
  ∀ arg, op.arg = some arg →
    (∀ k k', Denotes ks arg k → Denotes ks arg k' → k = k') ∧
    (∀ k row, Denotes ks arg k → ks.get k = some row →
      ∀ opens, (perform opens ks op).store.get k = op.effect row ∧
        ∀ k', k' ≠ k → (perform opens ks op).store.get k' = ks.get k') ∧
    ((∀ k, ¬ Denotes ks arg k) → ∀ opens,
      (perform opens ks op).store = ks ∧ ∃ body, (perform opens ks op).reply = some body ∧ Failed body)

variable (opens : Text → Bool)

def LetIn (base : Session → Option Bool) (ks : KeyStore) (session : Session) : Prop :=
  (authenticate opens base ks session).map (·.1) = some true

/-- The store does as it is told, and the session is let in when its key is in force. -/
def KeyLaw (base : Session → Option Bool) (ops : List Op) (session : Session) : Prop :=
  Along step ActsOnDenoted [] ops ∧
    (LetIn opens base (final step [] ops) session ↔
      ∃ k, session.username = some k ∧ HasStatus ops k .active)

/-- The log of an active record with the key of the session can be opened. -/
def LogOpens (ops : List Op) (session : Session) : Prop :=
  ∀ row ∈ final step [] ops, session.username = some row.key → row.status = .active →
    opens (logFile row.name) = true

end Law

section Table

variable {ks : KeyStore} {arg k : Text} {row rec : Row}

/-- The table is a map, and neither a key nor a name is empty. -/
structure TableInv (ks : KeyStore) : Prop where
  once : (ks.map (·.key)).Nodup
  key_ne : ∀ row ∈ ks, row.key ≠ []
  name_ne : ∀ row ∈ ks, row.name ≠ []

theorem tableInv_nil : TableInv [] := ⟨List.nodup_nil, by simp, by simp⟩

theorem TableInv.eq_of_key (h : TableInv ks) {a b : Row} (ha : a ∈ ks) (hb : b ∈ ks)
    (heq : a.key = b.key) : a = b := List.inj_on_of_nodup_map h.once ha hb heq

theorem TableInv.get_eq_some_iff (h : TableInv ks) :
    ks.get k = some row ↔ row ∈ ks ∧ row.key = k := by
  unfold KeyStore.get
  constructor
  · intro hget
    exact ⟨List.mem_of_find?_eq_some hget, by simpa using List.find?_some hget⟩
  · rintro ⟨hmem, rfl⟩
    cases hf : ks.find? fun r => r.key = row.key with
    | none =>
      have hno := List.find?_eq_none.mp hf row hmem
      simp at hno
    | some r =>
      have hkey : r.key = row.key := by simpa using List.find?_some hf
      rw [h.eq_of_key (List.mem_of_find?_eq_some hf) hmem hkey]

theorem get_eq_none_iff : ks.get k = none ↔ ∀ row ∈ ks, row.key ≠ k := by
  unfold KeyStore.get
  simp

theorem filter_eq_singleton {α : Type*} {p : α → Bool} {l : List α} (hl : l.Nodup) {a : α} :
    l.filter p = [a] ↔ a ∈ l ∧ p a = true ∧ ∀ b ∈ l, p b = true → b = a := by
  constructor
  · intro h
    have hmem : ∀ b, b ∈ l ∧ p b = true ↔ b = a := by
      intro b
      rw [← List.mem_filter, h, List.mem_singleton]
    exact ⟨((hmem a).mpr rfl).1, ((hmem a).mpr rfl).2, fun b hb hp => (hmem b).mp ⟨hb, hp⟩⟩
  · rintro ⟨ha, hp, honly⟩
    apply List.Perm.eq_singleton
    rw [List.perm_ext_iff_of_nodup (hl.filter p) (List.nodup_singleton a)]
    intro b
    rw [List.mem_filter, List.mem_singleton]
    constructor
    · intro hb
      exact honly b hb.1 hb.2
    · rintro rfl
      exact ⟨ha, hp⟩

theorem find_of_get_eq_none (hg : ks.get arg = none) :
    ks.find arg = some row ↔ ks.filter (·.name = arg) = [row] := by
  unfold KeyStore.find
  rw [hg]
  simp only
  split <;> simp_all

theorem TableInv.find_eq_some_iff (h : TableInv ks) :
    ks.find arg = some row ↔ row ∈ ks ∧ Denotes ks arg row.key := by
  have hnodup : ks.Nodup := List.Nodup.of_map _ h.once
  cases hg : ks.get arg with
  | some r =>
    obtain ⟨hr, rfl⟩ := h.get_eq_some_iff.mp hg
    rw [KeyStore.find, hg, Denotes]
    constructor
    · intro heq
      obtain rfl := Option.some.inj heq
      exact ⟨hr, r, hr, rfl, Or.inl rfl⟩
    · rintro ⟨hrow, row', hrow', hkey, heq | ⟨hno, -⟩⟩
      · rw [h.eq_of_key hr hrow heq.symm]
      · exact absurd rfl (hno r hr)
  | none =>
    have hno := get_eq_none_iff.mp hg
    have hone := filter_eq_singleton (p := fun r => r.name = arg) hnodup (a := row)
    simp only [decide_eq_true_eq] at hone
    rw [find_of_get_eq_none hg, hone, Denotes]
    constructor
    · rintro ⟨hrow, hname, honly⟩
      exact ⟨hrow, row, hrow, rfl, Or.inr ⟨hno, hname, honly⟩⟩
    · rintro ⟨hrow, row', hrow', hkey, heq | ⟨-, hname, honly⟩⟩
      · exact absurd heq (hno row hrow)
      · obtain rfl := h.eq_of_key hrow' hrow hkey
        exact ⟨hrow, hname, honly⟩

theorem TableInv.find_eq_none (h : TableInv ks) (hno : ∀ k, ¬ Denotes ks arg k) :
    ks.find arg = none := by
  cases hf : ks.find arg with
  | none => rfl
  | some row => exact absurd (h.find_eq_some_iff.mp hf).2 (hno row.key)

theorem TableInv.denotes_unique (h : TableInv ks) {k k' : Text} (hk : Denotes ks arg k)
    (hk' : Denotes ks arg k') : k = k' := by
  obtain ⟨row, hrow, rfl, -⟩ := id hk
  obtain ⟨row', hrow', rfl, -⟩ := id hk'
  have hfind := h.find_eq_some_iff.mpr ⟨hrow, hk⟩
  rw [h.find_eq_some_iff.mpr ⟨hrow', hk'⟩] at hfind
  rw [Option.some.inj hfind]

theorem TableInv.arg_ne (h : TableInv ks) (hd : Denotes ks arg k) : arg ≠ [] := by
  obtain ⟨row, hrow, rfl, rfl | ⟨-, rfl, -⟩⟩ := hd
  · exact h.key_ne row hrow
  · exact h.name_ne row hrow

end Table

section Operations

variable {ks : KeyStore} {arg k now : Text} {row : Row} {op : Op}

def Op.applied (ks : KeyStore) (rec : Row) : Op → KeyStore
  | .revoke _ now =>
    ks.map fun row =>
      if row.key = rec.key then { row with status := .revoked, revokedAt := some now } else row
  | .enable _ _ =>
    ks.map fun row =>
      if row.key = rec.key then { row with status := .active, revokedAt := none } else row
  | .remove _ => ks.filter (·.key ≠ rec.key)
  | .add _ _ _ => ks

/-- An operation on a record refuses an empty argument, looks the record up and acts on it. -/
theorem Op.exec_of_arg (harg : op.arg = some arg) :
    ∃ usage, ∃ done : Row → Body, Failed usage ∧ logged usage = none ∧ op.exec ks =
      some (if arg = [] then (ks, usage)
        else (ks.find arg).elim (ks, .notFound) fun row => (op.applied ks row, done row)) := by
  cases op with
  | add name drawn now => simp [Op.arg] at harg
  | revoke a now =>
    obtain rfl := Option.some.inj harg
    refine ⟨.usage "revoke".toList, fun row => .status row.key row.name .revoked, trivial, rfl, ?_⟩
    by_cases ha : a = [] <;> cases hf : ks.find a <;>
      simp [Op.exec, Manage.exec, KeyStore.setStatus, ha, hf, Op.applied]
  | enable a now =>
    obtain rfl := Option.some.inj harg
    refine ⟨.usage "enable".toList, fun row => .status row.key row.name .active, trivial, rfl, ?_⟩
    by_cases ha : a = [] <;> cases hf : ks.find a <;>
      simp [Op.exec, Manage.exec, KeyStore.setStatus, ha, hf, Op.applied]
  | remove a =>
    obtain rfl := Option.some.inj harg
    refine ⟨.usage "remove".toList, .removed, trivial, rfl, ?_⟩
    by_cases ha : a = [] <;> cases hf : ks.find a <;>
      simp [Op.exec, Manage.exec, KeyStore.remove, ha, hf, Op.applied]

theorem Op.exec_found (harg : op.arg = some arg) (hne : arg ≠ []) (hf : ks.find arg = some row) :
    ∃ body, op.exec ks = some (op.applied ks row, body) := by
  obtain ⟨usage, done, -, -, he⟩ := Op.exec_of_arg harg
  rw [he, if_neg hne, hf]
  exact ⟨done row, rfl⟩

theorem Op.exec_missing (harg : op.arg = some arg) (hf : arg = [] ∨ ks.find arg = none) :
    ∃ body, op.exec ks = some (ks, body) ∧ Failed body ∧ logged body = none := by
  obtain ⟨usage, done, hfailed, hlogged, he⟩ := Op.exec_of_arg harg
  by_cases hne : arg = []
  · rw [he, if_pos hne]
    exact ⟨usage, rfl, hfailed, hlogged⟩
  · rw [he, if_neg hne, hf.resolve_left hne]
    exact ⟨.notFound, rfl, trivial, rfl⟩

theorem get_map_update (ks : KeyStore) (key k : Text) {f : Row → Row} (hf : ∀ r, (f r).key = r.key) :
    KeyStore.get (ks.map fun r => if r.key = key then f r else r) k =
      (ks.get k).map fun r => if k = key then f r else r := by
  unfold KeyStore.get
  have hcomp : ((fun r : Row => decide (r.key = k)) ∘ fun r => if r.key = key then f r else r) =
      fun r => decide (r.key = k) := by
    funext r
    by_cases hr : r.key = key
    · simp [hr, hf]
    · simp [hr]
  rw [List.find?_map, hcomp]
  cases hfind : ks.find? fun r => r.key = k with
  | none => rfl
  | some r =>
    have hr : r.key = k := by simpa using List.find?_some hfind
    simp [hr]

theorem get_filter_ne (ks : KeyStore) (key k : Text) :
    KeyStore.get (ks.filter (·.key ≠ key)) k = if k = key then none else ks.get k := by
  unfold KeyStore.get
  rw [List.find?_filter]
  by_cases hk : k = key
  · rw [if_pos hk, List.find?_eq_none]
    intro r _
    simp [hk]
  · rw [if_neg hk]
    congr 1
    funext r
    by_cases hr : r.key = k
    · simp [hr, hk]
    · simp [hr]

theorem TableInv.get_applied (h : TableInv ks) (hrow : row ∈ ks) (harg : op.arg = some arg)
    (k : Text) :
    KeyStore.get (op.applied ks row) k = if k = row.key then op.effect row else ks.get k := by
  have hget : ks.get row.key = some row := h.get_eq_some_iff.mpr ⟨hrow, rfl⟩
  cases op with
  | add name drawn now => simp [Op.arg] at harg
  | revoke a now =>
    unfold Op.applied Op.effect
    rw [get_map_update]
    · by_cases hk : k = row.key
      · simp [hk, hget]
      · simp [hk]
    · exact fun r => rfl
  | enable a now =>
    unfold Op.applied Op.effect
    rw [get_map_update]
    · by_cases hk : k = row.key
      · simp [hk, hget]
      · simp [hk]
    · exact fun r => rfl
  | remove a => exact get_filter_ne ks row.key k

theorem perform_store (opens : Text → Bool) (ks : KeyStore) (op : Op) :
    (perform opens ks op).store = step ks op := by
  unfold perform step
  cases op.exec ks with
  | none => rfl
  | some r => rfl

/-- An operation with an argument acts on the one record it denotes, or changes nothing. -/
theorem TableInv.step_cases (h : TableInv ks) (harg : op.arg = some arg) :
    (∃ row ∈ ks, Denotes ks arg row.key ∧ step ks op = op.applied ks row) ∨
      ((∀ k, ¬ Denotes ks arg k) ∧ step ks op = ks) := by
  by_cases hd : ∃ k, Denotes ks arg k
  · obtain ⟨k, hk⟩ := hd
    obtain ⟨row, hrow, rfl, -⟩ := id hk
    have hfind := h.find_eq_some_iff.mpr ⟨hrow, hk⟩
    obtain ⟨body, hexec⟩ := Op.exec_found harg (h.arg_ne hk) hfind
    exact Or.inl ⟨row, hrow, hk, by simp [step, hexec]⟩
  · have hno := not_exists.mp hd
    obtain ⟨body, hexec, -⟩ := Op.exec_missing harg (Or.inr (h.find_eq_none hno))
    exact Or.inr ⟨hno, by simp [step, hexec]⟩

theorem step_add (ks : KeyStore) (name : Text) (drawn : Fin 16 → UInt8) (now : Text) :
    step ks (.add name drawn now) =
      if name ≠ [] ∧ ∀ row ∈ ks, row.key ≠ tokenHex drawn then
        ks ++ [⟨tokenHex drawn, name, .active, now, none⟩]
      else ks := by
  by_cases hname : name = []
  · simp [step, Op.exec, Manage.exec, hname]
  · by_cases hk : ∀ row ∈ ks, row.key ≠ tokenHex drawn
    · have hany : ¬ ∃ row ∈ ks, row.key = tokenHex drawn := by
        simpa using hk
      rw [if_pos ⟨hname, hk⟩]
      simp [step, Op.exec, Manage.exec, KeyStore.add, hname, hany]
    · have hany : ∃ row ∈ ks, row.key = tokenHex drawn := by
        simpa using hk
      rw [if_neg fun h => hk h.2]
      simp [step, Op.exec, Manage.exec, KeyStore.add, hname, hany]

theorem tokenHex_ne (drawn : Fin 16 → UInt8) : tokenHex drawn ≠ [] := by
  simp [tokenHex, List.ofFn_succ]

theorem TableInv.map (h : TableInv ks) (key : Text) {f : Row → Row}
    (hf : ∀ r, (f r).key = r.key ∧ (f r).name = r.name) :
    TableInv (ks.map fun r => if r.key = key then f r else r) := by
  have hg : ∀ r, (if r.key = key then f r else r).key = r.key ∧
      (if r.key = key then f r else r).name = r.name := by
    intro r
    split_ifs
    · exact hf r
    · exact ⟨rfl, rfl⟩
  have hkeys : (ks.map fun r => if r.key = key then f r else r).map (·.key) = ks.map (·.key) := by
    rw [List.map_map]
    exact List.map_congr_left fun r _ => (hg r).1
  refine ⟨hkeys ▸ h.once, ?_, ?_⟩
  · intro row hrow
    obtain ⟨r, hr, rfl⟩ := List.mem_map.mp hrow
    rw [(hg r).1]
    exact h.key_ne r hr
  · intro row hrow
    obtain ⟨r, hr, rfl⟩ := List.mem_map.mp hrow
    rw [(hg r).2]
    exact h.name_ne r hr

theorem TableInv.applied (h : TableInv ks) (row : Row) (op : Op) :
    TableInv (op.applied ks row) := by
  cases op with
  | add name drawn now => exact h
  | revoke a now => exact h.map row.key fun r => ⟨rfl, rfl⟩
  | enable a now => exact h.map row.key fun r => ⟨rfl, rfl⟩
  | remove a =>
    have hsub : ∀ r ∈ ks.filter (·.key ≠ row.key), r ∈ ks := fun r hr => List.mem_of_mem_filter hr
    exact ⟨h.once.sublist (List.filter_sublist.map _), fun r hr => h.key_ne r (hsub r hr),
      fun r hr => h.name_ne r (hsub r hr)⟩

theorem TableInv.step (h : TableInv ks) (op : Op) : TableInv (step ks op) := by
  cases harg : op.arg with
  | some arg =>
    rcases h.step_cases harg with ⟨row, -, -, heq⟩ | ⟨-, heq⟩
    · rw [heq]
      exact h.applied row op
    · rw [heq]
      exact h
  | none =>
    cases op with
    | add name drawn now =>
      rw [step_add]
      split_ifs with hadd
      · obtain ⟨hname, hk⟩ := hadd
        refine ⟨?_, ?_, ?_⟩
        · rw [List.map_append, List.nodup_append]
          refine ⟨h.once, List.nodup_singleton _, ?_⟩
          intro a ha b hb
          obtain ⟨r, hr, rfl⟩ := List.mem_map.mp ha
          rw [List.mem_singleton.mp hb]
          exact hk r hr
        · intro r hr
          rcases List.mem_append.mp hr with hr | hr
          · exact h.key_ne r hr
          · rw [List.mem_singleton.mp hr]
            exact tokenHex_ne drawn
        · intro r hr
          rcases List.mem_append.mp hr with hr | hr
          · exact h.name_ne r hr
          · rw [List.mem_singleton.mp hr]
            exact hname
      · exact h
    | revoke a now => simp [Op.arg] at harg
    | enable a now => simp [Op.arg] at harg
    | remove a => simp [Op.arg] at harg

theorem TableInv.final (h : TableInv ks) (ops : List Op) : TableInv (final KeyAuth.step ks ops) := by
  induction ops generalizing ks with
  | nil => exact h
  | cons op ops ih => exact ih (h.step op)

/-- What the service does is what its argument denotes. -/
theorem TableInv.actsOnDenoted (h : TableInv ks) (op : Op) : ActsOnDenoted ks op := by
  intro arg harg
  refine ⟨fun k k' => h.denotes_unique, ?_, ?_⟩
  · intro k row hk hget opens
    rw [perform_store]
    obtain ⟨hrow, rfl⟩ := h.get_eq_some_iff.mp hget
    rcases h.step_cases harg with ⟨row', hrow', hd, heq⟩ | ⟨hno, -⟩
    · obtain rfl := h.eq_of_key hrow hrow' (h.denotes_unique hk hd)
      simp only [heq, h.get_applied hrow harg, if_true, true_and]
      intro k' hne
      rw [if_neg hne]
    · exact absurd hk (hno row.key)
  · intro hno opens
    obtain ⟨body, hexec, hfail, hlog⟩ := Op.exec_missing harg (Or.inr (h.find_eq_none hno))
    simp only [perform, hexec, hlog, true_and]
    exact ⟨body, rfl, hfail⟩

end Operations

section History

variable {ks : KeyStore} {k : Text} {op : Op}

/-- The status of a key in the table. -/
def statusOf (ks : KeyStore) (k : Text) : Option Status := (ks.get k).map (·.status)

theorem statusOf_eq_none_iff : statusOf ks k = none ↔ ∀ row ∈ ks, row.key ≠ k := by
  rw [statusOf, Option.map_eq_none_iff, get_eq_none_iff]

theorem TableInv.statusOf_eq_some_iff (h : TableInv ks) {st : Status} :
    statusOf ks k = some st ↔ ∃ row ∈ ks, row.key = k ∧ row.status = st := by
  simp only [statusOf, Option.map_eq_some_iff, h.get_eq_some_iff, and_assoc]

theorem get_append_of_ne (ks : KeyStore) {row : Row} (h : row.key ≠ k) :
    KeyStore.get (ks ++ [row]) k = ks.get k := by
  simp [KeyStore.get, List.find?_append, h]

theorem newStatus_of_not_denotes {arg : Text} (harg : op.arg = some arg) (hd : ¬ Denotes ks arg k) :
    ¬ Removes ks k op ∧ newStatus ks k op = id := by
  cases op with
  | add name drawn now => simp [Op.arg] at harg
  | revoke a now =>
    obtain rfl := Option.some.inj harg
    exact ⟨id, funext fun st => if_neg hd⟩
  | enable a now =>
    obtain rfl := Option.some.inj harg
    exact ⟨id, funext fun st => if_neg hd⟩
  | remove a =>
    obtain rfl := Option.some.inj harg
    exact ⟨hd, rfl⟩

theorem not_adds_of_arg {arg : Text} (harg : op.arg = some arg) : ¬ Adds ks k op := by
  cases op with
  | add name drawn now => simp [Op.arg] at harg
  | revoke a now => exact id
  | enable a now => exact id
  | remove a => exact id

theorem TableInv.statusOf_step (h : TableInv ks) (op : Op) (k : Text) :
    (Adds ks k op ∧ statusOf (KeyAuth.step ks op) k = some .active) ∨
    (Removes ks k op ∧ statusOf (KeyAuth.step ks op) k = none) ∨
    (¬ Adds ks k op ∧ ¬ Removes ks k op ∧
      statusOf (KeyAuth.step ks op) k = (statusOf ks k).map (newStatus ks k op)) := by
  cases harg : op.arg with
  | some arg =>
    have hadd : ¬ Adds ks k op := not_adds_of_arg harg
    rcases h.step_cases harg with ⟨row, hrow, hd, heq⟩ | ⟨hno, heq⟩
    · have hget := h.get_applied hrow harg k
      by_cases hk : k = row.key
      · subst hk
        have hrec : ks.get row.key = some row := h.get_eq_some_iff.mpr ⟨hrow, rfl⟩
        rw [if_pos rfl] at hget
        cases op with
        | add name drawn now => simp [Op.arg] at harg
        | revoke a now =>
          obtain rfl := Option.some.inj harg
          refine Or.inr (Or.inr ⟨hadd, id, ?_⟩)
          simp [statusOf, heq, hget, hrec, newStatus, hd, Op.effect]
        | enable a now =>
          obtain rfl := Option.some.inj harg
          refine Or.inr (Or.inr ⟨hadd, id, ?_⟩)
          simp [statusOf, heq, hget, hrec, newStatus, hd, Op.effect]
        | remove a =>
          obtain rfl := Option.some.inj harg
          refine Or.inr (Or.inl ⟨hd, ?_⟩)
          simp [statusOf, heq, hget, Op.effect]
      · have hnot : ¬ Denotes ks arg k := fun hd' => hk (h.denotes_unique hd' hd)
        obtain ⟨hrem, hid⟩ := newStatus_of_not_denotes harg hnot
        rw [if_neg hk] at hget
        refine Or.inr (Or.inr ⟨hadd, hrem, ?_⟩)
        rw [statusOf, heq, hget, hid, Option.map_id]
        rfl
    · obtain ⟨hrem, hid⟩ := newStatus_of_not_denotes harg (hno k)
      refine Or.inr (Or.inr ⟨hadd, hrem, ?_⟩)
      rw [heq, hid, Option.map_id]
      rfl
  | none =>
    cases op with
    | add name drawn now =>
      by_cases hadd : Adds ks k (.add name drawn now)
      · obtain ⟨hname, rfl, hnew⟩ := id hadd
        have hnone : KeyStore.get ks (tokenHex drawn) = none := get_eq_none_iff.mpr hnew
        refine Or.inl ⟨hadd, ?_⟩
        rw [step_add, if_pos ⟨hname, hnew⟩, statusOf]
        unfold KeyStore.get at hnone ⊢
        rw [List.find?_append, hnone]
        simp
      · refine Or.inr (Or.inr ⟨hadd, id, ?_⟩)
        have hid : newStatus ks k (.add name drawn now) = id := rfl
        rw [hid, Option.map_id, step_add]
        split_ifs with hc
        · have hne : tokenHex drawn ≠ k := by
            rintro rfl
            exact hadd ⟨hc.1, rfl, hc.2⟩
          rw [statusOf, get_append_of_ne ks hne]
          rfl
        · rfl
    | revoke a now => simp [Op.arg] at harg
    | enable a now => simp [Op.arg] at harg
    | remove a => simp [Op.arg] at harg

theorem TableInv.statusOf_final (h : TableInv ks) {ops : List Op} {st : Status}
    (hst : statusOf ks k = some st)
    (hkept : Along KeyAuth.step (fun ks op => ¬ Removes ks k op) ks ops) :
    statusOf (Run.final KeyAuth.step ks ops) k = some (latestStatus k ks ops st) := by
  induction ops generalizing ks st with
  | nil => exact hst
  | cons op ops ih =>
    refine ih (h.step op) ?_ hkept.2
    rcases h.statusOf_step op k with ⟨hadd, -⟩ | ⟨hrem, -⟩ | ⟨-, -, heq⟩
    · have hnone : statusOf ks k = none := by
        cases op with
        | add name drawn now => exact statusOf_eq_none_iff.mpr hadd.2.2
        | revoke a now => exact hadd.elim
        | enable a now => exact hadd.elim
        | remove a => exact hadd.elim
      exact absurd (hnone.symm.trans hst) nofun
    · exact absurd hrem hkept.1
    · rw [heq, hst]
      rfl

theorem latestStatus_append (k : Text) (ks : KeyStore) (as bs : List Op) (st : Status) :
    latestStatus k ks (as ++ bs) st =
      latestStatus k (final step ks as) bs (latestStatus k ks as st) := by
  induction as generalizing ks st with
  | nil => rfl
  | cons a as ih => exact ih _ _

theorem hasStatus_snoc_of_adds {ops : List Op} (h : Adds (final step [] ops) k op) :
    HasStatus (ops ++ [op]) k .active :=
  ⟨ops, op, [], rfl, h, trivial, rfl⟩

theorem HasStatus.snoc {ops : List Op} {st : Status} (h : HasStatus ops k st)
    (hr : ¬ Removes (final step [] ops) k op) :
    HasStatus (ops ++ [op]) k (newStatus (final step [] ops) k op st) := by
  obtain ⟨pre, o, post, rfl, hadd, hkept, rfl⟩ := h
  refine ⟨pre, o, post ++ [op], by simp, hadd, ?_, ?_⟩
  · rw [along_append]
    refine ⟨hkept, ?_, trivial⟩
    rw [← final_append]
    simpa using hr
  · rw [latestStatus_append, ← final_append]
    simp [latestStatus]

/-- The table has the status that the history gives the key. -/
theorem statusOf_eq_some_iff (ops : List Op) (k : Text) (st : Status) :
    statusOf (final step [] ops) k = some st ↔ HasStatus ops k st := by
  constructor
  · induction ops using List.reverseRecOn generalizing st with
    | nil =>
      intro h
      simp [statusOf, KeyStore.get] at h
    | append_singleton ops op ih =>
      intro h
      rw [final_append] at h
      have hinv := tableInv_nil.final ops
      rcases hinv.statusOf_step op k with ⟨hadd, hst⟩ | ⟨-, hst⟩ | ⟨-, hr, hst⟩
      · obtain rfl : Status.active = st := Option.some.inj (hst.symm.trans h)
        exact hasStatus_snoc_of_adds hadd
      · exact absurd (hst.symm.trans h) nofun
      · obtain ⟨st', hst', rfl⟩ := Option.map_eq_some_iff.mp (hst.symm.trans h)
        exact (ih st' hst').snoc hr
  · rintro ⟨pre, op, post, rfl, hadd, hkept, rfl⟩
    have hinv := tableInv_nil.final (pre ++ [op])
    have hadded : statusOf (final step [] (pre ++ [op])) k = some .active := by
      rw [final_append]
      rcases (tableInv_nil.final pre).statusOf_step op k with ⟨-, hst⟩ | ⟨hrem, -⟩ | ⟨hno, -⟩
      · exact hst
      · cases op with
        | add name drawn now => exact hrem.elim
        | revoke a now => exact hrem.elim
        | enable a now => exact hrem.elim
        | remove a => exact hadd.elim
      · exact absurd hadd hno
    have hfinal := hinv.statusOf_final hadded hkept
    rw [← final_append, List.append_assoc] at hfinal
    exact hfinal

end History

section Authentication

variable {opens : Text → Bool} {base : Session → Option Bool} {ks : KeyStore} {session : Session}

theorem logged_eq_true_iff (answer : Bool) (keyName event : Text) (fields : List (Text × Text)) :
    (((write opens keyName event fields).map fun e => (answer, some e)).map (·.1) = some true) ↔
      answer = true ∧ opens (logFile keyName) = true := by
  unfold write
  split_ifs with h <;> simp [h]

theorem TableInv.valid_eq_some_iff (h : TableInv ks) {key : Text} {rec : Row} :
    KeyStore.valid ks key = some rec ↔ rec ∈ ks ∧ rec.key = key ∧ rec.status = .active := by
  unfold KeyStore.valid
  by_cases hkey : key = []
  · rw [if_pos hkey]
    constructor
    · intro hnone
      exact absurd hnone nofun
    · rintro ⟨hrec, heq, -⟩
      exact absurd (heq.trans hkey) (h.key_ne rec hrec)
  · rw [if_neg hkey, Option.filter_eq_some_iff, h.get_eq_some_iff, decide_eq_true_eq, and_assoc]

/-- A remote session is let in by an active record whose log can be opened. -/
theorem TableInv.letIn_iff (h : TableInv ks) (hbase : base session ≠ some false)
    (hremote : session.remoteAddress.getD [] ∉ ManageAcl.localHosts) :
    LetIn opens base ks session ↔
      ∃ rec ∈ ks, session.username = some rec.key ∧ rec.status = .active ∧
        opens (logFile rec.name) = true := by
  unfold LetIn authenticate
  rw [if_neg hbase]
  simp only [if_neg hremote]
  cases hv : KeyStore.valid ks (session.username.getD []) with
  | none =>
    simp only [logged_eq_true_iff, Bool.false_eq_true, false_and, false_iff]
    rintro ⟨rec, hrec, huser, hactive, -⟩
    rw [huser, Option.getD_some] at hv
    exact absurd (hv.symm.trans (h.valid_eq_some_iff.mpr ⟨hrec, rfl, hactive⟩)) nofun
  | some rec =>
    obtain ⟨hrec, hkey, hactive⟩ := h.valid_eq_some_iff.mp hv
    have huser : session.username = some rec.key := by
      cases hu : session.username with
      | none => exact absurd (by simpa [hu] using hkey) (h.key_ne rec hrec)
      | some k => simpa [hu] using hkey.symm
    simp only [logged_eq_true_iff, true_and]
    constructor
    · intro hopens
      exact ⟨rec, hrec, huser, hactive, hopens⟩
    · rintro ⟨rec', hrec', huser', -, hopens⟩
      obtain rfl := h.eq_of_key hrec hrec' (Option.some.inj (huser.symm.trans huser'))
      exact hopens

end Authentication

/-- The store does as it is told in every run; a session is let in as its key says exactly when the
log of its record can be opened. -/
theorem key_law_iff (opens : Text → Bool) (base : Session → Option Bool) (ops : List Op)
    (session : Session) (hbase : base session ≠ some false)
    (hremote : session.remoteAddress.getD [] ∉ ManageAcl.localHosts) :
    KeyLaw opens base ops session ↔ LogOpens opens ops session := by
  have hinv := tableInv_nil.final ops
  have hacts : Along step ActsOnDenoted [] ops :=
    along_of_step (I := TableInv) (fun ks op h => h.step op) (fun ks op h => h.actsOnDenoted op)
      tableInv_nil
  have hstatus : (∃ k, session.username = some k ∧ HasStatus ops k .active) ↔
      ∃ rec ∈ final step [] ops, session.username = some rec.key ∧ rec.status = .active := by
    simp only [← statusOf_eq_some_iff, hinv.statusOf_eq_some_iff]
    constructor
    · rintro ⟨k, hk, rec, hrec, rfl, hactive⟩
      exact ⟨rec, hrec, hk, hactive⟩
    · rintro ⟨rec, hrec, hk, hactive⟩
      exact ⟨rec.key, hk, rec, hrec, rfl, hactive⟩
  unfold KeyLaw LogOpens
  rw [hinv.letIn_iff hbase hremote, hstatus]
  constructor
  · rintro ⟨-, hiff⟩ rec hrec huser hactive
    obtain ⟨rec', hrec', huser', -, hopens⟩ := hiff.mpr ⟨rec, hrec, huser, hactive⟩
    obtain rfl := hinv.eq_of_key hrec hrec' (Option.some.inj (huser.symm.trans huser'))
    exact hopens
  · intro hopens
    refine ⟨hacts, ?_, ?_⟩
    · rintro ⟨rec, hrec, huser, hactive, -⟩
      exact ⟨rec, hrec, huser, hactive⟩
    · rintro ⟨rec, hrec, huser, hactive⟩
      exact ⟨rec, hrec, huser, hactive, hopens rec hrec huser hactive⟩

section Run

def shortNames (file : Text) : Bool := file.length ≤ 255

def drawn : Fin 16 → UInt8 := fun i => UInt8.ofNat i

def presented : Session := ⟨some "10.0.0.7".toList, some "dev".toList, some (tokenHex drawn)⟩

theorem key_law_alice :
    (fun _ : Session => some true) presented ≠ some false ∧
      presented.remoteAddress.getD [] ∉ ManageAcl.localHosts ∧
      (KeyLaw shortNames (fun _ => some true) [.add "alice".toList drawn []] presented ↔
        LogOpens shortNames [.add "alice".toList drawn []] presented) :=
  ⟨by decide, by decide, key_law_iff shortNames (fun _ => some true)
    [.add "alice".toList drawn []] presented (by decide) (by decide)⟩

/-- An active key of a name with 252 letters lets nobody in. -/
theorem long_name_is_locked_out :
    ¬ KeyLaw shortNames (fun _ => some true) [.add (List.replicate 252 'a') drawn []] presented := by
  rintro ⟨-, hiff⟩
  have hin := hiff.mpr ⟨tokenHex drawn, rfl, [], _, [], rfl, ⟨by decide, rfl, nofun⟩, trivial, rfl⟩
  exact absurd hin (by unfold LetIn; decide +kernel)

end Run

end AtNode.KeyAuth
