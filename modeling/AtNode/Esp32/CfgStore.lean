import AtNode.Lib.Run
import AtNode.Esp32.Bond
import AtNode.Esp32.CfgBus

/-!
# The configuration registry over reboots

`set` stores a value in the flash map and in the cache, `init` fills the cache from the map, and
`erase_all` empties both. The map reads back what was last stored under a key; what it holds at the
first boot is arbitrary.

The abstract registry is the value of each key that was set since the last erasure. It is changed by
the calls that succeed and by nothing else. The cache follows it over every run, so a value is read
until a successful call replaces it, on either side of a reboot.
-/

namespace AtNode.CfgStore

open Config PubSub TunnelSwitch CfgBus

abbrev Mac := Vector UInt8 6

structure Device where
  mac : Mac
  flash : Key → Option (List UInt8)
  cfg : Cfg
  changed : Channel Subscriber Key

section Model

/-- The cache that `init` makes of the flash map. -/
def load (mac : Mac) (flash : Key → Option (List UInt8)) : Cfg where
  table k :=
    match flash k with
    | some bytes => if bytes.length < valMax then some ((Utf8.decode bytes).getD []) else none
    | none => none
  defName := "AT-Node-ESP-".toList ++ Bond.byteHexUpper mac[4] ++ Bond.byteHexUpper mac[5]
  defHostname := "atnodeesp-".toList ++ Bond.byteHex mac[4] ++ Bond.byteHex mac[5]

def boot (mac : Mac) (flash : Key → Option (List UInt8)) : Device := ⟨mac, flash, load mac flash, .empty⟩

def Device.set (d : Device) (c : Call) : Except Error Unit × Device :=
  match tableDef.find? (fun k => k.name = c.key) with
  | none => (.error .unknownKey, d)
  | some k =>
    match validate k c.val with
    | .error e => (.error e, d)
    | .ok normalized =>
      if c.flash then
        (.ok (), { d with
          flash := Function.update d.flash k (some (Utf8.encode normalized))
          cfg := store d.cfg k normalized
          changed := d.changed.tryPublish changedCap k })
      else (.error .flash, d)

/-- `erase_all`; a failure leaves what the map reads back. -/
def Device.eraseAll (d : Device) (flash : Bool) : Except Error Unit × Device :=
  if flash then
    (.ok (), { d with flash := fun _ => none, cfg := { d.cfg with table := fun _ => none } })
  else (.error .flash, d)

inductive Event where
  | set (c : Call)
  | eraseAll (flash : Bool)
  | reboot
  /-- A task reads an announcement. -/
  | read (i : Subscriber)

def step (d : Device) : Event → Device
  | .set c => (d.set c).2
  | .eraseAll flash => (d.eraseAll flash).2
  | .reboot => boot d.mac d.flash
  | .read i => { d with changed := d.changed.read i }

end Model

section Abstract

/-- The key and the value of a call that succeeds. -/
def accepted (c : Call) : Option (Key × Text) :=
  match tableDef.find? (fun k => k.name = c.key) with
  | none => none
  | some k =>
    match validate k c.val with
    | .error _ => none
    | .ok normalized => if c.flash then some (k, normalized) else none

/-- What an event does to the values that are set. -/
def record (r : Key → Option Text) : Event → Key → Option Text
  | .set c =>
    match accepted c with
    | some (k, v) => Function.update r k (some v)
    | none => r
  | .eraseAll flash => if flash then fun _ => none else r
  | .reboot | .read _ => r

/-- The event gives the key another value. -/
def Writes (key : Key) : Event → Prop
  | .set c => ∃ v, accepted c = some (key, v)
  | .eraseAll flash => flash = true
  | .reboot | .read _ => False

def Untouched (key : Key) (es : List Event) : Prop := ∀ e ∈ es, ¬ Writes key e

/-- What the calls of the registry do in a state, as the events that follow show it. -/
structure Lawful (d : Device) : Prop where
  set_err : ∀ c e, (d.set c).1 = .error e → (d.set c).2 = d
  set_ok : ∀ c, (d.set c).1 = .ok () → ∃ k v, k.name = c.key ∧ validate k c.val = .ok v ∧
    ∀ es, Untouched k es → getStr (Run.final step (d.set c).2 es).cfg k = v
  set_other : ∀ c k, k.name ≠ c.key → ∀ es, Untouched k es →
    getStr (Run.final step (d.set c).2 es).cfg k = getStr d.cfg k
  erase_ok : ∀ flash, (d.eraseAll flash).1 = .ok () → ∀ k es, Untouched k es →
    getStr (Run.final step (d.eraseAll flash).2 es).cfg k = defaultFor d.cfg k

end Abstract

section Laws

variable {d : Device} {key : Key}

theorem isSome_accepted_name (k : Key) (v : Text) :
    (accepted ⟨k.name, v, true⟩).isSome = (validate k v).isOk := by
  rw [accepted, find_name]
  dsimp only
  cases validate k v with
  | error e => rfl
  | ok v' => rfl

/-- A call with the name of a key and a value that passes the check. -/
theorem set_name (d : Device) {k : Key} {v w : Text} (h : validate k v = .ok w) (flash : Bool) :
    d.set ⟨k.name, v, flash⟩ = if flash then (.ok (), { d with
      flash := Function.update d.flash k (some (Utf8.encode w))
      cfg := store d.cfg k w
      changed := d.changed.tryPublish changedCap k }) else (.error .flash, d) := by
  rw [Device.set]
  dsimp only
  rw [find_name]
  dsimp only
  rw [h]

theorem set_name_refused (d : Device) {k : Key} {v : Text} {e : Error} (h : validate k v = .error e)
    (flash : Bool) : d.set ⟨k.name, v, flash⟩ = (.error e, d) := by
  rw [Device.set]
  dsimp only
  rw [find_name]
  dsimp only
  rw [h]

theorem set_cases (d : Device) (c : Call) :
    (accepted c = none ∧ ∃ e, d.set c = (.error e, d)) ∨
      ∃ k v, accepted c = some (k, v) ∧ k.name = c.key ∧ validate k c.val = .ok v ∧
        d.set c = (.ok (), { d with
          flash := Function.update d.flash k (some (Utf8.encode v))
          cfg := store d.cfg k v
          changed := d.changed.tryPublish changedCap k }) := by
  unfold Device.set accepted
  cases hk : tableDef.find? (fun k => k.name = c.key) with
  | none => exact Or.inl ⟨rfl, _, rfl⟩
  | some k =>
    dsimp only
    cases hv : validate k c.val with
    | error e => exact Or.inl ⟨rfl, e, rfl⟩
    | ok v =>
      dsimp only
      by_cases hflash : c.flash
      · have hsome := List.find?_some hk
        rw [if_pos hflash, if_pos hflash]
        exact Or.inr ⟨k, v, rfl, of_decide_eq_true hsome, hv, rfl⟩
      · rw [if_neg hflash, if_neg hflash]
        exact Or.inl ⟨rfl, _, rfl⟩

/-- What a key reads after a call with its name and the value. -/
def readAfter (k : Key) (v : Text) (flash : Bool) (old : Text) : Text :=
  match validate k v with
  | .ok w => if flash then w else old
  | .error _ => old

theorem getStr_set_self (d : Device) (k : Key) (v : Text) (flash : Bool) :
    getStr (d.set ⟨k.name, v, flash⟩).2.cfg k = readAfter k v flash (getStr d.cfg k) := by
  rw [readAfter]
  cases hv : validate k v with
  | error e => rw [set_name_refused d hv]
  | ok w =>
    rw [set_name d hv]
    cases flash with
    | false => rfl
    | true => exact getStr_store_self d.cfg k w

theorem getStr_set_other (d : Device) (c : Call) (h : key.name ≠ c.key) :
    getStr (d.set c).2.cfg key = getStr d.cfg key := by
  rcases set_cases d c with ⟨-, e, heq⟩ | ⟨k, v, -, hname, -, heq⟩
  · rw [heq]
  · rw [heq]
    exact getStr_store_of_ne d.cfg v fun hk => h (hk ▸ hname)

theorem defaultFor_set (d : Device) (c : Call) :
    defaultFor (d.set c).2.cfg key = defaultFor d.cfg key := by
  rcases set_cases d c with ⟨-, e, heq⟩ | ⟨k, v, -, -, -, heq⟩
  · rw [heq]
  · rw [heq]
    cases key with
    | _ => rfl

/-- The cache and the announcements change as those of the bus do. -/
theorem set_bus (d : Device) (c : Call) :
    (⟨(d.set c).2.cfg, (d.set c).2.changed⟩ : Bus) = Bus.set ⟨d.cfg, d.changed⟩ c := by
  unfold Device.set Bus.set Config.set
  cases tableDef.find? (fun k => k.name = c.key) with
  | none => rfl
  | some k =>
    dsimp only
    cases validate k c.val with
    | error e => rfl
    | ok v =>
      dsimp only
      by_cases hflash : c.flash
      · rw [if_pos hflash, if_pos hflash]
      · rw [if_neg hflash, if_neg hflash]

def Synced (d : Device) : Prop := d.cfg = load d.mac d.flash

theorem load_update (mac : Mac) (flash : Key → Option (List UInt8)) {v : Text}
    (h : byteLen v < valMax) :
    load mac (Function.update flash key (some (Utf8.encode v))) =
      store (load mac flash) key v := by
  have htable : (load mac (Function.update flash key (some (Utf8.encode v)))).table =
      Function.update (load mac flash).table key (some v) := by
    funext k
    by_cases hk : k = key
    · subst hk
      rw [Function.update_self]
      simp only [load, Function.update_self, length_encode, if_pos h, Utf8.decode_encode,
        Option.getD_some]
    · rw [Function.update_of_ne hk]
      simp only [load, Function.update_of_ne hk]
  unfold store
  rw [← htable]
  rfl

theorem synced_boot (mac : Mac) (flash : Key → Option (List UInt8)) : Synced (boot mac flash) := rfl

/-- One step follows the abstract registry, and the address stays. -/
theorem step_follows (h : Synced d) (e : Event) :
    Synced (step d e) ∧ (step d e).cfg.table = record d.cfg.table e ∧ (step d e).mac = d.mac := by
  cases e with
  | set c =>
    rcases set_cases d c with ⟨hacc, e, heq⟩ | ⟨k, v, hacc, -, hv, heq⟩
    · rw [step, heq, record, hacc]
      exact ⟨h, rfl, rfl⟩
    · rw [step, heq, record, hacc]
      refine ⟨?_, rfl, rfl⟩
      unfold Synced at h ⊢
      dsimp only
      rw [load_update d.mac d.flash (byteLen_validate hv), ← h]
  | eraseAll flash =>
    cases flash with
    | false => exact ⟨h, rfl, rfl⟩
    | true =>
      refine ⟨?_, rfl, rfl⟩
      unfold Synced at h
      simp only [Synced, step, Device.eraseAll, if_true, h]
      rfl
  | reboot =>
    refine ⟨rfl, ?_, rfl⟩
    rw [h]
    rfl
  | read i => exact ⟨h, rfl, rfl⟩

/-- Every run follows the abstract registry. -/
theorem run_follows (h : Synced d) (es : List Event) :
    Synced (Run.final step d es) ∧
      (Run.final step d es).cfg.table = es.foldl record d.cfg.table ∧
      (Run.final step d es).mac = d.mac := by
  induction es generalizing d with
  | nil => exact ⟨h, rfl, rfl⟩
  | cons e es ih =>
    obtain ⟨hsync, htable, hmac⟩ := step_follows h e
    obtain ⟨hsync', htable', hmac'⟩ := ih hsync
    rw [htable] at htable'
    exact ⟨hsync', htable', hmac'.trans hmac⟩

theorem record_of_not_writes (r : Key → Option Text) {e : Event} (h : ¬ Writes key e) :
    record r e key = r key := by
  cases e with
  | set c =>
    unfold record
    dsimp only
    cases hacc : accepted c with
    | none => rfl
    | some kv =>
      have hne : key ≠ kv.1 := by
        rintro rfl
        exact h ⟨kv.2, hacc⟩
      exact Function.update_of_ne hne _ _
  | eraseAll flash =>
    cases flash with
    | false => rfl
    | true => exact absurd rfl h
  | reboot => rfl
  | read i => rfl

theorem foldl_record_of_untouched {es : List Event} (h : Untouched key es)
    (r : Key → Option Text) : es.foldl record r key = r key := by
  induction es generalizing r with
  | nil => rfl
  | cons e es ih =>
    have hes : Untouched key es := fun e he => h e (List.mem_cons_of_mem _ he)
    rw [List.foldl_cons, ih hes, record_of_not_writes r (h e List.mem_cons_self)]

theorem defaultFor_load (mac : Mac) (flash flash' : Key → Option (List UInt8)) (k : Key) :
    defaultFor (load mac flash) k = defaultFor (load mac flash') k := by
  cases k with
  | _ => rfl

/-- A key that no event writes keeps its value over reboots. -/
theorem getStr_untouched (h : Synced d) {es : List Event} (hes : Untouched key es) :
    getStr (Run.final step d es).cfg key = getStr d.cfg key := by
  obtain ⟨hsync, htable, hmac⟩ := run_follows h es
  have hvalue : (Run.final step d es).cfg.table key = d.cfg.table key := by
    rw [htable, foldl_record_of_untouched hes]
  have hdefault : defaultFor (Run.final step d es).cfg key = defaultFor d.cfg key := by
    rw [hsync, hmac, h]
    exact defaultFor_load _ _ _ _
  rw [getStr, getStr, hvalue, hdefault]

theorem lawful_of_synced (h : Synced d) : Lawful d := by
  have hset : ∀ c, Synced (d.set c).2 := fun c => (step_follows h (.set c)).1
  refine ⟨?_, ?_, ?_, ?_⟩
  · intro c e he
    rcases set_cases d c with ⟨-, e', heq⟩ | ⟨k, v, -, -, -, heq⟩
    · rw [heq]
    · rw [heq] at he
      cases he
  · intro c hok
    have hsync := hset c
    rcases set_cases d c with ⟨-, e', heq⟩ | ⟨k, v, -, hname, hv, heq⟩
    · rw [heq] at hok
      cases hok
    · refine ⟨k, v, hname, hv, fun es hes => ?_⟩
      rw [getStr_untouched hsync hes, heq]
      exact getStr_store_self d.cfg k v
  · intro c k hne es hes
    rw [getStr_untouched (hset c) hes]
    exact getStr_set_other d c hne
  · intro flash hok k es hes
    cases flash with
    | false => cases hok
    | true =>
      have hsync : Synced (d.eraseAll true).2 := (step_follows h (.eraseAll true)).1
      rw [getStr_untouched hsync hes]
      cases k with
      | _ => rfl

/-- In every state of every run of calls, erasures, reboots and reads: a call that fails changes
nothing; a value that was set is read, and every other value stays, until a successful call writes
the key, whatever reboots come between; an erasure brings back the defaults. -/
theorem registry_law (mac : Mac) (flash : Key → Option (List UInt8)) (es : List Event) :
    Run.Always step Lawful (boot mac flash) es := by
  have hsync : Run.Always step Synced (boot mac flash) es :=
    Run.always_of_step (fun s e hs => (step_follows hs e).1) (synced_boot mac flash)
  exact hsync.mono fun s hs => lawful_of_synced hs

end Laws

end AtNode.CfgStore
