import AtNode.Lib.Run
import AtNode.Esp32.CfgBus

/-!
# The delivery of configuration changes

All services subscribe to one channel of capacity four, and `set` does not look at the result of the
publication. A service that reads an announcement looks up the value, so it is owed a key from a
change of it until it reads an announcement of that key. No change is lost to a subscriber as long
as every key it is owed is announced to it.

The subscribers read in any order and at any time. A subscriber keeps draining if its own backlog
never fills the channel; the others may still fill it.
-/

namespace AtNode.ChangeDelivery

open Config PubSub TunnelSwitch CfgBus

structure State where
  bus : Bus
  /-- The keys a subscriber has not heard of since they were changed. -/
  owed : Subscriber → List Key

def boot (cfg : Cfg) : State := ⟨.boot cfg, fun _ => []⟩

inductive Event where
  | set (c : Call)
  /-- A subscriber takes its next announcement. -/
  | read (i : Subscriber)

def changedKey (cfg : Cfg) (c : Call) : Option Key :=
  match Config.set cfg c.key c.val c.flash with
  | .ok (_, key) => some key
  | .error _ => none

def step (s : State) : Event → State
  | .set c =>
    { bus := s.bus.set c
      owed :=
        match changedKey s.bus.cfg c with
        | some key => fun i => key :: s.owed i
        | none => s.owed }
  | .read i =>
    match s.bus.head i with
    | some key =>
      { bus := s.bus.read i
        owed := Function.update s.owed i ((s.owed i).filter (· ≠ key)) }
    | none => s

/-- Every change the subscriber has not heard of is announced to it. -/
def NoLoss (i : Subscriber) (s : State) : Prop :=
  ∀ key ∈ s.owed i, key ∈ s.bus.changed.unread i

/-- A successful call finds the subscriber with fewer announcements to read than the channel
holds. -/
def Drains (i : Subscriber) (s : State) : Event → Prop
  | .set c => (changedKey s.bus.cfg c).isSome → (s.bus.changed.unread i).length < changedCap
  | .read _ => True

/-- A successful call finds room in the channel, or the subscriber has an announcement of the same
key to read. -/
def Announced (i : Subscriber) (s : State) : Event → Prop
  | .set c => ∀ key, changedKey s.bus.cfg c = some key →
      s.bus.changed.length < changedCap ∨ key ∈ s.bus.changed.unread i
  | .read _ => True

section Laws

variable {i : Subscriber} {s : State}

theorem set_of_changedKey_none {b : Bus} {c : Call} (h : changedKey b.cfg c = none) :
    b.set c = b := by
  unfold changedKey at h
  unfold Bus.set
  cases hset : Config.set b.cfg c.key c.val c.flash with
  | error e => rfl
  | ok r =>
    rw [hset] at h
    cases h

theorem changed_of_changedKey {b : Bus} {c : Call} {key : Key} (h : changedKey b.cfg c = some key) :
    (b.set c).changed = b.changed.tryPublish changedCap key := by
  unfold changedKey at h
  unfold Bus.set
  cases hset : Config.set b.cfg c.key c.val c.flash with
  | error e =>
    rw [hset] at h
    cases h
  | ok r =>
    rw [hset] at h
    cases h
    rfl

theorem step_set_none {c : Call} (h : changedKey s.bus.cfg c = none) : step s (.set c) = s := by
  simp only [step, h, set_of_changedKey_none h]

theorem step_set_some {c : Call} {key : Key} (h : changedKey s.bus.cfg c = some key) :
    step s (.set c) = ⟨s.bus.set c, fun i => key :: s.owed i⟩ := by
  simp only [step, h]

theorem step_read_none {j : Subscriber} (h : s.bus.head j = none) : step s (.read j) = s := by
  simp only [step, h]

theorem step_read_some {j : Subscriber} {key : Key} (h : s.bus.head j = some key) :
    step s (.read j) =
      ⟨s.bus.read j, Function.update s.owed j ((s.owed j).filter (· ≠ key))⟩ := by
  simp only [step, h]

theorem noLoss_boot (i : Subscriber) (cfg : Cfg) : NoLoss i (boot cfg) := by
  intro key h
  cases h

/-- A successful call announces the key to the subscriber exactly when the condition holds. -/
theorem noLoss_set (h : NoLoss i s) (c : Call) :
    NoLoss i (step s (.set c)) ↔ Announced i s (.set c) := by
  have hann : Announced i s (.set c) ↔ ∀ key, changedKey s.bus.cfg c = some key →
      s.bus.changed.length < changedCap ∨ key ∈ s.bus.changed.unread i := Iff.rfl
  rw [hann]
  cases hkey : changedKey s.bus.cfg c with
  | none =>
    rw [step_set_none hkey]
    refine ⟨fun _ key hk => ?_, fun _ => h⟩
    cases hk
  | some key =>
    rw [step_set_some hkey]
    unfold NoLoss
    simp only [changed_of_changedKey hkey, List.forall_mem_cons, mem_unread_tryPublish,
      Option.some.injEq, forall_eq']
    exact ⟨fun hall => hall.1, fun hk => ⟨hk, fun k hmem => subset_unread_tryPublish (h k hmem)⟩⟩

theorem noLoss_read (h : NoLoss i s) (j : Subscriber) : NoLoss i (step s (.read j)) := by
  cases hhead : s.bus.head j with
  | none =>
    rw [step_read_none hhead]
    exact h
  | some key =>
    rw [step_read_some hhead]
    intro k hk
    by_cases hij : i = j
    · subst hij
      simp only [Function.update_self, List.mem_filter, decide_eq_true_eq] at hk
      have hmem := h k hk.1
      have hcons : s.bus.changed.unread i = key :: (s.bus.changed.unread i).tail :=
        (List.cons_head?_tail hhead).symm
      rw [hcons] at hmem
      simp only [Bus.read, unread_read_self]
      exact (List.mem_cons.mp hmem).resolve_left hk.2
    · simp only [Function.update_of_ne hij] at hk
      simp only [Bus.read, unread_read_of_ne _ hij]
      exact h k hk

theorem noLoss_step (s : State) (e : Event) (h : NoLoss i s) :
    NoLoss i (step s e) ↔ Announced i s e := by
  cases e with
  | set c => exact noLoss_set h c
  | read j => exact ⟨fun _ => trivial, fun _ => noLoss_read h j⟩

/-- No change is lost to a subscriber in a run exactly when each of its calls announces its key. -/
theorem noLoss_iff (i : Subscriber) (cfg : Cfg) (es : List Event) :
    Run.Always step (NoLoss i) (boot cfg) es ↔ Run.Along step (Announced i) (boot cfg) es :=
  Run.always_iff_along (I := NoLoss i) (fun _ h => h) (fun s e h => (noLoss_step s e h).mpr)
    (fun s e h hn hq => hn ((noLoss_step s e h).mp hq)) (noLoss_boot i cfg)

/-- In a run no change is lost to any subscriber that keeps draining, exactly when every successful
call finds room in the channel or an announcement of its key with each of these subscribers. -/
theorem changes_delivered_iff (cfg : Cfg) (es : List Event) :
    (∀ i, Run.Along step (Drains i) (boot cfg) es → Run.Always step (NoLoss i) (boot cfg) es) ↔
      ∀ i, Run.Along step (Drains i) (boot cfg) es →
        Run.Along step (Announced i) (boot cfg) es := by
  simp only [noLoss_iff]

def unset : Cfg := ⟨fun _ => none, [], []⟩

def others : List Subscriber := [.wifi, .watcher, .acceptor0, .acceptor1, .acceptor2]

def provisioning : List Event :=
  ["mqtt.broker".toList, "mqtt.user".toList, "mqtt.pass".toList, "device.name".toList].flatMap
    (fun key => .set ⟨key, "a".toList, true⟩ :: others.map .read) ++
  [.set ⟨"wifi.ssid".toList, "a".toList, true⟩]

instance (i : Subscriber) (s : State) : (e : Event) → Decidable (Drains i s e)
  | .set c =>
    inferInstanceAs (Decidable ((changedKey s.bus.cfg c).isSome = true →
      (s.bus.changed.unread i).length < changedCap))
  | .read _ => isTrue trivial

instance (i : Subscriber) (s : State) : Decidable (NoLoss i s) :=
  inferInstanceAs (Decidable (∀ key ∈ _, _))

/-- The change of the SSID is lost to the WiFi task. -/
theorem ssid_change_lost :
    ¬ ∀ (cfg : Cfg) (es : List Event) (i : Subscriber), Run.Along step (Drains i) (boot cfg) es →
      Run.Always step (NoLoss i) (boot cfg) es := by
  intro hall
  have h := (hall unset provisioning .wifi (by decide +kernel)).final
  revert h
  decide +kernel

end Laws

end AtNode.ChangeDelivery
