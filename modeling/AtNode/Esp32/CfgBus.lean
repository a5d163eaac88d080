import AtNode.Esp32.TunnelSwitch

/-!
# The configuration and its announcements

A task of the firmware sees the configuration through the cache and through the announcements it has
not read. `Bus` is these two together; a task that reads an announcement looks up the value by
itself, and finds the one that is stored by then.
-/

namespace AtNode.CfgBus

open Config PubSub TunnelSwitch

structure Bus where
  cfg : Cfg
  changed : Channel Subscriber Key

def Bus.boot (cfg : Cfg) : Bus := ⟨cfg, .empty⟩

/-- `cfg::set`; a call that fails changes nothing. -/
def Bus.set (b : Bus) (c : Call) : Bus :=
  match Config.set b.cfg c.key c.val c.flash with
  | .error _ => b
  | .ok (cfg, key) => ⟨cfg, b.changed.tryPublish changedCap key⟩

def Bus.head (b : Bus) (i : Subscriber) : Option Key := (b.changed.unread i).head?

def Bus.read (b : Bus) (i : Subscriber) : Bus := { b with changed := b.changed.read i }

/-- The call sets the switch to one; where flash does not take the value nothing is set. -/
def TurnsOn (key : Key) (c : Call) : Prop :=
  c.key = key.name ∧ (c.val = "1".toList ∨ c.val = "true".toList) ∧ c.flash = true

instance (key : Key) (c : Call) : Decidable (TurnsOn key c) := inferInstanceAs (Decidable (_ ∧ _))

section Laws

variable {b : Bus} {c : Call} {key : Key}

@[simp] theorem read_cfg (b : Bus) (i : Subscriber) : (b.read i).cfg = b.cfg := rfl

/-- A call leaves everything as it is, or stores the value it has checked under its key. -/
theorem set_cases (b : Bus) (c : Call) : b.set c = b ∨
    ∃ k v, k.name = c.key ∧ validate k c.val = .ok v ∧ c.flash = true ∧
      b.set c = ⟨store b.cfg k v, b.changed.tryPublish changedCap k⟩ := by
  unfold Bus.set
  cases h : Config.set b.cfg c.key c.val c.flash with
  | error e => exact Or.inl rfl
  | ok r =>
    right
    unfold Config.set at h
    split at h
    · cases h
    · rename_i k hk
      split at h
      · cases h
      · rename_i v hv
        split at h
        · rename_i hflash
          cases h
          have hname := List.find?_some hk
          exact ⟨k, v, of_decide_eq_true hname, hv, hflash, rfl⟩
        · cases h

theorem validate_on (hbool : key.flags = .bool) {raw : Text}
    (h : validate key raw = .ok "1".toList) : raw = "1".toList ∨ raw = "true".toList := by
  unfold validate at h
  rw [hbool] at h
  dsimp only at h
  split at h
  · rename_i hon
    exact hon
  · split at h
    · exact absurd (Except.ok.inj h) (by decide)
    · cases h

/-- A switch that is off stays off under the calls that do not switch it on. -/
theorem isOn_set (hbool : key.flags = .bool) (hoff : isOn b.cfg key = false)
    (hc : ¬ TurnsOn key c) : isOn (b.set c).cfg key = false := by
  rcases set_cases b c with h | ⟨k, v, hname, hv, hflash, h⟩
  · rw [h]
    exact hoff
  · rw [h]
    by_cases hk : key = k
    · subst hk
      refine decide_eq_false fun hon => hc ⟨hname.symm, ?_⟩
      rw [getStr_store_self] at hon
      subst hon
      exact ⟨validate_on hbool hv, hflash⟩
    · unfold isOn
      rw [getStr_store_of_ne b.cfg v hk]
      exact hoff

end Laws

end AtNode.CfgBus
