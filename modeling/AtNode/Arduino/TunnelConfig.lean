import AtNode.Arduino.ArduinoString
import AtNode.Lib.CString
import AtNode.Lib.Run
import Mathlib.Logic.Function.Basic

/-!
# The tunnel configuration of the Arduino firmware

A setter changes the configuration in RAM and saves the field as a string in the NVS; `rathole_clear`
removes the saved fields and puts a value-initialised structure in the place of the configuration.
What a reboot would load comes from the saved fields and their defaults.

The NVS keeps C strings. Whether it takes one is an input.
-/

namespace AtNode.RatholeClient

open Run CString
open ArduinoString (Str ascii cStr equals cStr_eq_self_iff)

abbrev maxTunnels : ℤ := 1

def constrain (v low high : ℤ) : ℤ := if v < low then low else if high < v then high else v

structure TunnelCfg where
  server : Str
  token : Str
  svc : Str
  localAddr : Str
  autoConn : Bool
  enabled : Bool
  retryS : UInt8
  deriving DecidableEq

def TunnelCfg.zero : TunnelCfg := ⟨[], [], [], [], false, false, 0⟩

structure Tunnel where
  cfg : TunnelCfg
  wantRun : Bool
  reconfig : Bool
  lastError : Str

inductive Field where
  | server
  | token
  | svc
  | localAddr
  | auto
  | en
  | retry
  deriving DecidableEq

def Field.all : List Field := [.server, .token, .svc, .localAddr, .auto, .en, .retry]

def Field.key : Field → String
  | .server => "server"
  | .token => "token"
  | .svc => "service"
  | .localAddr => "local"
  | .auto => "auto"
  | .en => "enable"
  | .retry => "retry"

def Field.name : Field → String
  | .server => "server"
  | .token => "token"
  | .svc => "svc"
  | .localAddr => "local"
  | .auto => "auto"
  | .en => "en"
  | .retry => "retry"

/-- Its value is kept as it is. -/
def Field.Textual : Field → Prop
  | .server | .token | .svc | .localAddr => True
  | .auto | .en | .retry => False

section Nvs

abbrev Nvs := List Char → Option Str

def nvsKey (f : Field) : List Char := "tun1_".toList ++ f.name.toList

def getString (nvs : Nvs) (key : List Char) (default : String) : Str :=
  (nvs key).getD (ascii default)

/-- `save_config`; a failure goes unnoticed. -/
def saveConfig (nvs : Nvs) (key : List Char) (val : Str) (takes : Bool) : Nvs :=
  if takes then Function.update nvs key (some (cStr val)) else nvs

def seconds (s : Str) : ℤ := constrain (atoi s) 1 60

def loadOne (nvs : Nvs) : TunnelCfg where
  server := getString nvs (nvsKey .server) ""
  token := getString nvs (nvsKey .token) ""
  svc := getString nvs (nvsKey .svc) ""
  localAddr := getString nvs (nvsKey .localAddr) ""
  autoConn := equals (getString nvs (nvsKey .auto) "0") "1"
  enabled := equals (getString nvs (nvsKey .en) "1") "1"
  retryS := toU8 (seconds (getString nvs (nvsKey .retry) "1"))

end Nvs

section Operations

structure State where
  tun : Tunnel
  nvs : Nvs

/-- `rathole_init`; `started` says whether it started the tunnel. -/
def init (nvs : Nvs) (started : Bool) : State := ⟨⟨loadOne nvs, started, started, []⟩, nvs⟩

def truthy (val : Str) : Bool := equals val "1" || equals val "true"

def fieldOf (key : Str) : Option Field := Field.all.find? fun f => equals key f.key

def assign (c : TunnelCfg) (f : Field) (val : Str) : TunnelCfg :=
  match f with
  | .server => { c with server := val }
  | .token => { c with token := val }
  | .svc => { c with svc := val }
  | .localAddr => { c with localAddr := val }
  | .auto => { c with autoConn := truthy val }
  | .en => { c with enabled := truthy val }
  | .retry => { c with retryS := toU8 (seconds val) }

def flag (b : Bool) : Str := if b then ascii "1" else ascii "0"

def saved (c : TunnelCfg) (f : Field) (val : Str) : Str :=
  match f with
  | .auto => flag c.autoConn
  | .en => flag c.enabled
  | .retry => natText c.retryS.toNat
  | .server | .token | .svc | .localAddr => val

def ratholeStop (t : Tunnel) : Tunnel := { t with wantRun := false, reconfig := true }

def applied (t : Tunnel) (f : Field) : Tunnel :=
  if f = .en ∧ t.cfg.enabled = false then ratholeStop t
  else if f ≠ .auto ∧ t.wantRun = true then { t with reconfig := true }
  else t

def ratholeSet (s : State) (idx : ℤ) (key val : Str) (takes : Bool) : Bool × State :=
  if idx < 0 ∨ maxTunnels ≤ idx then (false, s)
  else
    match fieldOf key with
    | none => (false, s)
    | some f =>
      if f = .retry ∧ seconds val ≤ 0 then (false, s)
      else
        let c := assign s.tun.cfg f val
        (true, ⟨applied { s.tun with cfg := c } f,
          saveConfig s.nvs (nvsKey f) (saved c f val) takes⟩)

/-- `Preferences::remove` of every field. -/
def removeAll (nvs : Nvs) (removes : Field → Bool) : Nvs :=
  Field.all.foldl (fun nvs f => if removes f then Function.update nvs (nvsKey f) none else nvs) nvs

def ratholeClear (s : State) (idx : ℤ) (removes : Field → Bool) : State :=
  if idx < 0 ∨ maxTunnels ≤ idx then s
  else
    ⟨{ ratholeStop s.tun with cfg := .zero, lastError := [] }, removeAll s.nvs removes⟩

inductive Event where
  | set (idx : ℤ) (key val : Str) (takes : Bool)
  | clear (idx : ℤ) (removes : Field → Bool)

def step (s : State) : Event → State
  | .set idx key val takes => (ratholeSet s idx key val takes).2
  | .clear idx removes => ratholeClear s idx removes

end Operations

section Claims

/-- RAM holds what a reboot would load. -/
def Synced (s : State) : Prop := s.tun.cfg = loadOne s.nvs

/-- The NVS takes the value and keeps all of it, or the field has it already. -/
def Kept (c : TunnelCfg) (f : Field) (val : Str) (takes : Bool) : Prop :=
  takes = true ∧ (f.Textual → 0 ∉ val) ∨ takes = false ∧ assign c f val = c

/-- No tunnel is cleared, and a value that is set is kept. -/
def Persisted (s : State) : Event → Prop
  | .set idx key val takes => idx = 0 → ∀ f, fieldOf key = some f → Kept s.tun.cfg f val takes
  | .clear idx _ => idx ≠ 0

end Claims

section Loading

variable {nvs : Nvs} {f g : Field} {c : TunnelCfg} {val : Str}

theorem nvsKey_injective : ∀ f ∈ Field.all, ∀ g ∈ Field.all, nvsKey f = nvsKey g → f = g := by
  decide +kernel

theorem mem_all (f : Field) : f ∈ Field.all := by
  cases f with
  | _ => decide

theorem getString_update (v : Str) (default : String) :
    getString (Function.update nvs (nvsKey f) (some v)) (nvsKey g) default =
      if g = f then v else getString nvs (nvsKey g) default := by
  unfold getString
  by_cases h : g = f
  · subst h
    rw [if_pos rfl, Function.update_self, Option.getD_some]
  · have hne : nvsKey g ≠ nvsKey f := fun he => h (nvsKey_injective g (mem_all g) f (mem_all f) he)
    rw [if_neg h, Function.update_of_ne hne]

/-- What `load_one` makes of one saved field. -/
def reload (c : TunnelCfg) (f : Field) (v : Str) : TunnelCfg :=
  match f with
  | .server => { c with server := v }
  | .token => { c with token := v }
  | .svc => { c with svc := v }
  | .localAddr => { c with localAddr := v }
  | .auto => { c with autoConn := equals v "1" }
  | .en => { c with enabled := equals v "1" }
  | .retry => { c with retryS := toU8 (seconds v) }

theorem loadOne_update (f : Field) (v : Str) :
    loadOne (Function.update nvs (nvsKey f) (some v)) = reload (loadOne nvs) f v := by
  cases f with
  | _ => simp only [loadOne, getString_update, reload, reduceCtorEq, if_true, if_false]

theorem constrain_range (v : ℤ) : 1 ≤ constrain v 1 60 ∧ constrain v 1 60 ≤ 60 := by
  unfold constrain
  split_ifs <;> omega

theorem toU8_seconds_ne_zero (val : Str) : toU8 (seconds val) ≠ 0 := by
  have hr := constrain_range (atoi val)
  unfold toU8 seconds
  intro h
  have hnat := congrArg UInt8.toNat h
  rw [UInt8.toNat_ofNat', UInt8.toNat_zero] at hnat
  omega

theorem seconds_natText : ∀ n ∈ List.range 61, 1 ≤ n →
    toU8 (seconds (cStr (natText (toU8 n).toNat))) = toU8 n := by
  decide +kernel

theorem equals_flag (b : Bool) : equals (cStr (flag b)) "1" = b := by
  cases b with
  | false => rfl
  | true => rfl

/-- A field in RAM is loaded back as it is, unless its text has a zero byte. -/
theorem reload_saved_iff (c : TunnelCfg) (f : Field) (val : Str) :
    assign c f val = reload c f (cStr (saved (assign c f val) f val)) ↔ (f.Textual → 0 ∉ val) := by
  cases f with
  | server | token | svc | localAddr =>
    simp only [assign, saved, reload, Field.Textual, TunnelCfg.mk.injEq, and_true, true_and,
      true_implies, ← cStr_eq_self_iff]
    exact eq_comm
  | auto | en =>
    simp only [assign, saved, reload, equals_flag, Field.Textual, false_implies]
  | retry =>
    have hr := constrain_range (atoi val)
    obtain ⟨n, hn⟩ := Int.eq_ofNat_of_zero_le (show 0 ≤ seconds val by unfold seconds; omega)
    have hback := seconds_natText n (List.mem_range.mpr (by unfold seconds at hn; omega))
      (by unfold seconds at hn; omega)
    simp only [assign, saved, reload, Field.Textual, false_implies, iff_true, hn]
    exact congrArg (fun r => TunnelCfg.mk c.server c.token c.svc c.localAddr c.autoConn c.enabled r)
      hback.symm

end Loading

section Steps

variable {s : State}

theorem ratholeSet_outside {idx : ℤ} (h : idx ≠ 0) (key val : Str) (takes : Bool) :
    (ratholeSet s idx key val takes).2 = s := by
  have hmax : maxTunnels = 1 := rfl
  unfold ratholeSet
  rw [if_pos (by omega)]

theorem ratholeSet_unknown {key : Str} (h : fieldOf key = none) (idx : ℤ) (val : Str)
    (takes : Bool) : (ratholeSet s idx key val takes).2 = s := by
  unfold ratholeSet
  rw [h]
  split_ifs
  · rfl
  · rfl

theorem ratholeSet_known {key : Str} {f : Field} (h : fieldOf key = some f) (val : Str)
    (takes : Bool) :
    (ratholeSet s 0 key val takes).2.tun.cfg = assign s.tun.cfg f val ∧
      (ratholeSet s 0 key val takes).2.nvs =
        saveConfig s.nvs (nvsKey f) (saved (assign s.tun.cfg f val) f val) takes := by
  have hpos := constrain_range (atoi val)
  have hretry : ¬ (f = .retry ∧ seconds val ≤ 0) := by
    unfold seconds
    omega
  unfold ratholeSet
  rw [if_neg (by decide), h]
  dsimp only
  rw [if_neg hretry]
  refine ⟨?_, rfl⟩
  unfold applied ratholeStop
  split_ifs
  · rfl
  · rfl
  · rfl

theorem synced_set_iff (hi : Synced s) {key : Str} {f : Field} (h : fieldOf key = some f)
    (val : Str) (takes : Bool) :
    Synced (ratholeSet s 0 key val takes).2 ↔ Kept s.tun.cfg f val takes := by
  obtain ⟨hcfg, hnvs⟩ := ratholeSet_known (s := s) h val takes
  unfold Synced Kept
  rw [hcfg, hnvs, saveConfig]
  cases takes with
  | true =>
    rw [if_pos rfl, loadOne_update, ← hi, reload_saved_iff]
    simp only [true_and, reduceCtorEq, false_and, or_false]
  | false =>
    rw [if_neg Bool.false_ne_true, ← hi]
    simp only [reduceCtorEq, false_and, true_and, false_or]

theorem not_synced_clear (removes : Field → Bool) : ¬ Synced (ratholeClear s 0 removes) := by
  intro h
  unfold Synced ratholeClear at h
  rw [if_neg (by decide)] at h
  have hretry := congrArg TunnelCfg.retryS h
  exact toU8_seconds_ne_zero _ hretry.symm

theorem synced_step_iff (hi : Synced s) (e : Event) : Synced (step s e) ↔ Persisted s e := by
  cases e with
  | set idx key val takes =>
    unfold step Persisted
    dsimp only
    by_cases hidx : idx = 0
    · subst hidx
      cases hf : fieldOf key with
      | none =>
        rw [ratholeSet_unknown hf]
        exact ⟨fun _ _ f hf => (by cases hf), fun _ => hi⟩
      | some f =>
        rw [synced_set_iff hi hf]
        simp only [true_implies, Option.some.injEq, forall_eq']
    · rw [ratholeSet_outside hidx]
      exact ⟨fun _ h => absurd h hidx, fun _ => hi⟩
  | clear idx removes =>
    unfold step Persisted
    dsimp only
    by_cases hidx : idx = 0
    · subst hidx
      exact ⟨fun h => absurd h (not_synced_clear removes), fun h => absurd rfl h⟩
    · have hmax : maxTunnels = 1 := rfl
      have hout : ratholeClear s idx removes = s := by
        unfold ratholeClear
        rw [if_pos (by omega)]
      rw [hout]
      exact ⟨fun _ => hidx, fun _ => hi⟩

/-- In every run, RAM holds what a reboot would load throughout, exactly if the tunnel is never
cleared and every value that is set is kept. -/
theorem ram_is_reloaded_iff (nvs : Nvs) (started : Bool) (es : List Event) :
    Always step Synced (init nvs started) es ↔ Along step Persisted (init nvs started) es := by
  apply always_iff_along (I := Synced)
  · exact fun s hi => hi
  · exact fun s e hi he => (synced_step_iff hi e).mpr he
  · exact fun s e hi he hs => he ((synced_step_iff hi e).mp hs)
  · rfl

/-- A cleared tunnel is off, and a reboot would turn it on. -/
theorem clear_is_not_reloaded :
    ¬ Always step Synced (init (fun _ => none) false) [.clear 0 fun _ => true] :=
  fun h => not_synced_clear (fun _ => true) h.2

end Steps

end AtNode.RatholeClient
