import AtNode.Esp32.Bond
import AtNode.Esp32.CfgStore

/-!
# The name of the device at the next boot

The host task puts the name into its scan response and into the GATT server before it advertises; a
payload that does not fit, or a name that the server refuses, ends the task in a panic. A
structure of a payload takes two bytes and its data. What the libraries answer is a parameter.

The registry keeps names of up to 95 bytes.
-/

namespace AtNode.BleBoot

open Config Bond CfgStore Run

abbrev payloadMax : ℕ := 31

inductive AdStructure where
  | flags (v : UInt8)
  | serviceUuids16 (uuids : List (UInt8 × UInt8))
  | completeLocalName (name : List UInt8)
  | unknown (ty : UInt8) (data : List UInt8)

def AdStructure.data : AdStructure → List UInt8
  | .flags v => [v]
  | .serviceUuids16 uuids => uuids.flatMap fun u => [u.1, u.2]
  | .completeLocalName name => name
  | .unknown _ data => data

def AdStructure.size (ad : AdStructure) : ℕ := 2 + ad.data.length

/-- The bytes used, if they fit. -/
def encodeSlice (ads : List AdStructure) (room : ℕ) : Option ℕ :=
  let n := ads.foldl (fun n ad => n + ad.size) 0
  if n ≤ room then some n else none

/-- What the libraries make of a name and of a bond. -/
structure Libraries where
  gattServer : Text → Bool
  addBond : BondInformation → Bool

/-- The host task where it begins to advertise. -/
structure Host where
  name : Text
  scanLen : ℕ
  advLen : ℕ
  bond : Option BondInformation

/-- General discovery, and no classic Bluetooth. -/
def discoverable : UInt8 := 0x02 ||| 0x04

def advertisement : List AdStructure :=
  [.flags discoverable, .serviceUuids16 [(0x12, 0x18)], .unknown 0x19 [0xC1, 0x03]]

def loadBond (lib : Libraries) (cfg : Cfg) : Option BondInformation :=
  match bondDecode (getStr cfg .bleBond) with
  | some bond => if lib.addBond bond then some bond else none
  | none => none

/-- `ble_host_task` up to its loop; an error is a panic. -/
def bleHostTask (lib : Libraries) (cfg : Cfg) : Except String Host :=
  let name := getStr cfg .deviceName
  match encodeSlice [.completeLocalName (Utf8.encode name)] payloadMax with
  | none => .error "scan data fits"
  | some scanLen =>
    match encodeSlice advertisement payloadMax with
    | none => .error "adv data fits"
    | some advLen =>
      if lib.gattServer name then .ok ⟨name, scanLen, advLen, loadBond lib cfg⟩
      else .error "gatt server"

section Claims

variable (lib : Libraries)

/-- The next boot brings up BLE. -/
def NextBoot (d : Device) : Prop := ∃ host, bleHostTask lib (boot d.mac d.flash).cfg = .ok host

/-- The name has room in the scan response and in the server. -/
def Suits (name : Text) : Prop := byteLen name ≤ 29 ∧ lib.gattServer name = true

/-- A name that is stored suits, and so does the default that an erasure brings back. -/
def NameSuits (d : Device) : Event → Prop
  | .set c => ∀ name, accepted c = some (.deviceName, name) → Suits lib name
  | .eraseAll flash => flash = true → Suits lib (defaultFor d.cfg .deviceName)
  | .reboot | .read _ => True

end Claims

section Laws

variable {lib : Libraries} {d : Device}

theorem bleHostTask_ok_iff (cfg : Cfg) :
    (∃ host, bleHostTask lib cfg = .ok host) ↔ Suits lib (getStr cfg .deviceName) := by
  have hadv : encodeSlice advertisement payloadMax = some 11 := rfl
  have hsize : ∀ name, encodeSlice [.completeLocalName (Utf8.encode name)] payloadMax =
      if 0 + (2 + (Utf8.encode name).length) ≤ 31 then some (0 + (2 + (Utf8.encode name).length))
      else none := fun name => rfl
  unfold bleHostTask Suits
  dsimp only
  rw [hsize, hadv, length_encode]
  by_cases hlen : byteLen (getStr cfg .deviceName) ≤ 29
  · rw [if_pos (by omega)]
    dsimp only
    by_cases hgatt : lib.gattServer (getStr cfg .deviceName) = true
    · rw [if_pos hgatt]
      exact ⟨fun _ => ⟨hlen, hgatt⟩, fun _ => ⟨_, rfl⟩⟩
    · rw [if_neg hgatt]
      constructor
      · rintro ⟨host, hh⟩
        cases hh
      · exact fun h => absurd h.2 hgatt
  · rw [if_neg (by omega)]
    constructor
    · rintro ⟨host, hh⟩
      cases hh
    · exact fun h => absurd h.1 hlen

theorem nextBoot_iff (h : Synced d) : NextBoot lib d ↔ Suits lib (getStr d.cfg .deviceName) := by
  have hcfg : (boot d.mac d.flash).cfg = d.cfg := h.symm
  rw [NextBoot, bleHostTask_ok_iff, hcfg]

/-- The name still suits after a step exactly if the step brings no other. -/
theorem suits_step_iff (h : Synced d) (hs : Suits lib (getStr d.cfg .deviceName)) (e : Event) :
    Suits lib (getStr (step d e).cfg .deviceName) ↔ NameSuits lib d e := by
  cases e with
  | set c =>
    rcases set_cases d c with ⟨hacc, e, heq⟩ | ⟨k, v, hacc, -, -, heq⟩
    · simp only [step, NameSuits, heq, hacc, hs, reduceCtorEq, false_implies, implies_true]
    · simp only [step, NameSuits, heq, hacc, Option.some.injEq, Prod.mk.injEq]
      by_cases hk : k = .deviceName
      · subst hk
        rw [getStr_store_self]
        exact ⟨fun hv name heq => heq.2 ▸ hv, fun hv => hv v ⟨rfl, rfl⟩⟩
      · rw [getStr_store_of_ne d.cfg v (Ne.symm hk)]
        exact ⟨fun _ name heq => absurd heq.1 hk, fun _ => hs⟩
  | eraseAll flash =>
    cases flash with
    | false => exact ⟨fun _ hf => absurd hf Bool.false_ne_true, fun _ => hs⟩
    | true => exact ⟨fun hv _ => hv, fun hv => hv rfl⟩
  | reboot =>
    have hcfg : (step d .reboot).cfg = d.cfg := h.symm
    rw [hcfg]
    exact ⟨fun _ => trivial, fun _ => hs⟩
  | read i => exact ⟨fun _ => trivial, fun _ => hs⟩

/-- After every run of calls the next boot brings up BLE, exactly if the name suits at first and no
step brings one that does not. -/
theorem every_boot_iff (lib : Libraries) (mac : Mac) (flash : Key → Option (List UInt8))
    (es : List Event) :
    Always step (NextBoot lib) (boot mac flash) es ↔
      Suits lib (getStr (boot mac flash).cfg .deviceName) ∧
        Along step (NameSuits lib) (boot mac flash) es := by
  have hsync := synced_boot mac flash
  by_cases hfirst : Suits lib (getStr (boot mac flash).cfg .deviceName)
  · have hiff : Always step (NextBoot lib) (boot mac flash) es ↔
        Along step (NameSuits lib) (boot mac flash) es := by
      apply always_iff_along (I := fun d => Synced d ∧ Suits lib (getStr d.cfg .deviceName))
      · intro d hi
        exact (nextBoot_iff hi.1).mpr hi.2
      · intro d e hi he
        exact ⟨(step_follows hi.1 e).1, (suits_step_iff hi.1 hi.2 e).mpr he⟩
      · intro d e hi he hboot
        have hsuits := (nextBoot_iff (step_follows hi.1 e).1).mp hboot
        exact he ((suits_step_iff hi.1 hi.2 e).mp hsuits)
      · exact ⟨hsync, hfirst⟩
    rw [hiff]
    exact ⟨fun h => ⟨hfirst, h⟩, fun h => h.2⟩
  · constructor
    · exact fun h => absurd ((nextBoot_iff hsync).mp h.head) hfirst
    · exact fun h => absurd h.1 hfirst

def blank : Device := boot (Vector.replicate 6 0) fun _ => none

def longName : TunnelSwitch.Call := ⟨"device.name".toList, List.replicate 30 'a', true⟩

/-- The registry takes the name, and from then on no boot gets through, whatever the libraries do. -/
theorem long_name_never_boots :
    (blank.set longName).1 = .ok () ∧
      ∀ lib n, ¬ NextBoot lib (final step blank (.set longName :: List.replicate n .reboot)) := by
  have hacc : (blank.set longName).1 = .ok () := by decide +kernel
  have hname : getStr (blank.set longName).2.cfg .deviceName = List.replicate 30 'a' := by
    decide +kernel
  have hlen : byteLen (List.replicate 30 'a') = 30 := by decide +kernel
  have hsync := (step_follows (synced_boot (Vector.replicate 6 0) fun _ => none) (.set longName)).1
  refine ⟨hacc, ?_⟩
  intro lib n hboot
  have hreboots : Untouched .deviceName (List.replicate n .reboot) := by
    intro e he
    rw [List.eq_of_mem_replicate he]
    exact id
  have hsuits := (nextBoot_iff (run_follows hsync _).1).mp hboot
  rw [getStr_untouched hsync hreboots] at hsuits
  have hlong : byteLen (getStr (blank.set longName).2.cfg .deviceName) ≤ 29 := hsuits.1
  rw [hname, hlen] at hlong
  omega

end Laws

end AtNode.BleBoot
