import AtNode.Lib.BootKeyboard
import AtNode.Lib.Held
import AtNode.Lib.Run

/-!
# The keyboard engine of the ESP32 firmware

`engine_task` takes one keyboard operation after the other from a queue and plays it as a sequence
of reports and waits. Every report goes to the backend that `TARGET` names at that moment, and
`AT+DEV` stores a new target between any two of them.

An engine step is one emission, the end of one wait, the receipt of an operation or its end. The
history of an operation lists the reports it sent and the backends they went to. The last report of
a tap or a text is a release; the operation leaves nothing held exactly when the target of that
report is the only backend still holding a key.
-/

namespace AtNode.Kb

open Hid Outputs

/-- The keyboard backends compiled in. -/
structure Features where
  kbdUsb : Bool
  kbdBle : Bool

inductive Target where
  | usb | ble
  deriving DecidableEq, Repr

def Features.backend (f : Features) : Target → Bool
  | .usb => f.kbdUsb
  | .ble => f.kbdBle

def Features.enabled (f : Features) : Bool := f.kbdUsb || f.kbdBle

def Features.bootTarget (f : Features) : Target := if f.kbdUsb then .usb else .ble

/-- The constant `RELEASE`. -/
abbrev release : Report := Report.rest

abbrev seqMaxReports : ℕ := 8

abbrev textCapacity : ℕ := 192

abbrev opsCapacity : ℕ := 4

inductive Op where
  | hold (r : Report)
  | tap (mods key : UInt8) (ms : UInt32)
  | text (s : String) (ms gap : UInt32) (h : s.utf8ByteSize ≤ textCapacity)
  | seq (reports : List Report) (delayMs : UInt32) (h : reports.length ≤ seqMaxReports)

/-- The operations that pair every press with a release. -/
def Op.Paired : Op → Prop
  | .tap .. | .text .. => True
  | .hold .. | .seq .. => False

def asciiToHid (ch : Char) : Option (UInt8 × UInt8) :=
  if 'a' ≤ ch ∧ ch ≤ 'z' then some (0, (ch.toNat - 'a'.toNat).toUInt8 + 0x04)
  else if 'A' ≤ ch ∧ ch ≤ 'Z' then some (2, (ch.toNat - 'A'.toNat).toUInt8 + 0x04)
  else match ch with
    | '1' => some (0, 0x1E)
    | '2' => some (0, 0x1F)
    | '3' => some (0, 0x20)
    | '4' => some (0, 0x21)
    | '5' => some (0, 0x22)
    | '6' => some (0, 0x23)
    | '7' => some (0, 0x24)
    | '8' => some (0, 0x25)
    | '9' => some (0, 0x26)
    | '0' => some (0, 0x27)
    | '!' => some (2, 0x1E)
    | '@' => some (2, 0x1F)
    | '#' => some (2, 0x20)
    | '$' => some (2, 0x21)
    | '%' => some (2, 0x22)
    | '^' => some (2, 0x23)
    | '&' => some (2, 0x24)
    | '*' => some (2, 0x25)
    | '(' => some (2, 0x26)
    | ')' => some (2, 0x27)
    | ' ' => some (0, 0x2C)
    | '\n' => some (0, 0x28)
    | '\t' => some (0, 0x2B)
    | '-' => some (0, 0x2D)
    | '_' => some (2, 0x2D)
    | '=' => some (0, 0x2E)
    | '+' => some (2, 0x2E)
    | '[' => some (0, 0x2F)
    | '\x7B' => some (2, 0x2F)
    | ']' => some (0, 0x30)
    | '\x7D' => some (2, 0x30)
    | '\x5C' => some (0, 0x31)
    | '|' => some (2, 0x31)
    | ';' => some (0, 0x33)
    | ':' => some (2, 0x33)
    | '\x27' => some (0, 0x34)
    | '\x22' => some (2, 0x34)
    | '\x60' => some (0, 0x35)
    | '~' => some (2, 0x35)
    | ',' => some (0, 0x36)
    | '<' => some (2, 0x36)
    | '.' => some (0, 0x37)
    | '>' => some (2, 0x37)
    | '/' => some (0, 0x38)
    | '?' => some (2, 0x38)
    | _ => none

inductive Action where
  | emit (r : Report)
  | wait (ms : UInt32)

def typeChar (ms gap : UInt32) (ch : Char) : List Action :=
  match asciiToHid ch with
  | none => []
  | some (shift, kc) => [.emit (.press shift kc), .wait ms, .emit release, .wait gap]

def Op.script : Op → List Action
  | .hold r => [.emit r]
  | .tap mods key ms => [.emit (.press mods key), .wait ms, .emit release]
  | .text s ms gap _ => s.toList.flatMap (typeChar ms gap)
  | .seq reports delayMs _ => reports.flatMap fun r => [.emit r, .wait delayMs]

structure Running where
  op : Op
  script : List Action
  log : List (Target × Report)

structure State where
  target : Target
  ops : List Op
  running : Option Running
  finished : List Running

inductive Event where
  /-- `hold`, `tap`, `text` or `seq` called by a front end. -/
  | post (op : Op)
  /-- A line `AT+DEV=` with these arguments. -/
  | dev (args : String)
  /-- `engine_task` gets on by one action. -/
  | engine

variable (f : Features)

def boot : State where
  target := f.bootTarget
  ops := []
  running := none
  finished := []

/-- `post`: a full queue refuses the operation. -/
def post (s : State) (op : Op) : State × Bool :=
  if s.ops.length < opsCapacity then ({ s with ops := s.ops ++ [op] }, true) else (s, false)

def setTarget (s : State) (t : Target) : State × Bool :=
  if f.backend t then ({ s with target := t }, true) else (s, false)

def handleDev (s : State) (args : String) : State × String :=
  if !f.enabled then (s, "ERROR kbd disabled")
  else if args = "USB" then
    let q := setTarget f s .usb
    (q.1, if q.2 then "OK" else "ERROR bad target")
  else if args = "BLE" then
    let q := setTarget f s .ble
    (q.1, if q.2 then "OK" else "ERROR bad target")
  else (s, "ERROR bad args")

/-- `emit`: one call of the backend's `send_report`, or none without a backend. -/
def emit (target : Target) (r : Report) (log : List (Target × Report)) : List (Target × Report) :=
  if f.backend target then log ++ [(target, r)] else log

def engineStep (s : State) : State :=
  match s.running with
  | none =>
    match s.ops with
    | [] => s
    | op :: ops => { s with ops := ops, running := some ⟨op, op.script, []⟩ }
  | some r =>
    match r.script with
    | [] => { s with running := none, finished := s.finished ++ [r] }
    | .wait _ :: rest => { s with running := some { r with script := rest } }
    | .emit rep :: rest =>
        { s with running := some { r with script := rest, log := emit f s.target rep r.log } }

def step (s : State) : Event → State
  | .post op => (post s op).1
  | .dev args => (handleDev f s args).1
  | .engine => engineStep f s

/-- A report is still to be sent. -/
def emitsLeft : List Action → Bool
  | [] => false
  | .emit _ :: _ => true
  | .wait _ :: rest => emitsLeft rest

/-- A tap or text that has sent its last report leaves no backend with a key. -/
def Settled (r : Running) : Prop :=
  r.op.Paired → emitsLeft r.script = false → Released release r.log

def NoStuckKey (s : State) : Prop :=
  (∀ r ∈ s.finished, Settled r) ∧ ∀ r, s.running = some r → Settled r

/-- When a tap or text is about to send its last report, the target is the only backend to which
it has sent a key and no release since. -/
def LastReleaseOnTarget (s : State) : Event → Prop
  | .engine => ∀ r rep rest, s.running = some r → r.op.Paired → r.script = .emit rep :: rest →
      emitsLeft rest = false → ∀ b, Held release b r.log → b = s.target
  | _ => True

/-- In a script of a tap or text the last report is the release. -/
def EndsReleased : List Action → Prop
  | [] => True
  | .wait _ :: rest => EndsReleased rest
  | .emit r :: rest => (emitsLeft rest = false → r = release) ∧ EndsReleased rest

structure RunningInv (r : Running) : Prop where
  ends : r.op.Paired → EndsReleased r.script
  compiled : ∀ b q, (b, q) ∈ r.log → f.backend b = true

structure Inv (s : State) : Prop where
  settled : NoStuckKey s
  running : ∀ r, s.running = some r → RunningInv f r

theorem endsReleased_text (ms gap : UInt32) (cs : List Char) :
    EndsReleased (cs.flatMap (typeChar ms gap)) := by
  induction cs with
  | nil => trivial
  | cons ch cs ih =>
    rw [List.flatMap_cons, typeChar]
    cases asciiToHid ch with
    | none => exact ih
    | some k => exact ⟨fun h => absurd h (by simp [emitsLeft]), fun _ => rfl, ih⟩

theorem endsReleased_script (op : Op) (h : op.Paired) : EndsReleased op.script := by
  cases op with
  | hold r => exact absurd h id
  | seq reports delayMs hr => exact absurd h id
  | tap mods key ms => exact ⟨fun h => absurd h (by simp [emitsLeft]), fun _ => rfl, trivial⟩
  | text s ms gap hs => exact endsReleased_text ms gap s.toList

theorem released_emit_release {target : Target} {log : List (Target × Report)}
    (hlog : ∀ b q, (b, q) ∈ log → f.backend b = true) :
    Released release (emit f target release log) ↔ ∀ b, Held release b log → b = target := by
  unfold emit
  split
  · exact released_snoc_rest target log
  · rename_i hoff
    constructor
    · exact fun hr b hb => absurd hb (hr b)
    · intro hr b hb
      obtain ⟨q, hq⟩ := hb.mem
      rw [← hr b hb] at hoff
      exact hoff (hlog b q hq)

theorem compiled_emit {target : Target} {rep : Report} {log : List (Target × Report)}
    (hlog : ∀ b q, (b, q) ∈ log → f.backend b = true) :
    ∀ b q, (b, q) ∈ emit f target rep log → f.backend b = true := by
  unfold emit
  split
  · rename_i hon
    intro b q hmem
    rcases List.mem_append.mp hmem with h | h
    · exact hlog b q h
    · obtain ⟨rfl, -⟩ := Prod.mk.inj (List.mem_singleton.mp h)
      exact hon
  · exact hlog

theorem step_other (s : State) (e : Event) (he : e ≠ .engine) :
    (step f s e).running = s.running ∧ (step f s e).finished = s.finished := by
  cases e with
  | engine => exact absurd rfl he
  | post op =>
    simp only [step, post]
    split <;> exact ⟨rfl, rfl⟩
  | dev args =>
    simp only [step, handleDev, setTarget]
    repeat' split
    all_goals exact ⟨rfl, rfl⟩

theorem inv_of_running {s : State} (hfin : ∀ r ∈ s.finished, Settled r)
    (hrun : ∀ r, s.running = some r → Settled r ∧ RunningInv f r) : Inv f s :=
  ⟨⟨hfin, fun r h => (hrun r h).1⟩, fun r h => (hrun r h).2⟩

theorem inv_boot : Inv f (boot f) := by
  apply inv_of_running
  · simp [boot]
  · simp [boot]

theorem engineStep_receive {s : State} {op : Op} {ops : List Op} (hr : s.running = none)
    (ho : s.ops = op :: ops) :
    engineStep f s = { s with ops := ops, running := some ⟨op, op.script, []⟩ } := by
  simp only [engineStep, hr, ho]

theorem engineStep_idle {s : State} (hr : s.running = none) (ho : s.ops = []) :
    engineStep f s = s := by
  simp only [engineStep, hr, ho]

theorem engineStep_finish {s : State} {r : Running} (hr : s.running = some r)
    (hs : r.script = []) :
    engineStep f s = { s with running := none, finished := s.finished ++ [r] } := by
  simp only [engineStep, hr, hs]

theorem engineStep_wait {s : State} {r : Running} {ms : UInt32} {rest : List Action}
    (hr : s.running = some r) (hs : r.script = .wait ms :: rest) :
    engineStep f s = { s with running := some { r with script := rest } } := by
  simp only [engineStep, hr, hs]

theorem engineStep_emit {s : State} {r : Running} {rep : Report} {rest : List Action}
    (hr : s.running = some r) (hs : r.script = .emit rep :: rest) :
    engineStep f s =
      { s with running := some { r with script := rest, log := emit f s.target rep r.log } } := by
  simp only [engineStep, hr, hs]

theorem inv_engineStep (s : State) (hi : Inv f s) (hp : LastReleaseOnTarget s .engine) :
    Inv f (engineStep f s) := by
  cases hr : s.running with
  | none =>
    cases ho : s.ops with
    | nil => rwa [engineStep_idle f hr ho]
    | cons op ops =>
      rw [engineStep_receive f hr ho]
      refine inv_of_running f hi.settled.1 ?_
      rintro r ⟨rfl⟩
      exact ⟨fun _ _ => released_nil, endsReleased_script op, by simp⟩
  | some r =>
    obtain ⟨hends, hcomp⟩ := hi.running r hr
    have hset := hi.settled.2 r hr
    cases hs : r.script with
    | nil =>
      rw [engineStep_finish f hr hs]
      refine inv_of_running f ?_ (by simp)
      intro q hq
      rcases List.mem_append.mp hq with h | h
      · exact hi.settled.1 q h
      · rwa [List.mem_singleton.mp h]
    | cons a rest =>
      rw [hs] at hends
      unfold Settled at hset
      rw [hs] at hset
      cases a with
      | wait ms =>
        rw [engineStep_wait f hr hs]
        refine inv_of_running f hi.settled.1 ?_
        rintro q ⟨rfl⟩
        exact ⟨hset, hends, hcomp⟩
      | emit rep =>
        rw [engineStep_emit f hr hs]
        refine inv_of_running f hi.settled.1 ?_
        rintro q ⟨rfl⟩
        refine ⟨?_, fun h => (hends h).2, compiled_emit f hcomp⟩
        intro hpair hlast
        obtain rfl := (hends hpair).1 hlast
        exact (released_emit_release f hcomp).mpr (hp r release rest hr hpair hs hlast)

theorem inv_step (s : State) (e : Event) (hi : Inv f s) (hp : LastReleaseOnTarget s e) :
    Inv f (step f s e) := by
  by_cases he : e = .engine
  · subst he
    exact inv_engineStep f s hi hp
  · obtain ⟨hrun, hfin⟩ := step_other f s e he
    apply inv_of_running
    · rw [hfin]
      exact hi.settled.1
    · rw [hrun]
      exact fun r hr => ⟨hi.settled.2 r hr, hi.running r hr⟩

theorem stuck_of_retargeted (s : State) (e : Event) (hi : Inv f s)
    (hp : ¬ LastReleaseOnTarget s e) : ¬ NoStuckKey (step f s e) := by
  cases e with
  | post op => exact absurd trivial hp
  | dev args => exact absurd trivial hp
  | engine =>
    simp only [LastReleaseOnTarget, not_forall] at hp
    obtain ⟨r, rep, rest, hr, hpair, hs, hlast, b, hb, hne⟩ := hp
    obtain ⟨hends, hcomp⟩ := hi.running r hr
    have hrel := hends hpair
    rw [hs] at hrel
    obtain rfl := hrel.1 hlast
    intro hstuck
    simp only [step, engineStep_emit f hr hs] at hstuck
    have hset := hstuck.2 _ rfl hpair hlast
    exact hne ((released_emit_release f hcomp).mp hset b hb)

/-- Every tap and text of a run releases every backend it pressed a key on if and only if each of
them sends its last release to the one backend that still holds a key. -/
theorem noStuckKey_iff (es : List Event) :
    Run.Always (step f) NoStuckKey (boot f) es ↔
      Run.Along (step f) LastReleaseOnTarget (boot f) es :=
  Run.always_iff_along (fun _ hi => hi.settled) (inv_step f) (stuck_of_retargeted f) (inv_boot f)

/-- `AT+TAP` of the key `a`, with `AT+DEV=BLE` while the key is down on USB. -/
theorem switched_tap_stuck :
    ¬ ∀ (f : Features) (es : List Event), Run.Always (step f) NoStuckKey (boot f) es := by
  intro hall
  have h := (hall ⟨true, true⟩ [.post (.tap 0 0x04 50), .engine, .engine, .dev "BLE", .engine,
    .engine, .engine]).final.1 _ (List.mem_singleton.mpr rfl) trivial rfl .usb
  apply h
  exact Or.inl ⟨rfl, by decide, by decide⟩

/-- The target changes only between two operations. -/
def TargetKept (s : State) (e : Event) : Prop :=
  s.running = none ∨ (step f s e).target = s.target

def LogOnTarget (s : State) : Prop :=
  ∀ r, s.running = some r → ∀ b q, (b, q) ∈ r.log → b = s.target

theorem lastReleaseOnTarget_of_log {s : State} (h : LogOnTarget s) (e : Event) :
    LastReleaseOnTarget s e := by
  cases e with
  | post op => trivial
  | dev args => trivial
  | engine =>
    intro r rep rest hr hpair hs hlast b hb
    obtain ⟨q, hq⟩ := hb.mem
    exact h r hr b q hq

theorem engineStep_target (s : State) : (engineStep f s).target = s.target := by
  unfold engineStep
  split <;> split <;> rfl

theorem logOnTarget_step (s : State) (e : Event) (hl : LogOnTarget s) (hk : TargetKept f s e) :
    LogOnTarget (step f s e) := by
  by_cases he : e = .engine
  · subst he
    unfold LogOnTarget step
    rw [engineStep_target]
    cases hr : s.running with
    | none =>
      cases ho : s.ops with
      | nil => rwa [engineStep_idle f hr ho]
      | cons op ops =>
        rw [engineStep_receive f hr ho]
        rintro r ⟨rfl⟩
        simp
    | some r =>
      have hlog := hl r hr
      cases hs : r.script with
      | nil => simp [engineStep_finish f hr hs]
      | cons a rest =>
        cases a with
        | wait ms =>
          rw [engineStep_wait f hr hs]
          rintro q ⟨rfl⟩
          exact hlog
        | emit rep =>
          rw [engineStep_emit f hr hs]
          rintro q ⟨rfl⟩ b p hmem
          simp only [emit] at hmem
          split at hmem
          · rcases List.mem_append.mp hmem with h | h
            · exact hlog b p h
            · exact (Prod.mk.inj (List.mem_singleton.mp h)).1
          · exact hlog b p hmem
  · obtain ⟨hrun, -⟩ := step_other f s e he
    intro r hr b q hmem
    rw [hrun] at hr
    rcases hk with hnone | hkept
    · exact absurd (hnone.symm.trans hr) (by simp)
    · rw [hkept]
      exact hl r hr b q hmem

/-- Without a switch during an operation no key is left stuck. -/
theorem noStuckKey_of_targetKept (es : List Event)
    (hk : Run.Along (step f) (TargetKept f) (boot f) es) :
    Run.Always (step f) NoStuckKey (boot f) es := by
  have hi : Run.Always (step f) (fun s => Inv f s ∧ LogOnTarget s) (boot f) es := by
    apply Run.always_of_along _ ⟨inv_boot f, by simp [LogOnTarget, boot]⟩ hk
    rintro s e ⟨hi, hl⟩ hk
    exact ⟨inv_step f s e hi (lastReleaseOnTarget_of_log hl e), logOnTarget_step f s e hl hk⟩
  exact hi.mono fun s hs => hs.1.settled

end AtNode.Kb
