import AtNode.Ch582.KeyRouter
import AtNode.Ch582.PlaybackComplete
import AtNode.Lib.Held

/-!
# Keys held across a switch of the output

A playback ticks between commands, and every report it flushes goes to the outputs selected at that
moment. The log lists the reports of the playback that reached an output; a slot whose link ends is
taken out of it. An output is held while the last report of the log it got is not all-zero.

No output stays held behind a tap or a text as long as a new playback replaces none that holds a
key, and the last release of a playback finds the held outputs still selected, usable and ready to
take it.
-/

namespace AtNode.Router

open Hid Outputs Playback

structure History (n : ℕ) where
  st : State
  kbTarget : UInt8
  diag : Diagnostics n
  usbReady : Bool
  linked : Fin n → Bool
  log : List (Output n × Report)

inductive Event (n : ℕ) where
  | tap (argv : List (List UInt8))
  | keyStr (argv : List (List UInt8))
  | dev (argv : List (List UInt8))
  /-- A timer tick, with the statuses the BLE stack gives to the attempts of this tick. -/
  | tick (pace : ℕ) (send : Fin n → ℕ → UInt8)
  | usb (ready : Bool)
  | link (s : Fin n) (up : Bool)

variable {n : ℕ}

def boot : History n where
  st := Playback.boot.st
  kbTarget := kbTgtBle1
  diag := ⟨fun _ => 0, fun _ => 0⟩
  usbReady := false
  linked := fun _ => false
  log := []

def History.env (h : History n) (send : Fin n → ℕ → UInt8) : Env n := ⟨h.usbReady, h.linked, send⟩

def flush (send : Fin n → ℕ → UInt8) (h : History n) (r : Report) : History n :=
  { h with
    diag := (kbFlush h.kbTarget (h.env send) h.diag).1
    log := h.log ++ (reached h.kbTarget (h.env send)).map fun o => (o, r) }

def step (h : History n) : Event n → History n
  | .tap argv => { h with st := (atCmdTap h.st argv).1 }
  | .keyStr argv => { h with st := (atCmdKeyStr h.st argv).1 }
  | .dev argv => { h with kbTarget := (devTarget n argv).getD h.kbTarget }
  | .tick pace send =>
      if h.st.timer = none then h
      else
        let q := kbSeqProcessEvent pace h.st
        (reportsOf q.2).foldl (flush send) { h with st := q.1 }
  | .usb ready => { h with usbReady := ready }
  | .link s up =>
      { h with
        linked := Function.update h.linked s up
        log := if up then h.log else h.log.filter fun e => e.1 ≠ .ble s }

/-- The next tick plays the first press of its tap or text. -/
def FirstPress (s : State) : Prop :=
  if s.keystrActive then
    s.keystrIdx % 2 = 0 ∧ ∀ c ∈ s.keystrBuf.take (s.keystrIdx / 2), keystrMap c = none
  else s.seqIdx = 0

/-- Nothing is held when a playback ends, nor when the first key of the next one goes down. -/
def ReleasedBetween (h : History n) (e : Event n) : Prop :=
  match e with
  | .tick pace _ => h.st.timer ≠ none →
      (.keyDone ∈ (kbSeqProcessEvent pace h.st).2 → Released .rest (step h e).log) ∧
      (FirstPress h.st → (∃ r, .flush r ∈ (kbSeqProcessEvent pace h.st).2 ∧ r ≠ .rest) →
        Released .rest h.log)
  | _ => True

/-- The next tick plays the last report of its tap or text. -/
def LastReport (s : State) : Prop :=
  if s.keystrActive then s.keystrIdx + 1 = 2 * s.keystrBuf.length
  else s.seqIdx + 1 = s.seqBuf.length

/-- A playback replaces no other one that holds a key, and its last report reaches what is held. -/
def ReleaseReaches (h : History n) : Event n → Prop
  | .tap argv => (atCmdTap h.st argv).2.ok = true →
      h.st.keystrActive = true ∨ Released .rest h.log
  | .keyStr argv => (atCmdKeyStr h.st argv).2.ok = true → Released .rest h.log
  | .tick _ send => h.st.timer ≠ none → LastReport h.st →
      ∀ o, Held .rest o h.log → o ∈ reached h.kbTarget (h.env send)
  | _ => True

/-- No press of the current playback was played yet, or its last report was. -/
def Settled (s : State) : Prop :=
  if s.keystrActive then
    s.keystrIdx = 2 * s.keystrBuf.length ∨
      ∀ c ∈ s.keystrBuf.take ((s.keystrIdx + 1) / 2), keystrMap c = none
  else s.seqIdx = 0 ∨ s.seqBuf.length ≤ s.seqIdx

/-- Only taps stand in `seq_buf`. -/
def TapShape (s : State) : Prop := s.seqBuf = [] ∨ ∃ r, s.seqBuf = [r, .rest]

structure RouteInv (h : History n) : Prop where
  inText : InText h.st
  tapShape : TapShape h.st
  released : Settled h.st → Released .rest h.log

theorem step_tick (h : History n) (pace : ℕ) (send : Fin n → ℕ → UInt8) (ht : h.st.timer ≠ none) :
    step h (.tick pace send) = (reportsOf (kbSeqProcessEvent pace h.st).2).foldl (flush send)
      { h with st := (kbSeqProcessEvent pace h.st).1 } := if_neg ht

theorem foldl_flush_st (send : Fin n → ℕ → UInt8) (rs : List Report) (h : History n) :
    (rs.foldl (flush send) h).st = h.st := by
  induction rs generalizing h with
  | nil => rfl
  | cons r rs ih => exact ih (flush send h r)

theorem step_tick_st (h : History n) (pace : ℕ) (send : Fin n → ℕ → UInt8)
    (ht : h.st.timer ≠ none) :
    (step h (.tick pace send)).st = (kbSeqProcessEvent pace h.st).1 := by
  rw [step_tick h pace send ht, foldl_flush_st]

/-- A tick that plays one report appends what it reached to the log. -/
theorem step_tick_log_one {h : History n} {pace : ℕ} {send : Fin n → ℕ → UInt8} {r : Report}
    (ht : h.st.timer ≠ none) (hr : reportsOf (kbSeqProcessEvent pace h.st).2 = [r]) :
    (step h (.tick pace send)).log =
      h.log ++ (reached h.kbTarget (h.env send)).map fun o => (o, r) := by
  rw [step_tick h pace send ht, hr]
  rfl

theorem step_tick_log_none {h : History n} {pace : ℕ} {send : Fin n → ℕ → UInt8}
    (ht : h.st.timer ≠ none) (hr : reportsOf (kbSeqProcessEvent pace h.st).2 = []) :
    (step h (.tick pace send)).log = h.log := by
  rw [step_tick h pace send ht, hr]
  rfl

theorem settled_active {s : State} (ha : s.keystrActive = true) :
    Settled s ↔ s.keystrIdx = 2 * s.keystrBuf.length ∨
      ∀ c ∈ s.keystrBuf.take ((s.keystrIdx + 1) / 2), keystrMap c = none := by
  unfold Settled
  rw [if_pos ha]

theorem settled_inactive {s : State} (ha : s.keystrActive = false) :
    Settled s ↔ s.seqIdx = 0 ∨ s.seqBuf.length ≤ s.seqIdx := by
  unfold Settled
  rw [if_neg (by simp [ha])]

theorem settled_of_firstPress {s : State} (hf : FirstPress s) : Settled s := by
  unfold FirstPress at hf
  cases ha : s.keystrActive with
  | true =>
    rw [ha, if_pos rfl] at hf
    have hdiv : (s.keystrIdx + 1) / 2 = s.keystrIdx / 2 := by omega
    rw [settled_active ha, hdiv]
    exact Or.inr hf.2
  | false =>
    rw [ha, if_neg Bool.false_ne_true] at hf
    exact (settled_inactive ha).mpr (Or.inl hf)

theorem tapShape_tick (pace : ℕ) {s : State} (hs : TapShape s) :
    TapShape (kbSeqProcessEvent pace s).1 := by
  have hbuf : (kbSeqProcessEvent pace s).1.seqBuf = s.seqBuf := by
    unfold kbSeqProcessEvent
    repeat' split
    all_goals rfl
  unfold TapShape
  rwa [hbuf]

theorem tapShape_second {s : State} (hs : TapShape s) (hlt : s.seqIdx < s.seqBuf.length)
    (hidx : s.seqIdx ≠ 0) :
    s.seqBuf.get ⟨s.seqIdx, hlt⟩ = .rest ∧ ¬ s.seqIdx + 1 < s.seqBuf.length := by
  rcases hs with hnil | ⟨r, hbuf⟩
  · rw [hnil] at hlt
    exact absurd hlt (Nat.not_lt_zero _)
  · have hlen : s.seqBuf.length = 2 := by rw [hbuf]; rfl
    have hone : s.seqIdx = 1 := by omega
    refine ⟨?_, by omega⟩
    simp [hbuf, hone]

/-- A tick that plays the release leaves a released log released. -/
theorem released_log_rest {h : History n} {pace : ℕ} {send : Fin n → ℕ → UInt8}
    (ht : h.st.timer ≠ none) (hr : reportsOf (kbSeqProcessEvent pace h.st).2 = [.rest])
    (hreach : ∀ o, Held .rest o h.log → o ∈ reached h.kbTarget (h.env send)) :
    Released .rest (step h (.tick pace send)).log := by
  rw [step_tick_log_one ht hr]
  exact released_append_rest hreach

theorem released_tick_press {h : History n} {pace : ℕ} {send : Fin n → ℕ → UInt8}
    (hi : RouteInv h) (ht : h.st.timer ≠ none) (ha : h.st.keystrActive = true)
    (hlt : h.st.keystrIdx / 2 < h.st.keystrBuf.length) (he : h.st.keystrIdx % 2 = 0)
    (hset : Settled (kbSeqProcessEvent pace h.st).1) :
    Released .rest (step h (.tick pace send)).log := by
  have htick := tick_press pace ha hlt he
  rw [htick] at hset
  have hnone : ∀ c ∈ h.st.keystrBuf.take (h.st.keystrIdx / 2 + 1), keystrMap c = none := by
    rcases (settled_active (by exact ha)).mp hset with heq | hnone
    · simp only at heq
      omega
    · have hdiv : (h.st.keystrIdx + 1 + 1) / 2 = h.st.keystrIdx / 2 + 1 := by omega
      rwa [hdiv] at hnone
  have hc : keystrMap (h.st.keystrBuf.get ⟨h.st.keystrIdx / 2, hlt⟩) = none := by
    apply hnone
    rw [List.take_add_one, List.getElem?_eq_getElem hlt]
    exact List.mem_append_right _ (List.mem_singleton.mpr rfl)
  rw [step_tick_log_none ht (by rw [htick, reportsOf_flush, pressOf, hc])]
  apply hi.released
  have hdiv : (h.st.keystrIdx + 1) / 2 = h.st.keystrIdx / 2 := by omega
  rw [settled_active ha, hdiv]
  exact Or.inr fun c hmem => hnone c (List.take_subset_take_left _ (Nat.le_succ _) hmem)

theorem released_tick_release {h : History n} {pace : ℕ} {send : Fin n → ℕ → UInt8}
    (hi : RouteInv h) (ht : h.st.timer ≠ none) (hp : ReleaseReaches h (.tick pace send))
    (ha : h.st.keystrActive = true) (hlt : h.st.keystrIdx / 2 < h.st.keystrBuf.length)
    (ho : h.st.keystrIdx % 2 = 1) (hset : Settled (kbSeqProcessEvent pace h.st).1) :
    Released .rest (step h (.tick pace send)).log := by
  have htick := tick_release pace ha hlt ho
  apply released_log_rest ht (by rw [htick]; rfl)
  rw [htick] at hset
  rcases (settled_active (by exact ha)).mp hset with heq | hnone
  · apply hp ht
    unfold LastReport
    rw [if_pos ha]
    exact heq
  · have hdiv : (h.st.keystrIdx + 1 + 1) / 2 = (h.st.keystrIdx + 1) / 2 := by omega
    rw [hdiv] at hnone
    have hrel := hi.released ((settled_active ha).mpr (Or.inr hnone))
    exact fun o hheld => absurd hheld (hrel o)

/-- A tick releases everything, or the playback goes on with a press behind it. -/
theorem released_or_unsettled {h : History n} {pace : ℕ} {send : Fin n → ℕ → UInt8}
    (hi : RouteInv h) (ht : h.st.timer ≠ none) (hp : ReleaseReaches h (.tick pace send)) :
    Released .rest (step h (.tick pace send)).log ∨
      (¬ Settled (kbSeqProcessEvent pace h.st).1 ∧
        .keyDone ∉ (kbSeqProcessEvent pace h.st).2) := by
  cases ha : h.st.keystrActive with
  | true =>
    have hidx := hi.inText ha
    by_cases hlt : h.st.keystrIdx / 2 < h.st.keystrBuf.length
    · by_cases hset : Settled (kbSeqProcessEvent pace h.st).1
      · left
        rcases Nat.mod_two_eq_zero_or_one h.st.keystrIdx with he | ho
        · exact released_tick_press hi ht ha hlt he hset
        · exact released_tick_release hi ht hp ha hlt ho hset
      · right
        refine ⟨hset, ?_⟩
        rcases Nat.mod_two_eq_zero_or_one h.st.keystrIdx with he | ho
        · rw [tick_press pace ha hlt he]
          simp
        · rw [tick_release pace ha hlt ho]
          simp
    · left
      have htick := tick_end pace ha (Nat.le_of_not_lt hlt)
      rw [step_tick_log_none ht (by rw [htick]; rfl)]
      apply hi.released
      rw [settled_active ha]
      exact Or.inl (by omega)
  | false =>
    by_cases hlt : h.st.seqIdx < h.st.seqBuf.length
    · by_cases hidx : h.st.seqIdx = 0
      · have hlen : h.st.seqBuf.length = 2 := by
          rcases hi.tapShape with hnil | ⟨r, hbuf⟩
          · rw [hnil] at hlt
            exact absurd hlt (Nat.not_lt_zero _)
          · rw [hbuf]
            rfl
        right
        rw [tick_more pace ha hlt (by omega)]
        refine ⟨fun hset => ?_, by simp⟩
        rcases (settled_inactive (by exact ha)).mp hset with h0 | hge
        · exact absurd h0 (Nat.succ_ne_zero _)
        · simp only at hge
          omega
      · left
        obtain ⟨hrest, hlast⟩ := tapShape_second hi.tapShape hlt hidx
        have htick := tick_last pace ha hlt hlast
        rw [hrest] at htick
        apply released_log_rest ht (by rw [htick]; rfl)
        apply hp ht
        unfold LastReport
        rw [if_neg (by simp [ha])]
        omega
    · left
      have htick := tick_idle pace ha (Nat.le_of_not_lt hlt)
      rw [step_tick_log_none ht (by rw [htick]; rfl)]
      apply hi.released
      rw [settled_inactive ha]
      exact Or.inr (Nat.le_of_not_lt hlt)

theorem routeInv_tick {h : History n} {pace : ℕ} {send : Fin n → ℕ → UInt8} (hi : RouteInv h)
    (ht : h.st.timer ≠ none) (hp : ReleaseReaches h (.tick pace send)) :
    RouteInv (step h (.tick pace send)) := by
  have hst := step_tick_st h pace send ht
  refine ⟨?_, ?_, ?_⟩
  · rw [hst]
    exact inText_tick pace hi.inText
  · rw [hst]
    exact tapShape_tick pace hi.tapShape
  · rw [hst]
    intro hset
    exact (released_or_unsettled hi ht hp).resolve_right fun hu => hu.1 hset

theorem routeInv_tap {h : History n} {argv : List (List UInt8)} (hi : RouteInv h)
    (hp : ReleaseReaches h (.tap argv)) : RouteInv (step h (.tap argv)) := by
  rcases atCmdTap_cases h.st argv with ⟨hok, hl⟩ | ⟨-, hst⟩
  · refine ⟨hl.inText hi.inText, Or.inr ⟨_, hl.seqBuf⟩, fun hset => ?_⟩
    rcases hp hok with hactive | hrel
    · apply hi.released
      change Settled (atCmdTap h.st argv).1 at hset
      rw [settled_active hactive, ← hl.keystrIdx, ← hl.keystrBuf]
      rwa [settled_active (hl.keystrActive.trans hactive)] at hset
    · exact hrel
  · have hstep : step h (.tap argv) = h := by
      simp only [step, hst]
    rwa [hstep]

theorem routeInv_keyStr {h : History n} {argv : List (List UInt8)} (hi : RouteInv h)
    (hp : ReleaseReaches h (.keyStr argv)) : RouteInv (step h (.keyStr argv)) := by
  rcases atCmdKeyStr_cases h.st argv with ⟨hok, hl⟩ | ⟨-, hst⟩
  · refine ⟨hl.inText, ?_, fun _ => hp hok⟩
    change TapShape (atCmdKeyStr h.st argv).1
    unfold TapShape
    rw [hl.seqBuf]
    exact hi.tapShape
  · have hstep : step h (.keyStr argv) = h := by
      simp only [step, hst]
    rwa [hstep]

theorem routeInv_link {h : History n} {s : Fin n} {up : Bool} (hi : RouteInv h) :
    RouteInv (step h (.link s up)) := by
  refine ⟨hi.inText, hi.tapShape, fun hset o ho => hi.released hset o ?_⟩
  cases up with
  | true => exact ho
  | false => exact ho.of_filter (p := fun o => o ≠ .ble s)

theorem routeInv_boot : RouteInv (boot : History n) :=
  ⟨fun h => absurd h (by simp [boot, Playback.boot]), Or.inl rfl, fun _ => released_nil⟩

theorem routeInv_step (h : History n) (e : Event n) (hi : RouteInv h) (hp : ReleaseReaches h e) :
    RouteInv (step h e) := by
  cases e with
  | tap argv => exact routeInv_tap hi hp
  | keyStr argv => exact routeInv_keyStr hi hp
  | dev argv => exact ⟨hi.inText, hi.tapShape, hi.released⟩
  | tick pace send =>
    by_cases ht : h.st.timer = none
    · simpa only [step, if_pos ht] using hi
    · exact routeInv_tick hi ht hp
  | usb ready => exact ⟨hi.inText, hi.tapShape, hi.released⟩
  | link s up => exact routeInv_link hi

theorem releasedBetween_of_inv (h : History n) (e : Event n) (hi : RouteInv h)
    (hp : ReleaseReaches h e) : ReleasedBetween h e := by
  cases e with
  | tick pace send =>
    intro ht
    refine ⟨fun hdone => ?_, fun hfirst _ => hi.released (settled_of_firstPress hfirst)⟩
    exact (released_or_unsettled hi ht hp).resolve_right fun hu => hu.2 hdone
  | tap argv => trivial
  | keyStr argv => trivial
  | dev argv => trivial
  | usb ready => trivial
  | link s up => trivial

/-- In every run in which no playback replaces one that holds a key and the last report of each
reaches what is held, no output is left with a key behind the end of a playback or at the next one's
first press, whatever the switches of the output in between. -/
theorem no_key_held_between (es : List (Event n)) (hp : Run.Along step ReleaseReaches boot es) :
    Run.Along step ReleasedBetween boot es :=
  Run.along_of_inv routeInv_step releasedBetween_of_inv routeInv_boot hp

def devUsb : List (List UInt8) := [ascii ['A', 'T', '+', 'D', 'E', 'V'], ascii ['U', 'S', 'B']]

def devBle : List (List UInt8) := [ascii ['A', 'T', '+', 'D', 'E', 'V'], ascii ['B', 'L', 'E']]

def tapA : List (List UInt8) :=
  [ascii ['A', 'T', '+', 'T', 'A', 'P'], ascii ['0'], ascii ['0'], ascii ['4']]

def sendOk : Fin 1 → ℕ → UInt8 := fun _ _ => success

/-- A tap on USB with its two ticks, and the switch to BLE behind them. -/
theorem no_key_held_after_tap :
    Run.Along step ReleasedBetween boot
      [.usb true, .dev devUsb, .tap tapA, .tick 15 sendOk, .tick 15 sendOk, .dev devBle] := by
  apply no_key_held_between
  refine ⟨trivial, trivial, fun _ => Or.inr released_nil, ?_, ?_, trivial, trivial⟩
  · intro _ hlast
    exact absurd (show 1 = 2 from hlast) (by decide)
  · intro _ _ o hheld
    obtain ⟨r, hmem⟩ := hheld.mem
    obtain ⟨rfl, -⟩ := Prod.mk.inj (List.mem_singleton.mp hmem)
    exact List.mem_singleton.mpr rfl

/-- The same tap with `AT+DEV=BLE` between its two ticks: USB keeps the key. -/
theorem switched_tap_held :
    ¬ ∀ es : List (Event 1), Run.Along step ReleasedBetween boot es := by
  intro hall
  obtain ⟨-, -, -, -, -, hlast, -⟩ := hall [.usb true, .dev devUsb, .tap tapA, .tick 15 sendOk,
    .dev devBle, .tick 15 sendOk]
  refine (hlast (by decide)).1 (List.mem_cons_of_mem _ List.mem_cons_self) .usb ?_
  exact Or.inl ⟨rfl, by decide, by decide⟩

end AtNode.Router
