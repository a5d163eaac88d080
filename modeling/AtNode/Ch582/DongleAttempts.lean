import AtNode.Ch582.Dongle

/-!
# Results of old attempts

The stack reports the result of every establish attempt it accepted, of a cancelled one too, and
the report does not say which attempt it is about. The dongle is idle when it cancels an attempt, so
whatever it is doing when the result comes was begun afterwards; `linkEstablished` does not look
at it.

`ble_dongle_disconnect` sets `dgl_auto_hold`, and no attempt is begun by the dongle itself while
that is set. It does not take back an attempt that is under way, and a successful result clears the
flag again.

`AttemptHist` adds to the dongle whether the result of a cancelled attempt has disturbed something,
and what was under way when the user last disconnected with success, until the user asks for a
connection again.
-/

namespace AtNode.Central

open Run

variable {o : Build} {a : GapAnswers} {d d' : Dongle}

/-- Attempts accepted before a disconnect have smaller numbers than `count`; `asked` tells whether
a connection asked for was still to be begun. -/
structure Hold where
  count : ℕ
  asked : Bool

structure AttemptHist where
  dongle : Dongle
  disturbed : Bool
  held : Option Hold

def asksConnection (d : Dongle) : Bool := d.connEvt || d.watchActive

/-- A scan, a connection or a request for one is under way. -/
def busy (d : Dongle) : Bool := d.state ≠ .idle || d.scanEvt || d.connEvt

def disturbs (o : Build) (d : Dongle) (e : Event) : Bool :=
  match e with
  | .linkEstablished t _ _ =>
    t.cancelled && busy d && !((step o d e).state = d.state &&
      (step o d e).client.link.connHandle = d.client.link.connHandle)
  | _ => false

def heldAfter (d : Dongle) (held : Option Hold) : Event → Option Hold
  | .btDisc a | .btPair a =>
    if (bleDongleDisconnect a d).2 = 0 then some ⟨d.air.started, asksConnection d⟩ else held
  | .btConnIndex index => if (bleDongleConnect d index).2 = 0 then none else held
  | .btConnWatch isMac addr name timeoutS =>
    if (bleDongleConnectWatch d isMac addr name timeoutS).2 = 0 then none else held
  | .btAuto mode => if mode then none else held
  | _ => held

def attemptStep (o : Build) (w : AttemptHist) (e : Event) : AttemptHist where
  dongle := step o w.dongle e
  disturbed := w.disturbed || disturbs o w.dongle e
  held := heldAfter w.dongle w.held e

structure AttemptsSettled (w : AttemptHist) : Prop where
  undisturbed : w.disturbed = false
  down : w.held ≠ none → ∀ l ∈ w.dongle.air.links, l.terminating = true

/-- A cancelled attempt reports while the dongle is idle, and no success that takes a request away;
behind a disconnect no attempt from before it succeeds, nor one asked for before it; and the
stack accepts to terminate a link. -/
def InTime (w : AttemptHist) : Event → Prop
  | .linkEstablished t status handle =>
    t ∈ w.dongle.air.attempts → (status = success → FreshHandle w.dongle handle) →
      (t.cancelled = true → w.dongle.state = .idle ∧
        (status = success → w.dongle.scanEvt = false ∧ w.dongle.connEvt = false)) ∧
      (status = success → ∀ h ∈ w.held, h.asked = false ∧ h.count ≤ t.number)
  | .btDisc a | .btPair a =>
    a.terminateLink = success ∨ ∀ l ∈ w.dongle.air.links, l.terminating = true
  | _ => True

section Air

inductive Phase where
  | rest
  | trying
  | up
  deriving DecidableEq

def DglState.phase : DglState → Phase
  | .idle | .scanning => .rest
  | .connecting | .autoconn => .trying
  | .connected | .armed => .up

/-- What the stack has in hand agrees with the state of the dongle. -/
structure AirInv (d : Dongle) : Prop where
  up : d.state.phase = .up → d.air.links.map AirLink.handle = [d.client.link.connHandle] ∧
    d.client.link.connHandle ≠ connHandleInit
  down : d.state.phase ≠ .up → d.air.links = [] ∧ d.client.link.connHandle = connHandleInit
  trying : ∀ t ∈ d.air.attempts, t.cancelled = false → d.state.phase = .trying
  one : ∀ t ∈ d.air.attempts, ∀ t' ∈ d.air.attempts,
    t.cancelled = false → t'.cancelled = false → t = t'
  ordered : d.air.attempts.Pairwise fun t t' => t.number < t'.number
  started : ∀ t ∈ d.air.attempts, t.number < d.air.started

/-- The attempts and links are left alone. -/
structure SameAir (d d' : Dongle) : Prop where
  phase : d'.state.phase = d.state.phase
  attempts : d'.air.attempts = d.air.attempts
  started : d'.air.started = d.air.started
  links : d'.air.links = d.air.links
  connHandle : d'.client.link.connHandle = d.client.link.connHandle

theorem airInv_same (hi : AirInv d) (h : SameAir d d') : AirInv d' where
  up hp := by
    rw [h.links, h.connHandle]
    exact hi.up (h.phase ▸ hp)
  down hp := by
    rw [h.links, h.connHandle]
    exact hi.down (h.phase ▸ hp)
  trying := by
    rw [h.attempts, h.phase]
    exact hi.trying
  one := by
    rw [h.attempts]
    exact hi.one
  ordered := by
    rw [h.attempts]
    exact hi.ordered
  started := by
    rw [h.attempts, h.started]
    exact hi.started

theorem airInv_boot (o : Build) : AirInv (boot o) where
  up := nofun
  down _ := ⟨rfl, rfl⟩
  trying := nofun
  one := nofun
  ordered := List.Pairwise.nil
  started := nofun

theorem airInv_cancel (hi : AirInv d) (hp : d.state.phase = .trying) :
    AirInv { cancelEstablish d with state := .idle } := by
  have hall : ∀ t ∈ (cancelEstablish d).air.attempts, t.cancelled = true := by
    intro t ht
    obtain ⟨t', -, rfl⟩ := List.mem_map.mp ht
    rfl
  have hne : d.state.phase ≠ .up := by rw [hp]; decide
  exact {
    up := nofun
    down := fun _ => hi.down hne
    trying := fun t ht hc => nomatch (hall t ht).symm.trans hc
    one := fun t ht _ _ hc => nomatch (hall t ht).symm.trans hc
    ordered := List.pairwise_map.mpr hi.ordered
    started := by
      intro t ht
      obtain ⟨t', ht', rfl⟩ := List.mem_map.mp ht
      exact hi.started t' ht' }

theorem airInv_begin (hi : AirInv d) (hp : d.state.phase = .rest) {s : DglState}
    (hs : s.phase = .trying) :
    AirInv { d with
      state := s
      air := { d.air with
        attempts := d.air.attempts ++ [⟨d.air.started, false⟩]
        started := d.air.started + 1 } } := by
  have hne : d.state.phase ≠ .up := by rw [hp]; decide
  have hold : ∀ t ∈ d.air.attempts, t.cancelled ≠ false := by
    intro t ht hc
    exact nomatch hp.symm.trans (hi.trying t ht hc)
  have hnew : ∀ t ∈ d.air.attempts ++ [⟨d.air.started, false⟩], t.cancelled = false →
      t = ⟨d.air.started, false⟩ := by
    intro t ht hc
    rcases List.mem_append.mp ht with ht | ht
    · exact absurd hc (hold t ht)
    · exact List.mem_singleton.mp ht
  exact {
    up := fun h => nomatch hs.symm.trans h
    down := fun _ => hi.down hne
    trying := fun _ _ _ => hs
    one := fun t ht t' ht' hc hc' => (hnew t ht hc).trans (hnew t' ht' hc').symm
    ordered := by
      refine List.pairwise_append.mpr ⟨hi.ordered, List.pairwise_singleton _ _, ?_⟩
      intro t ht t' ht'
      rw [List.mem_singleton.mp ht']
      exact hi.started t ht
    started := by
      intro t ht
      rcases List.mem_append.mp ht with ht | ht
      · exact Nat.lt_succ_of_lt (hi.started t ht)
      · rw [List.mem_singleton.mp ht]
        exact Nat.lt_succ_self _ }

theorem attempts_nodup (hi : AirInv d) : d.air.attempts.Nodup :=
  hi.ordered.imp fun h he => absurd (he ▸ h) (Nat.lt_irrefl _)

theorem result_alone (hi : AirInv d) {t : Attempt} (ht : t ∈ d.air.attempts)
    (hc : t.cancelled = true → d.state = .idle) :
    d.state.phase ≠ .up ∧ ∀ t' ∈ d.air.attempts.erase t, t'.cancelled = true := by
  cases hcan : t.cancelled with
  | true =>
    have hidle := hc hcan
    constructor
    · rw [hidle]
      decide
    · intro t' ht'
      rw [← Bool.not_eq_false]
      intro hc'
      have hp := hi.trying t' (List.mem_of_mem_erase ht') hc'
      rw [hidle] at hp
      cases hp
  | false =>
    constructor
    · rw [hi.trying t ht hcan]
      decide
    · intro t' ht'
      rw [← Bool.not_eq_false]
      intro hc'
      have heq := hi.one t ht t' (List.mem_of_mem_erase ht') hcan hc'
      rw [← heq] at ht'
      exact (attempts_nodup hi).not_mem_erase ht'

theorem airInv_result (hi : AirInv d) {t : Attempt} (ht : t ∈ d.air.attempts)
    (hc : t.cancelled = true → d.state = .idle) {status : UInt8} {handle : UInt16}
    (hf : status = success → FreshHandle d handle) :
    AirInv (linkEstablished (reported d t status handle) status handle) := by
  obtain ⟨hne, hall⟩ := result_alone hi ht hc
  obtain ⟨hlinks, -⟩ := hi.down hne
  have hordered : (d.air.attempts.erase t).Pairwise fun t t' => t.number < t'.number :=
    hi.ordered.sublist List.erase_sublist
  have hstarted : ∀ t' ∈ d.air.attempts.erase t, t'.number < d.air.started :=
    fun t' ht' => hi.started t' (List.mem_of_mem_erase ht')
  by_cases hs : status = success
  · rw [hs] at hf ⊢
    rw [linkEstablished_success]
    exact {
      up := by
        intro _
        refine ⟨?_, (hf rfl).1⟩
        change (⟨handle, false⟩ :: d.air.links).map AirLink.handle = [handle]
        rw [hlinks]
        rfl
      down := fun h => absurd rfl h
      trying := fun t' ht' hc' => nomatch (hall t' ht').symm.trans hc'
      one := fun t' ht' _ _ hc' => nomatch (hall t' ht').symm.trans hc'
      ordered := hordered
      started := hstarted }
  · obtain ⟨f, hold, -, h⟩ := linkEstablished_failed (reported d t status handle) hs handle
    rw [h]
    exact {
      up := nofun
      down := by
        intro _
        refine ⟨?_, rfl⟩
        change (if status = success then ⟨handle, false⟩ :: d.air.links else d.air.links) = []
        rw [if_neg hs]
        exact hlinks
      trying := fun t' ht' hc' => nomatch (hall t' ht').symm.trans hc'
      one := fun t' ht' _ _ hc' => nomatch (hall t' ht').symm.trans hc'
      ordered := hordered
      started := hstarted }

theorem airInv_terminated (hi : AirInv d) {handle : UInt16}
    (hl : ∃ l ∈ d.air.links, l.handle = handle) : AirInv (linkTerminated (ended d handle)) := by
  obtain ⟨l, hl, hh⟩ := hl
  have hup : d.state.phase = .up := by
    by_contra hne
    rw [(hi.down hne).1] at hl
    cases hl
  have hmap := (hi.up hup).1
  have hnone : d.air.links.filter (fun l => l.handle ≠ handle) = [] := by
    rw [List.filter_eq_nil_iff]
    have hone : ∀ l ∈ d.air.links, l.handle = d.client.link.connHandle := by
      intro l hl
      have hmem := List.mem_map_of_mem (f := AirLink.handle) hl
      rw [hmap] at hmem
      exact List.mem_singleton.mp hmem
    intro l' hl'
    rw [decide_eq_true_eq, not_not, hone l' hl', ← hone l hl, hh]
  have hall : ∀ t ∈ d.air.attempts, t.cancelled ≠ false := by
    intro t ht hc
    exact nomatch hup.symm.trans (hi.trying t ht hc)
  obtain ⟨f, hold, -, h⟩ := linkTerminated_eq (ended d handle)
  rw [h]
  exact {
    up := nofun
    down := fun _ => ⟨hnone, rfl⟩
    trying := fun t ht hc => absurd hc (hall t ht)
    one := hi.one
    ordered := hi.ordered
    started := hi.started }

theorem airInv_refused (hi : AirInv d) (hp : d.state.phase = .rest) {s : DglState}
    (hs : s.phase = .trying) : AirInv { d with state := s } where
  up h := nomatch hs.symm.trans h
  down _ := hi.down (by rw [hp]; decide)
  trying t ht hc := nomatch hp.symm.trans (hi.trying t ht hc)
  one := hi.one
  ordered := hi.ordered
  started := hi.started

end Air

section Hold

structure Passive (d d' : Dongle) : Prop extends SameAir d d' where
  autoHold : d'.autoHold = d.autoHold
  asks : asksConnection d' = true → asksConnection d = true

theorem Passive.refl (d : Dongle) : Passive d d := ⟨⟨rfl, rfl, rfl, rfl, rfl⟩, rfl, id⟩

theorem phase_eq_of_linkUp (h : d.state.linkUp = true) : d.state.phase = .up := by
  cases hs : d.state with
  | connected | armed => rfl
  | idle | scanning | connecting | autoconn =>
    rw [hs] at h
    cases h

theorem passive_gatt (m : GattMsg) (last : Bool) (hr : DownReset d) :
    Passive d (step o d (.gatt m last a)) := by
  obtain ⟨p, en, hrec⟩ := received_eq d m last
  by_cases hup : d.state.linkUp = true
  · obtain ⟨s, c, f, u, he, hs, hc⟩ := gatt_eq o a (received d m last) m
    rw [step, he, hrec]
    rw [hrec] at hs hc
    refine ⟨⟨?_, rfl, rfl, rfl, hc⟩, rfl, id⟩
    rcases hs with h | ⟨h, -⟩
    · rw [h]
    · rw [h, phase_eq_of_linkUp hup]
      rfl
  · rw [step, gatt_down o a m last hr (Bool.eq_false_iff.mpr hup), hrec]
    exact ⟨⟨rfl, rfl, rfl, rfl, rfl⟩, rfl, id⟩

theorem passive_addScanRec (hs : d.state = .scanning) (info : DeviceInfo) :
    Passive d (dglAddScanRec d info) := by
  unfold dglAddScanRec
  split
  · exact .refl d
  split
  · exact .refl d
  split
  · exact ⟨⟨rfl, rfl, rfl, rfl, rfl⟩, rfl, id⟩
  split
  · exact .refl d
  dsimp only
  split
  · rename_i hhit
    rw [Bool.and_eq_true] at hhit
    refine ⟨⟨?_, rfl, rfl, rfl, rfl⟩, rfl, fun _ => ?_⟩
    · rw [hs]
      rfl
    · rw [asksConnection, hhit.1, Bool.or_true]
  · exact ⟨⟨rfl, rfl, rfl, rfl, rfl⟩, rfl, id⟩

theorem passive_scan (d : Dongle) (seconds : UInt8) (filter : List UInt8) :
    Passive d (bleDongleScan d seconds filter).1 := by
  unfold bleDongleScan
  split
  · exact .refl d
  · exact ⟨⟨rfl, rfl, rfl, rfl, rfl⟩, rfl, id⟩

theorem passive_discoveryDone (d : Dongle) :
    Passive d (discoveryDone { d with air := { d.air with discovering := false } }) := by
  refine ⟨⟨?_, rfl, rfl, rfl, rfl⟩, rfl, ?_⟩
  · change (if d.state = .scanning then DglState.idle else d.state).phase = d.state.phase
    split
    · rename_i h
      rw [h]
      rfl
    · rfl
  · intro h
    change (d.connEvt || false) = true at h
    rw [Bool.or_false] at h
    rw [asksConnection, h, Bool.true_or]

/-- The events that neither begin nor end anything on the air. -/
def Event.passive : Event → Bool
  | .gatt .. | .deviceInitDone | .deviceInfo _ | .directDeviceInfo .. | .discoveryDone
  | .pairState .. | .expire _ | .btScan .. | .btBatt _ => true
  | _ => false

theorem passive_step {e : Event} (he : e.passive = true) (hr : DownReset d) :
    Passive d (step o d e) := by
  cases e with
  | gatt m last a => exact passive_gatt m last hr
  | deviceInitDone => exact ⟨⟨rfl, rfl, rfl, rfl, rfl⟩, rfl, id⟩
  | deviceInfo info =>
    rw [step]
    split
    · rename_i h
      exact passive_addScanRec h info
    · exact .refl d
  | directDeviceInfo addr addrType rssi =>
    rw [step]
    unfold directDeviceInfo
    split
    · exact ⟨⟨rfl, rfl, rfl, rfl, rfl⟩, rfl, id⟩
    · exact .refl d
  | discoveryDone => exact passive_discoveryDone d
  | pairState state status =>
    rw [step]
    unfold dglPairStateCb
    split
    · exact ⟨⟨rfl, rfl, rfl, rfl, rfl⟩, rfl, id⟩
    · exact .refl d
  | expire t =>
    cases t with
    | svcDisc | auto | linkTimeout => exact ⟨⟨rfl, rfl, rfl, rfl, rfl⟩, rfl, id⟩
  | btScan sec filter => exact passive_scan d _ filter
  | btBatt a =>
    rw [step]
    unfold bleDongleBattRead
    split
    · exact .refl d
    split
    · exact ⟨⟨rfl, rfl, rfl, rfl, rfl⟩, rfl, id⟩
    · exact .refl d
  | linkEstablished | linkTerminated | task | btConnWatch | btConnIndex | btDisc | btAuto
  | btPair =>
    exact absurd he Bool.false_ne_true

theorem passive_startSvcDiscovery (a : Answers) (d : Dongle) :
    Passive d { d with
      client := dglStartSvcDiscovery a
        { d.client with svcDiscEvt := d.client.svcDiscEvt.clear } true } := by
  rcases startSvcDiscovery_cases a
    { d.client with svcDiscEvt := d.client.svcDiscEvt.clear } true with h | ⟨n, evt, h⟩
  · rw [h]
    exact ⟨⟨rfl, rfl, rfl, rfl, rfl⟩, rfl, id⟩
  · rw [h]
    exact ⟨⟨rfl, rfl, rfl, rfl, rfl⟩, rfl, id⟩

theorem passive_scanEvent (a : GapAnswers) (d : Dongle) :
    Passive d (scanEvent a { d with scanEvt := false }) := by
  unfold scanEvent
  split
  · rename_i h
    have hs : d.state = .idle := h.1
    refine ⟨⟨?_, rfl, rfl, rfl, rfl⟩, rfl, id⟩
    rw [hs]
    rfl
  · exact ⟨⟨rfl, rfl, rfl, rfl, rfl⟩, rfl, id⟩

/-- An attempt is begun from rest, unless the stack refuses. -/
structure BeginsFrom (d d' : Dongle) : Prop where
  rest : d.state.phase = .rest
  begun : ∃ s : DglState, s.phase = .trying ∧
    (d' = { d with state := s } ∨ d' = { d with
      state := s
      air := { d.air with
        attempts := d.air.attempts ++ [⟨d.air.started, false⟩]
        started := d.air.started + 1 } })

/-- A task call touches nothing on the air, or gives up the attempt that is under way, or goes on to
an attempt: one of its own while it is not held back, or one that was asked for. -/
def TaskAir (d d' : Dongle) : Prop :=
  ∃ d₀, Passive d d₀ ∧ (d' = d₀ ∨
    (d₀.state.phase = .trying ∧ d' = { cancelEstablish d₀ with state := .idle }) ∨
    (d.autoHold = true → asksConnection d = true) ∧ BeginsFrom d₀ d')

theorem taskAir_autoEvent (a : GapAnswers) (d : Dongle) :
    TaskAir d (autoEvent a { d with autoEvt := d.autoEvt.clear }) := by
  have hsame : ∀ t, Passive d { d with autoEvt := t } :=
    fun _ => ⟨⟨rfl, rfl, rfl, rfl, rfl⟩, rfl, id⟩
  unfold autoEvent
  split
  · rename_i hab
    have hs : d.state = .autoconn := hab.1
    refine ⟨{ d with autoEvt := d.autoEvt.clear }, hsame _, Or.inr (Or.inl ⟨?_, rfl⟩)⟩
    rw [hs]
    rfl
  rcases autoKick_cases a { d with autoEvt := d.autoEvt.clear } with ⟨hk, hidle, he⟩ | ⟨-, t, he⟩
  · have hs : d.state = .idle := hidle
    have hhold : d.autoHold = false := by
      unfold kicks at hk
      simp only [Bool.and_eq_true, Bool.not_eq_true'] at hk
      exact hk.1.1.1.1.2
    refine ⟨{ d with autoEvt := d.autoEvt.clear }, hsame _, Or.inr (Or.inr ⟨?_, ?_⟩)⟩
    · intro hon
      exact nomatch hhold.symm.trans hon
    · rw [he]
      refine ⟨?_, .autoconn, rfl, Or.inr rfl⟩
      rw [hs]
      rfl
  · exact ⟨{ d with autoEvt := t }, hsame t, Or.inl he⟩

theorem taskAir_linkTimeoutEvent (d : Dongle) :
    TaskAir d (linkTimeoutEvent { d with linkTimeoutEvt := d.linkTimeoutEvt.clear }) := by
  refine ⟨{ d with linkTimeoutEvt := d.linkTimeoutEvt.clear },
    ⟨⟨rfl, rfl, rfl, rfl, rfl⟩, rfl, id⟩, ?_⟩
  unfold linkTimeoutEvent
  split
  · rename_i hc
    have hs : d.state = .connecting := hc
    refine Or.inr (Or.inl ⟨?_, rfl⟩)
    rw [hs]
    rfl
  · exact Or.inl rfl

theorem taskAir_connEvent (a : GapAnswers) (hevt : d.connEvt = true) :
    TaskAir d (connEvent a { d with connEvt := false }) := by
  have hasks : asksConnection d = true := by rw [asksConnection, hevt, Bool.true_or]
  unfold connEvent establishLink
  split
  · rename_i hgo
    have hs : d.state = .idle := hgo.1
    have hrest : d.state.phase = .rest := by rw [hs]; rfl
    refine ⟨{ d with
      connEvt := false, linkTimeoutEvt := d.linkTimeoutEvt.start, pendConnIdx := -1 },
      ⟨⟨rfl, rfl, rfl, rfl, rfl⟩, rfl, fun _ => hasks⟩, Or.inr (Or.inr ⟨fun _ => hasks, ?_⟩)⟩
    split
    · exact ⟨hrest, .connecting, rfl, Or.inr rfl⟩
    · exact ⟨hrest, .connecting, rfl, Or.inl rfl⟩
  · exact ⟨{ d with connEvt := false, pendConnIdx := -1 },
      ⟨⟨rfl, rfl, rfl, rfl, rfl⟩, rfl, fun _ => hasks⟩, Or.inl rfl⟩

theorem taskAir_task (a : GapAnswers) (d : Dongle) : TaskAir d (dglProcessEvent a d) := by
  rcases task_cases a d with ⟨-, -, -, h⟩ | ⟨-, -, h⟩ | ⟨hsvc, -⟩
  · exact ⟨_, passive_startSvcDiscovery a.toAnswers d, Or.inl h⟩
  · refine ⟨dglProcessEvent a d, ?_, Or.inl rfl⟩
    rw [h]
    exact ⟨⟨rfl, rfl, rfl, rfl, rfl⟩, rfl, id⟩
  rcases task_eq a d with ⟨hset, -⟩ | ⟨-, -, h⟩ | ⟨-, -, -, h⟩ | ⟨-, -, -, -, h⟩ | ⟨-, hc, h⟩ |
    ⟨-, h⟩
  · exact nomatch hsvc.symm.trans hset
  · rw [h]
    exact taskAir_autoEvent a d
  · rw [h]
    exact taskAir_linkTimeoutEvent d
  · exact ⟨_, passive_scanEvent a d, Or.inl h⟩
  · rw [h]
    exact taskAir_connEvent a hc
  · exact ⟨d, .refl d, Or.inl h⟩

/-- What holds between a disconnect and the next request of the user. -/
structure Held (d : Dongle) (h : Hold) : Prop where
  hold : d.autoHold = true
  old : h.asked = false →
    asksConnection d = false ∧ ∀ t ∈ d.air.attempts, t.number < h.count
  down : ∀ l ∈ d.air.links, l.terminating = true

theorem held_none : ∀ h ∈ (none : Option Hold), Held d h := nofun

theorem held_passive {h : Hold} (hh : Held d h) (hp : Passive d d') : Held d' h where
  hold := hp.autoHold.trans hh.hold
  old hasked := by
    obtain ⟨hno, hall⟩ := hh.old hasked
    refine ⟨?_, by rw [hp.attempts]; exact hall⟩
    rw [← Bool.not_eq_true]
    intro hon
    exact nomatch hno.symm.trans (hp.asks hon)
  down := by
    rw [hp.links]
    exact hh.down

theorem airInv_task (a : GapAnswers) (hi : AirInv d) : AirInv (dglProcessEvent a d) := by
  obtain ⟨d₀, hp, h | ⟨ht, h⟩ | ⟨-, hrest, s, hs, h | h⟩⟩ := taskAir_task a d
  · rw [h]
    exact airInv_same hi hp.toSameAir
  · rw [h]
    exact airInv_cancel (airInv_same hi hp.toSameAir) ht
  · rw [h]
    exact airInv_refused (airInv_same hi hp.toSameAir) hrest hs
  · rw [h]
    exact airInv_begin (airInv_same hi hp.toSameAir) hrest hs

theorem held_task (a : GapAnswers) {h : Hold} (hh : Held d h) : Held (dglProcessEvent a d) h := by
  obtain ⟨d₀, hp, he | ⟨-, he⟩ | ⟨hgo, -, s, -, he | he⟩⟩ := taskAir_task a d
  · rw [he]
    exact held_passive hh hp
  · rw [he]
    have hh₀ := held_passive hh hp
    refine ⟨hh₀.hold, fun hasked => ⟨(hh₀.old hasked).1, ?_⟩, hh₀.down⟩
    intro t ht
    obtain ⟨t', ht', rfl⟩ := List.mem_map.mp ht
    exact (hh₀.old hasked).2 t' ht'
  · rw [he]
    have hh₀ := held_passive hh hp
    exact ⟨hh₀.hold, hh₀.old, hh₀.down⟩
  · rw [he]
    have hh₀ := held_passive hh hp
    refine ⟨hh₀.hold, fun hasked => ?_, hh₀.down⟩
    exact nomatch (hh.old hasked).1.symm.trans (hgo hh.hold)

theorem linkUp_of_connHandle (hi : AirInv d) (h : d.client.link.connHandle ≠ connHandleInit) :
    d.state.phase = .up := by
  by_contra hne
  exact h (hi.down hne).2

/-- What a disconnect leaves on the air. -/
theorem airInv_disconnect (a : GapAnswers) (hi : AirInv d) :
    AirInv (bleDongleDisconnect a d).1 := by
  unfold bleDongleDisconnect
  split
  · exact airInv_same hi ⟨rfl, rfl, rfl, rfl, rfl⟩
  split
  · exact hi
  unfold terminateLink
  split
  · have hhandle : ∀ l : AirLink,
        AirLink.handle (if l.handle = d.client.link.connHandle then { l with terminating := true }
          else l) = l.handle := by
      intro l
      split
      · rfl
      · rfl
    exact {
      up := fun h => ⟨by
        rw [← (hi.up h).1, List.map_map]
        exact List.map_congr_left fun l _ => hhandle l, (hi.up h).2⟩
      down := fun h => ⟨by
        have hnone := (hi.down h).1
        dsimp only
        rw [hnone]
        rfl, (hi.down h).2⟩
      trying := hi.trying
      one := hi.one
      ordered := hi.ordered
      started := hi.started }
  · exact airInv_same hi ⟨rfl, rfl, rfl, rfl, rfl⟩

/-- A disconnect that returns success holds the dongle back, and takes the link down where the stack
accepts. -/
theorem held_disconnect (hi : AirInv d) (hok : (bleDongleDisconnect a d).2 = 0)
    (hP : a.terminateLink = success ∨ ∀ l ∈ d.air.links, l.terminating = true) :
    Held (bleDongleDisconnect a d).1 ⟨d.air.started, asksConnection d⟩ := by
  have hold : ∀ d₁ : Dongle, d₁.air.attempts = d.air.attempts →
      asksConnection d₁ = asksConnection d → asksConnection d = false →
      asksConnection d₁ = false ∧ ∀ t ∈ d₁.air.attempts, t.number < d.air.started := by
    intro d₁ ha hc hno
    rw [ha, hc]
    exact ⟨hno, hi.started⟩
  unfold bleDongleDisconnect at hok ⊢
  split
  · rename_i hs
    refine ⟨rfl, hold _ rfl rfl, ?_⟩
    have hnone := (hi.down (by rw [hs]; decide)).1
    intro l hl
    change l ∈ d.air.links at hl
    rw [hnone] at hl
    cases hl
  rename_i hs
  rw [if_neg hs] at hok
  split
  · rename_i hinit
    rw [if_pos hinit] at hok
    cases hok
  rename_i hinit
  obtain ⟨hmap, -⟩ := hi.up (linkUp_of_connHandle hi hinit)
  unfold terminateLink
  split
  · refine ⟨rfl, hold _ rfl rfl, ?_⟩
    intro l hl
    obtain ⟨l', hl', rfl⟩ := List.mem_map.mp hl
    have hmem := List.mem_map_of_mem (f := AirLink.handle) hl'
    rw [hmap] at hmem
    rw [if_pos (List.mem_singleton.mp hmem)]
  · rename_i hno
    exact ⟨rfl, hold _ rfl rfl, hP.resolve_left hno⟩

/-- A refused termination leaves a link up behind a disconnect that returns success. -/
theorem disconnect_refused (hi : AirInv d)
    (hno : ¬ (a.terminateLink = success ∨ ∀ l ∈ d.air.links, l.terminating = true)) :
    (bleDongleDisconnect a d).2 = 0 ∧
      ¬ ∀ l ∈ (bleDongleDisconnect a d).1.air.links, l.terminating = true := by
  rw [not_or] at hno
  have hup : d.state.phase = .up := by
    by_contra hne
    refine hno.2 ?_
    rw [(hi.down hne).1]
    exact nofun
  have hs : d.state ≠ .autoconn := by
    intro hs
    rw [hs] at hup
    cases hup
  unfold bleDongleDisconnect
  rw [if_neg hs, if_neg (hi.up hup).2]
  unfold terminateLink
  rw [if_neg hno.1]
  exact ⟨rfl, hno.2⟩

end Hold

section Machine

structure AttemptInv (w : AttemptHist) : Prop where
  air : AirInv w.dongle
  reset : DownReset w.dongle
  held : ∀ h ∈ w.held, Held w.dongle h
  undisturbed : w.disturbed = false

theorem sameAir_connect (d : Dongle) (index : UInt8) : SameAir d (bleDongleConnect d index).1 := by
  unfold bleDongleConnect
  split
  · exact ⟨rfl, rfl, rfl, rfl, rfl⟩
  · exact ⟨rfl, rfl, rfl, rfl, rfl⟩

theorem sameAir_connectWatch (d : Dongle) (isMac : Bool) (addr : Addr) (name : List UInt8)
    (timeoutS : UInt8) : SameAir d (bleDongleConnectWatch d isMac addr name timeoutS).1 := by
  unfold bleDongleConnectWatch
  split
  · exact ⟨rfl, rfl, rfl, rfl, rfl⟩
  · have h := passive_scan { d with
      watchActive := true
      watchIsMac := isMac
      watchAddr := if isMac then addr else d.watchAddr
      watchName := if isMac then d.watchName else name.take dglNameLen }
      (max 1 (min timeoutS 30)) []
    exact ⟨h.phase, h.attempts, h.started, h.links, h.connHandle⟩

theorem connect_refused {index : UInt8} (h : (bleDongleConnect d index).2 ≠ 0) :
    (bleDongleConnect d index).1 = d := by
  unfold bleDongleConnect at h ⊢
  split
  · rfl
  · rename_i hgo
    rw [if_neg hgo] at h
    exact absurd rfl h

theorem connectWatch_refused {isMac : Bool} {addr : Addr} {name : List UInt8} {timeoutS : UInt8}
    (h : (bleDongleConnectWatch d isMac addr name timeoutS).2 ≠ 0) :
    (bleDongleConnectWatch d isMac addr name timeoutS).1 = d := by
  unfold bleDongleConnectWatch at h ⊢
  split
  · rfl
  · rename_i hgo
    rw [if_neg hgo] at h
    rw [not_or, not_not] at hgo
    unfold bleDongleScan at h
    rw [if_neg (not_not.mpr hgo.1)] at h
    exact absurd rfl h

theorem disconnect_failed (h : (bleDongleDisconnect a d).2 ≠ 0) :
    (bleDongleDisconnect a d).1 = d := by
  unfold bleDongleDisconnect at h ⊢
  split
  · rename_i hs
    rw [if_pos hs] at h
    exact absurd rfl h
  rename_i hs
  rw [if_neg hs] at h
  split
  · rfl
  · rename_i hc
    rw [if_neg hc] at h
    exact absurd rfl h

theorem held_result {w : AttemptHist} (hi : AttemptInv w) {t : Attempt} {status : UInt8}
    {handle : UInt16} (ht : t ∈ w.dongle.air.attempts)
    (hP : status = success → ∀ h ∈ w.held, h.asked = false ∧ h.count ≤ t.number) :
    ∀ h ∈ w.held, Held (linkEstablished (reported w.dongle t status handle) status handle) h := by
  intro h hh
  have hheld := hi.held h hh
  by_cases hs : status = success
  · obtain ⟨hasked, hcount⟩ := hP hs h hh
    exact absurd ((hheld.old hasked).2 t ht) (Nat.not_lt.mpr hcount)
  · obtain ⟨f, hold, hkeep, he⟩ :=
      linkEstablished_failed (reported w.dongle t status handle) hs handle
    rw [he]
    refine ⟨hkeep hheld.hold, fun hasked => ⟨(hheld.old hasked).1, ?_⟩, ?_⟩
    · exact fun t' ht' => (hheld.old hasked).2 t' (List.mem_of_mem_erase ht')
    · change ∀ l ∈ (if status = success then _ else w.dongle.air.links), _
      rw [if_neg hs]
      exact hheld.down

theorem held_terminated {h : Hold} (hh : Held d h) (handle : UInt16) :
    Held (linkTerminated (ended d handle)) h := by
  obtain ⟨f, hold, hkeep, he⟩ := linkTerminated_eq (ended d handle)
  rw [he]
  exact ⟨hkeep hh.hold, hh.old, fun l hl => hh.down l (List.mem_of_mem_filter hl)⟩

theorem undisturbed_result (hi : AirInv d) {t : Attempt} {status : UInt8} {handle : UInt16}
    (hP : t ∈ d.air.attempts → (status = success → FreshHandle d handle) → t.cancelled = true →
      d.state = .idle ∧ (status = success → d.scanEvt = false ∧ d.connEvt = false)) :
    disturbs o d (.linkEstablished t status handle) = false := by
  unfold disturbs
  dsimp only
  rw [step]
  split
  swap
  · simp
  rename_i hgo
  cases hc : t.cancelled with
  | false => rfl
  | true =>
    obtain ⟨hidle, hreq⟩ := hP hgo.1 hgo.2 hc
    by_cases hs : status = success
    · obtain ⟨hscan, hconn⟩ := hreq hs
      rw [busy, hidle, hscan, hconn]
      rfl
    · obtain ⟨f, hold, -, he⟩ := linkEstablished_failed (reported d t status handle) hs handle
      have hinit := (hi.down (by rw [hidle]; decide)).2
      rw [he, hidle, hinit]
      simp [Link.reset]

theorem passive_history {e : Event} (he : e.passive = true) (held : Option Hold) :
    disturbs o d e = false ∧ heldAfter d held e = held := by
  cases e with
  | gatt | deviceInitDone | deviceInfo | directDeviceInfo | discoveryDone | pairState | expire
  | btScan | btBatt => exact ⟨rfl, rfl⟩
  | linkEstablished | linkTerminated | task | btConnWatch | btConnIndex | btDisc | btAuto
  | btPair =>
    exact absurd he Bool.false_ne_true

theorem attemptInv_passive {w : AttemptHist} (hi : AttemptInv w) {e : Event}
    (he : e.passive = true) : AttemptInv (attemptStep o w e) := by
  obtain ⟨hquiet, hheld⟩ := passive_history (o := o) (d := w.dongle) he w.held
  have hp : Passive w.dongle (step o w.dongle e) := passive_step he hi.reset
  refine ⟨airInv_same hi.air hp.toSameAir, downReset_step o w.dongle e hi.reset, ?_, ?_⟩
  · unfold attemptStep
    rw [hheld]
    exact fun h hh => held_passive (hi.held h hh) hp
  · unfold attemptStep
    rw [hi.undisturbed, hquiet]
    rfl

section Events

variable {w : AttemptHist}

theorem AttemptInv.undisturbed_or (hi : AttemptInv w) : (w.disturbed || false) = false :=
  (Bool.or_false _).trans hi.undisturbed

theorem attemptInv_established (hi : AttemptInv w) {t : Attempt} {status : UInt8} {handle : UInt16}
    (hP : InTime w (.linkEstablished t status handle)) :
    AttemptInv (attemptStep o w (.linkEstablished t status handle)) := by
  have hquiet : disturbs o w.dongle (.linkEstablished t status handle) = false :=
    undisturbed_result hi.air fun ht hf => (hP ht hf).1
  refine ⟨?_, downReset_step o w.dongle _ hi.reset, ?_, ?_⟩
  · unfold attemptStep
    rw [step]
    split
    · rename_i hgo
      exact airInv_result hi.air hgo.1 (fun hc => ((hP hgo.1 hgo.2).1 hc).1) hgo.2
    · exact hi.air
  · unfold attemptStep
    rw [step]
    split
    · rename_i hgo
      exact held_result hi hgo.1 (hP hgo.1 hgo.2).2
    · exact hi.held
  · unfold attemptStep
    rw [hi.undisturbed, hquiet]
    rfl

theorem attemptInv_terminated (hi : AttemptInv w) (handle : UInt16) (reason : UInt8) :
    AttemptInv (attemptStep o w (.linkTerminated handle reason)) := by
  refine ⟨?_, downReset_step o w.dongle _ hi.reset, ?_, hi.undisturbed_or⟩
  · unfold attemptStep
    rw [step]
    split
    · rename_i hgo
      exact airInv_terminated hi.air hgo
    · exact hi.air
  · unfold attemptStep
    rw [step]
    split
    · exact fun h hh => held_terminated (hi.held h hh) handle
    · exact hi.held

theorem attemptInv_connIndex (hi : AttemptInv w) (index : UInt8) :
    AttemptInv (attemptStep o w (.btConnIndex index)) := by
  refine ⟨airInv_same hi.air (sameAir_connect _ index), downReset_step o w.dongle _ hi.reset, ?_,
    hi.undisturbed_or⟩
  unfold attemptStep heldAfter
  rw [step]
  dsimp only
  split
  · exact held_none
  · rename_i hno
    rw [connect_refused hno]
    exact hi.held

theorem attemptInv_connWatch (hi : AttemptInv w) (isMac : Bool) (addr : Addr) (name : List UInt8)
    (timeoutS : UInt8) :
    AttemptInv (attemptStep o w (.btConnWatch isMac addr name timeoutS)) := by
  refine ⟨airInv_same hi.air (sameAir_connectWatch _ isMac addr name timeoutS),
    downReset_step o w.dongle _ hi.reset, ?_, hi.undisturbed_or⟩
  unfold attemptStep heldAfter
  rw [step]
  dsimp only
  split
  · exact held_none
  · rename_i hno
    rw [connectWatch_refused hno]
    exact hi.held

theorem attemptInv_disc (hi : AttemptInv w) {a : GapAnswers} (hP : InTime w (.btDisc a)) :
    AttemptInv (attemptStep o w (.btDisc a)) := by
  refine ⟨airInv_disconnect a hi.air, downReset_step o w.dongle _ hi.reset, ?_, hi.undisturbed_or⟩
  unfold attemptStep heldAfter
  rw [step]
  dsimp only
  split
  · rename_i hok
    intro h hh
    cases hh
    exact held_disconnect hi.air hok hP
  · rename_i hno
    rw [disconnect_failed hno]
    exact hi.held

theorem attemptInv_pair (hi : AttemptInv w) {a : GapAnswers} (hP : InTime w (.btPair a)) :
    AttemptInv (attemptStep o w (.btPair a)) := by
  refine ⟨airInv_same (airInv_disconnect a hi.air) ⟨rfl, rfl, rfl, rfl, rfl⟩,
    downReset_step o w.dongle _ hi.reset, ?_, hi.undisturbed_or⟩
  have hforget : ∀ h, Held (bleDongleDisconnect a w.dongle).1 h →
      Held (btPairDgl a w.dongle) h := fun h hh => ⟨hh.hold, hh.old, hh.down⟩
  unfold attemptStep heldAfter
  rw [step]
  dsimp only
  split
  · rename_i hok
    intro h hh
    cases hh
    exact hforget _ (held_disconnect hi.air hok hP)
  · rename_i hno
    intro h hh
    refine hforget h ?_
    rw [disconnect_failed hno]
    exact hi.held h hh

theorem attemptInv_auto (hi : AttemptInv w) (mode : Bool) :
    AttemptInv (attemptStep o w (.btAuto mode)) := by
  refine ⟨airInv_same hi.air ⟨rfl, rfl, rfl, rfl, rfl⟩, downReset_step o w.dongle _ hi.reset, ?_,
    hi.undisturbed_or⟩
  cases mode with
  | true => exact held_none
  | false =>
    intro h hh
    have hheld := hi.held h hh
    exact ⟨hheld.hold, hheld.old, hheld.down⟩

end Events

theorem attemptInv_step {w : AttemptHist} (hi : AttemptInv w) (e : Event) (hP : InTime w e) :
    AttemptInv (attemptStep o w e) := by
  cases e with
  | linkEstablished t status handle => exact attemptInv_established hi hP
  | linkTerminated handle reason => exact attemptInv_terminated hi handle reason
  | task a =>
    exact ⟨airInv_task a hi.air, downReset_step o w.dongle _ hi.reset,
      fun h hh => held_task a (hi.held h hh), hi.undisturbed_or⟩
  | btConnIndex index => exact attemptInv_connIndex hi index
  | btConnWatch isMac addr name timeoutS =>
    exact attemptInv_connWatch hi isMac addr name timeoutS
  | btDisc a => exact attemptInv_disc hi hP
  | btPair a => exact attemptInv_pair hi hP
  | btAuto mode => exact attemptInv_auto hi mode
  | gatt | deviceInitDone | deviceInfo | directDeviceInfo | discoveryDone | pairState | expire
  | btScan | btBatt => exact attemptInv_passive hi rfl

theorem settled_of_inv {w : AttemptHist} (hi : AttemptInv w) : AttemptsSettled w := by
  refine ⟨hi.undisturbed, fun hne => ?_⟩
  obtain ⟨h, hh⟩ := Option.ne_none_iff_exists'.mp hne
  exact (hi.held h hh).down

theorem disturbs_of_late (hi : AirInv d) {t : Attempt} {status : UInt8} {handle : UInt16}
    (ht : t ∈ d.air.attempts) (hf : status = success → FreshHandle d handle)
    (hc : t.cancelled = true)
    (hlate : d.state = .idle → status = success ∧ (d.scanEvt = true ∨ d.connEvt = true)) :
    disturbs o d (.linkEstablished t status handle) = true := by
  have hbusy : busy d = true := by
    by_cases hs : d.state = .idle
    · rcases (hlate hs).2 with h | h
      · rw [busy, h, Bool.or_true, Bool.true_or]
      · rw [busy, h, Bool.or_true]
    · rw [busy, decide_eq_true hs, Bool.true_or, Bool.true_or]
  have hchange : ¬ ((step o d (.linkEstablished t status handle)).state = d.state ∧
      (step o d (.linkEstablished t status handle)).client.link.connHandle =
        d.client.link.connHandle) := by
    rw [step, if_pos ⟨ht, hf⟩]
    by_cases hs : status = success
    · rw [hs, linkEstablished_success]
      rintro ⟨hstate, hhandle⟩
      have hup : d.state.phase = .up := by
        rw [← hstate]
        rfl
      have hmem : d.client.link.connHandle ∈ d.air.links.map AirLink.handle := by
        rw [(hi.up hup).1]
        exact List.mem_singleton_self _
      obtain ⟨l, hl, hlh⟩ := List.mem_map.mp hmem
      exact (hf hs).2 l hl (hlh.trans hhandle.symm)
    · obtain ⟨f, hold, -, he⟩ := linkEstablished_failed (reported d t status handle) hs handle
      rw [he]
      rintro ⟨hstate, -⟩
      exact hs (hlate hstate.symm).1
  unfold disturbs
  dsimp only
  rw [hc, hbusy, Bool.true_and, Bool.true_and, Bool.not_eq_true', Bool.and_eq_false_iff,
    decide_eq_false_iff_not, decide_eq_false_iff_not]
  exact not_and_or.mp hchange

theorem not_settled_of_late {w : AttemptHist} (hi : AttemptInv w) (e : Event)
    (hP : ¬ InTime w e) : ¬ AttemptsSettled (attemptStep o w e) := by
  intro hq
  cases e with
  | linkEstablished t status handle =>
    apply hP
    intro ht hf
    constructor
    · intro hc
      by_contra hlate
      have hdist : disturbs o w.dongle (.linkEstablished t status handle) = true := by
        refine disturbs_of_late hi.air ht hf hc fun hidle => ?_
        by_contra hno
        refine hlate ⟨hidle, fun hs => ?_⟩
        rw [not_and, not_or, Bool.not_eq_true, Bool.not_eq_true] at hno
        exact hno hs
      have hund := hq.undisturbed
      unfold attemptStep at hund
      rw [hdist, Bool.or_true] at hund
      cases hund
    · intro hs h hh
      exfalso
      have hne : w.held ≠ none := by
        rw [Option.mem_def.mp hh]
        exact Option.some_ne_none h
      have hmem : ⟨handle, false⟩ ∈
          (attemptStep o w (.linkEstablished t status handle)).dongle.air.links := by
        unfold attemptStep
        rw [step, if_pos ⟨ht, hf⟩, hs, linkEstablished_success]
        exact List.mem_cons_self
      exact absurd (hq.down hne _ hmem) Bool.false_ne_true
  | btDisc a =>
    obtain ⟨hok, hup⟩ := disconnect_refused hi.air hP
    refine hup (hq.down ?_)
    unfold attemptStep heldAfter
    dsimp only
    rw [if_pos hok]
    exact Option.some_ne_none _
  | btPair a =>
    obtain ⟨hok, hup⟩ := disconnect_refused hi.air hP
    refine hup (hq.down ?_)
    unfold attemptStep heldAfter
    dsimp only
    rw [if_pos hok]
    exact Option.some_ne_none _
  | gatt | deviceInitDone | deviceInfo | directDeviceInfo | discoveryDone | pairState | expire
  | btScan | btBatt | linkTerminated | task | btConnWatch | btConnIndex | btAuto => exact hP trivial

/-- Old attempts disturb nothing and disconnects last throughout a run if and only if every result
comes in time and the stack accepts to terminate the links. -/
theorem attempts_settled_iff (o : Build) (es : List Event) :
    Always (attemptStep o) AttemptsSettled ⟨boot o, false, none⟩ es ↔
      Along (attemptStep o) InTime ⟨boot o, false, none⟩ es := by
  have hboot : AttemptInv ⟨boot o, false, none⟩ := ⟨airInv_boot o, fun _ => rfl, nofun, rfl⟩
  exact always_iff_along (fun w hi => settled_of_inv hi) (fun w e hi => attemptInv_step hi e)
    (fun w e hi hP => not_settled_of_late hi e hP) hboot

def lateFailureRun : List Event :=
  [.btScan 5 [], .task {}, .deviceInfo ⟨fun _ => 1, 0, -40, true, []⟩, .discoveryDone,
    .btConnIndex 0, .task {}, .expire .linkTimeout, .task {}, .btScan 5 [], .task {},
    .linkEstablished ⟨0, true⟩ 0x02 0]

def lateSuccessRun : List Event :=
  [.btAuto true, .task {}, .btDisc {}, .linkEstablished ⟨0, false⟩ success 0x20]

/-- The late failure ends the scan, and the late success is a link behind the disconnect. -/
theorem late_results_show :
    ¬ AttemptsSettled (final (attemptStep dglRelease) ⟨boot dglRelease, false, none⟩
      lateFailureRun) ∧
    ¬ AttemptsSettled (final (attemptStep dglRelease) ⟨boot dglRelease, false, none⟩
      lateSuccessRun) := by
  constructor
  · intro h
    have hdist : (final (attemptStep dglRelease) ⟨boot dglRelease, false, none⟩
        lateFailureRun).disturbed = true := by decide +kernel
    exact nomatch hdist.symm.trans h.undisturbed
  · intro h
    have hlinks : (final (attemptStep dglRelease) ⟨boot dglRelease, false, none⟩
        lateSuccessRun).dongle.air.links = [⟨0x20, false⟩] := by decide +kernel
    have hheld : (final (attemptStep dglRelease) ⟨boot dglRelease, false, none⟩
        lateSuccessRun).held.isSome = true := by decide +kernel
    have hne := Option.isSome_iff_ne_none.mp hheld
    have hdown := h.down hne ⟨0x20, false⟩
    rw [hlinks] at hdown
    exact nomatch hdown (List.mem_singleton_self _)

end Machine

end AtNode.Central
