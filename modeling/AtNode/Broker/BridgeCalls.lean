import AtNode.Broker.Bridge

/-!
# When a call gets its own response

The entry of a call holds what the callback put there last. With only the called device answering,
in responses that can be read, an entry whose event is set holds the response of the call; what a
call returns is what its entry held.
-/

namespace AtNode.Bridge

open Run PyText

/-- The response of the device that was called, to the request with this id. -/
def Answers (id dev : Text) (resp : Option Value) (origin : Text) : Prop :=
  ∃ v, resp = some v ∧ requestId v = .ok (some id) ∧ origin = dev

def Outcome.Proper (id dev : Text) : Outcome → Prop
  | .notReady | .timeout => True
  | .answer resp origin => Answers id dev resp origin

/-- A call that has come back has a timeout or its response, and no entry; none raises. -/
def CallOk (pending : Option Entry) (id : Text) (c : Call) : Prop :=
  match c.phase with
  | .returned o => pending = none ∧ o.Proper id c.dev
  | .raised => False
  | .entered | .ready | .registered | .waiting | .woken _ => True

/-- Nothing has left the callback, and every call is in order. -/
def Correlated (s : State) : Prop :=
  s.raised = none ∧ ∀ id c, s.calls id = some c → CallOk (s.pending id) id c

section Condition

variable (loads : Text → Except PyError Value)

/-- The text is JSON, or is refused by a decode error. -/
def Decodes (payload : Text) : Prop := ∀ e, loads payload = .error e → e = .jsonDecodeError

/-- A text that is JSON is an object whose id can be looked up. -/
def Addressed (payload : Text) : Prop := ∀ v, loads payload = .ok v → ∃ key, requestId v = .ok key

/-- If the id is pending, the device is the one that was called. -/
def FromCallee (s : State) (dev payload : Text) : Prop :=
  ∀ v id c, loads payload = .ok v → requestId v = .ok (some id) → s.calls id = some c →
    s.pending id ≠ none → dev = c.dev

/-- The responses can be read and come from the device that was called, the other texts can be
decoded, and no command fails to be encoded or published. -/
def Expected (s : State) : Event → Prop
  | .message topic payload =>
    ∀ dev, (topic.splitOn '/' = ["atnode".toList, dev, "info".toList] → Decodes loads payload) ∧
      (topic.splitOn '/' = ["atnode".toList, dev, "resp".toList] →
        Decodes loads payload ∧ Addressed loads payload ∧ FromCallee loads s dev payload)
  | .advance id query taken =>
    ∀ c, s.calls id = some c → c.phase = .registered → query ≠ none ∧ taken = true
  | .connected _ | .subscribed _ | .rpc _ _ _ => True

end Condition

section Invariant

variable {loads : Text → Except PyError Value} {s : State} {id dev payload : Text} {c : Call}

/-- An event that is set stands for the response of the call. -/
def Entry.Ok (id dev : Text) (p : Entry) : Prop := p.event = true → Answers id dev p.resp p.origin

def PhaseOk (pending : Option Entry) (id : Text) (c : Call) : Prop :=
  match c.phase with
  | .entered | .ready => pending = none
  | .registered | .waiting => ∃ p, pending = some p ∧ p.Ok id c.dev
  | .woken ok => ∃ p, pending = some p ∧ p.Ok id c.dev ∧ (ok = true → p.event = true)
  | .returned o => pending = none ∧ o.Proper id c.dev
  | .raised => False

structure Inv (s : State) : Prop where
  raised : s.raised = none
  calls : ∀ id c, s.calls id = some c → PhaseOk (s.pending id) id c
  fresh : ∀ id, s.calls id = none → s.pending id = none

theorem PhaseOk.callOk {pending : Option Entry} (h : PhaseOk pending id c) :
    CallOk pending id c := by
  unfold PhaseOk at h
  unfold CallOk
  cases hp : c.phase with
  | returned o =>
    rw [hp] at h
    exact h
  | raised =>
    rw [hp] at h
    exact h
  | entered | ready | registered | waiting | woken ok => trivial

theorem Inv.correlated (h : Inv s) : Correlated s :=
  ⟨h.raised, fun id c hc => (h.calls id c hc).callOk⟩

theorem inv_init : Inv init :=
  ⟨rfl, fun _ c h => absurd h.symm (Option.some_ne_none c), fun _ _ => rfl⟩

theorem inv_setCall (hi : Inv s) (c : Call) {pending : Text → Option Entry}
    {published : List (Text × Text)} (hother : ∀ id', id' ≠ id → pending id' = s.pending id')
    (hown : PhaseOk (pending id) id c) :
    Inv { s with
      pending := pending
      published := published
      calls := Function.update s.calls id (some c) } := by
  refine ⟨hi.raised, fun id' c' hc' => ?_, fun id' hc' => ?_⟩
  · dsimp only at hc' ⊢
    by_cases hid : id' = id
    · subst hid
      rw [Function.update_self] at hc'
      cases hc'
      exact hown
    · rw [Function.update_of_ne hid] at hc'
      rw [hother id' hid]
      exact hi.calls id' c' hc'
  · dsimp only at hc' ⊢
    by_cases hid : id' = id
    · subst hid
      rw [Function.update_self] at hc'
      exact absurd hc' (Option.some_ne_none _)
    · rw [Function.update_of_ne hid] at hc'
      rw [hother id' hid]
      exact hi.fresh id' hc'

theorem inv_setPhase (hi : Inv s) (c : Call) {pending : Text → Option Entry}
    {published : List (Text × Text)} {phase : Phase}
    (hother : ∀ id', id' ≠ id → pending id' = s.pending id')
    (hown : PhaseOk (pending id) id { c with phase := phase }) :
    Inv (setPhase { s with pending := pending, published := published } id c phase) :=
  inv_setCall hi { c with phase := phase } hother hown

theorem PhaseOk.respond {pending : Option Entry} {v : Value}
    (h : PhaseOk pending id c) (hp : pending ≠ none) (hv : requestId v = .ok (some id)) :
    PhaseOk (some ⟨true, some v, c.dev⟩) id c := by
  have hok : Entry.Ok id c.dev ⟨true, some v, c.dev⟩ := fun _ => ⟨v, rfl, hv, rfl⟩
  unfold PhaseOk at h ⊢
  split at h
  · exact absurd h hp
  · exact absurd h hp
  · exact ⟨_, rfl, hok⟩
  · exact ⟨_, rfl, hok⟩
  · exact ⟨_, rfl, hok, fun _ => rfl⟩
  · exact absurd h.1 hp
  · exact h

/-- What the callback does to the devices leaves the calls in order. -/
theorem inv_setDevice (hi : Inv s) (dev : Text) (f : Device → Device) : Inv (setDevice s dev f) :=
  ⟨hi.raised, hi.calls, hi.fresh⟩

theorem inv_onInfo (hi : Inv s) (hd : Decodes loads payload) (dev : Text) :
    Inv (onInfo loads s dev payload) := by
  unfold onInfo
  cases hl : loads payload with
  | ok v => exact inv_setDevice hi dev _
  | error e =>
    rw [hd e hl]
    exact inv_setDevice hi dev _

theorem inv_respond {p : Entry} {v : Value} (hi : Inv s) (hp : s.pending id = some p)
    (hv : requestId v = .ok (some id)) (hdev : ∀ c, s.calls id = some c → dev = c.dev) :
    Inv { s with pending := Function.update s.pending id (some ⟨true, some v, dev⟩) } := by
  have hne : s.pending id ≠ none := by
    rw [hp]
    exact Option.some_ne_none p
  refine ⟨hi.raised, fun id' c' hc' => ?_, fun id' hc' => ?_⟩
  · dsimp only at hc' ⊢
    by_cases hid : id' = id
    · subst hid
      rw [Function.update_self, hdev c' hc']
      exact (hi.calls id' c' hc').respond hne hv
    · rw [Function.update_of_ne hid]
      exact hi.calls id' c' hc'
  · dsimp only at hc' ⊢
    have hid : id' ≠ id := by
      rintro rfl
      exact hne (hi.fresh id' hc')
    rw [Function.update_of_ne hid]
    exact hi.fresh id' hc'

theorem inv_onResp (hi : Inv s) (hd : Decodes loads payload) (ha : Addressed loads payload)
    (hf : FromCallee loads s dev payload) : Inv (onResp loads s dev payload) := by
  unfold onResp
  cases hl : loads payload with
  | error e =>
    rw [hd e hl]
    exact hi
  | ok v =>
    obtain ⟨key, hkey⟩ := ha v hl
    dsimp only
    rw [hkey]
    cases key with
    | none => exact hi
    | some id =>
      dsimp only
      cases hp : s.pending id with
      | none => exact hi
      | some p =>
        refine inv_respond hi hp hkey fun c hc => hf v id c hl hkey hc ?_
        rw [hp]
        exact Option.some_ne_none p

theorem inv_onMessage (hi : Inv s) {topic : Text} (hP : Expected loads s (.message topic payload)) :
    Inv (onMessage loads s topic payload) := by
  unfold onMessage
  split
  · rename_i root dev kind hparts
    obtain ⟨hinfo, hresp⟩ := hP dev
    rw [hparts] at hinfo hresp
    split
    · rename_i hroot
      subst hroot
      split
      · exact inv_setDevice hi dev _
      · split
        · rename_i hkind
          subst hkind
          exact inv_onInfo hi (hinfo rfl) dev
        · split
          · rename_i hkind
            subst hkind
            obtain ⟨hd, ha, hf⟩ := hresp rfl
            exact inv_onResp hi hd ha hf
          · exact hi
    · exact hi
  · exact hi

theorem inv_rpc (hi : Inv s) (id dev method : Text) : Inv (rpc s id dev method) := by
  unfold rpc
  cases hc : s.calls id with
  | some c => exact hi
  | none => exact inv_setCall hi _ (fun _ _ => rfl) (hi.fresh id hc)

theorem inv_register (hi : Inv s) (id : Text) (c : Call) : Inv (register s id c) := by
  refine inv_setPhase hi c (fun id' hid => Function.update_of_ne hid _ _) ?_
  rw [Function.update_self]
  exact ⟨_, rfl, fun h => absurd h Bool.false_ne_true⟩

theorem inv_wake (hi : Inv s) (h : ∃ p, s.pending id = some p ∧ p.Ok id c.dev) :
    Inv (wake s id c) := by
  obtain ⟨p, hp, hok⟩ := h
  refine inv_setPhase hi c (fun _ _ => rfl) ⟨p, hp, hok, fun hev => ?_⟩
  rw [hp] at hev
  exact hev

theorem inv_pop (hi : Inv s) {ok : Bool}
    (h : ∃ p, s.pending id = some p ∧ p.Ok id c.dev ∧ (ok = true → p.event = true)) :
    Inv (pop s id c ok) := by
  obtain ⟨p, hp, hok, hev⟩ := h
  have hother : ∀ id', id' ≠ id → Function.update s.pending id none id' = s.pending id' :=
    fun id' hid => Function.update_of_ne hid _ _
  unfold pop
  cases ok with
  | false =>
    exact inv_setPhase hi c hother ⟨Function.update_self _ _ _, trivial⟩
  | true =>
    dsimp only
    rw [hp]
    exact inv_setPhase hi c hother ⟨Function.update_self _ _ _, hok (hev rfl)⟩

theorem inv_advance (hi : Inv s) {query : Option Text} {taken : Bool}
    (hP : Expected loads s (.advance id query taken)) : Inv (advance s id query taken) := by
  unfold advance
  cases hc : s.calls id with
  | none => exact hi
  | some c =>
    have hcall := hi.calls id c hc
    unfold PhaseOk at hcall
    dsimp only
    cases hp : c.phase with
    | entered =>
      rw [hp] at hcall
      dsimp only [subscribedWait]
      split
      · exact inv_setPhase hi c (fun _ _ => rfl) hcall
      · exact inv_setPhase hi c (fun _ _ => rfl) ⟨hcall, trivial⟩
    | ready => exact inv_register hi id c
    | registered =>
      rw [hp] at hcall
      obtain ⟨hquery, rfl⟩ := hP c hc hp
      obtain ⟨q, rfl⟩ := Option.ne_none_iff_exists'.mp hquery
      exact inv_setPhase hi c (fun _ _ => rfl) hcall
    | waiting =>
      rw [hp] at hcall
      exact inv_wake hi hcall
    | woken ok =>
      rw [hp] at hcall
      exact inv_pop hi hcall
    | returned o => exact hi
    | raised => exact hi

theorem inv_step (hi : Inv s) {e : Event} (hP : Expected loads s e) : Inv (step loads s e) := by
  cases e with
  | connected mids => exact ⟨hi.raised, hi.calls, hi.fresh⟩
  | subscribed mid => exact ⟨hi.raised, hi.calls, hi.fresh⟩
  | message topic payload => exact inv_onMessage hi hP
  | rpc id dev method => exact inv_rpc hi id dev method
  | advance id query taken => exact inv_advance hi hP

end Invariant

/-- In every run of calls and messages in which the responses can be read and a pending id is
answered by the called device alone, each call gets its own response or a timeout. -/
theorem calls_correlated {loads : Text → Except PyError Value} {es : List Event}
    (h : Along (step loads) (Expected loads) init es) : Always (step loads) Correlated init es := by
  have hinv : Always (step loads) Inv init es :=
    always_of_along (I := Inv) (fun _ _ hi hP => inv_step hi hP) inv_init h
  exact hinv.mono fun _ hi => hi.correlated

section Runs

def response : Text := "\x7b\"id\":\"a1\"\x7d".toList

/-- `json.loads` on the texts of the runs below. -/
def sampleLoads (payload : Text) : Except PyError Value :=
  if payload = response then .ok (.object [("id".toList, .str "a1".toList)])
  else if payload = "[]".toList then .ok (.array [])
  else .error .jsonDecodeError

def callStep : Event := .advance "a1".toList (some []) true

def waitingCall : List Event :=
  [.connected [1], .subscribed 1, .rpc "a1".toList "d".toList "sys/info".toList, callStep, callStep,
    callStep]

def answered (dev : Text) : List Event :=
  waitingCall ++ [.message ("atnode/".toList ++ dev ++ "/resp".toList) response, callStep, callStep]

theorem sampleLoads_response :
    sampleLoads response = .ok (.object [("id".toList, .str "a1".toList)]) := if_pos rfl

theorem expected_callStep (s : State) : Expected sampleLoads s callStep :=
  fun _ _ _ => ⟨Option.some_ne_none _, rfl⟩

theorem expected_response {s : State}
    (hc : ∀ c, s.calls "a1".toList = some c → c.dev = "d".toList) :
    Expected sampleLoads s (.message "atnode/d/resp".toList response) := by
  intro dev
  have hparts : "atnode/d/resp".toList.splitOn '/' =
      ["atnode".toList, "d".toList, "resp".toList] := by decide
  rw [hparts]
  refine ⟨fun h => absurd h (by simp), fun h => ⟨fun e he => ?_, fun v hv => ?_, ?_⟩⟩
  · rw [sampleLoads_response] at he
    cases he
  · rw [sampleLoads_response] at hv
    cases hv
    exact ⟨_, rfl⟩
  · intro v id c hv hid hcall _
    rw [sampleLoads_response] at hv
    cases hv
    cases hid
    rw [hc c hcall]
    exact (List.cons.inj (List.cons.inj h).2).1.symm

theorem call_answered : Always (step sampleLoads) Correlated init (answered "d".toList) := by
  refine calls_correlated ⟨trivial, trivial, trivial, expected_callStep _, expected_callStep _,
    expected_callStep _, expected_response ?_, expected_callStep _, expected_callStep _, trivial⟩
  intro c hc
  cases hc
  rfl

/-- A response that is no object leaves the callback by an exception, the response of another device
is returned, and a command that cannot be encoded leaves its entry. -/
theorem stray_responses :
    ¬ Always (step sampleLoads) Correlated init [.message "atnode/d/resp".toList "[]".toList] ∧
      ¬ Always (step sampleLoads) Correlated init (answered "other".toList) ∧
      ¬ Always (step sampleLoads) Correlated init
        (waitingCall.take 5 ++ [.advance "a1".toList none true]) := by
  refine ⟨fun h => ?_, fun h => ?_, fun h => ?_⟩
  · exact Option.some_ne_none _ h.final.1
  · obtain ⟨-, v, -, -, horigin⟩ := h.final.2 "a1".toList _ rfl
    exact absurd horigin (by decide)
  · exact h.final.2 "a1".toList _ rfl

end Runs

end AtNode.Bridge
