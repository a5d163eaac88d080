import AtNode.Broker.Manage

/-!
# When a manager gets its own response

If every message that reaches the client is the response to the call that waits, the slot holds that
response when the event is set, and the event is clear between the calls.
-/

namespace AtNode.Manage

open Run PyText

/-- A key that is reported as removed was in the table and is there no more. -/
def Handled.Truthful (h : Handled) : Prop :=
  ∀ row, h.response.body = .removed row → row ∈ h.before ∧ ∀ r ∈ h.after, r.key ≠ row.key

/-- A timeout, or the response of the service to the command with this id. -/
def Outcome.Proper (handled : List Handled) (id : Text) : Outcome → Prop
  | .timeout => True
  | .answer resp =>
    ∃ h ∈ handled, resp = some (.response h.response) ∧ h.response.id = id ∧ h.Truthful

def Correlated (s : State) : Prop := ∀ p ∈ s.returned, p.2.Proper s.handled p.1

/-- Behind the constructor nothing reaches the client but the response of the call that waits, before
the event is cleared. -/
def Due (s : State) : Event → Prop
  | .connected | .garbage => s.phase = .connecting
  | .deliver n =>
    ∀ h, s.handled[n]? = some h → s.phase = .connecting ∨ s.phase = .waiting h.response.id ∨
      s.phase = .woken h.response.id
  | .constructed | .exec _ _ _ | .command _ | .serve _ _ | .advance => True

section Store

variable {ks ks' : KeyStore} {op arg key now : Text} {row : Row}

theorem mem_of_find (h : ks.find arg = some row) : row ∈ ks := by
  unfold KeyStore.find at h
  cases hg : ks.get arg with
  | some rec =>
    rw [hg] at h
    cases h
    exact List.mem_of_find?_eq_some hg
  | none =>
    rw [hg] at h
    dsimp only at h
    split at h
    · rename_i row' hrows
      cases h
      have hmem : row ∈ ks.filter (·.name = arg) := by
        rw [hrows]
        exact List.mem_singleton_self row
      exact (List.mem_filter.mp hmem).1
    · cases h

theorem remove_spec (h : ks.remove arg = (ks', some row)) :
    row ∈ ks ∧ ∀ r ∈ ks', r.key ≠ row.key := by
  unfold KeyStore.remove at h
  cases hf : ks.find arg with
  | none =>
    rw [hf] at h
    cases h
  | some rec =>
    rw [hf] at h
    cases h
    exact ⟨mem_of_find hf, fun r hr => of_decide_eq_true (List.mem_filter.mp hr).2⟩

theorem exec_removed (h : exec ks op arg key now = some (ks', .removed row)) :
    row ∈ ks ∧ ∀ r ∈ ks', r.key ≠ row.key := by
  unfold exec at h
  split at h
  · split at h
    · cases h
    · obtain ⟨ks'', -, heq⟩ := Option.map_eq_some_iff.mp h
      cases heq
  · split at h
    · cases h
    · split at h
      · split at h
        · cases h
        · split at h
          · cases h
          · cases h
      · split at h
        · split at h
          · cases h
          · split at h
            · cases h
            · rename_i hr
              cases h
              exact remove_spec hr
        · cases h

end Store

section Invariant

variable {s : State} {id : Text}

/-- The slot holds the response of the service to this command. -/
def Held (s : State) (id : Text) : Prop :=
  ∃ h ∈ s.handled, s.resp = some (.response h.response) ∧ h.response.id = id

def PhaseOk (s : State) : Prop :=
  match s.phase with
  | .connecting => True
  | .idle => s.event = false
  | .waiting id => s.event = true → Held s id
  | .woken id => Held s id
  | .cleared id => s.event = false ∧ Held s id

structure Inv (s : State) : Prop where
  truthful : ∀ h ∈ s.handled, h.Truthful
  returned : Correlated s
  phase : PhaseOk s

theorem inv_init (store : KeyStore) : Inv (init store) :=
  ⟨fun _ h => absurd h List.not_mem_nil, fun _ h => absurd h List.not_mem_nil, trivial⟩

theorem Outcome.Proper.mono {hs hs' : List Handled} {o : Outcome} (h : o.Proper hs id)
    (hsub : ∀ x ∈ hs, x ∈ hs') : o.Proper hs' id := by
  cases o with
  | timeout => trivial
  | answer resp =>
    obtain ⟨x, hx, hrest⟩ := h
    exact ⟨x, hsub x hx, hrest⟩

theorem PhaseOk.served {store : KeyStore} {commands : List Text} {handled : List Handled}
    (h : PhaseOk s) (hsub : ∀ x ∈ s.handled, x ∈ handled) :
    PhaseOk { s with store := store, commands := commands, handled := handled } := by
  have hheld : ∀ id, Held s id →
      Held { s with store := store, commands := commands, handled := handled } id := by
    rintro id ⟨x, hx, hrest⟩
    exact ⟨x, hsub x hx, hrest⟩
  unfold PhaseOk at h ⊢
  dsimp only
  split
  · trivial
  · rename_i hp
    rw [hp] at h
    exact h
  · rename_i id hp
    rw [hp] at h
    exact fun hev => hheld id (h hev)
  · rename_i id hp
    rw [hp] at h
    exact hheld id h
  · rename_i id hp
    rw [hp] at h
    exact ⟨h.1, hheld id h.2⟩

theorem inv_serve (hi : Inv s) (key now : Text) : Inv (serve s key now) := by
  unfold serve
  split
  · exact hi
  · rename_i body rest hcmd
    have hrest : Inv { s with commands := rest } :=
      ⟨hi.truthful, hi.returned, hi.phase.served fun _ hx => hx⟩
    dsimp only
    split
    · exact hrest
    · rename_i reqid op arg hparse
      split
      · exact hrest
      · rename_i ks resp hexec
        have hsub : ∀ x ∈ s.handled, x ∈ s.handled ++ [⟨⟨reqid, resp⟩, s.store, ks⟩] :=
          fun x hx => List.mem_append_left _ hx
        refine ⟨fun h hh => ?_, fun p hp => (hi.returned p hp).mono hsub, hi.phase.served hsub⟩
        rcases List.mem_append.mp hh with hold | hnew
        · exact hi.truthful h hold
        · rw [List.mem_singleton.mp hnew]
          intro row hrow
          dsimp only at hrow
          subst hrow
          exact exec_removed hexec

theorem inv_connecting (hi : Inv s) (hp : s.phase = .connecting) (resp : Option Reply)
    (event : Bool) : Inv { s with resp := resp, event := event } := by
  refine ⟨hi.truthful, hi.returned, ?_⟩
  unfold PhaseOk
  dsimp only
  rw [hp]
  trivial

theorem inv_deliver (hi : Inv s) {n : ℕ} (hP : Due s (.deliver n)) : Inv (step s (.deliver n)) := by
  unfold step
  dsimp only
  cases hn : s.handled[n]? with
  | none => exact hi
  | some h =>
    have hmem : h ∈ s.handled := List.mem_of_getElem? hn
    rcases hP h hn with hp | hp | hp
    · exact inv_connecting hi hp _ _
    · refine ⟨hi.truthful, hi.returned, ?_⟩
      unfold PhaseOk onMessage
      dsimp only
      rw [hp]
      exact fun _ => ⟨h, hmem, rfl, rfl⟩
    · refine ⟨hi.truthful, hi.returned, ?_⟩
      unfold PhaseOk onMessage
      dsimp only
      rw [hp]
      exact ⟨h, hmem, rfl, rfl⟩

theorem inv_advance (hi : Inv s) : Inv (advance s) := by
  have hphase := hi.phase
  unfold PhaseOk at hphase
  unfold advance
  cases hp : s.phase with
  | connecting | idle => exact hi
  | waiting id =>
    rw [hp] at hphase
    dsimp only
    split
    · rename_i hev
      exact ⟨hi.truthful, hi.returned, hphase hev⟩
    · rename_i hev
      refine ⟨hi.truthful, fun p hp => ?_, Bool.eq_false_iff.mpr hev⟩
      rcases List.mem_append.mp hp with hold | hnew
      · exact hi.returned p hold
      · rw [List.mem_singleton.mp hnew]
        trivial
  | woken id =>
    rw [hp] at hphase
    exact ⟨hi.truthful, hi.returned, rfl, hphase⟩
  | cleared id =>
    rw [hp] at hphase
    obtain ⟨hev, h, hmem, hresp, hid⟩ := hphase
    refine ⟨hi.truthful, fun p hp => ?_, hev⟩
    rcases List.mem_append.mp hp with hold | hnew
    · exact hi.returned p hold
    · rw [List.mem_singleton.mp hnew]
      exact ⟨h, hmem, hresp, hid, hi.truthful h hmem⟩

theorem inv_step (hi : Inv s) {e : Event} (hP : Due s e) : Inv (step s e) := by
  cases e with
  | connected => exact inv_connecting hi hP _ _
  | constructed =>
    unfold step constructed
    dsimp only
    split
    · exact ⟨hi.truthful, hi.returned, rfl⟩
    · exact hi
  | exec id op arg =>
    have hphase := hi.phase
    unfold PhaseOk at hphase
    unfold step startExec
    dsimp only
    split
    · rename_i hp
      rw [hp] at hphase
      exact ⟨hi.truthful, hi.returned, fun hev => absurd (hphase.symm.trans hev) Bool.false_ne_true⟩
    · exact hi
  | command payload => exact ⟨hi.truthful, hi.returned, hi.phase.served fun _ hx => hx⟩
  | serve key now => exact inv_serve hi key now
  | deliver n => exact inv_deliver hi hP
  | garbage => exact inv_connecting hi hP _ _
  | advance => exact inv_advance hi

end Invariant

/-- In every run in which only the response of the waiting call reaches the client, each call returns
a timeout or its own response, and no key is reported as removed that was not. -/
theorem replies_correlated {store : KeyStore} {es : List Event} (h : Along step Due (init store) es) :
    Always step Correlated (init store) es := by
  have hinv : Always step Inv (init store) es :=
    always_of_along (I := Inv) (fun _ _ hi hP => inv_step hi hP) (inv_init store) h
  exact hinv.mono fun _ hi => hi.returned

section Runs

def aliceRow : Row := ⟨['k'], "alice".toList, .active, ['t'], none⟩

def removed : Response := ⟨['a', '1'], .removed aliceRow⟩

def asked (id arg : Text) : List Event := [.exec id "remove".toList arg]

def taken : List Event := [.advance, .advance, .advance]

def connected : List Event := [.connected, .constructed]

def prompt : List Event :=
  connected ++ asked ['a', '1'] ['k'] ++ [.serve [] ['t'], .deliver 0] ++ taken

/-- The response comes behind the timeout, and the next call finds it. -/
def late : List Event :=
  connected ++ asked ['a', '1'] ['k'] ++ [.advance, .serve [] ['t'], .deliver 0] ++
    asked ['b', '2'] ['x'] ++ taken

/-- Another manager's response comes first. -/
def foreign : List Event :=
  connected ++ asked ['b', '2'] ['x'] ++ [.command "a1 remove k".toList, .serve [] ['t'],
    .serve [] ['t'], .deliver 1] ++ taken

theorem prompt_reply_correlated : Always step Correlated (init [aliceRow]) prompt := by
  refine replies_correlated ⟨rfl, trivial, trivial, trivial, fun h hh => ?_, trivial, trivial,
    trivial, trivial⟩
  cases hh
  exact Or.inr (Or.inl rfl)

theorem not_proper_removed {hs : List Handled} :
    ¬ (Outcome.answer (some (.response removed))).Proper hs ['b', '2'] := by
  rintro ⟨h, -, hresp, hid, -⟩
  rw [← Reply.response.inj (Option.some.inj hresp)] at hid
  exact absurd hid (by decide)

/-- A call that removes nothing reports the key that another call has removed. -/
theorem removal_misreported :
    ¬ Always step Correlated (init [aliceRow]) late ∧
      ¬ Always step Correlated (init [aliceRow]) foreign := by
  have hlate : (final step (init [aliceRow]) late).returned =
      [(['a', '1'], .timeout), (['b', '2'], .answer (some (.response removed)))] := by decide
  have hforeign : (final step (init [aliceRow]) foreign).returned =
      [(['b', '2'], .answer (some (.response removed)))] := by decide
  constructor
  · intro h
    have hmem := h.final (['b', '2'], .answer (some (.response removed)))
    rw [hlate] at hmem
    exact not_proper_removed (hmem (by simp))
  · intro h
    have hmem := h.final (['b', '2'], .answer (some (.response removed)))
    rw [hforeign] at hmem
    exact not_proper_removed (hmem (by simp))

end Runs

end AtNode.Manage
