import AtNode.Esp32.PubReq

/-!
# Whose publication a signal is about

As long as no caller gives up, there is at most one request on its way, that of the caller with the
lock: queued, being published, or signalled.
-/

namespace AtNode.PubReq

open Run Config

/-- The caller was told that its request was not made. -/
def Result.Refused : Result → Prop
  | .timeout | .notConnected => True
  | .tooLong | .full | .acked _ _ => False

/-- A signal is about the request of the caller that got it, and a request whose caller was refused
was not published in a later session. -/
def Correlated (s : State) : Prop :=
  (∀ n c ok about t, s.callers n = some c → c.phase = .returned (.acked ok about) t → about = n) ∧
    ∀ n k, (n, k) ∈ s.published → ∀ c r t, s.callers n = some c → c.phase = .returned r t →
      r.Refused → k ≤ t

/-- No caller gives up on a request it has queued. -/
def Patient (s : State) : Event → Prop
  | .poll n expired =>
    expired = true → ∀ c, s.callers n = some c → c.phase = .waiting → s.ack ≠ none
  | _ => True

section Invariant

variable {s : State} {n : ℕ} {c : Caller}

/-- At most one request is on its way, that of the caller with the lock. -/
inductive OneRequest (s : State) : Prop where
  | nothing (hq : s.queue = []) (hp : s.publishing = none) (ha : s.ack = none)
      (hl : s.lock = none)
  | queued (r : Req) (hq : s.queue = [r]) (hp : s.publishing = none) (ha : s.ack = none)
      (hl : s.lock = some r.caller)
  | begun (r : Req) (hq : s.queue = []) (hp : s.publishing = some r) (ha : s.ack = none)
      (hl : s.lock = some r.caller)
  | signalled (ok : Bool) (n : ℕ) (hq : s.queue = []) (hp : s.publishing = none)
      (ha : s.ack = some (ok, n)) (hl : s.lock = some n)

/-- A caller that has returned was not told to have failed with its request on the way. -/
def Phase.Fair (n : ℕ) : Phase → Prop
  | .locking | .waiting => True
  | .returned r _ =>
    match r with
    | .acked _ about => about = n
    | .timeout => False
    | .notConnected | .tooLong | .full => True

structure Inv (s : State) : Prop where
  one : OneRequest s
  lock : ∀ n, s.lock = some n ↔ ∃ c, s.callers n = some c ∧ c.phase = .waiting
  fair : ∀ n c, s.callers n = some c → c.phase.Fair n ∧ c.req.caller = n
  published : ∀ n k, (n, k) ∈ s.published → ∃ c, s.callers n = some c ∧
    (c.phase = .waiting ∨ ∃ ok t, c.phase = .returned (.acked ok n) t)

theorem inv_init : Inv init := by
  refine ⟨.nothing rfl rfl rfl rfl, fun n => ?_, fun n c h => ?_, fun n k h => ?_⟩
  · refine iff_of_false (Option.some_ne_none n).symm ?_
    rintro ⟨c, h, -⟩
    exact Option.some_ne_none c h.symm
  · exact absurd h.symm (Option.some_ne_none c)
  · exact absurd h List.not_mem_nil

theorem Inv.correlated (hi : Inv s) : Correlated s := by
  constructor
  · intro n c ok about t hc hp
    have hfair := (hi.fair n c hc).1
    rw [hp] at hfair
    exact hfair
  · intro n k hk c r t hc hp hr
    obtain ⟨c', hc', hphase⟩ := hi.published n k hk
    cases hc.symm.trans hc'
    rcases hphase with hw | ⟨ok, t', hacked⟩
    · rw [hp] at hw
      cases hw
    · rw [hp] at hacked
      cases hacked
      cases hr

theorem inv_caller {s' : State} {c' : Caller} (hi : Inv s)
    (hcallers : s'.callers = Function.update s.callers n (some c'))
    (hpub : s'.published = s.published) (hone : OneRequest s')
    (hown : s'.lock = some n ↔ c'.phase = .waiting)
    (hother : ∀ m, m ≠ n → (s'.lock = some m ↔ s.lock = some m))
    (hfair : c'.phase.Fair n ∧ c'.req.caller = n)
    (hkept : ∀ k, (n, k) ∈ s.published →
      c'.phase = .waiting ∨ ∃ ok t, c'.phase = .returned (.acked ok n) t) : Inv s' := by
  have hself : s'.callers n = some c' := by rw [hcallers, Function.update_self]
  have hne : ∀ m, m ≠ n → s'.callers m = s.callers m := by
    intro m hm
    rw [hcallers, Function.update_of_ne hm]
  refine ⟨hone, fun m => ?_, fun m c hc => ?_, fun m k hk => ?_⟩
  · by_cases hm : m = n
    · subst hm
      rw [hown, hself]
      constructor
      · intro h
        exact ⟨c', rfl, h⟩
      · rintro ⟨c, hc, h⟩
        cases hc
        exact h
    · rw [hother m hm, hne m hm]
      exact hi.lock m
  · by_cases hm : m = n
    · subst hm
      cases hself.symm.trans hc
      exact hfair
    · exact hi.fair m c ((hne m hm).symm.trans hc)
  · rw [hpub] at hk
    by_cases hm : m = n
    · subst hm
      exact ⟨c', hself, hkept k hk⟩
    · rw [hne m hm]
      exact hi.published m k hk

def Outside (s : State) (n : ℕ) : Prop :=
  s.callers n = none ∨ ∃ c, s.callers n = some c ∧ c.phase = .locking

/-- A caller whose request was begun waits or has its signal. -/
theorem not_published (hi : Inv s) {k : ℕ} (hk : (n, k) ∈ s.published) (h : Outside s n) :
    False := by
  obtain ⟨c, hc, hphase⟩ := hi.published n k hk
  rcases h with hnone | ⟨c', hc', hlocking⟩
  · exact Option.some_ne_none c (hc.symm.trans hnone)
  · cases hc.symm.trans hc'
    rcases hphase with hw | ⟨ok, t, hacked⟩
    · exact absurd (hw.symm.trans hlocking) (by decide)
    · rw [hacked] at hlocking
      cases hlocking

theorem lock_ne (hi : Inv s) (h : Outside s n) : s.lock ≠ some n := by
  intro hl
  obtain ⟨c, hc, hw⟩ := (hi.lock n).mp hl
  rcases h with hnone | ⟨c', hc', hlocking⟩
  · exact Option.some_ne_none c (hc.symm.trans hnone)
  · cases hc.symm.trans hc'
    exact absurd (hw.symm.trans hlocking) (by decide)

theorem OneRequest.congr {s' : State} (h : OneRequest s) (hq : s'.queue = s.queue)
    (hp : s'.publishing = s.publishing) (ha : s'.ack = s.ack) (hl : s'.lock = s.lock) :
    OneRequest s' := by
  cases h with
  | nothing hq' hp' ha' hl' =>
    exact .nothing (hq.trans hq') (hp.trans hp') (ha.trans ha') (hl.trans hl')
  | queued r hq' hp' ha' hl' =>
    exact .queued r (hq.trans hq') (hp.trans hp') (ha.trans ha') (hl.trans hl')
  | begun r hq' hp' ha' hl' =>
    exact .begun r (hq.trans hq') (hp.trans hp') (ha.trans ha') (hl.trans hl')
  | signalled ok n hq' hp' ha' hl' =>
    exact .signalled ok n (hq.trans hq') (hp.trans hp') (ha.trans ha') (hl.trans hl')

theorem inv_outside (hi : Inv s) (h : Outside s n) {phase : Phase} (hw : phase ≠ .waiting)
    (hfair : phase.Fair n) (hreq : c.req.caller = n) : Inv (setPhase s n c phase) := by
  have hl : s.lock ≠ some n := lock_ne hi h
  refine inv_caller hi rfl rfl (hi.one.congr rfl rfl rfl rfl) (iff_of_false hl hw)
    (fun _ _ => Iff.rfl) ⟨hfair, hreq⟩ fun k hk => ?_
  exact (not_published hi hk h).elim

theorem inv_enter (hi : Inv s) (n : ℕ) (topic payload : Text) (subscribe : Bool) :
    Inv (enter s n topic payload subscribe) := by
  unfold enter
  cases hc : s.callers n with
  | some c => exact hi
  | none =>
    dsimp only
    split
    · exact inv_outside hi (Or.inl hc) (by decide) trivial rfl
    · exact inv_outside hi (Or.inl hc) nofun trivial rfl

theorem inv_acquire (hi : Inv s) (n : ℕ) : Inv (acquire s n) := by
  unfold acquire
  split
  · rename_i c hlock hc
    cases hp : c.phase with
    | waiting | returned r t => exact hi
    | locking =>
      have hout : Outside s n := Or.inr ⟨c, hc, hp⟩
      have hreq : c.req.caller = n := (hi.fair n c hc).2
      dsimp only [submit]
      split
      · exact inv_outside hi hout nofun trivial hreq
      · split
        · exact inv_outside hi hout nofun trivial hreq
        · refine inv_caller hi rfl rfl ?_ (iff_of_true rfl rfl) (fun m hm => ?_) ⟨trivial, hreq⟩
            fun k hk => ?_
          · cases hi.one with
            | nothing hq hp ha hl =>
              refine .queued c.req ?_ hp ha (congrArg some hreq.symm)
              change s.queue ++ [c.req] = [c.req]
              rw [hq]
              rfl
            | queued r hq hp ha hl => exact absurd (hl.symm.trans hlock) (Option.some_ne_none _)
            | begun r hq hp ha hl => exact absurd (hl.symm.trans hlock) (Option.some_ne_none _)
            | signalled ok m hq hp ha hl =>
              exact absurd (hl.symm.trans hlock) (Option.some_ne_none _)
          · refine iff_of_false (fun h => hm (Option.some.inj h).symm) fun h => ?_
            exact Option.some_ne_none m (h.symm.trans hlock)
          · exact (not_published hi hk hout).elim
  · exact hi

/-- The signal a caller finds is about its own request. -/
theorem inv_poll (hi : Inv s) {n : ℕ} {expired : Bool} (hP : Patient s (.poll n expired)) :
    Inv (poll s n expired) := by
  unfold poll
  cases hc : s.callers n with
  | none => exact hi
  | some c =>
    dsimp only
    cases hp : c.phase with
    | locking | returned r t => exact hi
    | waiting =>
      dsimp only
      have hl : s.lock = some n := (hi.lock n).mpr ⟨c, hc, hp⟩
      cases ha : s.ack with
      | none =>
        cases expired with
        | false => exact hi
        | true => exact absurd ha (hP rfl c hc hp)
      | some a =>
        cases hi.one with
        | nothing hq hp ha' hl' => exact absurd (ha.symm.trans ha') (Option.some_ne_none _)
        | queued r hq hp ha' hl' => exact absurd (ha.symm.trans ha') (Option.some_ne_none _)
        | begun r hq hp ha' hl' => exact absurd (ha.symm.trans ha') (Option.some_ne_none _)
        | signalled ok m hq hp ha' hl' =>
          cases Option.some.inj (ha.symm.trans ha')
          cases Option.some.inj (hl.symm.trans hl')
          refine inv_caller hi rfl rfl (.nothing hq hp rfl rfl)
            (iff_of_false (Option.some_ne_none n).symm nofun) (fun m hm => ?_)
            ⟨rfl, (hi.fair n c hc).2⟩ fun k _ => Or.inr ⟨ok, _, rfl⟩
          refine iff_of_false (Option.some_ne_none m).symm fun h => ?_
          exact hm (Option.some.inj (h.symm.trans hl'))

/-- A step of the session leaves the callers and the lock as they are. -/
theorem inv_session {s' : State} (hi : Inv s) (hcallers : s'.callers = s.callers)
    (hlock : s'.lock = s.lock) (hone : OneRequest s')
    (hpub : ∀ n k, (n, k) ∈ s'.published → (n, k) ∈ s.published ∨ s.lock = some n) : Inv s' := by
  refine ⟨hone, fun m => ?_, fun m c hc => ?_, fun m k hk => ?_⟩
  · rw [hlock, hcallers]
    exact hi.lock m
  · rw [hcallers] at hc
    exact hi.fair m c hc
  · rw [hcallers]
    rcases hpub m k hk with hold | hl
    · exact hi.published m k hold
    · obtain ⟨c, hc, hw⟩ := (hi.lock m).mp hl
      exact ⟨c, hc, Or.inl hw⟩

theorem inv_take (hi : Inv s) : Inv (take s) := by
  unfold take
  split
  · rename_i r rest hconn hnone hqueue
    cases hi.one with
    | nothing hq hp ha hl => exact absurd (hqueue.symm.trans hq) (List.cons_ne_nil _ _)
    | begun r' hq hp ha hl => exact absurd (hqueue.symm.trans hq) (List.cons_ne_nil _ _)
    | signalled ok m hq hp ha hl => exact absurd (hqueue.symm.trans hq) (List.cons_ne_nil _ _)
    | queued r' hq hp ha hl =>
      cases hqueue.symm.trans hq
      refine inv_session hi rfl rfl (.begun r rfl rfl ha hl) fun n k hk => ?_
      rcases List.mem_append.mp hk with hold | hnew
      · exact Or.inl hold
      · cases List.mem_singleton.mp hnew
        exact Or.inr hl
  · exact hi

theorem inv_done (hi : Inv s) (ok : Bool) : Inv (done s ok) := by
  unfold done
  cases hpub : s.publishing with
  | none => exact hi
  | some r =>
    cases hi.one with
    | nothing hq hp ha hl => exact absurd (hpub.symm.trans hp) (Option.some_ne_none _)
    | queued r' hq hp ha hl => exact absurd (hpub.symm.trans hp) (Option.some_ne_none _)
    | signalled ok m hq hp ha hl => exact absurd (hpub.symm.trans hp) (Option.some_ne_none _)
    | begun r' hq hp ha hl =>
      cases Option.some.inj (hpub.symm.trans hp)
      exact inv_session hi rfl rfl (.signalled ok r.caller hq rfl rfl hl) fun n k hk => Or.inl hk

theorem inv_step (hi : Inv s) {e : Event} (hP : Patient s e) : Inv (step s e) := by
  cases e with
  | enter n topic payload subscribe => exact inv_enter hi n topic payload subscribe
  | acquire n => exact inv_acquire hi n
  | poll n expired => exact inv_poll hi hP
  | take => exact inv_take hi
  | done ok => exact inv_done hi ok
  | drop =>
    unfold step drop
    dsimp only
    split
    · exact inv_session hi rfl rfl (hi.one.congr rfl rfl rfl rfl) fun n k hk => Or.inl hk
    · exact hi
  | connect =>
    unfold step connect
    dsimp only
    split
    · exact hi
    · exact inv_session hi rfl rfl (hi.one.congr rfl rfl rfl rfl) fun n k hk => Or.inl hk

end Invariant

/-- Over every order of callers, sessions and their ends in which no caller gives up on a request it
has queued, each signal reaches the caller it is about, and no refused request is published later. -/
theorem signals_correlated {es : List Event} (h : Along step Patient init es) :
    Always step Correlated init es := by
  have hinv : Always step Inv init es :=
    always_of_along (I := Inv) (fun _ _ hi hP => inv_step hi hP) inv_init h
  exact hinv.mono fun _ hi => hi.correlated

section Runs

def queued (n : ℕ) : List Event := [.enter n ['t'] ['p'] false, .acquire n]

def prompt : List Event := .connect :: queued 0 ++ [.take, .done true, .poll 0 true]

/-- The caller gives up before its signal, and the next caller gets it. -/
def stale : List Event :=
  .connect :: queued 0 ++ [.take, .poll 0 true, .done false] ++ queued 1 ++ [.poll 1 false]

/-- The session ends before it takes the request, and the caller gives up. -/
def deferred : List Event := .connect :: queued 0 ++ [.drop, .poll 0 true, .connect, .take]

theorem prompt_signal_correlated : Always step Correlated init prompt := by
  refine signals_correlated
    ⟨trivial, trivial, trivial, trivial, trivial, fun _ c hc hw => ?_, trivial⟩
  exact Option.some_ne_none _

theorem stale_signals :
    ¬ Always step Correlated init stale ∧ ¬ Always step Correlated init deferred := by
  constructor
  · intro h
    exact absurd (h.final.1 1 _ false 0 1 rfl rfl) (by decide)
  · intro h
    exact absurd (h.final.2 0 2 (List.mem_singleton_self _) _ _ 1 rfl rfl trivial) (by decide)

end Runs

end AtNode.PubReq
