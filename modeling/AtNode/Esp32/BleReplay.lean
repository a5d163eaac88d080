import AtNode.Esp32.KbdBle

/-!
# Reports and the connection they were meant for

The channel is emptied when a connection ends, but a sender that waits for room in it is not called
off: it finds the room the end has made, and its report is the first of the next connection. Where no
connection ends with the engine in its send, every report reaches the host it was sent to or none.
-/

namespace AtNode.KbdBle

open Hid Config Bond Run

attribute [local irreducible] Config.set

/-- Every report that was notified was sent on the connection it was notified on. -/
def Fresh (s : State) : Prop := ∀ n ∈ s.notified, n.1.conn = n.2

def inServe : Phase → Bool
  | .serving _ => true
  | .advertising | .storing _ | .pause => false

/-- There is no connection that is served. -/
def idle : Phase → Bool
  | .advertising | .pause => true
  | .serving _ | .storing _ => false

/-- Where a connection ends the engine is not in its send. -/
def Unblocked (s : State) : Event → Prop
  | .disconnected => inServe s.phase = true → s.blocked = none
  | .takeBondClear => s.bondClear = true → inServe s.phase = true → s.blocked = none
  | _ => True

section Steps

variable {s t : State}

/-- What is true of the channel besides. -/
structure Linked (s : State) : Prop where
  fresh : Fresh s
  reports : ∀ q ∈ s.reports, q.conn = s.conns
  blocked : ∀ q ∈ s.blocked, q.conn = s.conns
  idle : idle s.phase = true → s.connected = false ∧ s.reports = [] ∧ s.blocked = none

/-- The part of the state that the reports pass through. -/
def link (s : State) : List Sent × Option Sent × ℕ × List (Sent × ℕ) × Bool :=
  (s.reports, s.blocked, s.conns, s.notified, s.connected)

theorem Linked.of_link (hi : Linked s) (hlink : link t = link s)
    (hphase : KbdBle.idle t.phase = true → KbdBle.idle s.phase = true) : Linked t := by
  simp only [link, Prod.mk.injEq] at hlink
  obtain ⟨hr, hb, hc, hn, hd⟩ := hlink
  constructor
  · unfold Fresh
    rw [hn]
    exact hi.fresh
  · rw [hr, hc]
    exact hi.reports
  · rw [hb, hc]
    exact hi.blocked
  · rw [hd, hr, hb]
    exact fun h => hi.idle (hphase h)

/-- With the channel empty and nobody served, only the history counts. -/
theorem Linked.empty (hfresh : Fresh s) (hr : s.reports = []) (hb : s.blocked = none)
    (hc : s.connected = false) : Linked s := by
  refine ⟨hfresh, fun q hq => ?_, fun q hq => ?_, fun _ => ⟨hc, hr, hb⟩⟩
  · rw [hr] at hq
    exact absurd hq List.not_mem_nil
  · rw [hb] at hq
    exact absurd hq (Option.not_mem_none q)

theorem link_onNewBond (s : State) (b : BondInformation) (flash : Bool) :
    link (onNewBond s b flash) = link s := by
  rw [onNewBond_eq]
  split
  · rfl
  · rfl

theorem linked_emit (hi : Linked s) (r : Report) : Linked (emit s r) := by
  unfold emit
  split
  · exact hi
  · rename_i hnone
    unfold sendReport
    split
    · rename_i hconn
      have hbusy : ∀ {p : Prop}, KbdBle.idle s.phase = true → p :=
        fun h => absurd ((hi.idle h).1.symm.trans hconn) Bool.false_ne_true
      split
      · refine ⟨hi.fresh, fun q hq => ?_, hi.blocked, hbusy⟩
        rcases List.mem_append.mp hq with hq | hq
        · exact hi.reports q hq
        · rw [List.mem_singleton.mp hq]
      · refine ⟨hi.fresh, hi.reports, fun q hq => ?_, hbusy⟩
        cases Option.mem_some_iff.mp hq
        rfl
    · exact hi

theorem linked_pollSend (hi : Linked s) : Linked (pollSend s) := by
  unfold pollSend
  split
  · rename_i q hq
    split
    · refine ⟨hi.fresh, fun q' hq' => ?_, fun q' hq' => absurd hq' (Option.not_mem_none q'),
        fun h => ?_⟩
      · rcases List.mem_append.mp hq' with hq' | hq'
        · exact hi.reports q' hq'
        · rw [List.mem_singleton.mp hq']
          exact hi.blocked q hq
      · exact absurd (hq.symm.trans (hi.idle h).2.2) (Option.some_ne_none q)
    · exact hi
  · exact hi

theorem linked_notify (hi : Linked s) : Linked (notify s) := by
  unfold notify
  split
  · rename_i q qs hqs
    have hmem : ∀ q' ∈ q :: qs, q'.conn = s.conns := hqs ▸ hi.reports
    refine ⟨fun n hn => ?_, fun q' hq' => hmem q' (List.mem_cons_of_mem q hq'), hi.blocked,
      fun h => ?_⟩
    · rcases List.mem_append.mp hn with hn | hn
      · exact hi.fresh n hn
      · rw [List.mem_singleton.mp hn]
        exact hmem q List.mem_cons_self
    · exact absurd (hqs.symm.trans (hi.idle h).2.1) (List.cons_ne_nil q qs)
  · exact hi

theorem linked_accept (hi : Linked s) (hp : s.phase = .advertising) (peer : BdAddr) :
    Linked (accept s peer) := by
  obtain ⟨hconn, hr, hb⟩ := hi.idle (by rw [hp]; rfl)
  unfold accept
  split
  · exact hi.of_link rfl fun _ => by rw [hp]; rfl
  · unfold serve
    refine ⟨hi.fresh, fun q hq => ?_, fun q hq => ?_, nofun⟩
    · exact absurd (hr ▸ hq) List.not_mem_nil
    · exact absurd (hb ▸ hq) (Option.not_mem_none q)

theorem linked_hangUp (hi : Linked s) (hb : s.blocked = none) : Linked (hangUp s) :=
  .empty hi.fresh rfl hb rfl

theorem linked_takeBondClear (hi : Linked s) (hP : Unblocked s .takeBondClear) :
    Linked (takeBondClear s) := by
  unfold takeBondClear
  split
  · exact hi
  · rename_i hclear
    rw [Bool.not_eq_true', Bool.not_eq_false] at hclear
    have hi' : Linked (handleBondClear s) := hi.of_link rfl fun h => h
    split
    · exact hi'
    · rename_i bondable hp
      exact linked_hangUp hi' (hP hclear (by rw [hp]; rfl))
    · exact hi
    · exact hi

theorem linked_step (hi : Linked s) {e : Event} (hP : Unblocked s e) : Linked (step s e) := by
  cases e with
  | tick | pairOpen | pairClose => exact hi.of_link rfl fun h => h
  | clearBond flash =>
    obtain ⟨cfg, heq⟩ := cfgSet_eq s "ble.bond".toList [] flash
    change Linked (clearBond s flash)
    unfold clearBond
    rw [heq]
    exact hi.of_link rfl fun h => h
  | set key val flash =>
    obtain ⟨cfg, heq⟩ := cfgSet_eq s key val flash
    change Linked (cfgSet s key val flash)
    rw [heq]
    exact hi.of_link rfl fun h => h
  | emit r => exact linked_emit hi r
  | pollSend => exact linked_pollSend hi
  | accept peer =>
    unfold step
    dsimp only
    split
    · rename_i hp
      exact linked_accept hi hp peer
    · exact hi
  | acceptError =>
    unfold step
    dsimp only
    split
    · rename_i hp
      exact hi.of_link rfl fun _ => by rw [hp]; rfl
    · exact hi
  | takeBondClear => exact linked_takeBondClear hi hP
  | notify =>
    unfold step
    dsimp only
    split
    · exact linked_notify hi
    · exact hi
  | pairingComplete bond =>
    unfold step
    dsimp only
    split
    · exact hi.of_link rfl nofun
    · exact hi
  | bondSet flash =>
    unfold step
    dsimp only
    split
    · rename_i b hp
      exact hi.of_link (link_onNewBond s b flash) nofun
    · exact hi
  | disconnected =>
    unfold step
    dsimp only
    split
    · rename_i bondable hp
      exact linked_hangUp hi (hP (by rw [hp]; rfl))
    · exact hi
  | resume =>
    unfold step
    dsimp only
    split
    · rename_i hp
      exact hi.of_link rfl fun _ => by rw [hp]; rfl
    · exact hi
  | reboot => exact .empty hi.fresh rfl rfl rfl

end Steps

/-- Over every order of sends, connections, ends and reboots: where no connection ends with the
engine in its send, no report is notified on a connection other than the one it was sent on. -/
theorem no_stale_replay (cfg : Cfg) (es : List Event) (h : Along step Unblocked (boot cfg) es) :
    Always step Fresh (boot cfg) es := by
  have hboot : Linked (boot cfg) :=
    .empty (fun n hn => absurd hn List.not_mem_nil) rfl rfl rfl
  refine Always.mono (fun _ hi => hi.fresh) (always_of_along (I := Linked) ?_ hboot h)
  intro s e hi hP
  exact linked_step hi hP

section Blocked

variable {s : State} {q : Sent} {bondable : Bool}

def reconnect (peer : BdAddr) : List Event :=
  [.disconnected, .pollSend, .resume, .accept peer, .notify]

/-- What the engine was about to send when a connection ended goes to the host that comes next. -/
theorem notified_reconnect (hp : s.phase = .serving bondable) (hb : s.blocked = some q)
    (peer : BdAddr) (hpeer : s.bondedAddr = some peer ∨ pairWindowOpen s = true) :
    (q, s.conns + 1) ∈ (final step s (reconnect peer)).notified := by
  have hend : step s .disconnected = hangUp s := by simp only [step, hp]
  have hpoll : pollSend (hangUp s) = { hangUp s with reports := [q], blocked := none } := by
    unfold pollSend hangUp
    rw [hb]
    rfl
  have haccept : ∀ t : State, t.phase = .advertising → t.bondedAddr = s.bondedAddr →
      pairWindowOpen t = pairWindowOpen s → step t (.accept peer) = serve t peer := by
    intro t ht hbond hwin
    simp only [step, ht]
    rw [accept_eq, hbond, hwin, if_pos hpeer]
  let idled : State :=
    { s with phase := .advertising, connected := false, reports := [q], blocked := none }
  have hresume : final step s [.disconnected, .pollSend, .resume] = idled := by
    rw [final_cons, hend, final_cons]
    change final step (pollSend (hangUp s)) [.resume] = idled
    rw [hpoll]
    rfl
  have hsplit : final step s (reconnect peer) =
      final step (final step s [.disconnected, .pollSend, .resume]) [.accept peer, .notify] := rfl
  rw [hsplit, hresume, final_cons, haccept idled rfl rfl rfl]
  exact List.mem_append_right _ (List.mem_singleton.mpr rfl)

/-- Four taps of a key that the host has not taken, and a fifth press that waits for room. -/
def fifthPress : List Event :=
  .pairOpen :: .accept host ::
    (List.replicate 4 [Event.emit (.press 0 4), .emit .rest]).flatten.concat (.emit (.press 0 4))

/-- The press that waited when the first connection ended is notified on the second. -/
theorem stale_press_replayed :
    ¬ Always step Fresh (boot erasedCfg) (fifthPress ++ reconnect host) := by
  intro h
  have hp : (final step (boot erasedCfg) fifthPress).phase = .serving true := by decide +kernel
  have hb : (final step (boot erasedCfg) fifthPress).blocked = some ⟨.press 0 4, 1⟩ := by
    decide +kernel
  have hwin : pairWindowOpen (final step (boot erasedCfg) fifthPress) = true := by decide +kernel
  have hc : (final step (boot erasedCfg) fifthPress).conns = 1 := by decide +kernel
  have hmem := notified_reconnect hp hb host (Or.inr hwin)
  rw [hc, ← final_append] at hmem
  have hfresh : Fresh (final step (boot erasedCfg) (fifthPress ++ reconnect host)) := h.final
  have heq : 1 = 2 := hfresh (⟨.press 0 4, 1⟩, 2) hmem
  exact absurd heq (by decide)

/-- A host that takes the reports in time gets its own. -/
theorem prompt_reports_fresh :
    Always step Fresh (boot erasedCfg) [.pairOpen, .accept host, .emit (.press 0 4), .notify,
      .emit .rest, .notify, .disconnected, .resume] :=
  no_stale_replay erasedCfg _ ⟨trivial, trivial, trivial, trivial, trivial, trivial, fun _ => rfl,
    trivial, trivial⟩

end Blocked

end AtNode.KbdBle
