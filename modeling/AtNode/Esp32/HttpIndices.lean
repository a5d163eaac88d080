import Mathlib.Data.Finset.Range
import AtNode.Lib.SlotPool
import AtNode.Esp32.Httpd

/-!
# The indices of the connection buffers

Every index has one owner: the free list, an acceptor, the channel or the handler. A step passes an
index on; the end of the server that reaches an acceptor with an index loses it.
-/

namespace AtNode.Httpd

open Run SlotPool PubSub CfgBus

def owners (s : State) : List ℕ :=
  s.freeIdx ++ (acceptors.filterMap (fun a => (s.phase a).idx) ++ (s.conn ++ s.serving.toList))

/-- Each index is in exactly one place. -/
def Conserved (s : State) : Prop := Owned (Finset.range backlog) (owners s)

/-- Whether `disable` returns at its next poll. -/
def stops (s : State) (a : Acceptor) : Bool :=
  if s.kick then !s.running
  else
    match s.bus.head a.subscriber with
    | none => false
    | some key => switchesOff s.bus.cfg key

/-- The end of the server finds an acceptor without an index. -/
def Spared (s : State) : Event → Prop
  | .disable a => stops s a = true → (s.phase a).idx = none
  | _ => True

section Owners

variable {s : State} {a : Acceptor} {idx : ℕ}

def others (s : State) (a : Acceptor) : List ℕ :=
  (acceptors.erase a).filterMap fun b => (s.phase b).idx

theorem acceptors_perm (a : Acceptor) : acceptors.Perm (a :: acceptors.erase a) :=
  List.perm_cons_erase (by cases a with | _ => decide)

theorem not_mem_erase (a : Acceptor) : a ∉ acceptors.erase a := by
  cases a with
  | _ => decide

theorem owners_perm (s : State) (a : Acceptor) :
    (owners s).Perm
      ((s.phase a).idx.toList ++ (s.freeIdx ++ (others s a ++ (s.conn ++ s.serving.toList)))) := by
  have hheld : (acceptors.filterMap fun b => (s.phase b).idx).Perm
      ((s.phase a).idx.toList ++ others s a) := by
    refine ((acceptors_perm a).filterMap _).trans ?_
    unfold others
    cases h : (s.phase a).idx with
    | none =>
      rw [List.filterMap_cons, h]
      exact List.Perm.refl _
    | some idx =>
      rw [List.filterMap_cons, h]
      exact List.Perm.refl _
  rw [List.perm_iff_count] at hheld ⊢
  intro x
  have hx := hheld x
  unfold owners
  simp only [List.count_append] at hx ⊢
  omega

theorem others_congr {s' : State} {p : Phase} (hphase : s'.phase = Function.update s.phase a p) :
    others s' a = others s a := by
  unfold others
  refine List.filterMap_congr fun b hb => ?_
  have hne : b ≠ a := by
    rintro rfl
    exact not_mem_erase b hb
  rw [hphase, Function.update_of_ne hne]

/-- A step of one acceptor that passes indices between it, the free list and the channel. -/
theorem conserved_pass {s' : State} {p : Phase} (hi : Conserved s)
    (hphase : s'.phase = Function.update s.phase a p) (hserving : s'.serving = s.serving)
    (hperm : ((s.phase a).idx.toList ++ (s.freeIdx ++ s.conn)).Perm
      (p.idx.toList ++ (s'.freeIdx ++ s'.conn))) : Conserved s' := by
  refine hi.perm ((owners_perm s a).trans (List.Perm.trans ?_ (owners_perm s' a).symm))
  rw [others_congr hphase, hserving, hphase, Function.update_self]
  rw [List.perm_iff_count] at hperm ⊢
  intro x
  have hx := hperm x
  simp only [List.count_append] at hx ⊢
  omega

/-- Whoever holds an index finds room in the free list. -/
theorem free_room (rest : List ℕ) (hi : Conserved s)
    (hperm : (owners s).Perm (idx :: (s.freeIdx ++ rest))) : s.freeIdx.length < backlog := by
  have hlen := hi.length_eq
  rw [hperm.length_eq, Finset.card_range, List.length_cons, List.length_append] at hlen
  omega

theorem freeSend_eq (h : s.freeIdx.length < backlog) (idx : ℕ) :
    freeSend s idx = { s with freeIdx := s.freeIdx ++ [idx] } := if_pos h

theorem loopTop_idx (b : Bool) : (if b then Phase.waitIdx else Phase.idle).idx = none := by
  cases b with
  | _ => rfl

/-- The places an index can be in are the same. -/
structure SamePlaces (s t : State) : Prop where
  phase : t.phase = s.phase
  serving : t.serving = s.serving
  freeIdx : t.freeIdx = s.freeIdx
  conn : t.conn = s.conn

theorem SamePlaces.owners {t : State} (h : SamePlaces s t) : owners t = owners s := by
  unfold Httpd.owners
  rw [h.phase, h.serving, h.freeIdx, h.conn]

theorem conserved_loopTop {t : State} (hi : Conserved s) (hidx : (s.phase a).idx = none)
    (h : SamePlaces s t) : Conserved (loopTop t a) := by
  refine conserved_pass (a := a) hi (congrArg (Function.update · a _) h.phase) h.serving ?_
  rw [hidx, loopTop_idx]
  exact List.Perm.of_eq (by rw [loopTop, h.freeIdx, h.conn])

end Owners

section Steps

variable {s : State} {a : Acceptor} {idx : ℕ}

theorem conserved_woken {t : State} (hi : Conserved s) (hidx : (s.phase a).idx = none)
    (h : SamePlaces s t) : Conserved (woken t a) := by
  unfold woken
  split
  · exact conserved_loopTop hi hidx ⟨h.phase, h.serving, h.freeIdx, h.conn⟩
  · exact conserved_loopTop hi hidx h

theorem conserved_connSend (hi : Conserved s) (hidx : (s.phase a).idx = some idx) :
    Conserved (connSend s a idx) := by
  unfold connSend
  split
  · refine conserved_pass (a := a) hi rfl rfl ?_
    rw [hidx, loopTop_idx]
    rw [List.perm_iff_count]
    intro x
    simp only [loopTop, Option.toList_some, Option.toList_none, List.count_append, List.count_nil]
    omega
  · refine conserved_pass (a := a) hi rfl rfl ?_
    rw [hidx]
    exact List.Perm.refl _

theorem conserved_acceptError (hi : Conserved s) (hidx : (s.phase a).idx = some idx) :
    Conserved (acceptError s a idx) := by
  have hroom : s.freeIdx.length < backlog := by
    have hp := owners_perm s a
    rw [hidx] at hp
    exact free_room _ hi hp
  unfold acceptError
  rw [freeSend_eq hroom]
  refine conserved_pass (a := a) hi rfl rfl ?_
  rw [hidx, loopTop_idx, List.perm_iff_count]
  intro x
  simp only [loopTop, Option.toList_some, Option.toList_none, List.count_append, List.count_nil]
  omega

theorem conserved_poll (hi : Conserved s) (a : Acceptor) : Conserved (poll s a) := by
  unfold poll
  cases hp : s.phase a with
  | idle =>
    have hidx : (s.phase a).idx = none := by rw [hp]; rfl
    dsimp only [idlePoll]
    split
    · exact conserved_woken hi hidx ⟨rfl, rfl, rfl, rfl⟩
    · split
      · exact conserved_woken hi hidx ⟨rfl, rfl, rfl, rfl⟩
      · exact hi
  | waitIdx =>
    dsimp only [takeIdx]
    split
    · exact hi
    · rename_i idx rest hfree
      refine conserved_pass (a := a) hi rfl rfl ?_
      rw [hp, hfree]
      exact List.Perm.refl _
  | accept idx => exact hi
  | send idx => exact conserved_connSend hi (by rw [hp]; rfl)

theorem conserved_accepted (hi : Conserved s) (a : Acceptor) (ok : Bool) :
    Conserved (accepted s a ok) := by
  unfold accepted
  cases hp : s.phase a with
  | accept idx =>
    have hidx : (s.phase a).idx = some idx := by rw [hp]; rfl
    cases ok with
    | true => exact conserved_connSend hi hidx
    | false => exact conserved_acceptError hi hidx
  | idle | waitIdx | send idx => exact hi

theorem conserved_receive (hi : Conserved s) : Conserved (receive s) := by
  unfold receive
  split
  · rename_i idx rest hserving hconn
    refine hi.perm ?_
    unfold owners
    rw [hserving, hconn, List.perm_iff_count]
    intro x
    simp only [Option.toList_some, Option.toList_none, List.count_append, List.count_nil,
      List.count_cons]
    omega
  · exact hi

theorem conserved_served (hi : Conserved s) : Conserved (served s) := by
  unfold served
  cases hserving : s.serving with
  | none => exact hi
  | some idx =>
    have hp : (owners s).Perm (idx :: (s.freeIdx ++
        (acceptors.filterMap (fun a => (s.phase a).idx) ++ s.conn))) := by
      unfold owners
      rw [hserving, List.perm_iff_count]
      intro x
      simp only [Option.toList_some, List.count_append, List.count_nil, List.count_cons]
      omega
    have hroom := free_room _ hi hp
    dsimp only
    rw [freeSend_eq (s := { s with serving := none }) hroom]
    refine hi.perm (hp.trans ?_)
    unfold owners
    rw [List.perm_iff_count]
    intro x
    simp only [Option.toList_none, List.count_append, List.count_nil, List.count_cons]
    omega

/-- An acceptor that holds an index and goes to the head of its loop loses it. -/
theorem lost_loopTop {t : State} (hi : Conserved s) (hidx : (s.phase a).idx = some idx)
    (h : SamePlaces s t) : ¬ Conserved (loopTop t a) := by
  intro hc
  have hbefore := (owners_perm s a).length_eq.symm.trans hi.length_eq
  have hafter := (owners_perm (loopTop t a) a).length_eq.symm.trans hc.length_eq
  rw [others_congr (congrArg (Function.update · a _) h.phase)] at hafter
  dsimp only [loopTop] at hafter
  rw [Function.update_self, loopTop_idx, h.serving, h.freeIdx, h.conn] at hafter
  rw [hidx, ← hafter] at hbefore
  simp only [Option.toList_some, Option.toList_none, List.length_append, List.length_cons,
    List.length_nil] at hbefore
  omega

theorem disablePoll_eq (s : State) (a : Acceptor) :
    ∃ t, SamePlaces s t ∧ disablePoll s a = if stops s a then loopTop t a else t := by
  unfold disablePoll stops
  split
  · refine ⟨{ s with kick := false }, ⟨rfl, rfl, rfl, rfl⟩, ?_⟩
    cases s.running with
    | true => rfl
    | false => rfl
  · cases s.bus.head a.subscriber with
    | none => exact ⟨s, ⟨rfl, rfl, rfl, rfl⟩, rfl⟩
    | some key =>
      cases hoff : switchesOff s.bus.cfg key with
      | true =>
        refine ⟨setRunning { s with bus := s.bus.read a.subscriber } false, ⟨rfl, rfl, rfl, rfl⟩, ?_⟩
        simp only [hoff, if_true]
      | false =>
        refine ⟨{ s with bus := s.bus.read a.subscriber }, ⟨rfl, rfl, rfl, rfl⟩, ?_⟩
        simp only [hoff, Bool.false_eq_true, if_false]

theorem conserved_disable_iff (hi : Conserved s) (a : Acceptor) :
    Conserved (disable s a) ↔ Spared s (.disable a) := by
  have hpoll : Conserved (disablePoll s a) ↔ Spared s (.disable a) := by
    obtain ⟨t, hsame, heq⟩ := disablePoll_eq s a
    unfold Spared
    rw [heq]
    cases hs : stops s a with
    | false =>
      refine iff_of_true ?_ fun h => absurd (hs.symm.trans h) Bool.false_ne_true
      rw [if_neg Bool.false_ne_true, Conserved, hsame.owners]
      exact hi
    | true =>
      rw [if_pos rfl]
      cases hidx : (s.phase a).idx with
      | none => exact iff_of_true (conserved_loopTop hi hidx hsame) fun _ => hidx
      | some idx =>
        refine iff_of_false (lost_loopTop hi hidx hsame) fun h => ?_
        exact Option.some_ne_none idx (hidx.symm.trans (h hs))
  unfold disable
  cases hp : s.phase a with
  | idle =>
    refine iff_of_true hi fun _ => ?_
    rw [hp]
    rfl
  | waitIdx | accept idx | send idx => exact hpoll

theorem conserved_step_iff (hi : Conserved s) (e : Event) : Conserved (step s e) ↔ Spared s e := by
  cases e with
  | set c => exact iff_of_true hi trivial
  | otherReads i =>
    refine iff_of_true ?_ trivial
    unfold step
    dsimp only
    split
    · exact hi
    · exact hi
  | poll a => exact iff_of_true (conserved_poll hi a) trivial
  | disable a => exact conserved_disable_iff hi a
  | accepted a ok => exact iff_of_true (conserved_accepted hi a ok) trivial
  | receive => exact iff_of_true (conserved_receive hi) trivial
  | served => exact iff_of_true (conserved_served hi) trivial

end Steps

theorem conserved_init (cfg : Config.Cfg) : Conserved (init cfg) := by
  have hheld : acceptors.filterMap (fun a => ((init cfg).phase a).idx) = [] :=
    List.filterMap_eq_nil_iff.mpr fun _ _ => loopTop_idx _
  have howners : owners (init cfg) = List.range backlog := by
    unfold owners
    rw [hheld]
    rfl
  unfold Conserved
  rw [howners]
  refine ⟨List.nodup_range, fun i => ?_⟩
  rw [Finset.mem_range, List.mem_range]

/-- From boot, over every order of connections, errors and switches, each index is in exactly one
place throughout a run if and only if the end of the server finds acceptors without an index. -/
theorem indices_conserved_iff (cfg : Config.Cfg) (es : List Event) :
    Always step Conserved (init cfg) es ↔ Along step Spared (init cfg) es := by
  refine always_iff_along (I := Conserved) (fun _ hi => hi) ?_ ?_ (conserved_init cfg)
  · intro s e hi hP
    exact (conserved_step_iff hi e).mpr hP
  · intro s e hi hP hs
    exact hP ((conserved_step_iff hi e).mp hs)

section Toggle

open Config

def servingCfg : Cfg where
  table
    | .httpAuto | .httpEnable => some ['1']
    | _ => none
  defName := []
  defHostname := []

def toggled : List Event :=
  [.poll .zero, .disable .zero, .set ⟨"http.enable".toList, ['0'], true⟩, .disable .zero]

/-- The index of the buffer is nowhere any more. -/
theorem toggle_loses_index : ¬ Always step Conserved (init servingCfg) toggled := by
  intro h
  have hlen : (owners (final step (init servingCfg) toggled)).length = 9 := by decide +kernel
  have hall := h.final.length_eq
  rw [hlen, Finset.card_range] at hall
  exact absurd hall (by decide)

end Toggle

end AtNode.Httpd
