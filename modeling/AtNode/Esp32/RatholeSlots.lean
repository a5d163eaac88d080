import Mathlib.Data.Fintype.Card
import AtNode.Lib.Run
import AtNode.Esp32.Rathole

/-!
# Every slot of the rathole client has an owner

A slot is owned by the connection that is being opened in it, by the standby, by a queued forward
request or by the forward task. Each step hands slots on or releases them, save one: an opening that
finds no address for the server returns without `slot_free`.
-/

namespace AtNode.Rathole

open Run Config SlotPool

section Owners

def Manager.opening : Manager → List Slot
  | .filling _ slot => [slot]
  | .down | .connected _ => []

def Manager.standby : Manager → List Slot
  | .connected ses => (ses.pool.map Standby.slot).toList
  | .down | .filling _ _ => []

def Forwarder.slots : Forwarder → List Slot
  | .idle => []
  | .dialing req => [req.slot]
  | .pumping slot => [slot]

/-- The slots of the channels that are open: the standby, the queued requests, the forward task. -/
def channels (s : State) : List Slot :=
  s.manager.standby ++ (s.fwdCh.map FwdReq.slot ++ s.forwarder.slots)

structure Accounts (slots : Finset Slot) (dataCh : UInt8) (opening channels : List Slot) :
    Prop where
  owned : Owned slots (opening ++ channels)
  count : dataCh.toNat = channels.length

/-- Every taken slot has one owner, and the count is that of the open channels. -/
def Conserved (s : State) : Prop :=
  Accounts s.slots s.dataCh s.manager.opening (channels s)

variable {slots : Finset Slot} {n : UInt8} {slot : Slot} {opening cs cs' : List Slot}

theorem Accounts.perm (h : Accounts slots n opening cs) (hp : cs.Perm cs') :
    Accounts slots n opening cs' :=
  ⟨h.owned.perm (hp.append_left opening), h.count.trans hp.length_eq⟩

theorem Accounts.length_le (h : Accounts slots n opening cs) : cs.length ≤ maxFwd := by
  have hnodup : cs.Nodup := (List.nodup_append.mp h.owned.once).2.1
  have hcard := List.Nodup.length_le_card hnodup
  rwa [Fintype.card_fin] at hcard

theorem Accounts.allocated (h : Accounts slots n [] cs) (hs : slot ∉ slots) :
    Accounts (insert slot slots) n [slot] cs :=
  ⟨h.owned.alloc hs, h.count⟩

theorem Accounts.opened (h : Accounts slots n [slot] cs) :
    Accounts slots (n + 1) [] (slot :: cs) := by
  refine ⟨h.owned, ?_⟩
  have hlen := h.length_le
  have hcount := h.count
  have hone : (1 : UInt8).toNat = 1 := rfl
  rw [UInt8.toNat_add, hcount, hone, List.length_cons]
  exact Nat.mod_eq_of_lt (by unfold maxFwd at hlen; omega)

theorem Accounts.failed (h : Accounts slots n [slot] cs) :
    Accounts (slots.erase slot) n [] cs :=
  ⟨h.owned.free, h.count⟩

theorem Accounts.released (h : Accounts slots n opening (slot :: cs)) :
    Accounts (slots.erase slot) (n - 1) opening cs := by
  have hperm : (opening ++ slot :: cs).Perm (slot :: (opening ++ cs)) := List.perm_middle
  refine ⟨(h.owned.perm hperm).free, ?_⟩
  have hcount : n.toNat = cs.length + 1 := h.count
  have hle : (1 : UInt8) ≤ n := by
    rw [UInt8.le_iff_toNat_le, hcount]
    exact Nat.le_add_left 1 _
  rw [UInt8.toNat_sub_of_le _ _ hle, hcount]
  rfl

/-- A slot whose opening is given up without a release has no owner. -/
theorem Accounts.lost (h : Accounts slots n [slot] cs) : ¬ Accounts slots n [] cs := by
  intro h'
  have hlost : ¬ Owned slots cs := h.owned.lost
  exact hlost h'.owned

end Owners

/-- The host is an address already, or the query for it is answered with one. -/
def Resolvable (host : Text) (answer : Answer) : Prop :=
  (parseIpv4 host).isSome ∨ ∃ ip rest, answer = some (ip :: rest)

/-- Whenever a data channel is opened, an address of the server is found. -/
def Answered (s : State) : Event → Prop
  | .filled answer _ _ =>
    match s.manager with
    | .filling ses _ => ∀ host port, splitHostPort ses.tcfg.server = some (host, port) →
        Resolvable host answer
    | .down | .connected _ => True
  | _ => True

theorem resolve_isSome_iff {host : Text} {answer : Answer} :
    (resolve host answer).isSome ↔ Resolvable host answer := by
  unfold resolve Resolvable
  cases parseIpv4 host with
  | some v4 => exact iff_of_true rfl (Or.inl rfl)
  | none =>
    rcases answer with _ | (_ | ⟨ip, rest⟩)
    · simp
    · simp
    · simp

theorem slotAlloc_free {slots : Finset Slot} {slot : Slot} (h : slotAlloc slots = some slot) :
    slot ∉ slots := by
  have hp := List.find?_some h
  exact of_decide_eq_true hp

section Invariant

/-- The server address of a session could be split when it began, and no standby is there while one
is opened. -/
def Manager.Sound : Manager → Prop
  | .down => True
  | .connected ses => (splitHostPort ses.tcfg.server).isSome
  | .filling ses _ => (splitHostPort ses.tcfg.server).isSome ∧ ses.pool = none

structure SlotInv (s : State) : Prop where
  conserved : Conserved s
  sound : s.manager.Sound

variable {s : State} {ses : Session} {standby : Standby} {slot : Slot} {chunk : Bytes} {heap : ℕ}
  {answer : Answer} {connects writes : Bool}

theorem slotInv_init : SlotInv init := ⟨⟨Owned.empty, rfl⟩, trivial⟩

theorem SlotInv.connected (hi : SlotInv s) (hs : s.manager = .connected ses) :
    Accounts s.slots s.dataCh []
        ((ses.pool.map Standby.slot).toList ++ (s.fwdCh.map FwdReq.slot ++ s.forwarder.slots)) ∧
      (splitHostPort ses.tcfg.server).isSome := by
  obtain ⟨hacc, hsound⟩ := hi
  unfold Conserved channels at hacc
  rw [hs] at hacc hsound
  exact ⟨hacc, hsound⟩

theorem SlotInv.filling (hi : SlotInv s) (hs : s.manager = .filling ses slot) :
    Accounts s.slots s.dataCh [slot] (s.fwdCh.map FwdReq.slot ++ s.forwarder.slots) ∧
      (splitHostPort ses.tcfg.server).isSome ∧ ses.pool = none := by
  obtain ⟨hacc, hsound⟩ := hi
  unfold Conserved channels at hacc
  rw [hs] at hacc hsound
  exact ⟨hacc, hsound⟩

theorem SlotInv.pooled (hi : SlotInv s) (hs : s.manager = .connected ses)
    (hpool : ses.pool = some standby) :
    Accounts s.slots s.dataCh []
      (standby.slot :: (s.fwdCh.map FwdReq.slot ++ s.forwarder.slots)) := by
  have hacc := (hi.connected hs).1
  rw [hpool] at hacc
  exact hacc

theorem SlotInv.forwarder (hi : SlotInv s) {held : List Slot} (hf : s.forwarder.slots = held) :
    Accounts s.slots s.dataCh s.manager.opening
      (s.manager.standby ++ (s.fwdCh.map FwdReq.slot ++ held)) := by
  subst hf
  exact hi.conserved

theorem controlHandshake_split {tcfg : TunCfg} {accepted : Bool}
    (h : controlHandshake tcfg answer accepted = true) :
    (splitHostPort tcfg.server).isSome := by
  unfold controlHandshake at h
  split at h
  · cases h
  · rename_i host port hsplit
    rw [hsplit]
    rfl

theorem slotInv_poolFillStart (hi : SlotInv s) (hs : s.manager = .connected ses)
    (hpool : ses.pool = none) (cmd : Bytes) :
    SlotInv (poolFillStart s { ses with cmd := cmd } heap) := by
  obtain ⟨hacc, hsplit⟩ := hi.connected hs
  unfold poolFillStart
  split
  · exact ⟨hacc, hsplit⟩
  · split
    · exact ⟨hacc, hsplit⟩
    · rename_i slot halloc
      rw [hpool] at hacc
      exact ⟨hacc.allocated (slotAlloc_free halloc), hsplit, hpool⟩

theorem slotInv_controlRead (hi : SlotInv s) (hs : s.manager = .connected ses) :
    SlotInv (controlRead s ses chunk heap) := by
  unfold controlRead
  dsimp only
  split
  · split
    · rename_i hcreate
      exact slotInv_poolFillStart hi hs (Option.isNone_iff_eq_none.mp hcreate.2) []
    · exact ⟨(hi.connected hs).1, (hi.connected hs).2⟩
  · exact ⟨(hi.connected hs).1, (hi.connected hs).2⟩

/-- The end of an opening keeps the accounts if and only if the server had an address. -/
theorem conserved_poolFillOne (hi : SlotInv s) (hs : s.manager = .filling ses slot) {host : Text}
    {port : ℕ} (hsplit : splitHostPort ses.tcfg.server = some (host, port)) :
    Conserved (poolFillOne s ses slot answer connects writes) ↔ Resolvable host answer := by
  obtain ⟨hacc, -, hnone⟩ := hi.filling hs
  have hpool : (ses.pool.map Standby.slot).toList = [] := by
    rw [hnone]
    rfl
  rw [← resolve_isSome_iff]
  unfold poolFillOne
  rw [hsplit]
  dsimp only
  cases resolve host answer with
  | none =>
    refine iff_of_false ?_ Bool.false_ne_true
    unfold Conserved channels Manager.standby
    dsimp only
    rw [hpool]
    exact hacc.lost
  | some ip =>
    refine iff_of_true ?_ rfl
    dsimp only
    split
    · exact hacc.opened
    · unfold Conserved channels Manager.standby
      dsimp only
      rw [hpool]
      exact hacc.failed

theorem sound_poolFillOne (hi : SlotInv s) (hs : s.manager = .filling ses slot) :
    (poolFillOne s ses slot answer connects writes).manager.Sound := by
  obtain ⟨-, hsplit, -⟩ := hi.filling hs
  unfold poolFillOne
  split
  · exact hsplit
  · split
    · exact hsplit
    · split
      · exact hsplit
      · exact hsplit

theorem conserved_startForward {tcfg : TunCfg} (hs : s.manager.standby = [])
    (hacc : Accounts s.slots s.dataCh s.manager.opening (slot :: channels s)) :
    Conserved (startForward s slot tcfg heap) := by
  unfold startForward
  split
  · split
    · refine hacc.perm ?_
      unfold channels
      dsimp only
      rw [hs, List.map_append, List.append_assoc]
      have hperm : (s.fwdCh.map FwdReq.slot ++ slot :: s.forwarder.slots).Perm
          (slot :: (s.fwdCh.map FwdReq.slot ++ s.forwarder.slots)) := List.perm_middle
      exact hperm.symm
    · exact hacc.released
  · exact hacc.released

theorem slotInv_poolRead (hi : SlotInv s) (hs : s.manager = .connected ses)
    (hpool : ses.pool = some standby) : SlotInv (poolRead s ses standby chunk heap) := by
  have hacc := hi.pooled hs hpool
  have hsplit := (hi.connected hs).2
  unfold poolRead
  dsimp only
  split
  · split
    · refine ⟨conserved_startForward rfl hacc, ?_⟩
      rw [startForward_manager]
      exact hsplit
    · exact ⟨hacc.released, hsplit⟩
  · exact ⟨hacc, hsplit⟩

theorem slotInv_poolGone (hi : SlotInv s) (hs : s.manager = .connected ses)
    (hpool : ses.pool = some standby) : SlotInv (poolGone s ses standby) := by
  exact ⟨(hi.pooled hs hpool).released, (hi.connected hs).2⟩

theorem slotInv_sessionOver (hi : SlotInv s) (hs : s.manager = .connected ses) :
    SlotInv (sessionOver s ses) := by
  unfold sessionOver
  split
  · rename_i hpool
    have hacc := (hi.connected hs).1
    rw [hpool] at hacc
    exact ⟨hacc, trivial⟩
  · rename_i standby hpool
    exact ⟨(hi.pooled hs hpool).released, trivial⟩

theorem slotInv_forwarder_release (hi : SlotInv s) (hf : s.forwarder.slots = [slot]) :
    SlotInv (release { s with forwarder := .idle } slot) := by
  have hacc := hi.forwarder hf
  rw [← List.append_assoc] at hacc
  refine ⟨?_, hi.sound⟩
  have hmoved := (hacc.perm (List.perm_append_singleton slot _)).released
  unfold Conserved channels release Forwarder.slots
  dsimp only
  rw [List.append_nil]
  exact hmoved

theorem slotInv_forwarderStep (hi : SlotInv s) (e : Event) :
    SlotInv (forwarderStep s s.forwarder e) := by
  unfold forwarderStep
  split
  · rename_i hf
    split
    · rename_i req rest hq
      have hidle : s.forwarder.slots = [] := by
        rw [hf]
        rfl
      have hacc := hi.forwarder hidle
      rw [hq] at hacc
      refine ⟨hacc.perm (List.Perm.append_left _ ?_), hi.sound⟩
      exact (List.append_nil _).symm ▸ (List.perm_append_singleton req.slot _).symm
    · exact hi
  · rename_i req answer connects hf
    split
    · have hheld : s.forwarder.slots = [req.slot] := by
        rw [hf]
        rfl
      exact ⟨hi.forwarder hheld, hi.sound⟩
    · refine slotInv_forwarder_release hi ?_
      rw [hf]
      rfl
  · rename_i slot hf
    refine slotInv_forwarder_release hi ?_
    rw [hf]
    rfl
  · exact hi

theorem split_of_sound (hi : SlotInv s) (hs : s.manager = .filling ses slot) :
    ∃ host port, splitHostPort ses.tcfg.server = some (host, port) := by
  obtain ⟨⟨host, port⟩, hsplit⟩ := Option.isSome_iff_exists.mp (hi.filling hs).2.1
  exact ⟨host, port, hsplit⟩

theorem slotInv_managerStep (hi : SlotInv s) {e : Event} (hP : Answered s e) :
    SlotInv (managerStep s s.manager e) := by
  unfold managerStep
  split
  · rename_i tcfg answer accepted hs
    split
    · rename_i haccepted
      have hacc := hi.conserved
      unfold Conserved channels at hacc
      rw [hs] at hacc
      exact ⟨hacc, controlHandshake_split haccepted⟩
    · exact hi
  · rename_i ses chunk heap hs
    split
    · exact slotInv_controlRead hi hs
    · exact hi
  · rename_i ses chunk heap hs
    split
    · rename_i standby hpool
      split
      · exact slotInv_poolRead hi hs hpool
      · exact hi
    · exact hi
  · rename_i ses hs
    split
    · rename_i standby hpool
      exact slotInv_poolGone hi hs hpool
    · exact hi
  · rename_i ses hs
    exact slotInv_sessionOver hi hs
  · rename_i ses slot answer connects writes hs
    obtain ⟨host, port, hsplit⟩ := split_of_sound hi hs
    unfold Answered at hP
    dsimp only at hP
    rw [hs] at hP
    exact ⟨(conserved_poolFillOne hi hs hsplit).mpr (hP host port hsplit),
      sound_poolFillOne hi hs⟩
  · exact hi

/-- One step keeps the accounts, an opening under the condition that it finds an address. -/
theorem slotInv_step (hi : SlotInv s) {e : Event} (hP : Answered s e) : SlotInv (step s e) := by
  unfold step
  split
  · exact slotInv_forwarderStep hi _
  · exact slotInv_forwarderStep hi _
  · exact slotInv_forwarderStep hi _
  · exact slotInv_managerStep hi hP

theorem not_answered {e : Event} (h : ¬ Answered s e) :
    ∃ ses slot answer connects writes, s.manager = .filling ses slot ∧
      e = .filled answer connects writes ∧ ∃ host port,
        splitHostPort ses.tcfg.server = some (host, port) ∧ ¬ Resolvable host answer := by
  unfold Answered at h
  split at h
  · rename_i answer connects writes
    split at h
    · rename_i ses slot hs
      simp only [not_forall] at h
      obtain ⟨host, port, hsplit, hres⟩ := h
      exact ⟨ses, slot, answer, connects, writes, hs, rfl, host, port, hsplit, hres⟩
    · exact absurd trivial h
    · exact absurd trivial h
  · exact absurd trivial h

/-- An opening that finds no address leaves its slot without owner. -/
theorem slot_lost (hi : SlotInv s) {e : Event} (hP : ¬ Answered s e) : ¬ Conserved (step s e) := by
  obtain ⟨ses, slot, answer, connects, writes, hs, rfl, host, port, hsplit, hres⟩ :=
    not_answered hP
  have hstep : step s (.filled answer connects writes) =
      poolFillOne s ses slot answer connects writes := by
    unfold step
    dsimp only
    rw [hs]
    rfl
  rw [hstep]
  exact fun hcons => hres ((conserved_poolFillOne hi hs hsplit).mp hcons)

end Invariant

/-- In a run every slot has one owner and the channels are counted, if and only if every opening of
a data channel finds an address of the server. -/
theorem slots_conserved_iff (es : List Event) :
    Always step Conserved init es ↔ Along step Answered init es := by
  refine always_iff_along (I := SlotInv) (fun _ hi => hi.conserved) ?_ ?_ slotInv_init
  · intro s e hi hP
    exact slotInv_step hi hP
  · intro s e hi hP
    exact slot_lost hi hP

section Leak

def leakRun : List Event :=
  [.handshake namedServer (some [(10, 0, 0, 1)]) true, .control [0, 0, 0, 0] 20000,
    .filled none true true, .control [0, 0, 0, 0] 20000, .filled none true true]

/-- Both slots are taken and nothing holds them: no data channel can be opened any more. -/
theorem slots_leaked :
    slotAlloc (final step init leakRun).slots = none ∧ ¬ Always step Conserved init leakRun := by
  refine ⟨by decide +kernel, fun h => ?_⟩
  have hin : (⟨0, by decide⟩ : Slot) ∈ (final step init leakRun).slots := by decide +kernel
  have hnone : (final step init leakRun).manager.opening ++ channels (final step init leakRun) =
      [] := by decide +kernel
  have howned := (h.final.owned.owned _).mp hin
  rw [hnone] at howned
  exact List.not_mem_nil howned

end Leak

end AtNode.Rathole
