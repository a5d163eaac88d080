import AtNode.Lib.Run
import AtNode.Esp32.Rathole

/-!
# The command of a standby and the bytes it received

`run_connected` collects the four bytes of a standby command in one buffer for the whole session. A
standby that goes away in the middle of its command leaves its bytes there, in front of those of the
next one.
-/

namespace AtNode.Rathole

open Run Config

/-- Every decoded command is the number in the first four bytes received on its standby. -/
def Framed (s : State) : Prop :=
  ∀ d ∈ s.decisions, 4 ≤ d.received.length ∧ d.value = leU32 d.received

/-- When a read completes a command, the buffer holds the bytes of this standby only. -/
def OwnBytes (s : State) (e : Event) : Prop :=
  ∀ ses standby chunk heap, s.manager = .connected ses → ses.pool = some standby →
    e = .standby chunk heap → (ses.dcmd ++ chunk).length = 4 → ses.dcmd = standby.received

/-- The bytes of the standby stand last in the buffer. -/
structure Session.Buffered (ses : Session) : Prop where
  short : ses.dcmd.length < 4
  suffix : ∀ standby, ses.pool = some standby → standby.received <:+ ses.dcmd

def Manager.Buffered : Manager → Prop
  | .down => True
  | .connected ses | .filling ses _ => ses.Buffered

structure FrameInv (s : State) : Prop where
  framed : Framed s
  buffered : s.manager.Buffered

section Steps

variable {s s' : State} {ses : Session} {standby : Standby} {slot : Slot} {chunk : Bytes}
  {heap : ℕ} {answer : Answer} {connects writes : Bool} {tcfg : TunCfg}

theorem frameInv_init : FrameInv init := ⟨nofun, trivial⟩

theorem buffered_of_connected (hi : FrameInv s) (hs : s.manager = .connected ses) :
    ses.Buffered := by
  have h := hi.buffered
  rw [hs] at h
  exact h

theorem Session.Buffered.dropped (h : ses.Buffered) : Session.Buffered { ses with pool := none } :=
  ⟨h.short, nofun⟩

theorem Session.Buffered.cmd (h : ses.Buffered) (cmd : Bytes) :
    Session.Buffered { ses with cmd := cmd } :=
  ⟨h.short, h.suffix⟩

theorem frameInv_poolFillStart (hf : Framed s) (hb : ses.Buffered) :
    FrameInv (poolFillStart s ses heap) := by
  unfold poolFillStart
  split
  · exact ⟨hf, hb⟩
  · split
    · exact ⟨hf, hb⟩
    · exact ⟨hf, hb⟩

theorem frameInv_controlRead (hf : Framed s) (hb : ses.Buffered) :
    FrameInv (controlRead s ses chunk heap) := by
  unfold controlRead
  dsimp only
  split
  · split
    · exact frameInv_poolFillStart hf (hb.cmd [])
    · exact ⟨hf, hb.cmd []⟩
  · exact ⟨hf, hb.cmd _⟩

theorem frameInv_poolFillOne (hf : Framed s) (hb : ses.Buffered) :
    FrameInv (poolFillOne s ses slot answer connects writes) := by
  unfold poolFillOne
  split
  · exact ⟨hf, hb⟩
  · split
    · exact ⟨hf, hb⟩
    · split
      · refine ⟨hf, hb.short, ?_⟩
        intro standby hs
        cases hs
        exact List.nil_suffix
      · exact ⟨hf, hb⟩

theorem frameInv_sessionOver (hf : Framed s) : FrameInv (sessionOver s ses) := by
  unfold sessionOver
  split
  · exact ⟨hf, trivial⟩
  · exact ⟨hf, trivial⟩

theorem poolRead_complete (h : (ses.dcmd ++ chunk).length = 4) :
    (poolRead s ses standby chunk heap).decisions =
        s.decisions ++ [⟨leU32 (ses.dcmd ++ chunk), standby.received ++ chunk⟩] ∧
      (poolRead s ses standby chunk heap).manager =
        .connected { ses with pool := none, dcmd := [] } := by
  unfold poolRead
  dsimp only
  rw [if_pos h]
  split
  · exact ⟨startForward_decisions, startForward_manager⟩
  · exact ⟨rfl, rfl⟩

theorem poolRead_incomplete (h : (ses.dcmd ++ chunk).length ≠ 4) :
    poolRead s ses standby chunk heap =
      { s with
        manager := .connected
          { ses with
            pool := some ⟨standby.slot, standby.received ++ chunk⟩
            dcmd := ses.dcmd ++ chunk } } := by
  unfold poolRead
  dsimp only
  rw [if_neg h]

theorem framed_append {d : Decision} (hd : s'.decisions = s.decisions ++ [d]) :
    Framed s' ↔ Framed s ∧ 4 ≤ d.received.length ∧ d.value = leU32 d.received := by
  unfold Framed
  rw [hd]
  simp only [List.mem_append, List.mem_singleton]
  constructor
  · intro h
    exact ⟨fun x hx => h x (Or.inl hx), h d (Or.inr rfl)⟩
  · rintro ⟨hs, hd⟩ x (hx | rfl)
    · exact hs x hx
    · exact hd

/-- The decision is right if and only if the buffer held no bytes of an earlier standby. -/
theorem framed_poolRead_iff (hf : Framed s) (hb : ses.Buffered) (hpool : ses.pool = some standby)
    (h : (ses.dcmd ++ chunk).length = 4) :
    Framed (poolRead s ses standby chunk heap) ↔ ses.dcmd = standby.received := by
  rw [framed_append (poolRead_complete h).1]
  have hsuffix := hb.suffix standby hpool
  constructor
  · rintro ⟨-, hlen, -⟩
    rw [List.length_append] at h hlen
    exact (hsuffix.eq_of_length_le (by omega)).symm
  · intro heq
    rw [heq] at h ⊢
    exact ⟨hf, h.ge, rfl⟩

theorem frameInv_poolRead (hi : FrameInv s) (hs : s.manager = .connected ses)
    (hpool : ses.pool = some standby) (hfits : Fits ses.dcmd chunk)
    (hP : (ses.dcmd ++ chunk).length = 4 → ses.dcmd = standby.received) :
    FrameInv (poolRead s ses standby chunk heap) := by
  have hb := buffered_of_connected hi hs
  by_cases h : (ses.dcmd ++ chunk).length = 4
  · refine ⟨(framed_poolRead_iff hi.framed hb hpool h).mpr (hP h), ?_⟩
    rw [(poolRead_complete h).2]
    exact ⟨Nat.succ_pos 3, nofun⟩
  · rw [poolRead_incomplete h]
    refine ⟨hi.framed, Nat.lt_of_le_of_ne hfits.2 h, ?_⟩
    intro st hst
    cases hst
    obtain ⟨stale, hstale⟩ := hb.suffix standby hpool
    exact ⟨stale, by rw [← hstale, List.append_assoc]⟩

theorem frameInv_forwarderStep (hi : FrameInv s) (e : Event) :
    FrameInv (forwarderStep s s.forwarder e) := by
  unfold forwarderStep
  split
  · split
    · exact ⟨hi.framed, hi.buffered⟩
    · exact hi
  · split
    · exact ⟨hi.framed, hi.buffered⟩
    · exact ⟨hi.framed, hi.buffered⟩
  · exact ⟨hi.framed, hi.buffered⟩
  · exact hi

theorem frameInv_managerStep (hi : FrameInv s) {e : Event} (hP : OwnBytes s e) :
    FrameInv (managerStep s s.manager e) := by
  unfold managerStep
  split
  · split
    · exact ⟨hi.framed, Nat.succ_pos 3, nofun⟩
    · exact hi
  · rename_i ses chunk heap hs
    split
    · exact frameInv_controlRead hi.framed (buffered_of_connected hi hs)
    · exact hi
  · rename_i ses chunk heap hs
    split
    · rename_i standby hpool
      split
      · rename_i hfits
        exact frameInv_poolRead hi hs hpool hfits (hP ses standby chunk heap hs hpool rfl)
      · exact hi
    · exact hi
  · rename_i ses hs
    split
    · exact ⟨hi.framed, (buffered_of_connected hi hs).dropped⟩
    · exact hi
  · exact frameInv_sessionOver hi.framed
  · rename_i ses slot answer connects writes hs
    have hb := hi.buffered
    rw [hs] at hb
    exact frameInv_poolFillOne hi.framed hb
  · exact hi

theorem frameInv_step (hi : FrameInv s) {e : Event} (hP : OwnBytes s e) : FrameInv (step s e) := by
  unfold step
  split
  · exact frameInv_forwarderStep hi _
  · exact frameInv_forwarderStep hi _
  · exact frameInv_forwarderStep hi _
  · exact frameInv_managerStep hi hP

/-- A command completed behind bytes of an earlier standby is not that of its own. -/
theorem framed_broken (hi : FrameInv s) {e : Event} (hP : ¬ OwnBytes s e) :
    ¬ Framed (step s e) := by
  unfold OwnBytes at hP
  simp only [not_forall] at hP
  obtain ⟨ses, standby, chunk, heap, hs, hpool, rfl, hlen, hne⟩ := hP
  have hb := buffered_of_connected hi hs
  have hchunk : chunk ≠ [] := by
    rintro rfl
    have hlt := hb.short
    rw [List.append_nil] at hlen
    omega
  have hstep : step s (.standby chunk heap) = poolRead s ses standby chunk heap := by
    unfold step
    dsimp only
    rw [hs]
    unfold managerStep
    dsimp only
    rw [hpool]
    exact if_pos ⟨hchunk, hlen.le⟩
  rw [hstep, framed_poolRead_iff hi.framed hb hpool hlen]
  exact hne

end Steps

/-- In a run every standby command is that of its own bytes, if and only if no command is completed
while the buffer holds bytes of an earlier standby. -/
theorem commands_framed_iff (es : List Event) :
    Always step Framed init es ↔ Along step OwnBytes init es := by
  refine always_iff_along (I := FrameInv) (fun _ hi => hi.framed) ?_ ?_ frameInv_init
  · intro s e hi hP
    exact frameInv_step hi hP
  · intro s e hi hP
    exact framed_broken hi hP

section Stale

def staleRun : List Event :=
  [.handshake namedServer (some [(10, 0, 0, 1)]) true, .control [0, 0, 0, 0] 20000,
    .filled (some [(10, 0, 0, 1)]) true true, .standby [1] 20000, .standbyGone,
    .control [0, 0, 0, 0] 20000, .filled (some [(10, 0, 0, 1)]) true true,
    .standby [0, 0, 0] 20000]

/-- The request to forward is taken for another command, and its standby is dropped. -/
theorem stale_command : ¬ Always step Framed init staleRun := by
  intro h
  have hmem : (⟨1, [0, 0, 0]⟩ : Decision) ∈ (final step init staleRun).decisions := by
    have hd : (final step init staleRun).decisions = [⟨1, [0, 0, 0]⟩] := by rfl
    rw [hd]
    exact List.mem_singleton_self _
  exact absurd (h.final _ hmem).1 (by decide)

end Stale

end AtNode.Rathole
