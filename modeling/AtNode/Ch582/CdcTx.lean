import AtNode.Lib.Ring
import AtNode.Lib.Run

/-!
# The CDC transmit queue of the CH582 firmware

`USB_CDC_Write` fills a 2048-byte ring and `cdc_tx_process`, a TMOS event handler, moves at most one
64-byte packet at a time to endpoint 1. Both run in TMOS task context, so each is one step. The USB
interrupt only touches the gate flags and the response bits of `R8_UEP1_CTRL`; it is the arbitrary
environment here.

The history records the bytes accepted into the ring and the bytes handed to the endpoint. The
number of bytes a drain takes is a C remainder of two promoted indices: with the write index below
the read index it is negative, becomes a large `uint16_t` and is cut to a full packet, whatever the
ring really holds.
-/

namespace AtNode.CdcTx

abbrev cdcTxBufSize : ℕ := 2048

abbrev ep1Size : ℕ := 0x40

inductive TRes where
  | ack | tout | nak | stall
  deriving DecidableEq, Repr

structure State where
  devConfig : Bool
  cdcReady : Bool
  uep1TRes : TRes
  cdcTx : Ring UInt8 cdcTxBufSize
  cdcTxDrops : UInt16
  cdcTxTaskRegistered : Bool
  cdcTxEvt : Bool

/-- `USB_CDC_Write`; the second component is what went into the ring. -/
def usbCdcWrite (s : State) (data : List UInt8) : State × List UInt8 :=
  if !s.devConfig || !s.cdcReady then (s, [])
  else
    let q := s.cdcTx.pushAll data
    ({ s with
        cdcTx := q.1
        cdcTxDrops := if q.2.length < data.length then s.cdcTxDrops + 1 else s.cdcTxDrops
        cdcTxTaskRegistered := true
        cdcTxEvt := true }, q.2)

/-- `n` of `cdc_tx_process`: C's `%` truncates towards zero, the cast to `uint16_t` wraps. -/
def chunkSize (head tail : ℕ) : ℕ :=
  let n := ((((head : ℤ) - tail).tmod cdcTxBufSize) % 65536).toNat
  if n > ep1Size then ep1Size else n

/-- `cdc_tx_process`; the second component is the packet armed on endpoint 1. -/
def cdcTxProcess (s : State) : State × List UInt8 :=
  if s.cdcTx.tail = s.cdcTx.head then ({ s with cdcTxEvt := false }, [])
  -- endpoint busy: the timer is restarted and nothing moves
  else if s.uep1TRes = .ack then ({ s with cdcTxEvt := true }, [])
  else
    let n := chunkSize s.cdcTx.head s.cdcTx.tail
    let r := s.cdcTx.advance n
    ({ s with
        cdcTx := r
        uep1TRes := .ack
        cdcTxEvt := decide (r.tail ≠ r.head) }, s.cdcTx.window n)

inductive Event where
  | write (data : List UInt8)
  | process
  | ep1Ctrl (r : TRes)
  | gate (devConfig cdcReady : Bool)

structure History where
  st : State
  accepted : List UInt8
  handed : List UInt8

def boot : History where
  st :=
    { devConfig := false, cdcReady := false, uep1TRes := .nak
      cdcTx := Ring.empty 0 (by decide), cdcTxDrops := 0
      cdcTxTaskRegistered := false, cdcTxEvt := false }
  accepted := []
  handed := []

def step (h : History) : Event → History
  | .write data =>
      let q := usbCdcWrite h.st data
      { h with st := q.1, accepted := h.accepted ++ q.2 }
  | .process =>
      if h.st.cdcTxEvt then
        let q := cdcTxProcess h.st
        { h with st := q.1, handed := h.handed ++ q.2 }
      else h
  | .ep1Ctrl r => { h with st := { h.st with uep1TRes := r } }
  | .gate c r => { h with st := { h.st with devConfig := c, cdcReady := r } }

/-- What a lossless FIFO owes at every moment: the endpoint has seen a prefix of what was accepted,
and the indices are the two byte counts, never more than one lap apart. -/
structure Fifo (h : History) : Prop where
  handed_prefix : h.handed <+: h.accepted
  head_eq : h.st.cdcTx.head = h.accepted.length % cdcTxBufSize
  tail_eq : h.st.cdcTx.tail = h.handed.length % cdcTxBufSize
  accepted_lt : h.accepted.length < h.handed.length + cdcTxBufSize

structure Inv (h : History) : Prop where
  accepted_eq : h.accepted = h.handed ++ h.st.cdcTx.contents
  head_eq : h.st.cdcTx.head = h.accepted.length % cdcTxBufSize
  tail_eq : h.st.cdcTx.tail = h.handed.length % cdcTxBufSize

/-- A drain that moves bytes finds the write index at or above the read index, or at least one full
packet in the ring. -/
def DrainSafe (h : History) : Event → Prop
  | .process => h.st.cdcTxEvt = true → h.st.cdcTx.tail ≠ h.st.cdcTx.head → h.st.uep1TRes ≠ .ack →
      h.st.cdcTx.tail ≤ h.st.cdcTx.head ∨
        ep1Size ≤ h.st.cdcTx.head + cdcTxBufSize - h.st.cdcTx.tail
  | _ => True

theorem chunkSize_of_le {head tail : ℕ} (hh : head < cdcTxBufSize) (h : tail ≤ head) :
    chunkSize head tail = min (head - tail) ep1Size := by
  have hm : ((head : ℤ) - tail).tmod (cdcTxBufSize : ℕ) = (head : ℤ) - tail :=
    Int.tmod_eq_of_lt (by omega) (by omega)
  simp only [chunkSize, hm]
  simp only [cdcTxBufSize, ep1Size] at hh ⊢
  split_ifs <;> omega

/-- The wrapped case always asks for a full packet. -/
theorem chunkSize_of_lt {head tail : ℕ} (ht : tail < cdcTxBufSize) (h : head < tail) :
    chunkSize head tail = ep1Size := by
  have hm : ((head : ℤ) - tail).tmod (cdcTxBufSize : ℕ) = (head : ℤ) - tail := by
    have hneg : (head : ℤ) - tail = -((tail - head : ℕ) : ℤ) := by omega
    rw [hneg, Int.neg_tmod, Int.tmod_eq_of_lt (by omega) (by omega)]
  simp only [chunkSize, hm]
  simp only [cdcTxBufSize, ep1Size] at ht ⊢
  split_ifs <;> omega

theorem chunkSize_le_count (r : Ring UInt8 cdcTxBufSize) :
    chunkSize r.head r.tail ≤ r.count ↔
      r.tail ≤ r.head ∨ ep1Size ≤ r.head + cdcTxBufSize - r.tail := by
  have hh := r.head_lt
  have ht := r.tail_lt
  rw [r.count_eq]
  by_cases h : r.tail ≤ r.head
  · rw [chunkSize_of_le hh h, if_pos h]
    simp [h]
  · rw [chunkSize_of_lt ht (by omega), if_neg h]
    simp [h]

theorem inv_boot : Inv boot := by
  refine ⟨?_, rfl, rfl⟩
  simp [boot]

theorem inv_write {h : History} (hi : Inv h) (data : List UInt8) : Inv (step h (.write data)) := by
  obtain ⟨ha, hh, ht⟩ := hi
  by_cases hg : (!h.st.devConfig || !h.st.cdcReady) = true
  · simp only [step, usbCdcWrite, if_pos hg]
    exact ⟨by simpa using ha, by simpa using hh, ht⟩
  · obtain ⟨ih, it⟩ := h.st.cdcTx.indices_pushAll data
    simp only [step, usbCdcWrite, if_neg hg]
    refine ⟨?_, ?_, it.trans ht⟩
    · simp only [Ring.contents_pushAll, ← List.append_assoc, ← ha]
    · simp only [ih, hh, List.length_append, Nat.mod_add_mod]

theorem inv_process {h : History} (hi : Inv h) (hp : DrainSafe h .process) :
    Inv (step h .process) := by
  obtain ⟨ha, hh, ht⟩ := hi
  simp only [step, cdcTxProcess]
  split_ifs with hevt hempty hack
  · exact ⟨by simpa using ha, hh, by simpa using ht⟩
  · exact ⟨by simpa using ha, hh, by simpa using ht⟩
  · have hn := (chunkSize_le_count h.st.cdcTx).mpr (hp hevt hempty hack)
    refine ⟨?_, hh, ?_⟩
    · simp only [List.append_assoc, h.st.cdcTx.window_append_contents_advance hn, ← ha]
    · simp only [Ring.advance_tail, ht, List.length_append, Ring.length_window, Nat.mod_add_mod]
  · exact ⟨ha, hh, ht⟩

theorem inv_step (h : History) (e : Event) (hi : Inv h) (hp : DrainSafe h e) : Inv (step h e) := by
  cases e with
  | write data => exact inv_write hi data
  | process => exact inv_process hi hp
  | ep1Ctrl r => exact ⟨hi.accepted_eq, hi.head_eq, hi.tail_eq⟩
  | gate c r => exact ⟨hi.accepted_eq, hi.head_eq, hi.tail_eq⟩

theorem fifo_of_inv (h : History) (hi : Inv h) : Fifo h := by
  refine ⟨⟨_, hi.accepted_eq.symm⟩, hi.head_eq, hi.tail_eq, ?_⟩
  have hc := h.st.cdcTx.count_lt
  have hl := congrArg List.length hi.accepted_eq
  simp only [List.length_append, Ring.length_contents] at hl
  omega

/-- One drain that takes more than the ring holds hands over bytes nobody wrote. -/
theorem not_fifo_of_unsafe (h : History) (e : Event) (hi : Inv h) (hp : ¬ DrainSafe h e) :
    ¬ Fifo (step h e) := by
  cases e with
  | write data => exact absurd trivial hp
  | ep1Ctrl r => exact absurd trivial hp
  | gate c r => exact absurd trivial hp
  | process =>
    simp only [DrainSafe, not_forall] at hp
    obtain ⟨hevt, hempty, hack, hbad⟩ := hp
    have hn := (chunkSize_le_count h.st.cdcTx).not.mpr hbad
    intro hf
    have hle := hf.handed_prefix.length_le
    have hl := congrArg List.length hi.accepted_eq
    simp only [step, hevt, if_true, cdcTxProcess, if_neg hempty, if_neg hack,
      List.length_append, Ring.length_window, Ring.length_contents] at hle hl
    omega

/-- The transmit ring behaves as a lossless FIFO throughout a run exactly when every drain of the
run is safe. -/
theorem fifo_iff_drainSafe (es : List Event) :
    Run.Always step Fifo boot es ↔ Run.Along step DrainSafe boot es :=
  Run.always_iff_along fifo_of_inv inv_step not_fifo_of_unsafe inv_boot

/-- An attached host, an idle endpoint and a scheduled drain, with the two indices named. -/
structure Streaming (h : History) (head tail : ℕ) : Prop where
  devConfig : h.st.devConfig = true
  cdcReady : h.st.cdcReady = true
  idle : h.st.uep1TRes = .nak
  head_eq : h.st.cdcTx.head = head
  tail_eq : h.st.cdcTx.tail = tail

def packetRound : List Event := [.process, .ep1Ctrl .nak]

theorem streaming_write {h : History} {head tail : ℕ} (hs : Streaming h head tail)
    (data : List UInt8) (hfit : h.st.cdcTx.count + data.length < cdcTxBufSize) :
    Streaming (step h (.write data)) ((head + data.length) % cdcTxBufSize) tail ∧
      (step h (.write data)).st.cdcTxEvt = true := by
  obtain ⟨ih, it⟩ := h.st.cdcTx.indices_pushAll data
  rw [h.st.cdcTx.pushAll_fits hfit, hs.head_eq] at ih
  simp only [step, usbCdcWrite, hs.devConfig, hs.cdcReady, Bool.not_true, Bool.or_self,
    Bool.false_eq_true, if_false, and_true]
  exact ⟨rfl, rfl, hs.idle, ih, it.trans hs.tail_eq⟩

theorem streaming_packetRound {h : History} {head tail : ℕ} (hs : Streaming h head tail)
    (hevt : h.st.cdcTxEvt = true) (hlt : tail < head) :
    Streaming (Run.final step h packetRound) head (tail + min (head - tail) ep1Size) ∧
      (tail + ep1Size < head → (Run.final step h packetRound).st.cdcTxEvt = true) := by
  have hh : head < cdcTxBufSize := hs.head_eq ▸ h.st.cdcTx.head_lt
  have hn := chunkSize_of_le hh hlt.le
  have ht : (tail + min (head - tail) ep1Size) % cdcTxBufSize =
      tail + min (head - tail) ep1Size := Nat.mod_eq_of_lt (by omega)
  have hne : tail ≠ head := hlt.ne
  simp only [packetRound, Run.final_cons, Run.final_nil, step, hevt, if_true, cdcTxProcess,
    hs.head_eq, hs.tail_eq, if_neg hne, hs.idle, reduceCtorEq, if_false, hn]
  refine ⟨⟨hs.devConfig, hs.cdcReady, rfl, hs.head_eq, ?_⟩, ?_⟩
  · simp only [Ring.advance_tail, hs.tail_eq, ht]
  · intro hroom
    simp only [Ring.advance_tail, Ring.advance_head, hs.tail_eq, hs.head_eq, ht, ne_eq,
      decide_eq_true_eq]
    omega

theorem streaming_packetRounds (k : ℕ) {h : History} {head tail : ℕ} (hs : Streaming h head tail)
    (hevt : h.st.cdcTxEvt = true) (hroom : tail + ep1Size * k < head) :
    Streaming (Run.final step h (List.replicate k packetRound).flatten) head
        (tail + ep1Size * k) ∧
      (Run.final step h (List.replicate k packetRound).flatten).st.cdcTxEvt = true := by
  induction k generalizing h tail with
  | zero => exact ⟨hs, hevt⟩
  | succ k ih =>
    have hmul : ep1Size * (k + 1) = ep1Size * k + ep1Size := Nat.mul_succ _ _
    obtain ⟨hs', hevt'⟩ := streaming_packetRound hs hevt (by omega)
    rw [Nat.min_eq_right (by omega)] at hs'
    have hr := ih hs' (hevt' (by omega)) (by omega)
    rw [List.replicate_succ, List.flatten_cons, Run.final_append]
    rwa [show tail + ep1Size * (k + 1) = tail + ep1Size + ep1Size * k by omega]

/-- 2040 bytes are sent to the last one, then 20 more are written across the end of the ring. -/
def wrapPrefix : List Event :=
  [.gate true true, .write (List.replicate 2040 0)] ++
    (List.replicate 31 packetRound).flatten ++ packetRound ++ [.write (List.replicate 20 0)]

theorem wrapPrefix_streaming :
    Streaming (Run.final step boot wrapPrefix) 12 2040 ∧
      (Run.final step boot wrapPrefix).st.cdcTxEvt = true := by
  have hs₀ : Streaming (step boot (.gate true true)) 0 0 := ⟨rfl, rfl, rfl, rfl, rfl⟩
  obtain ⟨hs₁, he₁⟩ := streaming_write hs₀ (List.replicate 2040 0)
    (by rw [List.length_replicate]; decide)
  rw [List.length_replicate] at hs₁
  obtain ⟨hs₂, he₂⟩ := streaming_packetRounds 31 hs₁ he₁ (by decide)
  obtain ⟨hs₃, -⟩ := streaming_packetRound hs₂ he₂ (by decide)
  have hcount := (Ring.count_eq_zero_iff _).mpr (hs₃.tail_eq.trans hs₃.head_eq.symm)
  obtain ⟨hs₄, he₄⟩ := streaming_write hs₃ (List.replicate 20 0)
    (by rw [hcount, List.length_replicate]; decide)
  rw [List.length_replicate] at hs₄
  simp only [wrapPrefix, Run.final_append, Run.final_cons, Run.final_nil]
  exact ⟨hs₄, he₄⟩

theorem wrapped_drain_not_fifo : ¬ ∀ es : List Event, Run.Always step Fifo boot es := by
  intro hall
  have ha := (Run.always_iff_along fifo_of_inv inv_step not_fifo_of_unsafe inv_boot).mp
    (hall (wrapPrefix ++ [.process]))
  rw [Run.along_append, Run.along_cons] at ha
  obtain ⟨hs, he⟩ := wrapPrefix_streaming
  have hbad := ha.2.1 he (by rw [hs.tail_eq, hs.head_eq]; decide) (by rw [hs.idle]; decide)
  rw [hs.tail_eq, hs.head_eq] at hbad
  revert hbad
  decide

/-- Bytes left in the ring are never forgotten: a drain is scheduled. -/
theorem cdcTxEvt_of_contents (es : List Event) :
    Run.Always step (fun h => h.st.cdcTx.contents ≠ [] → h.st.cdcTxEvt = true) boot es := by
  apply Run.always_of_step
  · intro h e hi
    simp only [ne_eq, Ring.contents_eq_nil_iff] at hi ⊢
    cases e with
    | write data =>
      simp only [step, usbCdcWrite]
      split
      · exact hi
      · exact fun _ => rfl
    | process =>
      simp only [step, cdcTxProcess]
      split
      · split
        · rename_i he
          exact fun hne => absurd he hne
        · split
          · exact fun _ => rfl
          · exact fun hne => decide_eq_true hne
      · exact hi
    | ep1Ctrl r => exact hi
    | gate c r => exact hi
  · simp [boot]

end AtNode.CdcTx
