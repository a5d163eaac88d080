import AtNode.Ch582.HandlerReads

/-!
# The result of `kb_flush`

`kb_flush` offers a report to the USB keyboard and to every selected slot with a link, and counts
each of them as reached: whatever status the stack ends the retries of a slot with, the result is 0.

It is proved that the result tells whether an output took the report, and that `AT+KEY` answers OK
only then, exactly when no selected slot has a link, or the USB keyboard takes the report, or one of
the selected slots does.
-/

namespace AtNode.Router

variable {n : ℕ}

section Retries

/-- After such a status `kb_flush` tries again. -/
def Busy (st : UInt8) : Prop := st = blePending ∨ st = bleMemAllocError

/-- Of `budget` attempts from `i` on one succeeds, and the stack is busy in those before it. -/
def TakenWithin (send : ℕ → UInt8) (budget i : ℕ) : Prop :=
  ∃ k < budget, send (i + k) = success ∧ ∀ j < k, Busy (send (i + j))

theorem not_busy_success : ¬ Busy success := by
  unfold Busy
  decide

theorem takenWithin_succ (send : ℕ → UInt8) (budget i : ℕ) :
    TakenWithin send (budget + 1) i ↔
      send i = success ∨ Busy (send i) ∧ TakenWithin send budget (i + 1) := by
  constructor
  · rintro ⟨k, hk, hsend, hbusy⟩
    cases k with
    | zero => exact Or.inl hsend
    | succ k =>
      refine Or.inr ⟨hbusy 0 (Nat.succ_pos k), k, by omega, ?_, fun j hj => ?_⟩
      · rw [← hsend]
        congr 1
        omega
      · have hj' := hbusy (j + 1) (by omega)
        rwa [show i + 1 + j = i + (j + 1) by omega]
  · rintro (hsend | ⟨hbusy, k, hk, hsend, hrest⟩)
    · exact ⟨0, Nat.succ_pos budget, hsend, fun j hj => absurd hj (Nat.not_lt_zero j)⟩
    · refine ⟨k + 1, by omega, ?_, fun j hj => ?_⟩
      · rw [← hsend]
        congr 1
        omega
      · cases j with
        | zero => exact hbusy
        | succ j =>
          have hj' := hrest j (by omega)
          rwa [show i + (j + 1) = i + 1 + j by omega]

theorem retrySend_eq_success_iff (send : ℕ → UInt8) (budget i : ℕ) (st : UInt8) :
    retrySend send budget i st = success ↔
      budget = 0 ∧ st = success ∨ TakenWithin send budget i := by
  induction budget generalizing i st with
  | zero =>
    have hnone : ¬ TakenWithin send 0 i := by
      rintro ⟨k, hk, -⟩
      exact absurd hk (Nat.not_lt_zero k)
    simp only [retrySend, true_and, hnone, or_false]
  | succ budget ih =>
    rw [retrySend, takenWithin_succ]
    by_cases hbusy : Busy (send i)
    · have hne : send i ≠ success := by
        intro heq
        exact not_busy_success (heq ▸ hbusy)
      have hagain : ¬ (send i ≠ blePending ∧ send i ≠ bleMemAllocError) := by
        rintro ⟨hpending, hmem⟩
        exact hbusy.elim hpending hmem
      rw [if_neg hagain, ih]
      simp only [hne, hbusy, and_false, false_or, true_and, Nat.succ_ne_zero, false_and]
    · have hend : send i ≠ blePending ∧ send i ≠ bleMemAllocError := not_or.mp hbusy
      rw [if_pos hend]
      simp only [hbusy, false_and, or_false, Nat.succ_ne_zero, false_or]

theorem sendStatus_eq_success_iff (env : Env n) (s : Fin n) :
    sendStatus env s = success ↔ TakenWithin (env.send s) 60 0 := by
  rw [sendStatus, retrySend_eq_success_iff]
  simp

end Retries

section Result

variable (kbTarget : UInt8) (env : Env n)

/-- An output that is offered the report takes it. -/
def Takes : Prop :=
  usbTried kbTarget env = true ∨ ∃ s ∈ bleTried kbTarget env, TakenWithin (env.send s) 60 0

theorem reached_ne_nil_iff : reached kbTarget env ≠ [] ↔ Takes kbTarget env := by
  have hble : ((bleTried kbTarget env).filter fun s => sendStatus env s = success) ≠ [] ↔
      ∃ s ∈ bleTried kbTarget env, TakenWithin (env.send s) 60 0 := by
    simp [sendStatus_eq_success_iff]
  rw [Takes, ← hble, reached]
  cases usbTried kbTarget env with
  | true => simp
  | false => simp

theorem kbFlush_eq_zero_iff (d : Diagnostics n) :
    (kbFlush kbTarget env d).2 = 0 ↔ usbTried kbTarget env = true ∨ bleTried kbTarget env ≠ [] := by
  unfold kbFlush
  split_ifs with h
  · simp [h]
  · rw [not_and_or, or_comm, Bool.not_eq_false] at h
    exact ⟨fun _ => h, fun _ => rfl⟩

theorem kbFlush_nonneg_iff (d : Diagnostics n) :
    0 ≤ (kbFlush kbTarget env d).2 ↔ (kbFlush kbTarget env d).2 = 0 := by
  unfold kbFlush
  split_ifs <;> simp

theorem kbFlush_truthful_iff (d : Diagnostics n) :
    ((kbFlush kbTarget env d).2 = 0 ↔ reached kbTarget env ≠ []) ↔
      (bleTried kbTarget env ≠ [] → Takes kbTarget env) := by
  rw [kbFlush_eq_zero_iff, reached_ne_nil_iff]
  constructor
  · intro h hble
    exact h.mp (Or.inr hble)
  · intro h
    constructor
    · rintro (husb | hble)
      · exact Or.inl husb
      · exact h hble
    · rintro (husb | ⟨s, hs, -⟩)
      · exact Or.inl husb
      · exact Or.inr (List.ne_nil_of_mem hs)

end Result

end AtNode.Router

namespace AtNode.AtCmds

open ArgProgram Ble CString Router

variable {n : ℕ} {σ : Type} (C : Chip n σ)

/-- What `kb_flush` meets on the node. -/
def Node.outputs (w : Node n σ) : Env n :=
  ⟨C.usbReady w.rest, fun s => ¬ ConnFree w.keyboard s, C.send w.rest⟩

/-- The outputs that take a report. -/
def Node.reached (w : Node n σ) : List (Output n) :=
  Router.reached w.keyboard.kbTarget (w.outputs C)

/-- `kb_flush` returns 0 when and only when an output took the report, and a line with the name
`AT+KEY` is answered OK only then. -/
structure FlushTruthful (w : Node n σ) : Prop where
  result : ∀ r argv, ((kbFlush C r).run argv w).ending = .value 0 ↔ w.reached C ≠ []
  answered : ∀ argc argv name, argv 0 = some name → sameName name (bytes "AT+KEY") →
    ((dispatch C argc (cmdTable C.build)).run argv w).ending = .value () →
    ((dispatch C argc (cmdTable C.build)).run argv w).state.replies.getLast? =
      some (atResponse ok) → w.reached C ≠ []

section Key

variable {C} {argc : ℕ} {argv : ℕ → Option Text} {w : Node n σ}

theorem outcome_keyCodes_bind (k i : ℕ) (f : List UInt8 → Program n σ Int) :
    (keyCodes argc k i >>= f).outcome argv w = (.fault, w) ∨
      ∃ codes, (keyCodes argc k i >>= f).outcome argv w = (f codes).outcome argv w := by
  induction k generalizing i f with
  | zero => exact Or.inr ⟨[], rfl⟩
  | succ k ih =>
    rw [keyCodes]
    split_ifs with hi
    · rw [outcome_bind_assoc, outcome_ask_bind]
      cases argv i with
      | none => exact Or.inl rfl
      | some a =>
        rw [Option.elim_some, outcome_bind_assoc]
        rcases ih (i + 1) _ with hfault | ⟨codes, hcodes⟩
        · exact Or.inl hfault
        · exact Or.inr ⟨toU8 (atoi a) :: codes, hcodes⟩
    · rw [outcome_bind_assoc]
      rcases ih (i + 1) _ with hfault | ⟨codes, hcodes⟩
      · exact Or.inl hfault
      · exact Or.inr ⟨0 :: codes, hcodes⟩

theorem kbFlush_ending (r : Hid.Report) :
    ((kbFlush C r).run argv w).ending =
      .value (Router.kbFlush w.keyboard.kbTarget (w.outputs C) w.diagnostics).2 := rfl

theorem kbFlush_of_flushOrRefuse {r : Hid.Report} {v : Node n σ}
    (h : (flushOrRefuse C r).outcome argv w = (.value 0, v)) :
    (Router.kbFlush w.keyboard.kbTarget (w.outputs C) w.diagnostics).2 = 0 := by
  obtain ⟨st, u, hflush, hrest⟩ := outcome_bind_eq_value h
  have hst : (Router.kbFlush w.keyboard.kbTarget (w.outputs C) w.diagnostics).2 = st := by
    have hending := congrArg Prod.fst hflush
    rw [outcome, kbFlush_ending] at hending
    exact Ending.value.inj hending
  rw [← kbFlush_nonneg_iff, hst]
  by_contra hneg
  rw [outcome_ite, if_pos (Int.not_le.mp hneg)] at hrest
  have hret := congrArg Prod.fst hrest
  have hval : (-1 : ℤ) = 0 := Ending.value.inj hret
  omega

theorem kbFlush_of_atCmdKey {v : Node n σ}
    (h : (atCmdKey C argc).outcome argv w = (.value 0, v)) :
    (Router.kbFlush w.keyboard.kbTarget (w.outputs C) w.diagnostics).2 = 0 := by
  unfold atCmdKey at h
  split_ifs at h with hargc
  · have hret := congrArg Prod.fst h
    have hval : (-1 : ℤ) = 0 := Ending.value.inj hret
    omega
  · rw [outcome_ask_bind] at h
    cases harg : argv 1 with
    | none =>
      rw [harg] at h
      cases congrArg Prod.fst h
    | some mods =>
      rw [harg, Option.elim_some] at h
      rcases outcome_keyCodes_bind 6 2 fun codes => flushOrRefuse C
          ⟨toU8 (atoi mods), Vector.ofFn fun i => (codes.filter (· ≠ 0)).getD i 0⟩ with
        hfault | ⟨codes, hcodes⟩
      · cases congrArg Prod.fst (hfault.symm.trans h)
      · exact kbFlush_of_flushOrRefuse (hcodes.symm.trans h)

theorem handler_of_ok {c : Command} {v : Node n σ}
    (h : (handler C argc c >>= fun ret => respond (if ret = 0 then ok else error)).outcome argv w =
      (.value (), v)) (hlast : v.replies.getLast? = some (atResponse ok)) :
    ∃ u, (handler C argc c).outcome argv w = (.value 0, u) := by
  obtain ⟨ret, u, hhandler, hrest⟩ := outcome_bind_eq_value h
  have hv : v = u.respond (if ret = 0 then ok else error) := (congrArg Prod.snd hrest).symm
  rw [hv, Node.respond, List.getLast?_append_of_ne_nil _ (List.cons_ne_nil _ _)] at hlast
  by_cases hret : ret = 0
  · exact ⟨u, hret ▸ hhandler⟩
  · rw [if_neg hret] at hlast
    exact absurd hlast (by decide)

end Key

section Law

variable (w : Node n σ)

theorem flushTruthful_of_takes
    (h : bleTried w.keyboard.kbTarget (w.outputs C) ≠ [] →
      Takes w.keyboard.kbTarget (w.outputs C)) : FlushTruthful C w := by
  have hiff := (kbFlush_truthful_iff w.keyboard.kbTarget (w.outputs C) w.diagnostics).mpr h
  refine ⟨fun r argv => ?_, fun argc argv name hname hsame hend hlast => ?_⟩
  · rw [kbFlush_ending]
    exact ⟨fun hres => hiff.mp (Ending.value.inj hres), fun hne => congrArg _ (hiff.mpr hne)⟩
  · have hmem : .key ∈ cmdTable C.build := by
      simp [cmdTable]
    have hdispatch : (dispatch C argc (cmdTable C.build)).outcome argv w = _ :=
      outcome_dispatch C hname (c := .key) hsame w hmem
    obtain ⟨u, hu⟩ := handler_of_ok (hdispatch.symm.trans (Prod.ext hend rfl)) hlast
    exact hiff.mp (kbFlush_of_atCmdKey hu)

/-- The result of `kb_flush` is truthful exactly when no selected slot has a link, or USB is selected
and ready, or a selected slot with a link takes the report within the retry budget. -/
theorem flush_truthful_iff (C : Chip n σ) (w : Node n σ) :
    FlushTruthful C w ↔ (bleTried w.keyboard.kbTarget (w.outputs C) ≠ [] →
      Takes w.keyboard.kbTarget (w.outputs C)) := by
  constructor
  · intro h
    rw [← kbFlush_truthful_iff _ _ w.diagnostics]
    have hres := h.result .rest fun _ => none
    rw [kbFlush_ending] at hres
    exact ⟨fun h0 => hres.mp (congrArg _ h0), fun hne => Ending.value.inj (hres.mpr hne)⟩
  · exact flushTruthful_of_takes C w

end Law

section Unsubscribed

def unsubscribedNode : Node 1 Unit :=
  { bareNode with keyboard := { bareNode.keyboard with conns := fun _ => ⟨1, zeroAddr⟩ } }

/-- The stack refuses the report, `kb_flush` returns 0 and `AT+KEY=0,4` is answered OK. -/
theorem unsubscribed_host_answered_ok :
    ((kbFlush bareChip .rest).run (fun _ => none) unsubscribedNode).ending = .value 0 ∧
      ((dispatch bareChip 3 (cmdTable bareChip.build)).run
        (fun i => [bytes "AT+KEY", bytes "0", bytes "4"][i]?) unsubscribedNode).state.replies =
        [atResponse ok] ∧
      ¬ FlushTruthful bareChip unsubscribedNode := by
  have hres : ((kbFlush bareChip .rest).run (fun _ => none) unsubscribedNode).ending =
      .value 0 := by
    decide +kernel
  refine ⟨hres, by decide +kernel, fun h => ?_⟩
  exact (h.result .rest fun _ => none).mp hres (by decide +kernel)

end Unsubscribed

end AtNode.AtCmds
