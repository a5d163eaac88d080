import Mathlib.Data.Finset.Lattice.Fold
import Mathlib.Data.Fintype.Basic
import Mathlib.Order.Lattice.Nat

/-!
# A bounded broadcast channel

Every subscriber reads every message in order. The queue holds the messages that some subscriber has
not read, so its length is that of the longest backlog; a message published into a full queue is
dropped. Of a burst that is published without a read in between, the subscribers see the first
messages that find room.
-/

namespace AtNode.PubSub

variable {ι α : Type*}

/-- The messages each subscriber has still to read. -/
structure Channel (ι α : Type*) where
  unread : ι → List α

def Channel.empty : Channel ι α := ⟨fun _ => []⟩

section Publish

variable [Fintype ι] (cap : ℕ)

def Channel.length (c : Channel ι α) : ℕ := Finset.univ.sup fun i => (c.unread i).length

def Channel.room (c : Channel ι α) : ℕ := cap - c.length

def Channel.tryPublish (c : Channel ι α) (m : α) : Channel ι α :=
  if cap ≤ c.length then c else ⟨fun i => c.unread i ++ [m]⟩

def Channel.tryPublishAll (c : Channel ι α) (ms : List α) : Channel ι α :=
  ms.foldl (Channel.tryPublish cap) c

variable {cap} {c : Channel ι α} {m : α} {ms : List α} {i : ι}

theorem length_append [Nonempty ι] (c : Channel ι α) (m : α) :
    Channel.length ⟨fun i => c.unread i ++ [m]⟩ = c.length + 1 := by
  apply Nat.le_antisymm
  · apply Finset.sup_le
    intro i hi
    have hle : (c.unread i).length ≤ c.length :=
      Finset.le_sup (f := fun i => (c.unread i).length) hi
    rw [List.length_append]
    exact Nat.succ_le_succ hle
  · obtain ⟨i, hi, hsup⟩ := Finset.exists_mem_eq_sup Finset.univ Finset.univ_nonempty
      (fun i => (c.unread i).length)
    have hle := Finset.le_sup (f := fun i => (c.unread i ++ [m]).length) hi
    rw [List.length_append] at hle
    rw [Channel.length, hsup]
    exact hle

theorem room_tryPublish [Nonempty ι] :
    (c.tryPublish cap m).room cap = c.room cap - 1 := by
  unfold Channel.tryPublish Channel.room
  split
  · omega
  · rw [length_append]
    omega

theorem unread_tryPublish :
    (c.tryPublish cap m).unread i = c.unread i ++ [m].take (c.room cap) := by
  unfold Channel.tryPublish Channel.room
  split
  · rename_i hfull
    rw [Nat.sub_eq_zero_of_le hfull, List.take_zero, List.append_nil]
  · rename_i hroom
    have hpos : 1 ≤ cap - c.length := by omega
    rw [List.take_of_length_le hpos]

/-- After a publication a subscriber has the message to read if it found room, or if one like it was
there. -/
theorem mem_unread_tryPublish :
    m ∈ (c.tryPublish cap m).unread i ↔ c.length < cap ∨ m ∈ c.unread i := by
  unfold Channel.tryPublish
  by_cases h : cap ≤ c.length
  · rw [if_pos h]
    exact ⟨Or.inr, fun hm => hm.resolve_left (Nat.not_lt.mpr h)⟩
  · rw [if_neg h]
    exact ⟨fun _ => Or.inl (Nat.lt_of_not_le h), fun _ => by simp⟩

theorem subset_unread_tryPublish : c.unread i ⊆ (c.tryPublish cap m).unread i := by
  rw [unread_tryPublish]
  exact List.subset_append_left _ _

/-- Of a burst the first messages that find room are kept. -/
theorem unread_tryPublishAll :
    (c.tryPublishAll cap ms).unread i = c.unread i ++ ms.take (c.room cap) := by
  have hne : Nonempty ι := ⟨i⟩
  induction ms generalizing c with
  | nil => rw [List.take_nil, List.append_nil]; rfl
  | cons m ms ih =>
    have hstep := ih (c := c.tryPublish cap m)
    rw [unread_tryPublish, room_tryPublish, List.append_assoc] at hstep
    refine hstep.trans ?_
    cases c.room cap with
    | zero => rfl
    | succ n => rw [List.take_succ_cons, List.take_nil, List.take_succ_cons]; rfl

end Publish

section Read

variable [DecidableEq ι]

def Channel.read (c : Channel ι α) (i : ι) : Channel ι α :=
  ⟨Function.update c.unread i (c.unread i).tail⟩

theorem unread_read_self (c : Channel ι α) (i : ι) :
    (c.read i).unread i = (c.unread i).tail := Function.update_self _ _ _

theorem unread_read_of_ne (c : Channel ι α) {i j : ι} (h : j ≠ i) :
    (c.read i).unread j = c.unread j := Function.update_of_ne h _ _

end Read

end AtNode.PubSub
