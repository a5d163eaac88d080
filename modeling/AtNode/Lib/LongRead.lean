import Mathlib.Algebra.GroupWithZero.Nat
import Mathlib.Data.List.TakeDrop

/-!
# Reading a long value in parts

A client reads on from where it is until a part is shorter than it asked for or the server refuses.
-/

namespace AtNode.LongRead

variable {α ε : Type*} {server : ℕ → ℕ → Except ε (List α)} {value : List α} {offset : ℕ}

/-- The client, with the lengths it asks for. -/
def readLong (server : ℕ → ℕ → Except ε (List α)) : ℕ → List ℕ → List α
  | _, [] => []
  | offset, size :: sizes =>
    match server offset size with
    | .error _ => []
    | .ok part =>
      if part.length < size then part else part ++ readLong server (offset + part.length) sizes

/-- The server gives the value from the offset on, and refuses an offset past its end. -/
structure Serves (server : ℕ → ℕ → Except ε (List α)) (value : List α) : Prop where
  part : ∀ offset size, offset < value.length → server offset size = .ok ((value.drop offset).take size)
  past : ∀ offset size, value.length ≤ offset → ∃ e, server offset size = .error e

theorem readLong_eq (hs : Serves server value) (sizes : List ℕ) :
    readLong server offset sizes = (value.drop offset).take sizes.sum := by
  induction sizes generalizing offset with
  | nil => rfl
  | cons size sizes ih =>
    rw [List.sum_cons, readLong]
    by_cases hoffset : value.length ≤ offset
    · obtain ⟨e, he⟩ := hs.past offset size hoffset
      rw [he, List.drop_eq_nil_of_le hoffset, List.take_nil]
    · rw [hs.part offset size (Nat.lt_of_not_le hoffset)]
      dsimp only
      split_ifs with hshort
      · rw [List.length_take] at hshort
        rw [List.take_of_length_le (by omega), List.take_of_length_le (by omega)]
      · rw [ih, List.take_add, List.drop_drop]
        have hlen : ((value.drop offset).take size).length = size := by
          rw [List.length_take] at hshort ⊢
          omega
        rw [hlen]

end AtNode.LongRead
