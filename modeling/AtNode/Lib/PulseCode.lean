import Mathlib.Algebra.Ring.Nat
import Mathlib.Data.List.Basic
import Mathlib.Data.List.Range
import Mathlib.Data.Nat.Init

/-!
# Words sent as pairs of timings

An encoder writes its timings one after another into a buffer of fixed size; a write behind the last
place has no result. A word is sent from its lowest bit on, each bit as a pair of timings that
depends on it. `readPairs` reads pairs while there are two timings left, and `wordOf` puts the bits
together again.
-/

namespace AtNode.PulseCode

variable {α : Type*} {cap n : ℕ} {ts : List α} {v : α}

section Buffer

/-- `buf[idx++] = v` in a buffer of `cap` places. -/
def put (cap : ℕ) (ts : List α) (v : α) : Option (List α) :=
  if ts.length < cap then some (ts ++ [v]) else none

theorem put_of_lt (h : ts.length < cap) : put cap ts v = some (ts ++ [v]) := if_pos h

theorem put_of_le (h : cap ≤ ts.length) : put cap ts v = none := if_neg (Nat.not_lt.mpr h)

/-- A loop that writes two timings a turn. -/
def putPairs (cap : ℕ) (pair : ℕ → α × α) (n : ℕ) (ts : List α) : Option (List α) :=
  (List.range n).foldlM (fun ts i => (put cap ts (pair i).1).bind fun ts => put cap ts (pair i).2) ts

def pairs (pair : ℕ → α × α) (n : ℕ) : List α := (List.range n).flatMap fun i => [(pair i).1, (pair i).2]

theorem putPairs_succ (pair : ℕ → α × α) (n : ℕ) (ts : List α) :
    putPairs cap pair (n + 1) ts = (putPairs cap pair n ts).bind fun ts =>
      (put cap ts (pair n).1).bind fun ts => put cap ts (pair n).2 := by
  rw [putPairs, List.range_succ, List.foldlM_append, ← putPairs]
  cases putPairs cap pair n ts with
  | none => rfl
  | some us =>
    simp only [List.foldlM_cons, List.foldlM_nil, Option.bind_eq_bind, Option.bind_some]
    exact Option.bind_fun_some _

theorem pairs_succ (pair : ℕ → α × α) (n : ℕ) :
    pairs pair (n + 1) = pairs pair n ++ [(pair n).1, (pair n).2] := by
  rw [pairs, List.range_succ, List.flatMap_append, ← pairs]
  rfl

theorem length_pairs (pair : ℕ → α × α) (n : ℕ) : (pairs pair n).length = 2 * n := by
  induction n with
  | zero => rfl
  | succ n ih =>
    rw [pairs_succ, List.length_append, ih]
    rfl

/-- The loop stays in the buffer as long as there is room for all its pairs. -/
theorem putPairs_eq (pair : ℕ → α × α) (hts : ts.length ≤ cap) (n : ℕ) :
    putPairs cap pair n ts =
      if ts.length + 2 * n ≤ cap then some (ts ++ pairs pair n) else none := by
  induction n with
  | zero =>
    rw [if_pos (show ts.length + 2 * 0 ≤ cap from hts), pairs, List.range_zero, List.flatMap_nil,
      List.append_nil]
    rfl
  | succ n ih =>
    rw [putPairs_succ, ih]
    by_cases hroom : ts.length + 2 * (n + 1) ≤ cap
    · have hlen : (ts ++ pairs pair n).length = ts.length + 2 * n := by
        rw [List.length_append, length_pairs]
      rw [if_pos (by omega), if_pos hroom, Option.bind_some, put_of_lt (by omega), Option.bind_some,
        put_of_lt (by rw [List.length_append, hlen, List.length_singleton]; omega), pairs_succ]
      simp
    · rw [if_neg hroom]
      split_ifs with hprev
      · rw [Option.bind_some]
        have hlen : (ts ++ pairs pair n).length = ts.length + 2 * n := by
          rw [List.length_append, length_pairs]
        by_cases hone : (ts ++ pairs pair n).length < cap
        · rw [put_of_lt hone, Option.bind_some, put_of_le]
          rw [List.length_append, hlen, List.length_singleton]
          omega
        · rw [put_of_le (Nat.not_lt.mp hone)]
          rfl
      · rfl

end Buffer

section Words

/-- The bits of a word, the lowest first. -/
def bitsOf (d n : ℕ) : List Bool := (List.range n).map d.testBit

def wordOf : List Bool → ℕ
  | [] => 0
  | b :: bs => b.toNat + 2 * wordOf bs

theorem bitsOf_succ (d n : ℕ) : bitsOf d (n + 1) = d.testBit 0 :: bitsOf (d / 2) n := by
  rw [bitsOf, List.range_succ_eq_map, List.map_cons, List.map_map]
  congr 1
  exact List.map_congr_left fun i _ => Nat.testBit_succ d i

theorem wordOf_bitsOf (d n : ℕ) : wordOf (bitsOf d n) = d % 2 ^ n := by
  induction n generalizing d with
  | zero => rw [Nat.pow_zero, Nat.mod_one]; rfl
  | succ n ih =>
    have hbit : (d.testBit 0).toNat = d % 2 := by
      rw [Nat.testBit_zero]
      rcases Nat.mod_two_eq_zero_or_one d with h | h <;> simp [h]
    rw [bitsOf_succ, wordOf, ih, hbit, Nat.pow_succ', Nat.mod_mul]

theorem length_bitsOf (d n : ℕ) : (bitsOf d n).length = n := by
  rw [bitsOf, List.length_map, List.length_range]

/-- The pairs at the front of the timings, and the timings behind them. -/
def readPairs (bit : α → α → Option Bool) : List α → Option (List Bool × List α)
  | a :: b :: rest => (bit a b).bind fun x => (readPairs bit rest).map fun r => (x :: r.1, r.2)
  | rest => some ([], rest)

theorem readPairs_pairs {bit : α → α → Option Bool} {pair : Bool → α × α}
    (hbit : ∀ x, bit (pair x).1 (pair x).2 = some x) (d n : ℕ) {rest : List α}
    (hrest : rest.length ≤ 1) :
    readPairs bit (pairs (fun i => pair (d.testBit i)) n ++ rest) = some (bitsOf d n, rest) := by
  have hall (bs : List Bool) : readPairs bit ((bs.flatMap fun x => [(pair x).1, (pair x).2]) ++ rest) =
      some (bs, rest) := by
    induction bs with
    | nil =>
      cases rest with
      | nil => rfl
      | cons a rest =>
        cases rest with
        | nil => rfl
        | cons b rest => exact absurd hrest (by simp)
    | cons x bs ih =>
      rw [List.flatMap_cons, List.append_assoc, List.cons_append, List.cons_append, List.nil_append,
        readPairs, hbit, Option.bind_some, ih]
      rfl
  rw [pairs, ← hall (bitsOf d n), bitsOf, List.flatMap_map]

end Words

end AtNode.PulseCode
