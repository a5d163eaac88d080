import Mathlib.Algebra.Group.Nat.Defs
import Mathlib.Data.Fin.Tuple.Basic
import Mathlib.Data.Nat.Init

/-!
# Byte memories and records of tables

A memory is a function from offsets. `copyTo` writes a block, `rows` lays a table out row by row and
`row` reads one row back; a row that was copied is read back as it was, and a block copied behind it
does not touch it. `leByte` and `leNat` write and read numbers with the low byte first.
-/

namespace AtNode.Memory

variable {α : Type*}

def copyTo (m : ℕ → α) (off len : ℕ) (src : ℕ → α) : ℕ → α := fun i =>
  if off ≤ i ∧ i < off + len then src (i - off) else m i

theorem copyTo_inside (m src : ℕ → α) {off len i : ℕ} (hi : i < len) :
    copyTo m off len src (off + i) = src i := by
  rw [copyTo, if_pos ⟨by omega, by omega⟩, Nat.add_sub_cancel_left]

theorem copyTo_before (m src : ℕ → α) {off len i : ℕ} (hi : i < off) :
    copyTo m off len src i = m i := by
  rw [copyTo, if_neg (by omega)]

section Tables

variable {n k : ℕ}

def row (m : ℕ → α) (off k s : ℕ) : Fin k → α := fun j => m (off + (k * s + j))

def rows [Inhabited α] (t : Fin n → Fin k → α) (i : ℕ) : α :=
  if h : i / k < n ∧ 0 < k then t ⟨i / k, h.1⟩ ⟨i % k, Nat.mod_lt i h.2⟩ else default

theorem rows_apply [Inhabited α] (t : Fin n → Fin k → α) (s : Fin n) (j : Fin k) :
    rows t (k * s + j) = t s j := by
  have hk : 0 < k := Nat.zero_lt_of_lt j.isLt
  have hdiv : (k * s + j) / k = s := by
    rw [Nat.mul_add_div hk, Nat.div_eq_of_lt j.isLt, Nat.add_zero]
  have hmod : (k * s + j) % k = j := by
    rw [Nat.mul_add_mod, Nat.mod_eq_of_lt j.isLt]
  rw [rows, dif_pos ⟨by rw [hdiv]; exact s.isLt, hk⟩]
  exact congrArg₂ t (Fin.ext hdiv) (Fin.ext hmod)

theorem row_copyTo_rows [Inhabited α] (m : ℕ → α) (off : ℕ) (t : Fin n → Fin k → α) (s : Fin n) :
    row (copyTo m off (k * n) (rows t)) off k s = t s := by
  funext j
  have hlt : k * s + j < k * n :=
    calc k * s + j < k * s + k := Nat.add_lt_add_left j.isLt _
      _ = k * (s + 1) := rfl
      _ ≤ k * n := Nat.mul_le_mul_left k s.isLt
  rw [row, copyTo_inside m _ hlt, rows_apply]

theorem row_copyTo_before (m src : ℕ → α) {off off' len s : ℕ} (h : off + (k * s + k) ≤ off') :
    row (copyTo m off' len src) off k s = row m off k s := by
  funext j
  have := j.isLt
  rw [row, copyTo_before m src (by omega)]
  rfl

theorem row_copyTo_whole (m src : ℕ → α) {off len s : ℕ} (h : off + (k * s + k) ≤ len) :
    row (copyTo m 0 len src) off k s = row src off k s := by
  funext j
  have := j.isLt
  have hin : off + (k * s + j) < len := by omega
  rw [row, ← Nat.zero_add (off + (k * s + j)), copyTo_inside m src hin]
  rfl

end Tables

section LittleEndian

def leByte (x i : ℕ) : UInt8 := UInt8.ofNat (x / 256 ^ i)

def leNat : {k : ℕ} → (Fin k → UInt8) → ℕ
  | 0, _ => 0
  | _ + 1, b => (b 0).toNat + 256 * leNat (Fin.tail b)

theorem leByte_succ (x i : ℕ) : leByte x (i + 1) = leByte (x / 256) i := by
  rw [leByte, leByte, Nat.pow_succ, Nat.mul_comm, Nat.div_div_eq_div_mul]

theorem leNat_leByte (k x : ℕ) : leNat (fun j : Fin k => leByte x j) = x % 256 ^ k := by
  induction k generalizing x with
  | zero => rw [leNat, Nat.pow_zero, Nat.mod_one]
  | succ k ih =>
    have htail :
        Fin.tail (fun j : Fin (k + 1) => leByte x j) = fun j : Fin k => leByte (x / 256) j :=
      funext fun j => leByte_succ x j
    have hhead : (leByte x 0).toNat = x % 256 := by
      rw [leByte, Nat.pow_zero, Nat.div_one, UInt8.toNat_ofNat']
    rw [leNat, htail, ih, Nat.pow_succ', Nat.mod_mul]
    exact congrArg (· + 256 * (x / 256 % 256 ^ k)) hhead

end LittleEndian

end AtNode.Memory
