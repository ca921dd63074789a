import Mathlib.Data.List.Basic
import Mathlib.Tactic.Ring

/-! A list cut into blocks of one length, and the windows of it that fall into a block. -/
namespace Rustfs

open Nat List

/-- `usize::div_ceil`. -/
def divCeil (a b : ℕ) : ℕ := (a + b - 1) / b

namespace Blocks

variable {α : Type} {xs : List α} {n i lo mid hi : ℕ}

def block (n : ℕ) (xs : List α) (i : ℕ) : List α := (xs.drop (i * n)).take n

def slice (xs : List α) (lo hi : ℕ) : List α := (xs.drop lo).take (hi - lo)

theorem le_divCeil_mul (hn : 0 < n) (a : ℕ) : a ≤ divCeil a n * n := by
  have h := div_add_mod (a + n - 1) n
  have hlt := mod_lt (a + n - 1) hn
  rw [divCeil, mul_comm]
  omega

/-- The blocks are counted exactly by the rounded-up quotient. -/
theorem lt_divCeil_iff (hn : 0 < n) {a : ℕ} : i < divCeil a n ↔ i * n < a := by
  rw [divCeil, ← succ_le_iff, le_div_iff_mul_le hn, Nat.succ_mul]
  omega

theorem divCeil_mul (hn : 0 < n) (i : ℕ) : divCeil (i * n) n = i := by
  apply le_antisymm
  · by_contra h
    have := (lt_divCeil_iff hn).1 (Nat.lt_of_not_le h)
    omega
  · by_contra h
    have hlt : divCeil (i * n) n * n < i * n := Nat.mul_lt_mul_of_pos_right (Nat.lt_of_not_le h) hn
    have := le_divCeil_mul hn (i * n)
    omega

theorem divCeil_eq (hn : 0 < n) (a : ℕ) : divCeil a n = a / n + if a % n = 0 then 0 else 1 := by
  have hdiv := div_add_mod' a n
  have hmod := mod_lt a hn
  split
  · rename_i hz
    rw [add_zero, ← divCeil_mul hn (a / n)]
    congr 1
    omega
  · rename_i hnz
    apply le_antisymm
    · by_contra hlt
      have := (lt_divCeil_iff hn).1 (Nat.lt_of_not_le hlt)
      rw [Nat.succ_mul] at this
      omega
    · exact (lt_divCeil_iff hn).2 (by omega)

theorem divCeil_mono {a a' : ℕ} (h : a ≤ a') : divCeil a n ≤ divCeil a' n :=
  Nat.div_le_div_right (by omega)

@[simp] theorem divCeil_zero (hn : 0 < n) : divCeil 0 n = 0 := by
  rw [divCeil]
  exact div_eq_of_lt (by omega)

theorem length_block (n : ℕ) (xs : List α) (i : ℕ) :
    (block n xs i).length = min n (xs.length - i * n) := by
  rw [block, length_take, length_drop]

theorem length_block_full (h : (i + 1) * n ≤ xs.length) : (block n xs i).length = n := by
  rw [Nat.succ_mul] at h
  rw [length_block]
  omega

theorem block_ne_nil (hn : 0 < n) (h : i * n < xs.length) : block n xs i ≠ [] := by
  intro he
  have := congrArg List.length he
  rw [length_block, length_nil] at this
  omega

/-- The blocks together are the list, up to the last block taken. -/
theorem flatten_blocks (n : ℕ) (xs : List α) (c : ℕ) :
    ((List.range c).map (block n xs)).flatten = xs.take (c * n) := by
  induction c with
  | zero => simp
  | succ c ih =>
    rw [range_succ, map_append, flatten_append, ih, Nat.succ_mul, take_add]
    simp [block]

@[simp] theorem slice_self (xs : List α) (lo : ℕ) : slice xs lo lo = [] := by
  simp [slice]

theorem slice_append (h₁ : lo ≤ mid) (h₂ : mid ≤ hi) :
    slice xs lo mid ++ slice xs mid hi = slice xs lo hi := by
  have hsplit : hi - lo = (mid - lo) + (hi - mid) := by omega
  have hdrop : lo + (mid - lo) = mid := by omega
  rw [slice, slice, slice, hsplit, take_add, drop_drop, hdrop]

/-- A window inside one block is cut out of the block by its offset in it. -/
theorem slice_block (h₁ : i * n ≤ lo) (h₂ : hi ≤ (i + 1) * n) :
    ((block n xs i).drop (lo - i * n)).take (hi - lo) = slice xs lo hi := by
  rw [Nat.succ_mul] at h₂
  rw [block, slice, drop_take, drop_drop, take_take]
  have hlo : i * n + (lo - i * n) = lo := by omega
  have hmin : min (hi - lo) (n - (lo - i * n)) = hi - lo := by omega
  rw [hlo, hmin]

end Blocks

end Rustfs
