import Mathlib.Data.List.Sort
import Rustfs.Lib.Blocks

/-! Parts laid end to end: where a part starts, which part an offset falls into, and what a window
of the whole takes from each part. -/
namespace Rustfs.Parts

open Blocks List

variable {α : Type} {ps : List (List α)} {p : List α} {sizes : List ℕ} {i j n o lo hi a b : ℕ}

/-- Where part `j` starts. -/
def start (sizes : List ℕ) (j : ℕ) : ℕ := (sizes.take j).sum

/-- The first part that ends behind the offset, with the offset inside it. -/
def locate : List ℕ → ℕ → Option (ℕ × ℕ)
  | [], _ => none
  | n :: sizes, o =>
    if o < n then some (0, o) else (locate sizes (o - n)).map fun p => (p.1 + 1, p.2)

/-- A visit to a part: where it begins in the part, and how much it takes. -/
structure Piece where
  part : ℕ
  offset : ℕ
  length : ℕ
  deriving Repr, DecidableEq

/-- What the window from `lo` to `hi` takes from part `j`. -/
def piece (sizes : List ℕ) (lo hi j : ℕ) : Piece :=
  ⟨j, max lo (start sizes j) - start sizes j,
    min hi (start sizes (j + 1)) - max lo (start sizes j)⟩

/-- The window is not empty, and part `j` begins before its end and ends behind its start. -/
def Overlaps (sizes : List ℕ) (lo hi j : ℕ) : Prop :=
  lo < hi ∧ start sizes j < hi ∧ lo < start sizes (j + 1)

instance (sizes : List ℕ) (lo hi j : ℕ) : Decidable (Overlaps sizes lo hi j) :=
  inferInstanceAs (Decidable (_ ∧ _))

/-- The pieces of the parts that the window overlaps. -/
def pieces (sizes : List ℕ) (lo hi : ℕ) : List Piece :=
  ((List.range sizes.length).filter (Overlaps sizes lo hi ·)).map (piece sizes lo hi)

@[simp] theorem start_zero (ss : List ℕ) : start ss 0 = 0 := rfl

@[simp] theorem start_cons_succ (n : ℕ) (ss : List ℕ) (j : ℕ) :
    start (n :: ss) (j + 1) = n + start ss j := by
  simp [start]

theorem start_succ (h : sizes[j]? = some n) : start sizes (j + 1) = start sizes j + n := by
  rw [start, start, take_add_one, h]
  simp

theorem start_mono (h : i ≤ j) : start sizes i ≤ start sizes j := by
  obtain ⟨d, rfl⟩ := Nat.exists_eq_add_of_le h
  rw [start, start, take_add, sum_append]
  omega

theorem locate_spec (h : o < sizes.sum) : ∃ j r n, locate sizes o = some (j, r) ∧
    sizes[j]? = some n ∧ r < n ∧ start sizes j + r = o := by
  induction sizes generalizing o with
  | nil => simp at h
  | cons m sizes ih =>
    by_cases hlt : o < m
    · exact ⟨0, o, m, by simp [locate, hlt], rfl, hlt, by simp⟩
    · rw [sum_cons] at h
      obtain ⟨j, r, n, hloc, hj, hr, hsum⟩ := ih (o := o - m) (by omega)
      refine ⟨j + 1, r, n, by simp [locate, hlt, hloc], hj, hr, ?_⟩
      rw [start_cons_succ]
      omega

theorem locate_eq_none (h : sizes.sum ≤ o) : locate sizes o = none := by
  induction sizes generalizing o with
  | nil => rfl
  | cons m sizes ih =>
    rw [sum_cons] at h
    have hlt : ¬ o < m := by omega
    rw [locate, if_neg hlt, ih (by omega)]
    rfl

theorem filter_range_eq {p : ℕ → Bool} (hab : a ≤ b) (hbn : b ≤ n)
    (hp : ∀ j, j < n → (p j = true ↔ a ≤ j ∧ j < b)) :
    (List.range n).filter p = List.range' a (b - a) := by
  refine (pairwise_lt_range.filter p).eq_of_mem_iff pairwise_lt_range' fun j => ?_
  rw [mem_filter, mem_range, mem_range'_1]
  constructor
  · rintro ⟨hj, h⟩
    have := (hp j hj).1 h
    omega
  · intro h
    exact ⟨by omega, (hp j (by omega)).2 (by omega)⟩

section

variable {f l r r' m m' : ℕ} (hfirst : start sizes f + r = lo) (hm : sizes[f]? = some m) (hr : r < m)
  (hlast : start sizes l + r' + 1 = hi) (hm' : sizes[l]? = some m') (hr' : r' < m') (hlt : lo < hi)
include hfirst hm hr hlast hm' hr' hlt

/-- The parts that a window overlaps are those from its first byte to its last one. -/
theorem overlaps_iff : Overlaps sizes lo hi j ↔ f ≤ j ∧ j ≤ l := by
  have hnext := start_succ hm
  have hnext' := start_succ hm'
  constructor
  · rintro ⟨-, hstart, hend⟩
    constructor
    · by_contra hj
      have : start sizes (j + 1) ≤ start sizes f := start_mono (by omega)
      omega
    · by_contra hj
      have : start sizes (l + 1) ≤ start sizes j := start_mono (by omega)
      omega
  · rintro ⟨hj, hj'⟩
    have h₁ : start sizes (f + 1) ≤ start sizes (j + 1) := start_mono (by omega)
    have h₂ : start sizes j ≤ start sizes l := start_mono hj'
    exact ⟨hlt, by omega, by omega⟩

theorem pieces_eq :
    pieces sizes lo hi = (List.range' f (l + 1 - f)).map (piece sizes lo hi) := by
  have hle : f ≤ l := by
    by_contra hno
    have hnext := start_succ hm'
    have : start sizes (l + 1) ≤ start sizes f := start_mono (by omega)
    omega
  have hlast := (List.getElem?_eq_some_iff.1 hm').1
  rw [pieces, filter_range_eq (a := f) (b := l + 1) (by omega) hlast]
  intro j _
  rw [decide_eq_true_iff, overlaps_iff hfirst hm hr ‹_› hm' hr' hlt, Nat.lt_succ_iff]

end

theorem pieces_empty (ss : List ℕ) (lo : ℕ) : pieces ss lo lo = [] := by
  rw [pieces, filter_eq_nil_iff.2, map_nil]
  intro j _ hj
  rw [decide_eq_true_iff] at hj
  exact Nat.lt_irrefl lo hj.1

/-- A window of one part, as a window of the whole. -/
theorem slice_flatten (hp : ps[j]? = some p) (hb : b ≤ p.length) :
    slice ps.flatten (start (ps.map List.length) j + a)
      (start (ps.map List.length) j + b) = slice p a b := by
  induction ps generalizing j with
  | nil => simp at hp
  | cons q ps ih =>
    cases j with
    | zero =>
      obtain rfl : q = p := by simpa using hp
      rw [map_cons, start_zero, Nat.zero_add, Nat.zero_add, flatten_cons, slice, slice]
      by_cases ha : a ≤ q.length
      · rw [drop_append_of_le_length ha, take_append_of_le_length]
        rw [length_drop]
        omega
      · have hz : b - a = 0 := by omega
        rw [hz, take_zero, take_zero]
    | succ j =>
      have hp' : ps[j]? = some p := by simpa using hp
      rw [map_cons, start_cons_succ, flatten_cons, ← ih hp', slice, slice, Nat.add_assoc,
        Nat.add_assoc, drop_append, drop_of_length_le (Nat.le_add_right _ _),
        Nat.add_sub_cancel_left, nil_append]
      congr 1
      omega

end Rustfs.Parts
