import Mathlib
import Rustfs.Lib.Stream

/-! Numbers as bytes, and cyclic redundancy checks with reflected bits: the shift register, and the
polynomial remainder it computes. -/
namespace Rustfs

/-- `to_be_bytes`, of a value of so many bytes. -/
def toBeBytes : ℕ → ℕ → Bytes
  | 0, _ => []
  | k + 1, n => toBeBytes k (n / 256) ++ [UInt8.ofNat n]

def fromBeBytes (raw : Bytes) : ℕ := raw.foldl (fun n b => n * 256 + b.toNat) 0

@[simp] theorem length_toBeBytes (k n : ℕ) : (toBeBytes k n).length = k := by
  induction k generalizing n with
  | zero => rfl
  | succ k ih => rw [toBeBytes, List.length_append, ih, List.length_singleton]

theorem fromBeBytes_toBeBytes (k n : ℕ) : fromBeBytes (toBeBytes k n) = n % 256 ^ k := by
  induction k generalizing n with
  | zero => exact (Nat.mod_one n).symm
  | succ k ih =>
    have hbyte : (UInt8.ofNat n).toNat = n % 256 := UInt8.toNat_ofNat'
    have hlast : fromBeBytes (toBeBytes k (n / 256) ++ [UInt8.ofNat n]) =
        fromBeBytes (toBeBytes k (n / 256)) * 256 + (UInt8.ofNat n).toNat :=
      List.foldl_append
    rw [toBeBytes, hlast, ih, hbyte, pow_succ, mul_comm (256 ^ k), Nat.mod_mul]
    ring

end Rustfs

namespace Rustfs.Crc

open Function AdjoinRoot Nat List

variable {w : ℕ} {p s t : BitVec w} {n : ℕ}

/-- A zero bit is shifted in. -/
def shift (poly s : BitVec w) : BitVec w :=
  if s.getLsbD 0 then (s >>> 1) ^^^ poly else s >>> 1

def feedByte (poly s : BitVec w) (b : UInt8) : BitVec w :=
  (shift poly)^[8] (s ^^^ b.toBitVec.setWidth w)

def feed (poly s : BitVec w) (bytes : Bytes) : BitVec w := bytes.foldl (feedByte poly) s

/-- The check value; the register starts with all ones, and is inverted at the end. -/
def crc (poly : BitVec w) (bytes : Bytes) : BitVec w :=
  feed poly (BitVec.allOnes w) bytes ^^^ BitVec.allOnes w

section

theorem shift_xor (s t : BitVec w) : shift p (s ^^^ t) = shift p s ^^^ shift p t := by
  unfold shift
  simp only [BitVec.getLsbD_xor, BitVec.ushiftRight_xor_distrib]
  cases s.getLsbD 0 <;> cases t.getLsbD 0
  · rfl
  · exact BitVec.xor_assoc _ _ _
  · simp only [Bool.xor_false, if_true, Bool.false_eq_true, if_false]
    rw [BitVec.xor_assoc, BitVec.xor_comm (t >>> 1), ← BitVec.xor_assoc]
  · simp only [Bool.xor_self, if_true, Bool.false_eq_true, if_false]
    rw [BitVec.xor_assoc, BitVec.xor_comm p, BitVec.xor_assoc, BitVec.xor_self, BitVec.xor_zero]

theorem iterate_shift_xor (n : ℕ) (s t : BitVec w) :
    (shift p)^[n] (s ^^^ t) = (shift p)^[n] s ^^^ (shift p)^[n] t := by
  induction n generalizing s t with
  | zero => rfl
  | succ n ih =>
    rw [iterate_succ_apply, shift_xor, ih]
    rfl

/-- What a register holds goes through the bytes apart from them. -/
theorem feed_xor (s t : BitVec w) (bs : Bytes) :
    feed p (s ^^^ t) bs = (shift p)^[8 * bs.length] s ^^^ feed p t bs := by
  induction bs generalizing s t with
  | nil => rfl
  | cons b bs ih =>
    have hbyte : feedByte p (s ^^^ t) b = (shift p)^[8] s ^^^ feedByte p t b := by
      rw [feedByte, BitVec.xor_assoc, iterate_shift_xor]
      rfl
    have hlength : 8 * (b :: bs).length = 8 * bs.length + 8 := by
      rw [length_cons]
      omega
    rw [feed, foldl_cons, hbyte, hlength, iterate_add_apply]
    exact ih _ _

theorem feed_append (s : BitVec w) (bs bs' : Bytes) :
    feed p s (bs ++ bs') = feed p (feed p s bs) bs' :=
  foldl_append

/-- The check value of the first bytes is shifted by the length of the others. -/
theorem crc_append (bs bs' : Bytes) :
    crc p (bs ++ bs') = (shift p)^[8 * bs'.length] (crc p bs) ^^^ crc p bs' := by
  have hregister : feed p (BitVec.allOnes w) bs = crc p bs ^^^ BitVec.allOnes w := by
    rw [crc, BitVec.xor_assoc, BitVec.xor_self, BitVec.xor_zero]
  rw [crc, feed_append, hregister, feed_xor, BitVec.xor_assoc]
  rfl

theorem eq_zero_of_shift (hpoly : p.msb = true) (h : shift p s = 0#w) : s = 0#w := by
  unfold shift at h
  split_ifs at h with hlow
  · rw [← BitVec.xor_eq_zero_iff.mp h, BitVec.msb_ushiftRight] at hpoly
    cases hpoly
  · refine BitVec.eq_of_getLsbD_eq fun i _ => ?_
    cases i with
    | zero => simpa using hlow
    | succ i =>
      have hbit := congrArg (BitVec.getLsbD · i) h
      simpa [Nat.add_comm] using hbit

/-- No value is lost where the polynomial has a constant term. -/
theorem shift_injective (hpoly : p.msb = true) : Function.Injective (shift p) := by
  intro s t h
  have hzero : shift p (s ^^^ t) = 0#w := by rw [shift_xor, h, BitVec.xor_self]
  exact BitVec.xor_eq_zero_iff.mp (eq_zero_of_shift hpoly hzero)

/-- Zeros are only moved out. -/
theorem iterate_shift_of_low (h : ∀ i < n, s.getLsbD i = false) : (shift p)^[n] s = s >>> n := by
  induction n with
  | zero => exact (BitVec.ushiftRight_zero s).symm
  | succ n ih =>
    have hlow : (s >>> n).getLsbD 0 = false := by simpa using h n (lt_succ_self n)
    rw [iterate_succ_apply', ih fun i hi => h i (lt_succ_of_lt hi), shift, hlow,
      BitVec.shiftRight_add]
    rfl

/-- What the lowest bytes of a register hold is cancelled by feeding it. -/
theorem exists_feed_cancel (p : BitVec w) (k : ℕ) (s t : BitVec w) (ht : t >>> (8 * k) = 0#w) :
    ∃ bytes : Bytes, bytes.length = k ∧ feed p (s ^^^ t) bytes = (shift p)^[8 * k] s := by
  induction k generalizing s t with
  | zero =>
    refine ⟨[], rfl, ?_⟩
    have hzero : t = 0#w := by simpa using ht
    rw [hzero, BitVec.xor_zero]
    rfl
  | succ k ih =>
    have hrest : t >>> 8 >>> (8 * k) = 0#w := by
      rw [← BitVec.shiftRight_add, ← ht]
      congr 1
      omega
    obtain ⟨bytes, hlength, hfeed⟩ := ih ((shift p)^[8] s) (t >>> 8) hrest
    let b : UInt8 := ⟨t.setWidth 8⟩
    have hbyte : feedByte p (s ^^^ t) b = (shift p)^[8] s ^^^ (t >>> 8) := by
      have hclear : ∀ i < 8, (t ^^^ b.toBitVec.setWidth w).getLsbD i = false := by
        intro i hi
        simpa [b, hi] using BitVec.lt_of_getLsbD
      have hhigh : (t ^^^ b.toBitVec.setWidth w) >>> 8 = t >>> 8 := by
        refine BitVec.eq_of_getLsbD_eq fun i _ => ?_
        simp [b]
      rw [feedByte, BitVec.xor_assoc, iterate_shift_xor, iterate_shift_of_low hclear, hhigh]
    refine ⟨b :: bytes, by rw [length_cons, hlength], ?_⟩
    have hsteps : 8 * (k + 1) = 8 * k + 8 := by omega
    rw [feed, foldl_cons, hbyte, hsteps, iterate_add_apply]
    exact hfeed

/-- As many bytes as the register has lead from any value to any other. -/
theorem exists_feed {k : ℕ} (hw : w = 8 * k) (hpoly : p.msb = true) (s t : BitVec w) :
    ∃ bytes : Bytes, bytes.length = k ∧ feed p s bytes = t := by
  have : Finite (BitVec w) := .of_injective BitVec.toFin fun _ _ => BitVec.eq_of_toFin_eq
  have hsurjective := Finite.surjective_of_injective ((shift_injective hpoly).iterate (8 * k))
  obtain ⟨v, rfl⟩ := hsurjective t
  obtain ⟨bytes, hlength, hfeed⟩ := exists_feed_cancel p k v (v ^^^ s) (by
    refine BitVec.eq_of_getLsbD_eq fun i _ => ?_
    rw [BitVec.getLsbD_ushiftRight, BitVec.getLsbD_of_ge _ _ (by omega)]
    simp)
  refine ⟨bytes, hlength, ?_⟩
  rwa [← BitVec.xor_assoc, BitVec.xor_self, BitVec.zero_xor] at hfeed

end

section

open Polynomial

/-- The polynomial whose coefficients are the bits, from the highest bit on. -/
noncomputable def toPoly (s : BitVec w) : (ZMod 2)[X] :=
  ∑ i ∈ Finset.range w, if s.getMsbD i then X ^ i else 0

/-- The generator; its leading coefficient is not in the register. -/
noncomputable def generator (poly : BitVec w) : (ZMod 2)[X] := X ^ w + toPoly poly

/-- The first bit of the message has the highest power. -/
noncomputable def message : Bytes → (ZMod 2)[X]
  | [] => 0
  | b :: bytes => X ^ (8 * bytes.length) * toPoly b.toBitVec + message bytes

/-- The values are remainders: of the message moved up by the width, after a register of ones. -/
def IsRemainder (poly : BitVec w) (check : Bytes → BitVec w) : Prop :=
  ∀ bytes : Bytes, toPoly (check bytes ^^^ BitVec.allOnes w) =
    (X ^ (8 * bytes.length) * toPoly (BitVec.allOnes w) + X ^ w * message bytes) %ₘ generator poly

theorem coeff_toPoly (s : BitVec w) (n : ℕ) :
    (toPoly s).coeff n = if s.getMsbD n then 1 else 0 := by
  rw [toPoly, finsetSum_coeff]
  by_cases hn : n < w
  · rw [Finset.sum_eq_single_of_mem n (Finset.mem_range.mpr hn)]
    · split <;> simp
    · intro i _ hi
      split
      · rw [coeff_X_pow, if_neg (Ne.symm hi)]
      · exact coeff_zero n
  · rw [BitVec.getMsbD_of_ge s n (by omega), Finset.sum_eq_zero]
    · rfl
    · intro i hi
      have := Finset.mem_range.mp hi
      split
      · rw [coeff_X_pow, if_neg (by omega)]
      · exact coeff_zero n

theorem toPoly_injective : Function.Injective (toPoly : BitVec w → (ZMod 2)[X]) := by
  intro s t h
  refine BitVec.eq_of_getMsbD_eq fun i _ => ?_
  have hcoeff := congrArg (Polynomial.coeff · i) h
  simp only [coeff_toPoly] at hcoeff
  cases hs : s.getMsbD i <;> cases ht : t.getMsbD i <;> simp_all

theorem toPoly_xor (s t : BitVec w) : toPoly (s ^^^ t) = toPoly s + toPoly t := by
  ext n
  rw [coeff_add, coeff_toPoly, coeff_toPoly, coeff_toPoly, BitVec.getMsbD_xor]
  cases s.getMsbD n <;> cases t.getMsbD n <;> decide

theorem degree_toPoly_lt (s : BitVec w) : (toPoly s).degree < w := by
  refine (degree_lt_iff_coeff_zero _ _).mpr fun n hn => ?_
  rw [coeff_toPoly, BitVec.getMsbD_of_ge s n hn]
  rfl

theorem monic_generator (p : BitVec w) : (generator p).Monic :=
  monic_X_pow_add (degree_toPoly_lt p)

theorem degree_generator (p : BitVec w) : (generator p).degree = w := by
  rw [generator, degree_add_eq_left_of_degree_lt] <;> rw [degree_X_pow]
  exact degree_toPoly_lt p

theorem toPoly_ushiftRight_one (hw : 0 < w) (s : BitVec w) :
    toPoly (s >>> 1) = X * toPoly s + if s.getLsbD 0 then X ^ w else 0 := by
  have hhigh : ∀ n, (if s.getLsbD 0 then X ^ w else 0 : (ZMod 2)[X]).coeff n =
      if s.getLsbD 0 ∧ n = w then 1 else 0 := by
    intro n
    cases s.getLsbD 0 <;> simp [coeff_X_pow]
  ext n
  rw [coeff_add, hhigh, coeff_toPoly, BitVec.getMsbD_ushiftRight]
  cases n with
  | zero =>
    rw [coeff_X_mul_zero, if_neg (by simp), if_neg (by omega)]
    rfl
  | succ n =>
    rw [coeff_X_mul, coeff_toPoly]
    by_cases hn : n + 1 = w
    · have hlow : s.getMsbD n = s.getLsbD 0 := by
        rw [BitVec.getMsbD_eq_getLsbD, decide_eq_true (by omega), Bool.true_and]
        congr 1
        omega
      rw [hlow]
      cases s.getLsbD 0 with
      | false => simp [hn]
      | true =>
        simp only [hn, lt_irrefl, decide_false, Bool.false_and, and_self, if_true,
          Bool.false_eq_true, if_false]
        decide
    · cases hbit : s.getMsbD n with
      | false => simp [hn, hbit]
      | true =>
        have hlt : n + 1 < w := by
          have := BitVec.lt_of_getMsbD hbit
          omega
        simp [hn, hbit, hlt]

/-- Shifting multiplies by `X`, and takes the generator off where its degree is reached. -/
theorem toPoly_shift (hw : 0 < w) (p s : BitVec w) :
    toPoly (shift p s) = X * toPoly s + if s.getLsbD 0 then generator p else 0 := by
  unfold shift
  cases hbit : s.getLsbD 0 with
  | false =>
    rw [if_neg (by simp), toPoly_ushiftRight_one hw, hbit]
    rfl
  | true =>
    rw [if_pos rfl, if_pos rfl, toPoly_xor, toPoly_ushiftRight_one hw, if_pos hbit, generator,
      add_assoc]

theorem toPoly_setWidth (hw : 8 ≤ w) (b : BitVec 8) :
    X ^ 8 * toPoly (b.setWidth w) = X ^ w * toPoly b := by
  obtain ⟨k, rfl⟩ := Nat.exists_eq_add_of_le hw
  rw [Nat.add_comm 8 k, pow_add, mul_comm (X ^ k), mul_assoc]
  congr 1
  ext n
  rw [coeff_X_pow_mul', coeff_toPoly, BitVec.getMsbD_setWidth, coeff_toPoly,
    Nat.add_sub_cancel, Nat.add_sub_add_right]
  by_cases hn : k ≤ n <;> simp [hn]

/-- In the quotient by the generator, feeding is evaluation by Horner's rule. -/
theorem mk_toPoly_feed (hw : 8 ≤ w) (p s : BitVec w) (bs : Bytes) :
    mk (generator p) (toPoly (feed p s bs)) =
      mk (generator p) (X ^ (8 * bs.length) * toPoly s + X ^ w * message bs) := by
  have hshift : ∀ s, mk (generator p) (toPoly (shift p s)) = mk (generator p) (X * toPoly s) := by
    intro s
    rw [toPoly_shift (by omega), map_add]
    split
    · rw [mk_self, add_zero]
    · rw [map_zero, add_zero]
  have hshifts : ∀ n s, mk (generator p) (toPoly ((shift p)^[n] s)) =
      mk (generator p) (X ^ n * toPoly s) := by
    intro n
    induction n with
    | zero =>
      intro s
      rw [pow_zero, one_mul]
      rfl
    | succ n ih =>
      intro s
      rw [iterate_succ_apply, ih, map_mul, hshift, ← map_mul, pow_succ, mul_assoc]
  induction bs generalizing s with
  | nil =>
    rw [message, mul_zero, add_zero, length_nil, mul_zero, pow_zero, one_mul]
    rfl
  | cons b bs ih =>
    have hbyte : mk (generator p) (toPoly (feedByte p s b)) =
        mk (generator p) (X ^ 8 * toPoly s + X ^ w * toPoly b.toBitVec) := by
      rw [feedByte, hshifts, toPoly_xor, mul_add, toPoly_setWidth hw]
    have hrest : feed p s (b :: bs) = feed p (feedByte p s b) bs := rfl
    rw [hrest, ih, map_add, map_mul, hbyte, ← map_mul, ← map_add, message, length_cons]
    exact congrArg _ (by ring)

/-- The register computes the remainder, and so only it does. -/
theorem isRemainder_iff (hw : 8 ≤ w) (p : BitVec w) (c : Bytes → BitVec w) :
    IsRemainder p c ↔ ∀ bytes, c bytes = crc p bytes := by
  have hfeed : ∀ bytes : Bytes, (X ^ (8 * bytes.length) * toPoly (BitVec.allOnes w) +
      X ^ w * message bytes) %ₘ generator p = toPoly (feed p (BitVec.allOnes w) bytes) := by
    intro bytes
    have hdvd := mk_eq_mk.mp (mk_toPoly_feed hw p (BitVec.allOnes w) bytes).symm
    rw [modByMonic_eq_of_dvd_sub (monic_generator p) hdvd,
      modByMonic_eq_self_iff (monic_generator p), degree_generator]
    exact degree_toPoly_lt _
  refine forall_congr' fun bytes => ?_
  rw [hfeed, toPoly_injective.eq_iff, crc]
  constructor
  · intro h
    rw [← h, BitVec.xor_assoc, BitVec.xor_self, BitVec.xor_zero]
  · intro h
    rw [h, BitVec.xor_assoc, BitVec.xor_self, BitVec.xor_zero]

end

end Rustfs.Crc
