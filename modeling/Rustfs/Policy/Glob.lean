import Mathlib.Data.Nat.Choose.Basic
import Mathlib.Tactic.Ring
import Rustfs.Policy.Wildcard

/-! The language of a pattern, and how often `deep_match` calls itself. -/
namespace Rustfs.Iam

open List Nat

abbrev star : UInt8 := '*'.toUInt8

/-- A `?` stands for any byte, a `*` for any bytes. -/
def Glob : List UInt8 → List UInt8 → Prop
  | [], name => name = []
  | p :: pattern, name =>
    if p = '?'.toUInt8 then ∃ n rest, name = n :: rest ∧ Glob pattern rest
    else if p = star then ∃ taken rest, name = taken ++ rest ∧ Glob pattern rest
    else ∃ rest, name = p :: rest ∧ Glob pattern rest

/-- The calls made at a `*`: for what follows it, and then for the name without its first byte. -/
def starCalls (accepts : List UInt8 → Bool) (calls : List UInt8 → ℕ) : List UInt8 → ℕ
  | [] => 1 + calls []
  | n :: name =>
    1 + calls (n :: name) + if accepts (n :: name) then 0 else 1 + starCalls accepts calls name

/-- The number of calls that `deep_match` makes of itself. -/
def deepMatchCalls (simple : Bool) : List UInt8 → List UInt8 → ℕ
  | [], _ => 0
  | p :: pattern, name =>
    if p = '?'.toUInt8 then
      match name with
      | [] => 0
      | _ :: name => deepMatchCalls simple pattern name
    else if p = star then
      if pattern.isEmpty then 0
      else starCalls (deepMatch simple pattern) (deepMatchCalls simple pattern) name
    else
      match name with
      | [] => 0
      | n :: name => if n == p then deepMatchCalls simple pattern name else 0

def isMatchCalls (pattern name : String) : ℕ :=
  if pattern = "" ∨ pattern = "*" then 0
  else deepMatchCalls false (asBytes pattern) (asBytes name)

variable {a : List UInt8 → Bool} {calls : List UInt8 → ℕ} {name : List UInt8} {k : ℕ}

theorem anySuffix_iff :
    anySuffix a name = true ↔ ∃ taken rest, name = taken ++ rest ∧ a rest = true := by
  induction name with
  | nil => simp [anySuffix]
  | cons n name ih =>
    rw [anySuffix, Bool.or_eq_true, ih]
    constructor
    · rintro (h | ⟨taken, rest, rfl, h⟩)
      · exact ⟨[], _, rfl, h⟩
      · exact ⟨n :: taken, rest, rfl, h⟩
    · rintro ⟨taken, rest, hname, h⟩
      cases taken with
      | nil => exact .inl (hname ▸ h)
      | cons t taken => exact .inr ⟨taken, rest, (cons.inj hname).2, h⟩

theorem deepMatch_iff_glob {ps : List UInt8} : deepMatch false ps name = true ↔ Glob ps name := by
  induction ps generalizing name with
  | nil => exact List.isEmpty_iff
  | cons p ps ih =>
    unfold deepMatch Glob
    split_ifs with hone hstar
    · cases name <;> simp [ih]
    · rw [Bool.or_eq_true, anySuffix_iff]
      simp only [ih]
      refine or_iff_right_of_imp fun hempty => ⟨name, [], (append_nil _).symm, ?_⟩
      rw [List.isEmpty_iff.mp hempty]
      rfl
    · cases name <;> simp [ih, and_comm]

theorem asBytes_isEmpty (s : String) : (asBytes s).isEmpty = (s == "") := by
  rw [Bool.eq_iff_iff, List.isEmpty_iff, asBytes, flatMap_eq_nil_iff, beq_iff_eq]
  constructor
  · intro h
    rw [← String.toList_eq_nil_iff, eq_nil_iff_forall_not_mem]
    exact fun c hc => absurd (h c hc) String.utf8EncodeChar_ne_nil
  · rintro rfl
    simp

theorem isMatch_eq (ps n : String) : isMatch ps n = deepMatch false (asBytes ps) (asBytes n) := by
  unfold isMatch innerMatch
  split_ifs with hempty hstar
  · rw [hempty, ← asBytes_isEmpty]
    rfl
  · rw [hstar]
    rfl
  · rfl

/-- With the bound for what follows the `*`, the calls of one more factor. -/
theorem starCalls_le (h : ∀ m, calls m + 2 ≤ 2 * (m.length + 2) ^ k) :
    starCalls a calls name + 2 ≤ 2 * (name.length + 2) ^ (k + 1) := by
  induction name with
  | nil =>
    have := h []
    simp only [starCalls, length_nil, pow_succ] at this ⊢
    omega
  | cons n name ih =>
    have hcalls := h (n :: name)
    have hpow : (name.length + 2) ^ k * (name.length + 2) ≤
        (name.length + 1 + 2) ^ k * (name.length + 2) :=
      Nat.mul_le_mul_right _ (Nat.pow_le_pow_left (by omega) k)
    have hsucc : (name.length + 1 + 2) ^ k * (name.length + 1 + 2) =
        (name.length + 1 + 2) ^ k * (name.length + 2) + (name.length + 1 + 2) ^ k :=
      mul_succ _ _
    simp only [starCalls, length_cons, pow_succ] at hcalls ih ⊢
    split_ifs <;> omega

theorem deepMatchCalls_le (s : Bool) (ps : List UInt8) :
    deepMatchCalls s ps name + 2 ≤ 2 * (name.length + 2) ^ ps.count star := by
  have hpos : ∀ m j : ℕ, 0 + 2 ≤ 2 * (m + 2) ^ j := fun m j =>
    Nat.mul_le_mul_left 2 (Nat.one_le_pow j (m + 2) (by omega))
  have hmono : ∀ m j : ℕ, 2 * (m + 2) ^ j ≤ 2 * (m + 1 + 2) ^ j := fun m j =>
    Nat.mul_le_mul_left 2 (Nat.pow_le_pow_left (by omega) j)
  induction ps generalizing name with
  | nil => exact hpos _ _
  | cons p ps ih =>
    unfold deepMatchCalls
    split_ifs with hone hstar
    · rw [count_cons_of_ne (by rw [hone]; decide)]
      cases name with
      | nil => exact hpos _ _
      | cons n name => exact ih.trans (hmono _ _)
    · exact hpos _ _
    · rw [hstar, count_cons_self]
      exact starCalls_le fun m => ih
    · rw [count_cons_of_ne hstar]
      cases name with
      | nil => exact hpos _ _
      | cons n name =>
        dsimp only
        split_ifs
        · exact ih.trans (hmono _ _)
        · exact hpos _ _

theorem isMatchCalls_eq (ps n : String) :
    isMatchCalls ps n = deepMatchCalls false (asBytes ps) (asBytes n) := by
  unfold isMatchCalls
  split_ifs with h
  · rcases h with rfl | rfl <;> rfl
  · rfl

/-- A name is matched exactly when it is in the language of the pattern, and the number of calls is
bounded by a power of the name's length, with the number of `*` as the exponent. -/
theorem isMatch_iff_glob (pattern name : String) :
    (isMatch pattern name = true ↔ Glob (asBytes pattern) (asBytes name)) ∧
      isMatchCalls pattern name + 2 ≤
        2 * ((asBytes name).length + 2) ^ (asBytes pattern).count star := by
  rw [isMatch_eq, isMatchCalls_eq]
  exact ⟨deepMatch_iff_glob, deepMatchCalls_le false _⟩

/-- `*a` so many times, and then `b`. -/
def manyStars : ℕ → List Char
  | 0 => ['b']
  | k + 1 => '*' :: 'a' :: manyStars k

abbrev encode (cs : List Char) : List UInt8 := cs.flatMap String.utf8EncodeChar

theorem deepMatch_manyStars (k n : ℕ) :
    deepMatch false (encode (manyStars k)) (encode (replicate n 'a')) = false := by
  induction k generalizing n with
  | zero => cases n <;> rfl
  | succ k ih =>
    induction n with
    | zero => rfl
    | succ n ihn => exact Bool.or_eq_false_iff.mpr ⟨ih n, ihn⟩

/-- Without a match every way to place the stars is tried. -/
theorem choose_le_calls (k n : ℕ) : n.choose k ≤
    deepMatchCalls false (encode (manyStars k)) (encode (replicate n 'a')) + 1 := by
  induction k generalizing n with
  | zero => simp
  | succ k ih =>
    induction n with
    | zero => simp
    | succ n ihn =>
      have hstep : deepMatchCalls false (encode (manyStars (k + 1))) (encode (replicate (n + 1) 'a')) =
          1 + deepMatchCalls false (encode (manyStars k)) (encode (replicate n 'a')) +
            if deepMatch false (encode (manyStars k)) (encode (replicate n 'a')) then 0 else
              1 + deepMatchCalls false (encode (manyStars (k + 1))) (encode (replicate n 'a')) := rfl
      rw [hstep, deepMatch_manyStars, choose_succ_succ']
      have := ih n
      simp only [Bool.false_eq_true, if_false]
      omega

theorem length_manyStars (k : ℕ) : (encode (manyStars k)).length = 2 * k + 1 := by
  induction k with
  | zero => rfl
  | succ k ih => exact congrArg (· + 2) ih

/-- No polynomial bounds the calls for all patterns. -/
theorem isMatchCalls_not_polynomial : ¬∃ c d : ℕ, ∀ pattern name : String,
    isMatchCalls pattern name ≤
      c * ((asBytes pattern).length + (asBytes name).length + 1) ^ d := by
  rintro ⟨c, d, h⟩
  have hchoose : ∀ n, n.choose (d + 1) ≤ c * (2 * d + 4 + n) ^ d + 1 := by
    intro n
    have hcalls := h (String.ofList (manyStars (d + 1))) (String.ofList (replicate n 'a'))
    have hname : (encode (replicate n 'a')).length = n := by
      simp [show 'a'.utf8Size = 1 from rfl]
    rw [isMatchCalls_eq, asBytes, asBytes, String.toList_ofList, String.toList_ofList,
      length_manyStars, hname] at hcalls
    rw [show 2 * d + 4 + n = 2 * (d + 1) + 1 + n + 1 by omega]
    exact (choose_le_calls _ n).trans (succ_le_succ hcalls)
  obtain ⟨m, hm⟩ : ∃ m, m = (d + 1).factorial * (c * 2 ^ d + 1) + (3 * d + 4) := ⟨_, rfl⟩
  have hlow : m ^ (d + 1) ≤ (d + 1).factorial * (m + d).choose (d + 1) := by
    rw [← descFactorial_eq_factorial_mul_choose]
    simpa using pow_sub_le_descFactorial (m + d) (d + 1)
  have hhigh : (2 * d + 4 + (m + d)) ^ d ≤ 2 ^ d * m ^ d := by
    rw [← mul_pow]
    exact Nat.pow_le_pow_left (by omega) d
  have hpos : 1 ≤ m ^ d := Nat.one_le_pow _ _ (by omega)
  have hle : m ^ (d + 1) ≤ (d + 1).factorial * (c * 2 ^ d + 1) * m ^ d := calc
    m ^ (d + 1) ≤ (d + 1).factorial * (c * (2 ^ d * m ^ d) + m ^ d) := by
      refine hlow.trans (Nat.mul_le_mul_left _ ((hchoose _).trans ?_))
      exact Nat.add_le_add (Nat.mul_le_mul_left c hhigh) hpos
    _ = _ := by ring
  rw [pow_succ, mul_comm] at hle
  have := le_of_mul_le_mul_right hle hpos
  omega

end Rustfs.Iam
