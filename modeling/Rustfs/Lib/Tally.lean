import Mathlib.Data.List.Induction
import Mathlib.Data.List.Nodup
import Mathlib.Data.List.Perm.Basic

/-! Counting the occurrences of the members of a list, in a map with an arbitrary order. -/
namespace Rustfs

open List

/-- The order in which a hash map hands over its entries: some rearrangement of them. -/
structure IterOrder (β : Type) where
  run : List β → List β
  perm : ∀ l, (run l).Perm l

namespace IterOrder

variable {β : Type}

def insertion : IterOrder β := ⟨id, fun _ => .refl _⟩

@[simp] theorem mem_run (o : IterOrder β) {l : List β} {b : β} : b ∈ o.run l ↔ b ∈ l :=
  (o.perm l).mem_iff

@[simp] theorem run_eq_nil (o : IterOrder β) {l : List β} : o.run l = [] ↔ l = [] := by
  rw [← length_eq_zero_iff, (o.perm l).length_eq, length_eq_zero_iff]

end IterOrder

namespace Tally

variable {α : Type} [DecidableEq α] {t : List (α × ℕ)} {l : List α} {a b : α} {c : ℕ}

/-- `*acc.entry(a).or_insert(0) += 1`. -/
def bump : List (α × ℕ) → α → List (α × ℕ)
  | [], a => [(a, 1)]
  | (b, c) :: t, a => if b = a then (b, c + 1) :: t else (b, c) :: bump t a

def tally (l : List α) : List (α × ℕ) := l.foldl bump []

/-- The last of the entries with the greatest count. -/
def maxBy : List (α × ℕ) → Option (α × ℕ)
  | [] => none
  | p :: t =>
    match maxBy t with
    | none => some p
    | some q => if q.2 < p.2 then some p else some q

/-- A table is right for a list when it holds each member once, with its number of occurrences. -/
def Counts (t : List (α × ℕ)) (l : List α) : Prop :=
  (t.map Prod.fst).Nodup ∧ ∀ a c, (a, c) ∈ t ↔ a ∈ l ∧ c = l.count a

theorem keys_bump : (bump t a).map Prod.fst =
    if a ∈ t.map Prod.fst then t.map Prod.fst else t.map Prod.fst ++ [a] := by
  induction t with
  | nil => simp [bump]
  | cons p t ih =>
    obtain ⟨b, c⟩ := p
    by_cases hb : b = a
    · simp [bump, hb]
    · have hba : ¬a = b := fun h => hb h.symm
      simp only [bump, if_neg hb, map_cons, ih, mem_cons, hba, false_or]
      split <;> simp

/-- Bumping one key changes its own entry, or adds it, and no other. -/
theorem mem_bump (ht : (t.map Prod.fst).Nodup) : (b, c) ∈ bump t a ↔
    (b ≠ a ∧ (b, c) ∈ t) ∨
      (b = a ∧ ((∃ d, (a, d) ∈ t ∧ c = d + 1) ∨ (a ∉ t.map Prod.fst ∧ c = 1))) := by
  induction t with
  | nil => simp [bump]
  | cons p t ih =>
    obtain ⟨k, d⟩ := p
    have hk : k ∉ t.map Prod.fst := (nodup_cons.1 ht).1
    have hfresh : ∀ e, (k, e) ∉ t := fun e he => hk (mem_map.2 ⟨_, he, rfl⟩)
    by_cases hka : k = a
    · subst hka
      by_cases hbk : b = k
      · subst hbk
        simp [bump, hfresh]
      · simp [bump, hbk]
    · have hak : ¬a = k := fun h => hka h.symm
      simp only [bump, if_neg hka, mem_cons, ih (nodup_cons.1 ht).2, Prod.mk.injEq,
        map_cons, hak, false_or, false_and]
      by_cases hba : b = a
      · simp [hba, hak]
      · simp [hba]

theorem counts_bump (h : Counts t l) : Counts (bump t a) (l ++ [a]) := by
  obtain ⟨hnd, hmem⟩ := h
  have hkey : ∀ x, x ∈ t.map Prod.fst ↔ x ∈ l := by
    intro x
    rw [mem_map]
    constructor
    · rintro ⟨⟨y, c⟩, hy, rfl⟩
      exact ((hmem y c).1 hy).1
    · intro hx
      exact ⟨(x, l.count x), (hmem _ _).2 ⟨hx, rfl⟩, rfl⟩
  refine ⟨?_, fun b c => ?_⟩
  · rw [keys_bump]
    split_ifs with hnot
    · exact hnd
    · rw [nodup_append]
      refine ⟨hnd, nodup_singleton _, ?_⟩
      rintro x hx y hy rfl
      rw [mem_singleton] at hy
      exact hnot (hy ▸ hx)
  · rw [mem_bump hnd, hkey]
    by_cases hba : b = a
    · subst hba
      by_cases hb : b ∈ l
      · simp [hmem, hb]
      · simp [hmem, hb, count_eq_zero_of_not_mem hb]
    · have hab : ¬a = b := fun h => hba h.symm
      simp [hmem, hba, count_append, hab]

theorem counts_tally (l : List α) : Counts (tally l) l := by
  induction l using List.reverseRecOn with
  | nil => exact ⟨by simp [tally], by simp [tally]⟩
  | append_singleton l a ih =>
    rw [tally, foldl_append]
    exact counts_bump ih

@[simp] theorem mem_tally : (a, c) ∈ tally l ↔ a ∈ l ∧ c = l.count a :=
  (counts_tally l).2 a c

@[simp] theorem tally_eq_nil : tally l = [] ↔ l = [] := by
  constructor
  · intro h
    by_contra hl
    obtain ⟨a, ha⟩ := exists_mem_of_ne_nil l hl
    have : (a, l.count a) ∈ tally l := mem_tally.2 ⟨ha, rfl⟩
    simp [h] at this
  · rintro rfl
    rfl

omit [DecidableEq α] in
theorem maxBy_eq_none : maxBy t = none ↔ t = [] := by
  cases t with
  | nil => simp [maxBy]
  | cons p t =>
    simp only [maxBy, reduceCtorEq, iff_false]
    split
    · simp
    · split <;> simp

omit [DecidableEq α] in
/-- The entry picked is one of the table and no other has a greater count. -/
theorem maxBy_spec {p : α × ℕ} (h : maxBy t = some p) : p ∈ t ∧ ∀ q ∈ t, q.2 ≤ p.2 := by
  induction t generalizing p with
  | nil => simp [maxBy] at h
  | cons r t ih =>
    simp only [maxBy] at h
    split at h
    · next hn =>
      cases h
      simp [maxBy_eq_none.1 hn]
    · next q hq =>
      obtain ⟨hqt, hmax⟩ := ih hq
      split_ifs at h with hlt <;> cases h
      · have hle : ∀ s ∈ t, s.2 ≤ r.2 := fun s hs => Nat.le_trans (hmax s hs) (Nat.le_of_lt hlt)
        exact ⟨mem_cons_self, forall_mem_cons.2 ⟨Nat.le_refl _, hle⟩⟩
      · exact ⟨mem_cons_of_mem _ hqt, forall_mem_cons.2 ⟨Nat.not_lt.1 hlt, hmax⟩⟩

omit [DecidableEq α] in
theorem count_add_count_le [BEq α] [LawfulBEq α] (hab : a ≠ b) (l : List α) :
    l.count a + l.count b ≤ l.length := by
  rw [length_eq_countP_add_countP (· == a)]
  refine Nat.add_le_add_left (countP_mono_left fun x _ hx => ?_) _
  rw [beq_iff_eq.1 hx]
  simpa using hab.symm

/-- A member of more than half of the places is the one picked, whatever the order. -/
theorem maxBy_run_tally_of_majority (o : IterOrder (α × ℕ)) {m : ℕ} (hl : l.length ≤ m)
    (h : m / 2 < l.count a) : maxBy (o.run (tally l)) = some (a, l.count a) := by
  have ha : a ∈ l := count_pos_iff.1 (by omega)
  have hmem : (a, l.count a) ∈ o.run (tally l) := by simp [ha]
  cases hbest : maxBy (o.run (tally l)) with
  | none => simp [maxBy_eq_none.1 hbest] at hmem
  | some p =>
    obtain ⟨hp, hmax⟩ := maxBy_spec hbest
    obtain ⟨b, c⟩ := p
    obtain ⟨-, rfl⟩ := mem_tally.1 (o.mem_run.1 hp)
    have hle := hmax _ hmem
    by_cases hab : a = b
    · rw [hab]
    · have := count_add_count_le hab l
      omega

end Tally

end Rustfs
