import Mathlib.Data.List.Sort
import Mathlib.Data.List.InsertIdx

/-! Lists kept in an order that a comparison refines. -/
namespace Rustfs

open List

variable {α : Type*} {r R : α → α → Prop} {l : List α}

section

variable [DecidableRel r] (hle : ∀ a b, r a b → R a b) (hgt : ∀ a b, ¬ r a b → R b a)
  (htrans : ∀ a b c, R a b → R b c → R a c)

include hle hgt htrans

theorem pairwise_orderedInsert_of_refines (h : l.Pairwise R) (a : α) :
    (l.orderedInsert r a).Pairwise R := by
  induction l with
  | nil => simp
  | cons b l ih =>
    obtain ⟨hb, hl⟩ := pairwise_cons.mp h
    rw [orderedInsert_cons]
    split
    · next hab =>
      refine pairwise_cons.mpr ⟨?_, h⟩
      intro c hc
      rcases mem_cons.mp hc with rfl | hc
      · exact hle _ _ hab
      · exact htrans _ _ _ (hle _ _ hab) (hb c hc)
    · next hab =>
      refine pairwise_cons.mpr ⟨?_, ih hl⟩
      intro c hc
      rcases (mem_orderedInsert r).mp hc with rfl | hc
      · exact hgt _ _ hab
      · exact hb c hc

/-- Sorting by a comparison puts a list in every order the comparison refines. -/
theorem pairwise_insertionSort_of_refines (l : List α) : (l.insertionSort r).Pairwise R := by
  induction l with
  | nil => simp
  | cons a l ih => exact pairwise_orderedInsert_of_refines hle hgt htrans ih a

end

/-- An entry put where the entries before it and after it allow. -/
theorem pairwise_insertIdx (h : l.Pairwise R) {a : α} {i : ℕ} (hi : i ≤ l.length)
    (hbefore : ∀ j (hj : j < l.length), j < i → R l[j] a)
    (hafter : ∀ j (hj : j < l.length), i ≤ j → R a l[j]) : (l.insertIdx i a).Pairwise R := by
  obtain ⟨xs, ys, rfl, rfl, heq⟩ := exists_of_modifyTailIdx (cons a) hi
  obtain ⟨hxs, hys, hxy⟩ := pairwise_append.mp h
  rw [insertIdx, heq, pairwise_append, pairwise_cons]
  refine ⟨hxs, ⟨fun y hy => ?_, hys⟩, fun x hx => forall_mem_cons.mpr ⟨?_, hxy x hx⟩⟩
  · obtain ⟨j, hj, rfl⟩ := mem_iff_getElem.mp hy
    have := hafter (xs.length + j) (by simpa using hj) (Nat.le_add_right _ _)
    simpa [getElem_append_right] using this
  · obtain ⟨j, hj, rfl⟩ := mem_iff_getElem.mp hx
    have := hbefore j (by simp; omega) hj
    rwa [getElem_append_left hj] at this

/-- What goes before all others is the first after sorting. -/
theorem insertionSort_first [DecidableRel r] {x : α} {as bs : List α} (hb : ∀ y ∈ bs, ¬ r y x)
    (ha : ∀ y ∈ as, y = x ∨ r x y) : ∃ rest, (bs ++ x :: as).insertionSort r = x :: rest := by
  induction bs with
  | nil =>
    rw [nil_append, insertionSort_cons]
    cases has : as.insertionSort r with
    | nil => exact ⟨[], rfl⟩
    | cons y rest =>
      rw [orderedInsert_cons]
      split_ifs with hxy
      · exact ⟨y :: rest, rfl⟩
      · have hy : y ∈ as := (mem_insertionSort _).mp (has ▸ mem_cons_self)
        obtain rfl := (ha y hy).resolve_right hxy
        exact ⟨_, rfl⟩
  | cons y bs ih =>
    obtain ⟨hy, hb⟩ := forall_mem_cons.mp hb
    obtain ⟨rest, hrest⟩ := ih hb
    exact ⟨_, by rw [cons_append, insertionSort_cons, hrest, orderedInsert_cons, if_neg hy]⟩

end Rustfs
