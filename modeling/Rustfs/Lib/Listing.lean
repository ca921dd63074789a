import Mathlib.Data.List.Basic
import Mathlib.Data.List.Sort

/-! Names in order, and the pages in which they are listed. -/
namespace Rustfs

structure Page (τ α : Type) where
  items : List α
  isTruncated : Bool
  next : Option τ

namespace Page

variable {τ α : Type} {page : Option τ → Option (Page τ α)} {marker : Option τ} {p : Page τ α}
  {pages : List (Page τ α)}

/-- The pages of a client that asks on as long as a page is truncated, and comes to an end. -/
inductive Follows (page : Option τ → Option (Page τ α)) : Option τ → List (Page τ α) → Prop
  | last {marker : Option τ} {p : Page τ α} (h : page marker = some p) (hlast : p.isTruncated = false) :
      Follows page marker [p]
  | more {marker : Option τ} {p : Page τ α} {pages : List (Page τ α)} (h : page marker = some p)
      (hmore : p.isTruncated = true) (rest : Follows page p.next pages) : Follows page marker (p :: pages)

/-- A run of pages starts with the page that is asked for. -/
theorem Follows.exists_head (h : Follows page marker pages) :
    ∃ p rest, page marker = some p ∧ pages = p :: rest := by
  cases h with
  | last hp _ => exact ⟨_, [], hp, rfl⟩
  | more hp _ _ => exact ⟨_, _, hp, rfl⟩

end Page

end Rustfs

namespace Rustfs

open List

variable {α : Type} [LinearOrder α]

/-- A set of names in the order in which it is listed. -/
structure Listing (α : Type) [LinearOrder α] where
  names : List α
  sorted : names.Pairwise (· < ·)

namespace Listing

variable {l : Listing α} {x y : α} {token : Option α} {s : ℕ}

instance : Membership α (Listing α) := ⟨fun l x => x ∈ l.names⟩

instance (x : α) (l : Listing α) : Decidable (x ∈ l) := inferInstanceAs (Decidable (x ∈ l.names))

def empty : Listing α := ⟨[], .nil⟩

theorem pairwise_orderedInsert {ns : List α} (h : ns.Pairwise (· < ·)) (hx : x ∉ ns) :
    (ns.orderedInsert (· ≤ ·) x).Pairwise (· < ·) := by
  have hle := (h.imp le_of_lt).orderedInsert x
  have hnodup : (ns.orderedInsert (· ≤ ·) x).Nodup :=
    (ns.perm_orderedInsert _ x).nodup_iff.mpr (nodup_cons.mpr ⟨hx, h.imp ne_of_lt⟩)
  exact (hle.sortedLE.sortedLT_of_nodup hnodup).pairwise

def put (x : α) (l : Listing α) : Listing α :=
  if h : x ∈ l.names then l
  else ⟨l.names.orderedInsert (· ≤ ·) x, pairwise_orderedInsert l.sorted h⟩

def delete (x : α) (l : Listing α) : Listing α :=
  ⟨l.names.erase x, l.sorted.sublist erase_sublist⟩

@[simp]
theorem mem_put : y ∈ l.put x ↔ y = x ∨ y ∈ l := by
  unfold put
  split_ifs with h
  · constructor
    · exact .inr
    · rintro (rfl | hy)
      · exact h
      · exact hy
  · exact mem_orderedInsert _

@[simp]
theorem mem_delete : y ∈ l.delete x ↔ y ≠ x ∧ y ∈ l :=
  List.Nodup.mem_erase_iff (l.sorted.imp ne_of_lt)

/-- One page: the names after the token, the token for the next page, and whether there is one. -/
def page (l : Listing α) (token : Option α) (size : ℕ) : List α × Option α × Bool :=
  let after := l.names.filter fun x => ∀ t ∈ token, t < x
  let objects := after.take size
  let isTruncated := size < after.length
  (objects, if isTruncated then objects.getLast? else none, isTruncated)

theorem page_sorted (l : Listing α) (t : Option α) (s : ℕ) : (l.page t s).1.Pairwise (· < ·) :=
  (l.sorted.sublist filter_sublist).sublist (take_sublist _ _)

theorem mem_of_mem_page (h : x ∈ (l.page token s).1) : x ∈ l :=
  mem_of_mem_filter (mem_of_mem_take h)

/-- A name past a page, for which the page gives a token. -/
def Beyond (rest : Option α × Bool) (x : α) : Prop :=
  rest.2 = true ∧ ∃ t, rest.1 = some t ∧ t < x

/-- A name is on the page after a token that stands before it, or past the page. -/
theorem page_complete (hsize : 0 < s) (hx : x ∈ l) (htoken : ∀ t ∈ token, t < x) :
    x ∈ (l.page token s).1 ∨ Beyond (l.page token s).2 x := by
  have hafter : x ∈ l.names.filter fun x => ∀ t ∈ token, t < x := by
    simpa using ⟨hx, htoken⟩
  have hsorted := l.sorted.sublist (filter_sublist (p := fun x => ∀ t ∈ token, t < x))
  simp only [page, Beyond]
  generalize l.names.filter (fun x => ∀ t ∈ token, t < x) = after at hafter hsorted ⊢
  rw [← take_append_drop s after] at hafter hsorted
  rcases mem_append.mp hafter with htake | hdrop
  · exact .inl htake
  · have hlt : s < after.length := by
      have := length_pos_of_mem hdrop
      rw [length_drop] at this
      omega
    have hne : after.take s ≠ [] := by
      intro hnil
      have := congrArg List.length hnil
      rw [length_take, length_nil] at this
      omega
    have hlast := getLast_mem hne
    refine .inr ⟨by simpa using hlt, (after.take s).getLast hne, ?_, ?_⟩
    · simp [hlt, getLast?_eq_some_getLast hne]
    · exact (pairwise_append.mp hsorted).2.2 _ hlast _ hdrop

/-- What is past a page comes after every name on it. -/
theorem lt_of_beyond (hx : Beyond (l.page token s).2 x) (hy : y ∈ (l.page token s).1) : y < x := by
  obtain ⟨htruncated, t, hnext, htx⟩ := hx
  have hsorted := page_sorted l token s
  simp only [page] at htruncated hnext hy hsorted
  rw [if_pos (by simpa using htruncated)] at hnext
  obtain ⟨init, hinit⟩ := getLast?_eq_some_iff.mp hnext
  rw [hinit] at hy hsorted
  rcases mem_append.mp hy with hy | hy
  · exact ((pairwise_append.mp hsorted).2.2 y hy t (by simp)).trans htx
  · rwa [mem_singleton.mp hy]

end Listing
end Rustfs
