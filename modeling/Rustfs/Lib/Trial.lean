import Mathlib.Data.List.Nodup
import Mathlib.Data.List.Perm.Subperm

/-! Tests that may give no answer, tried one after another, and sets in the order they are gone
through. -/
namespace Rustfs.Trial

open List Option

variable {α : Type} {p : α → Option Bool} {l l' : List α} {β : Type}

/-- A choice by a test has an outcome if the test has one. -/
theorem ite_bind_eq_some_iff {o : Option Bool} {x y : Option β} {r : β} :
    (o >>= fun b => if b = true then x else y) = some r ↔
      o = some true ∧ x = some r ∨ o = some false ∧ y = some r := by
  rcases o with _ | _ | _ <;> simp

theorem bind_eq_ok {ε γ : Type} {x : Except ε γ} {f : γ → Except ε β} {b : β} :
    x >>= f = .ok b ↔ ∃ a, x = .ok a ∧ f a = .ok b := by
  cases x <;> simp [bind, Except.bind]

theorem anyM_eq_false_iff : l.anyM p = some false ↔ ∀ x ∈ l, p x = some false := by
  induction l with
  | nil => simp
  | cons a l ih =>
    rw [anyM_cons, forall_mem_cons, ← ih]
    cases h : p a with
    | none => simp
    | some b => cases b <;> simp

theorem anyM_singleton (a : α) : [a].anyM p = p a := by
  rw [anyM_cons]
  cases p a with
  | none => rfl
  | some b => cases b <;> rfl

theorem exists_of_anyM (h : l.anyM p = some true) : ∃ x ∈ l, p x = some true := by
  induction l with
  | nil => simp at h
  | cons a l ih =>
    rw [anyM_cons] at h
    cases ha : p a with
    | none => simp [ha] at h
    | some b =>
      cases b with
      | true => exact ⟨a, mem_cons_self, ha⟩
      | false =>
        obtain ⟨x, hx, hp⟩ := ih (by simpa [ha] using h)
        exact ⟨x, mem_cons_of_mem a hx, hp⟩

/-- All tests succeed if none of them fails. -/
theorem allM_eq_not_anyM : l.allM p = (l.anyM fun x => (p x).map not).map not := by
  induction l with
  | nil => rfl
  | cons a l ih =>
    rw [allM_cons, anyM_cons, ih]
    rcases p a with _ | _ | _ <;> rfl

theorem allM_eq_true_iff : l.allM p = some true ↔ ∀ x ∈ l, p x = some true := by
  simp [allM_eq_not_anyM, anyM_eq_false_iff]

theorem allM_singleton (a : α) : [a].allM p = p a := by
  rw [allM_cons]
  cases p a with
  | none => rfl
  | some b => cases b <;> rfl

theorem exists_of_allM (h : l.allM p = some false) : ∃ x ∈ l, p x = some false := by
  obtain ⟨x, hx, hp⟩ := exists_of_anyM (by simpa [allM_eq_not_anyM] using h)
  exact ⟨x, hx, by simpa using hp⟩

/-- A search that ends has an answer that says whether it found something. -/
theorem anyM_spec {b : Bool} (h : l.anyM p = some b) : b = true ↔ ∃ x ∈ l, p x = some true := by
  cases b with
  | true => simpa using exists_of_anyM h
  | false =>
    have hall := anyM_eq_false_iff.mp h
    simp only [Bool.false_eq_true, false_iff, not_exists, not_and]
    intro x hx hp
    rw [hall x hx] at hp
    exact nomatch hp

theorem anyM_isSome (h : ∀ x ∈ l, (p x).isSome) : (l.anyM p).isSome := by
  induction l with
  | nil => rfl
  | cons a l ih =>
    obtain ⟨ha, hl⟩ := forall_mem_cons.mp h
    obtain ⟨b, hb⟩ := isSome_iff_exists.mp ha
    rw [anyM_cons, hb]
    cases b with
    | true => rfl
    | false => exact ih hl

theorem allM_isSome (h : ∀ x ∈ l, (p x).isSome) : (l.allM p).isSome := by
  rw [allM_eq_not_anyM, isSome_map]
  exact anyM_isSome fun x hx => by simpa using h x hx

theorem allM_congr {q : α → Option Bool} (h : ∀ x ∈ l, p x = q x) : l.allM p = l.allM q := by
  induction l with
  | nil => rfl
  | cons a l ih =>
    obtain ⟨ha, hl⟩ := forall_mem_cons.mp h
    rw [allM_cons, allM_cons, ha, ih hl]

/-- Two tests do not give different answers. -/
def Agree (o o' : Option β) : Prop := ∀ a b, o = some a → o' = some b → a = b

theorem Agree.refl (o : Option β) : Agree o o := by
  intro a b ha hb
  exact some.inj (ha.symm.trans hb)

theorem Agree.symm {o o' : Option β} (h : Agree o o') : Agree o' o :=
  fun a b ha hb => (h b a hb ha).symm

theorem Agree.ne_of_eq {o o' : Option β} {a b : β} (h : Agree o o') (ha : o = some a)
    (hne : a ≠ b) : o' ≠ some b :=
  fun hb => hne (h a b ha hb)

theorem Agree.map {β γ : Type} {o o' : Option β} (h : Agree o o') (f : β → γ) :
    Agree (o.map f) (o'.map f) := by
  intro a b ha hb
  obtain ⟨c, hc, rfl⟩ := map_eq_some_iff.mp ha
  obtain ⟨c', hc', rfl⟩ := map_eq_some_iff.mp hb
  rw [h c c' hc hc']

section

/-- The second test is made only if the first succeeds. -/
theorem Agree.andThen {o o' t t' : Option Bool} (h : Agree o o') (ht : Agree t t') :
    Agree (o >>= fun b => if b then t else pure false)
      (o' >>= fun b => if b then t' else pure false) := by
  intro a b ha hb
  obtain ⟨c, hc, ha⟩ := bind_eq_some_iff.mp ha
  obtain ⟨c', hc', hb⟩ := bind_eq_some_iff.mp hb
  obtain rfl := h c c' hc hc'
  cases c with
  | true => exact ht a b ha hb
  | false => exact some.inj (ha.symm.trans hb)

variable {q : α → Option Bool}

section

variable (hl : ∀ x ∈ l, ∃ y ∈ l', Agree (p x) (q y)) (hl' : ∀ y ∈ l', ∃ x ∈ l, Agree (p x) (q y))
include hl hl'

/-- Whichever order the tests are tried in. -/
theorem anyM_agree : Agree (l.anyM p) (l'.anyM q) := by
  intro a b ha hb
  cases a with
  | true =>
    cases b with
    | true => rfl
    | false =>
      obtain ⟨x, hx, hpx⟩ := exists_of_anyM ha
      obtain ⟨y, hy, hagree⟩ := hl x hx
      exact hagree _ _ hpx (anyM_eq_false_iff.mp hb y hy)
  | false =>
    cases b with
    | false => rfl
    | true =>
      obtain ⟨y, hy, hqy⟩ := exists_of_anyM hb
      obtain ⟨x, hx, hagree⟩ := hl' y hy
      exact hagree _ _ (anyM_eq_false_iff.mp ha x hx) hqy

theorem allM_agree : Agree (l.allM p) (l'.allM q) := by
  rw [allM_eq_not_anyM, allM_eq_not_anyM]
  refine (anyM_agree (fun x hx => ?_) fun y hy => ?_).map not
  · obtain ⟨y, hy, h⟩ := hl x hx
    exact ⟨y, hy, h.map not⟩
  · obtain ⟨x, hx, h⟩ := hl' y hy
    exact ⟨x, hx, h.map not⟩

end

/-- The order in which a set is searched does not change an answer. -/
theorem anyM_agree_of_mem (h : ∀ x, x ∈ l ↔ x ∈ l') : Agree (l.anyM p) (l'.anyM p) :=
  anyM_agree (fun x hx => ⟨x, (h x).mp hx, .refl _⟩) fun x hx => ⟨x, (h x).mpr hx, .refl _⟩

end

theorem mem_of_mapM {f : α → Option β} {rs : List β} (h : l.mapM f = some rs) (r : β) :
    r ∈ rs ↔ ∃ x ∈ l, f x = some r := by
  induction l generalizing rs with
  | nil =>
    cases h
    simp
  | cons a l ih =>
    rw [mapM_cons] at h
    cases ha : f a with
    | none => simp [ha] at h
    | some b =>
      cases hl : l.mapM f with
      | none => simp [ha, hl] at h
      | some bs =>
        obtain rfl : b :: bs = rs := by simpa [ha, hl] using h
        simp [ih hl, ha, eq_comm]

/-- Checks that are made in turn have all been passed if none of them failed. -/
theorem forM_eq_ok_iff {ε : Type} {f : α → Except ε Unit} :
    l.forM f = .ok () ↔ ∀ x ∈ l, f x = .ok () := by
  induction l with
  | nil => simp [List.forM, pure, Except.pure]
  | cons x l ih =>
    rw [List.forM, forall_mem_cons, ← ih]
    cases hx : f x <;> simp [bind, Except.bind]

end Rustfs.Trial

namespace Rustfs

/-- A set without an order of its own, as the list it is gone through. -/
structure HashSet (α : Type) where
  toList : List α
  nodup : toList.Nodup

namespace HashSet

variable {α : Type} [DecidableEq α]

def isEmpty (s : HashSet α) : Bool := s.toList.isEmpty

/-- As many members, and every one of them is there. -/
def eq (s t : HashSet α) : Bool :=
  s.toList.length == t.toList.length && s.toList.all fun x => decide (x ∈ t.toList)

theorem eq_iff {s t : HashSet α} : s.eq t = true ↔ s.toList.Perm t.toList := by
  simp only [eq, Bool.and_eq_true, beq_iff_eq, List.all_eq_true, decide_eq_true_eq]
  constructor
  · rintro ⟨hlen, hsub⟩
    exact (List.subperm_of_subset s.nodup hsub).perm_of_length_le (Nat.le_of_eq hlen.symm)
  · intro h
    exact ⟨h.length_eq, fun x hx => h.subset hx⟩

end HashSet

end Rustfs
