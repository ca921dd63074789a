import Mathlib.Data.List.Induction

/-! A list from which an element is dropped if one that is kept is as good as it. -/
namespace Rustfs.KeepFirst

open List Bool

variable {α : Type} {r : α → α → Bool}

def keepFirst (r : α → α → Bool) (l : List α) : List α :=
  l.foldl (fun kept a => if kept.any (r · a) then kept else kept ++ [a]) []

theorem keepFirst_append_singleton (l : List α) (a : α) :
    keepFirst r (l ++ [a]) =
      if (keepFirst r l).any (r · a) then keepFirst r l else keepFirst r l ++ [a] := by
  simp [keepFirst]

/-- What the relation needs for the first of its kind to stand for an element. -/
structure Equiv (r : α → α → Bool) : Prop where
  refl : ∀ a, r a a = true
  symm : ∀ a b, r a b = true → r b a = true
  trans : ∀ a b c, r a b = true → r b c = true → r a c = true

theorem Equiv.congr (h : Equiv r) {a b : α} (hab : r a b = true) (c : α) : r c a = r c b := by
  rw [Bool.eq_iff_iff]
  exact ⟨fun hc => h.trans _ _ _ hc hab, fun hc => h.trans _ _ _ hc (h.symm _ _ hab)⟩

section

variable {β : Type} {r' : α → α → Bool}

theorem Equiv.beq [BEq α] [LawfulBEq α] : Equiv fun a b : α => a == b where
  refl _ := beq_self_eq_true _
  symm _ _ h := beq_iff_eq.mpr (beq_iff_eq.mp h).symm
  trans _ _ _ h h' := beq_iff_eq.mpr ((beq_iff_eq.mp h).trans (beq_iff_eq.mp h'))

theorem Equiv.comap (h : Equiv r) (f : β → α) : Equiv fun a b => r (f a) (f b) where
  refl _ := h.refl _
  symm _ _ := h.symm _ _
  trans _ _ _ := h.trans _ _ _

theorem Equiv.and (h : Equiv r) (h' : Equiv r') : Equiv fun a b => r a b && r' a b where
  refl a := by simp [h.refl a, h'.refl a]
  symm a b hab := by
    rw [and_eq_true] at hab ⊢
    exact ⟨h.symm _ _ hab.1, h'.symm _ _ hab.2⟩
  trans a b c hab hbc := by
    rw [and_eq_true] at hab hbc ⊢
    exact ⟨h.trans _ _ _ hab.1 hbc.1, h'.trans _ _ _ hab.2 hbc.2⟩

theorem isEqv_iff {l l' : List α} : l.isEqv l' r = true ↔ l.length = l'.length ∧
    ∀ i (h : i < l.length) (h' : i < l'.length), r l[i] l'[i] = true := by
  rw [isEqv_eq_decide]
  split_ifs with hlen <;> simp [hlen]

theorem Equiv.isEqv (h : Equiv r) : Equiv fun l l' : List α => l.isEqv l' r where
  refl l := isEqv_iff.mpr ⟨rfl, fun _ _ _ => h.refl _⟩
  symm l l' hl := by
    obtain ⟨hn, hr⟩ := isEqv_iff.mp hl
    exact isEqv_iff.mpr ⟨hn.symm, fun i hi hi' => h.symm _ _ (hr i hi' hi)⟩
  trans l l' l'' hl hl' := by
    obtain ⟨hn, hr⟩ := isEqv_iff.mp hl
    obtain ⟨hn', hr'⟩ := isEqv_iff.mp hl'
    exact isEqv_iff.mpr ⟨hn.trans hn', fun i hi hi' =>
      h.trans _ _ _ (hr i hi (hn ▸ hi)) (hr' i (hn ▸ hi) hi')⟩

/-- Every element of lists that are equal one by one has its counterpart. -/
theorem exists_of_isEqv {l l' : List α} (h : l.isEqv l' r = true) :
    (∀ x ∈ l, ∃ y ∈ l', r x y = true) ∧ ∀ y ∈ l', ∃ x ∈ l, r x y = true := by
  obtain ⟨hn, hr⟩ := isEqv_iff.mp h
  constructor
  · intro x hx
    obtain ⟨i, hi, rfl⟩ := mem_iff_getElem.mp hx
    exact ⟨_, getElem_mem _, hr i hi (hn ▸ hi)⟩
  · intro y hy
    obtain ⟨i, hi, rfl⟩ := mem_iff_getElem.mp hy
    exact ⟨_, getElem_mem _, hr i (hn ▸ hi) hi⟩

end

variable (h : Equiv r)
include h

theorem exists_kept {l : List α} {a : α} (ha : a ∈ l) : ∃ k ∈ keepFirst r l, r k a = true := by
  induction l using List.reverseRecOn with
  | nil => exact nomatch ha
  | append_singleton l b ih =>
    rw [keepFirst_append_singleton]
    split_ifs with hany
    · rcases mem_append.mp ha with hl | hb
      · exact ih hl
      · obtain rfl := mem_singleton.mp hb
        simpa using hany
    · rcases mem_append.mp ha with hl | hb
      · obtain ⟨k, hk, hr⟩ := ih hl
        exact ⟨k, mem_append_left _ hk, hr⟩
      · obtain rfl := mem_singleton.mp hb
        exact ⟨a, by simp, h.refl a⟩

/-- An element is kept only where no other of its kind stands before it. -/
theorem find?_kept {l : List α} {k : α} (hk : k ∈ keepFirst r l) : l.find? (r · k) = some k := by
  induction l using List.reverseRecOn with
  | nil => exact nomatch hk
  | append_singleton l b ih =>
    rw [keepFirst_append_singleton] at hk
    rw [find?_append]
    split_ifs at hk with hany
    · rw [ih hk, Option.some_or]
    · rcases mem_append.mp hk with hold | hnew
      · rw [ih hold, Option.some_or]
      · obtain rfl := mem_singleton.mp hnew
        have hnone : l.find? (r · k) = none := by
          refine find?_eq_none.mpr ?_
          intro a ha hak
          obtain ⟨k', hk', hr⟩ := exists_kept h ha
          exact hany (any_eq_true.mpr ⟨k', hk', h.trans _ _ _ hr hak⟩)
        simp [hnone, h.refl k]

theorem mem_of_kept {l : List α} {k : α} (hk : k ∈ keepFirst r l) : k ∈ l :=
  mem_of_find?_eq_some (find?_kept h hk)

/-- The first of its kind is kept. -/
theorem kept_of_find? {l : List α} {a : α} (ha : a ∈ l) :
    ∃ k ∈ keepFirst r l, l.find? (r · a) = some k := by
  obtain ⟨k, hk, hr⟩ := exists_kept h ha
  refine ⟨k, hk, ?_⟩
  rw [← find?_kept h hk]
  congr 1
  funext c
  exact (h.congr hr c).symm

end Rustfs.KeepFirst
