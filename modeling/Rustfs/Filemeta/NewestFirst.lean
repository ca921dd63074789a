import Rustfs.Filemeta.Merge
import Rustfs.Lib.Sorting

/-! The versions of `xl.meta` stay in the order of their modification times, newest first. -/
namespace Rustfs

open List FileMetaShallowVersion FileMetaVersionHeader

namespace FileMeta

variable {B : Type} (rt : Runtime) (codec : MetaCodec B) (fm : FileMeta B)

/-- The version may stand directly before the one with the second time. -/
def inOrder : Option Time → Option Time → Bool
  | some prev, some curr => !decide (prev < curr)
  | none, some _ => false
  | _, _ => true

def isSortedByModTime : List (FileMetaShallowVersion B) → Bool
  | prev :: curr :: versions =>
    inOrder prev.header.modTime curr.header.modTime && isSortedByModTime (curr :: versions)
  | _ => true

/-- Every version stands before the older ones; one without a time counts as the oldest. -/
def NewestFirst (versions : List (FileMetaShallowVersion B)) : Prop :=
  versions.Pairwise fun a b => b.header.modTime ≤ a.header.modTime

variable {rt codec fm} {versions : List (FileMetaShallowVersion B)}

theorem inOrder_iff (p c : Option Time) : inOrder p c ↔ c ≤ p := by
  cases p <;> cases c <;> simp [inOrder]

theorem modTime_le_trans {a b c : Option Time} (hab : a ≤ b) (hbc : b ≤ c) : a ≤ c := by
  cases a <;> cases b <;> cases c <;> simp_all
  exact hab.trans hbc

theorem modTime_le_refl (a : Option Time) : a ≤ a := by
  cases a <;> simp

theorem modTime_le_total (a b : Option Time) : a ≤ b ∨ b ≤ a := by
  cases a <;> cases b <;> simp
  exact le_total _ _

theorem modTime_isSome {a b : Option Time} (ha : a.isSome) (hab : a ≤ b) : b.isSome := by
  cases a <;> cases b <;> simp_all

theorem isSortedByModTime_iff : isSortedByModTime versions ↔ NewestFirst versions := by
  induction versions with
  | nil => simp [isSortedByModTime, NewestFirst]
  | cons a vs ih =>
    cases vs with
    | nil => simp [isSortedByModTime, NewestFirst]
    | cons b vs =>
      simp only [isSortedByModTime, Bool.and_eq_true, inOrder_iff, ih]
      constructor
      · rintro ⟨hab, h⟩
        refine pairwise_cons.mpr ⟨?_, h⟩
        intro c hc
        rcases mem_cons.mp hc with rfl | hc
        · exact hab
        · exact modTime_le_trans ((pairwise_cons.mp h).1 c hc) hab
      · intro h
        exact ⟨(pairwise_cons.mp h).1 b mem_cons_self, (pairwise_cons.mp h).2⟩

theorem compare_modTime_le {a b : Option Time} (h : Ord.compare a b ≠ .gt) : a ≤ b := by
  cases a with
  | none => simp
  | some x =>
    cases b with
    | none => exact absurd rfl h
    | some y =>
      have hxy : Ord.compare x y ≠ .gt := h
      rw [Ne, Int.compare_eq_gt, Int.not_lt] at hxy
      simpa using hxy

theorem le_of_compare_gt {a b : Option Time} (h : Ord.compare a b = .gt) : b ≤ a := by
  refine compare_modTime_le ?_
  rw [Std.OrientedCmp.lt_of_gt h]
  exact nofun

/-- The order of the headers in `xl.meta`, where the greater goes first. -/
def storeOrder : FileMetaVersionHeader → FileMetaVersionHeader → Ordering :=
  compareLex (compareOn modTime) (compareLex (compareOn versionType)
    (compareLex (compareOn versionId) (compareOn flags)))

instance : Std.TransCmp storeOrder := by
  unfold storeOrder
  infer_instance

theorem ite_compare {α : Type} [Ord α] [DecidableEq α] [Std.LawfulEqOrd α] (a b : α)
    (o : Ordering) : (if a ≠ b then Ord.compare b a else o) = (Ord.compare b a).then o := by
  split_ifs with h
  · cases hc : Ord.compare b a with
    | eq => exact absurd (Std.LawfulEqOrd.eq_of_compare hc).symm h
    | _ => rfl
  · simp [not_not.mp h]

theorem sortCompare_eq (a b : FileMetaShallowVersion B) : sortCompare codec a b =
    (storeOrder b.header a.header).then (FileMetaShallowVersion.compare codec b a) := by
  simp only [sortCompare, ite_compare, storeOrder, compareLex, compareOn, Ordering.then_assoc]

variable (codec) in
theorem stored_insertionSort (vs : List (FileMetaShallowVersion B)) :
    (vs.insertionSort fun a b => sortCompare codec a b ≠ .gt).Pairwise fun a b =>
      (storeOrder b.header a.header).isLE := by
  refine pairwise_insertionSort_of_refines ?_ ?_ ?_ _
  · intro a b h
    rw [sortCompare_eq] at h
    cases hs : storeOrder b.header a.header <;> simp_all
  · intro a b h
    have hswap : storeOrder a.header b.header = (storeOrder b.header a.header).swap :=
      Std.OrientedCmp.eq_swap
    rw [not_not, sortCompare_eq] at h
    cases hs : storeOrder b.header a.header <;> simp_all
  · exact fun a b c hab hbc => Std.TransCmp.isLE_trans hbc hab

theorem stored_sortByModTime : (fm.sortByModTime codec).versions.Pairwise fun a b =>
    (storeOrder b.header a.header).isLE := by
  unfold sortByModTime
  split
  · next hshort =>
    match hv : fm.versions with
    | [] => simp
    | [v] => simp
    | _ :: _ :: _ => simp [hv] at hshort
  · exact stored_insertionSort codec _

theorem newestFirst_of_stored
    (h : versions.Pairwise fun a b => (storeOrder b.header a.header).isLE) :
    NewestFirst versions := by
  refine h.imp fun {a b} hle => compare_modTime_le fun hgt => ?_
  rw [storeOrder, compareLex, compareOn, hgt] at hle
  exact nomatch hle

/-- The sort of `xl.meta` puts the newest version first. -/
theorem newestFirst_sortByModTime : NewestFirst (fm.sortByModTime codec).versions :=
  newestFirst_of_stored stored_sortByModTime

section

variable {h o : FileMetaVersionHeader}

/-- The two orders differ in the types only. -/
theorem mergeOrder_eq
    (ht : h.modTime = o.modTime → h.versionType = o.versionType) :
    mergeOrder h o = storeOrder h o := by
  unfold mergeOrder storeOrder compareLex compareOn
  by_cases hm : h.modTime = o.modTime
  · simp only [ht hm]
  · rw [← Std.compare_eq_iff_eq] at hm
    cases hc : Ord.compare h.modTime o.modTime with
    | eq => exact absurd hc hm
    | _ => rfl

theorem sortsBefore_of_type (hm : h.modTime = o.modTime)
    (ht : h.versionType ≠ o.versionType) (hle : (storeOrder h o).isLE) : h.sortsBefore o := by
  rw [ne_eq, ← Std.compare_eq_iff_eq] at ht
  simp only [storeOrder, sortsBefore_iff, mergeOrder, compareLex, compareOn, hm,
    Std.ReflOrd.compare_self, Ordering.then, Std.OrientedOrd.eq_swap (a := o.versionType)] at hle ⊢
  cases hc : Ord.compare h.versionType o.versionType <;> simp_all

end

/-- The sort and the merge agree on all versions unless two of one time differ in their types, where
the sort puts the greater type first and the merge the lower. -/
theorem sortByModTime_merge_iff : (fm.sortByModTime codec).versions.Pairwise
      (fun a b => ¬b.header.sortsBefore a.header) ∧
      (∀ a ∈ fm.versions, ∀ b ∈ fm.versions, a.header.sortsBefore b.header →
        sortCompare codec a b = .lt) ↔
    ∀ a ∈ fm.versions, ∀ b ∈ fm.versions, a.header.modTime = b.header.modTime →
      a.header.versionType = b.header.versionType := by
  have hmem : ∀ v, v ∈ (fm.sortByModTime codec).versions ↔ v ∈ fm.versions :=
    fun v => sortByModTime_perm.mem_iff
  constructor
  · rintro ⟨h, -⟩ a ha b hb
    let r : FileMetaShallowVersion B → FileMetaShallowVersion B → Prop := fun a b =>
      a.header.modTime = b.header.modTime → a.header.versionType = b.header.versionType
    have : Std.Symm r := ⟨fun a b hab hm => (hab hm.symm).symm⟩
    have hr : (fm.sortByModTime codec).versions.Pairwise r :=
      (stored_sortByModTime.and h).imp fun hab hm => by_contra fun ht =>
        hab.2 (sortsBefore_of_type hm.symm (Ne.symm ht) hab.1)
    exact hr.forall_of_forall (fun _ _ _ => rfl) ((hmem a).mpr ha) ((hmem b).mpr hb)
  · intro h
    refine ⟨stored_sortByModTime.imp_of_mem fun {a b} ha hb hle => ?_, fun a ha b hb hab => ?_⟩
    · rw [sortsBefore_iff, mergeOrder_eq (h _ ((hmem b).mp hb) _ ((hmem a).mp ha))]
      exact fun hgt => by simp [hgt] at hle
    · rw [sortsBefore_iff, mergeOrder_eq (h a ha b hb)] at hab
      rw [sortCompare_eq, Std.OrientedCmp.lt_of_gt hab]
      rfl

theorem sortByModTime_type_reversed : ∃ (codec : MetaCodec FileMetaVersion) (fm : FileMeta _),
    ¬(fm.sortByModTime codec).versions.Pairwise fun a b => ¬b.header.sortsBefore a.header :=
  ⟨⟨id, .ok, fun _ _ => .eq, fun _ => rfl⟩,
    ⟨[⟨{ modTime := some 1, versionType := .object }, {}⟩,
      ⟨{ modTime := some 1, versionType := .delete }, {}⟩], []⟩, by decide⟩

variable {ver : FileMetaVersion} {fm' : FileMeta B}

/-- Setting a version keeps the order: a version that keeps its time keeps its place. -/
theorem NewestFirst.setIdx (h : NewestFirst fm.versions) {i : ℕ}
    (hset : fm.setIdx rt codec i ver = .ok fm') : NewestFirst fm'.versions := by
  unfold FileMeta.setIdx at hset
  split at hset
  · cases hset
  · next old hold =>
    cases hset
    split
    · exact newestFirst_sortByModTime
    · next heq =>
      push Not at heq
      obtain ⟨hi, rfl⟩ := List.getElem?_eq_some_iff.mp hold
      refine pairwise_iff_getElem.mpr ?_
      intro j k hj hk hjk
      rw [length_set] at hj hk
      have hjk := pairwise_iff_getElem.mp h j k hj hk hjk
      simp only [getElem_set]
      grind

variable {v : FileMetaShallowVersion B}

theorem standsBefore_iff {m : Option Time} :
    standsBefore m v ↔ v.header.modTime.isSome ∧ v.header.modTime ≤ m := by
  unfold standsBefore
  cases v.header.modTime <;> cases m <;> simp

/-- A new version goes before the first one that is no newer. -/
theorem NewestFirst.insertIdx (h : NewestFirst versions) {i : ℕ}
    (hfirst : versions.findIdx? (standsBefore v.header.modTime) = some i) :
    NewestFirst (versions.insertIdx i v) := by
  obtain ⟨hi, hhere, hbefore⟩ := findIdx?_eq_some_iff_getElem.mp hfirst
  obtain ⟨hsome, hle⟩ := standsBefore_iff.mp hhere
  have hsorted := pairwise_iff_getElem.mp h
  refine pairwise_insertIdx h hi.le ?_ ?_
  · intro j hj hji
    -- a version before the place has a time, since the one at the place has one
    have hsome : versions[j].header.modTime.isSome := modTime_isSome hsome (hsorted j i hj hi hji)
    refine (modTime_le_total _ _).resolve_right fun hle => hbefore j hji ?_
    exact standsBefore_iff.mpr ⟨hsome, hle⟩
  · intro j hj hij
    rcases hij.eq_or_lt with rfl | hij
    · exact hle
    · exact modTime_le_trans (hsorted i j hi hj hij) hle

/-- Adding a version keeps the order. -/
theorem NewestFirst.addVersionFilemata (h : NewestFirst fm.versions)
    (hadd : fm.addVersionFilemata rt codec ver = .ok fm') : NewestFirst fm'.versions := by
  unfold FileMeta.addVersionFilemata at hadd
  split at hadd
  · cases hadd
  · split at hadd
    · cases hadd
      simp [NewestFirst]
    · split at hadd
      · exact h.setIdx hadd
      · split at hadd
        · next i hfirst =>
          cases hadd
          exact h.insertIdx hfirst
        · cases hadd

variable (rt codec) in
/-- The version is added to the others, which keep their order. -/
def AddsInOrder (fm : FileMeta B) (ver : FileMetaVersion) : Prop :=
  ∃ fm', fm.addVersionFilemata rt codec ver = .ok fm' ∧
    (∃ i ≤ fm.versions.length,
      fm'.versions = fm.versions.insertIdx i (.ofVersion rt codec ver)) ∧
    isSortedByModTime fm'.versions

/-- A version with a new id finds a place exactly when one stored version is no newer. -/
theorem addsInOrder_iff (h : NewestFirst fm.versions) (hvalid : ver.valid)
    (hnew : ∀ v ∈ fm.versions, v.header.versionId ≠ ver.getVersionId) :
    AddsInOrder rt codec fm ver ↔
      fm.versions = [] ∨ ∃ v ∈ fm.versions, standsBefore ver.getModTime v := by
  have hid : fm.versions.findIdx? (·.header.versionId == ver.getVersionId) = none := by
    simpa [findIdx?_eq_none_iff] using hnew
  constructor
  · rintro ⟨fm', hok, -, -⟩
    rcases addVersionFilemata_spec rt codec fm ver with ⟨ha, -⟩ | ⟨-, e, herr⟩
    · refine ha.2.imp_right ?_
      rintro ⟨v, hv, heq | hb⟩
      · exact absurd heq (hnew v hv)
      · exact ⟨v, hv, hb⟩
    · simp [hok] at herr
  · intro hplace
    have hadds : ∃ fm', fm.addVersionFilemata rt codec ver = .ok fm' ∧ ∃ i ≤ fm.versions.length,
        fm'.versions = fm.versions.insertIdx i (.ofVersion rt codec ver) := by
      rcases hplace with hnil | ⟨v, hv, hb⟩
      · exact ⟨{ fm with versions := [.ofVersion rt codec ver] },
          by simp [FileMeta.addVersionFilemata, hvalid, hnil], 0, Nat.zero_le _, by simp [hnil]⟩
      · have hne : fm.versions ≠ [] := ne_nil_of_mem hv
        cases hf : fm.versions.findIdx? (standsBefore ver.getModTime) with
        | none => simp [findIdx?_eq_none_iff.mp hf v hv] at hb
        | some i =>
          obtain ⟨hi, -⟩ := findIdx?_eq_some_iff_getElem.mp hf
          exact ⟨_, by simp [FileMeta.addVersionFilemata, hvalid, hne, hid, hf]; rfl, i, hi.le, rfl⟩
    obtain ⟨fm', hok, hins⟩ := hadds
    exact ⟨fm', hok, hins, isSortedByModTime_iff.mpr (h.addVersionFilemata hok)⟩

end FileMeta

end Rustfs
