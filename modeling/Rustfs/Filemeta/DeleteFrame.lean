import Rustfs.Filemeta.Recorded

/-! A delete request leaves the versions it is not about as they are. -/
namespace Rustfs

open List FileMetaShallowVersion

/-- Taking out an entry that a sublist does not have leaves the sublist. -/
theorem sublist_eraseIdx_of_notMem {α : Type*} {l l' : List α} (h : l.Sublist l') {i : ℕ} {x : α}
    (hi : l'[i]? = some x) (hx : x ∉ l) : l.Sublist (l'.eraseIdx i) := by
  induction h generalizing i with
  | slnil => simp at hi
  | cons a h ih =>
    cases i with
    | zero => exact h
    | succ i => exact (ih (by simpa using hi) hx).cons a
  | cons_cons a h ih =>
    cases i with
    | zero =>
      obtain rfl : a = x := by simpa using hi
      simp at hx
    | succ i =>
      exact (ih (by simpa using hi) (fun hmem => hx (mem_cons_of_mem _ hmem))).cons_cons a

namespace FileMeta

variable {B : Type} (rt : Runtime) (codec : MetaCodec B) (fm : FileMeta B) (fi : FileInfo)

/-- Writing the version at the index changes the time there, so that the list is sorted anew. -/
def SetsTime (i : ℕ) (ver : FileMetaVersion) : Prop :=
  ∃ x, fm.versions[i]? = some x ∧ x.header.modTime ≠ ver.getModTime

/-- Adding the version overwrites one with its id and another time. -/
def AddSetsTime (w : FileMetaVersion) : Prop :=
  w.valid ∧ ∃ i,
    fm.versions.findIdx? (·.header.versionId == w.getVersionId) = some i ∧ fm.SetsTime i w

def TouchSetsTime : Touch → Prop
  | .rewrite i ver => fm.SetsTime i ver
  | _ => False

def RecordSetsTime : FileMeta B → List FileMetaVersion → Prop
  | _, [] => False
  | fm, w :: ws => fm.AddSetsTime w ∨ RecordSetsTime (fm.tryAdd rt codec w).1 ws

/-- The request gives a stored version another time. -/
def Retimes : Prop :=
  fm.TouchSetsTime (fm.plan rt codec fi).1 ∨
    RecordSetsTime rt codec (fm.touch rt codec (fm.plan rt codec fi).1) (fm.plan rt codec fi).2

variable {ws : List FileMetaVersion}

section

variable {rt codec fm fi} {l : List (FileMetaShallowVersion B)} {i : ℕ} {ver w : FileMetaVersion}

/-- Rewriting a version keeps the others in their order. -/
theorem sublist_setIdx {fm' : FileMeta B} {x : FileMetaShallowVersion B}
    (hset : fm.setIdx rt codec i ver = .ok fm') (hx : fm.versions[i]? = some x)
    (htime : ¬ fm.SetsTime i ver) (hl : l.Sublist fm.versions) (hnot : x ∉ l) :
    l.Sublist fm'.versions := by
  obtain ⟨hi, -⟩ := List.getElem?_eq_some_iff.mp hx
  have hsame : x.header.modTime = (ofVersion rt codec ver).header.modTime := by
    by_contra hne
    exact htime ⟨x, hx, hne⟩
  rw [setIdx, hx] at hset
  dsimp only at hset
  rw [if_neg (not_not.mpr hsame)] at hset
  cases hset
  rw [← insertIdx_eraseIdx_self hi.ne]
  exact (sublist_eraseIdx_of_notMem hl hx hnot).trans (sublist_insertIdx _ _ _)

theorem sublist_tryAdd (htime : ¬ fm.AddSetsTime w) (hl : l.Sublist fm.versions)
    (hid : ∀ v ∈ l, v.header.versionId ≠ w.getVersionId) :
    l.Sublist (fm.tryAdd rt codec w).1.versions := by
  unfold tryAdd
  split
  swap
  · exact hl
  next fm' hadd =>
  unfold addVersionFilemata at hadd
  split at hadd
  · cases hadd
  next hvalid =>
  · split at hadd
    · next hnil =>
      obtain rfl : l = [] := by simpa [isEmpty_iff.mp hnil] using hl
      exact nil_sublist _
    · split at hadd
      · next i hf =>
        obtain ⟨hi, heq, -⟩ := findIdx?_eq_some_iff_getElem.mp hf
        have hx := getElem?_eq_getElem hi
        refine sublist_setIdx hadd hx (fun hs => htime ⟨by simpa using hvalid, i, hf, hs⟩) hl fun hmem => ?_
        exact hid _ hmem (by simpa using heq)
      · split at hadd
        · cases hadd
          exact hl.trans (sublist_insertIdx _ _ _)
        · cases hadd

theorem sublist_record (htime : ¬ RecordSetsTime rt codec fm ws)
    (hl : l.Sublist fm.versions) (hid : ∀ w ∈ ws, ∀ v ∈ l, v.header.versionId ≠ w.getVersionId) :
    l.Sublist (fm.record rt codec ws).versions := by
  induction ws generalizing fm with
  | nil => exact hl
  | cons w ws ih =>
    rw [RecordSetsTime, not_or] at htime
    rw [record_cons]
    refine ih htime.2 (sublist_tryAdd htime.1 hl (hid w mem_cons_self)) ?_
    exact fun w' hw' => hid w' (mem_cons_of_mem _ hw')

theorem sublist_touch {t : Touch} (htime : ¬ fm.TouchSetsTime t) (hl : l.Sublist fm.versions)
    (hnot : ∀ i x, fm.versions[i]? = some x → (t = .remove i ∨ ∃ ver, t = .rewrite i ver) → x ∉ l) :
    l.Sublist (fm.touch rt codec t).versions := by
  cases t with
  | leave => exact hl
  | remove i =>
    rw [touch, removeIdx]
    cases hx : fm.versions[i]? with
    | none => rwa [eraseIdx_of_length_le (getElem?_eq_none_iff.mp hx)]
    | some x => exact sublist_eraseIdx_of_notMem hl hx (hnot i x hx (.inl rfl))
  | rewrite i ver =>
    rw [touch, trySet]
    split
    · next fm' hset =>
      cases hx : fm.versions[i]? with
      | none => simp [setIdx, hx] at hset
      | some x => exact sublist_setIdx hset hx htime hl (hnot i x hx (.inr ⟨ver, rfl⟩))
    · exact hl

theorem newestFirst_tryAdd (h : NewestFirst fm.versions) :
    NewestFirst (fm.tryAdd rt codec w).1.versions := by
  unfold tryAdd
  split
  · next hadd => exact h.addVersionFilemata hadd
  · exact h

theorem newestFirst_record (h : NewestFirst fm.versions) (ws : List FileMetaVersion) :
    NewestFirst (fm.record rt codec ws).versions := by
  induction ws generalizing fm with
  | nil => exact h
  | cons w ws ih => exact ih (newestFirst_tryAdd h)

/-- A changed time has the list sorted. -/
theorem newestFirst_trySet (htime : fm.SetsTime i ver) :
    NewestFirst (fm.trySet rt codec i ver).1.versions := by
  obtain ⟨x, hx, hne⟩ := htime
  have hne : x.header.modTime ≠ (ofVersion rt codec ver).header.modTime := hne
  rw [trySet, setIdx, hx]
  dsimp only
  rw [if_pos hne]
  exact newestFirst_sortByModTime

theorem newestFirst_tryAdd_of_addSetsTime (htime : fm.AddSetsTime w) :
    NewestFirst (fm.tryAdd rt codec w).1.versions := by
  obtain ⟨hvalid, i, hf, htime⟩ := htime
  have hne : fm.versions ≠ [] := by
    rintro hnil
    simp [hnil] at hf
  have hset : (fm.tryAdd rt codec w).1 = (fm.trySet rt codec i w).1 := by
    simp [tryAdd, trySet, addVersionFilemata, hvalid, hne, hf]
  exact hset ▸ newestFirst_trySet htime

theorem newestFirst_record_of_recordSetsTime
    (htime : RecordSetsTime rt codec fm ws) : NewestFirst (fm.record rt codec ws).versions := by
  induction ws generalizing fm with
  | nil => exact htime.elim
  | cons w ws ih =>
    rcases htime with hnow | hlater
    · exact newestFirst_record (newestFirst_tryAdd_of_addSetsTime hnow) ws
    · exact ih hlater

/-- A request that gives a stored version another time leaves the list sorted. -/
theorem newestFirst_of_retimes (h : fm.Retimes rt codec fi) :
    NewestFirst (fm.deleteVersion rt codec fi).2.versions := by
  rw [deleteVersion_plan, carryOut]
  rcases h with htouch | hrecord
  · refine newestFirst_record ?_ _
    cases ht : (fm.plan rt codec fi).1 with
    | leave | remove i => simp [ht, TouchSetsTime] at htouch
    | rewrite i ver =>
      rw [ht] at htouch
      exact newestFirst_trySet htouch
  · exact newestFirst_record_of_recordSetsTime hrecord

end

/-- The versions whose id is neither the one asked for nor that of the free version. -/
def spared (free : Option FileMetaVersion) : List (FileMetaShallowVersion B) :=
  fm.versions.filter fun v => v.header.versionId ≠ some fi.requestedId ∧
    ∀ w ∈ free, v.header.versionId ≠ w.getVersionId

/-- What a delete request may leave: the version asked for in some form, a free version, a delete
marker, and the other versions as they were. -/
structure Leaves (fm' : FileMeta B) (target : Option (FileMetaShallowVersion B))
    (free marker : Option FileMetaVersion) : Prop where
  perm : fm'.versions.Perm (target.toList ++
    (free.toList ++ marker.toList).map (.ofVersion rt codec) ++ fm.spared fi free)
  stored : target.isSome → ∃ v ∈ fm.versions, v.header.versionId = some fi.requestedId
  isFree : ∀ w ∈ free, IsFree rt fi w
  isMarker : ∀ w ∈ marker, fi.deleted ∧ w = fi.ventry rt
  ordered : ¬ fm.Retimes rt codec fi → (fm.spared fi free).Sublist fm'.versions
  resorted : fm.Retimes rt codec fi → isSortedByModTime fm'.versions

section

variable {rt codec fm fi} {rest : List (FileMetaShallowVersion B)}
  {t : Option (FileMetaShallowVersion B)}

theorem getVersionId_ventry (h : fi.deleted) :
    (fi.ventry rt).getVersionId = some fi.requestedId := by
  simp [FileInfo.ventry, h, FileMetaVersion.getVersionId]

variable (fi) in
/-- The version stays, or it has the id asked for and is gone. -/
def Remains (t t' : Option (FileMetaShallowVersion B)) : Prop :=
  t' = t ∨ t' = none ∧ ∀ x ∈ t, x.header.versionId = some fi.requestedId

variable (rt codec) in
/-- The delete marker replaces at most the one version with the id asked for. -/
theorem perm_record_marker (hp : fm.versions.Perm (t.toList ++ rest))
    (hrest : ∀ v ∈ rest, v.header.versionId ≠ some fi.requestedId)
    (hws : ws = [] ∨ ws = fi.marker rt) :
    ∃ t' marker, Remains fi t t' ∧ (∀ w ∈ marker, fi.deleted ∧ w = fi.ventry rt) ∧
      (fm.record rt codec ws).versions.Perm
        (t'.toList ++ (Option.toList marker).map (.ofVersion rt codec) ++ rest) := by
  have hnone : ∃ t' marker, Remains fi t t' ∧ (∀ w ∈ marker, fi.deleted ∧ w = fi.ventry rt) ∧
      fm.versions.Perm (t'.toList ++ (Option.toList marker).map (.ofVersion rt codec) ++ rest) :=
    ⟨t, none, .inl rfl, by simp, by simpa using hp⟩
  rcases hws with rfl | rfl
  · exact hnone
  by_cases hdel : fi.deleted
  swap
  · simpa [FileInfo.marker, hdel] using hnone
  have hid : (fi.ventry rt).getVersionId = some fi.requestedId := getVersionId_ventry hdel
  have hrecord : (fm.record rt codec (fi.marker rt)).versions.Perm
      (placed rt codec fm.versions (fi.ventry rt)) := by
    simpa [FileInfo.marker, hdel] using tryAdd_placed
  unfold placed at hrecord
  split at hrecord
  swap
  · obtain ⟨t', marker, ht, hm, hp⟩ := hnone
    exact ⟨t', marker, ht, hm, hrecord.trans hp⟩
  have herase : rest.eraseP (·.header.versionId == some fi.requestedId) = rest :=
    eraseP_of_forall_not (by simpa using hrest)
  have hpair : (t.toList ++ rest).Pairwise fun a b => (a.header.versionId == some fi.requestedId) →
      (b.header.versionId == some fi.requestedId) → False := by
    cases t with
    | none => exact pairwise_of_forall_mem_list fun a ha b _ => by simp [hrest a ha]
    | some x =>
      refine pairwise_cons.mpr ⟨fun b hb => by simp [hrest b hb], ?_⟩
      exact pairwise_of_forall_mem_list fun a ha b _ => by simp [hrest a ha]
  have hleft := (hp.symm.eraseP _ hpair).symm
  rw [hid] at hrecord
  cases t with
  | none =>
    refine ⟨none, some (fi.ventry rt), .inl rfl, by simp [hdel], hrecord.trans ?_⟩
    simpa [herase] using hleft
  | some x =>
    by_cases hx : x.header.versionId = some fi.requestedId
    · refine ⟨none, some (fi.ventry rt), .inr ⟨rfl, by simpa using hx⟩, by simp [hdel],
        hrecord.trans ?_⟩
      simpa [hx] using hleft
    · refine ⟨some x, some (fi.ventry rt), .inl rfl, by simp [hdel], hrecord.trans ?_⟩
      have hleft : (fm.versions.eraseP (·.header.versionId == some fi.requestedId)).Perm
          (x :: rest) := by simpa [hx, herase] using hleft
      exact (hleft.cons _).trans (.swap _ _ _)

variable {free : Option FileMetaVersion}

theorem mem_spared {v : FileMetaShallowVersion B} :
    v ∈ fm.spared fi free ↔ v ∈ fm.versions ∧ v.header.versionId ≠ some fi.requestedId ∧
      ∀ w ∈ free, v.header.versionId ≠ w.getVersionId := by
  simp [spared]

section

variable (hn : (fm.versions.map fun v => v.header.versionId).Nodup) {i : ℕ}

include hn

/-- With the version asked for taken out, the others are left. -/
theorem perm_removeIdx (hi : Names fm fi i) : (fm.removeIdx i).versions.Perm (fm.spared fi none) := by
  obtain ⟨x, hx, hid⟩ := hi
  obtain ⟨hlt, rfl⟩ := List.getElem?_eq_some_iff.mp hx
  have hperm := getElem_cons_eraseIdx_perm hlt
  obtain ⟨hfresh, -⟩ := nodup_cons.mp ((hperm.map _).nodup_iff.mpr hn)
  have hrest : (fm.versions.eraseIdx i).filter (fun v => v.header.versionId ≠ some fi.requestedId) =
      fm.versions.eraseIdx i := by
    refine filter_eq_self.mpr fun v hv => ?_
    simpa [← hid] using fun heq => hfresh (mem_map.mpr ⟨v, hv, heq⟩)
  have hfilter := hperm.filter (fun v => v.header.versionId ≠ some fi.requestedId)
  rw [filter_cons_of_neg (by simpa using hid), hrest] at hfilter
  simpa [spared, removeIdx] using hfilter

theorem perm_versions : ∃ t, (Option.isSome t → ∃ v ∈ fm.versions,
    v.header.versionId = some fi.requestedId) ∧
      fm.versions.Perm (t.toList ++ fm.spared fi none) := by
  by_cases h : ∃ i, Names fm fi i
  · obtain ⟨i, hi⟩ := h
    have hi' := hi
    obtain ⟨x, hx, hid⟩ := hi'
    refine ⟨some x, fun _ => ⟨x, mem_of_getElem? hx, hid⟩, ?_⟩
    obtain ⟨hlt, rfl⟩ := List.getElem?_eq_some_iff.mp hx
    exact (getElem_cons_eraseIdx_perm hlt).symm.trans ((perm_removeIdx hn hi).cons _)
  · refine ⟨none, by simp, ?_⟩
    have hall : fm.spared fi none = fm.versions := by
      refine filter_eq_self.mpr fun v hv => ?_
      obtain ⟨i, hi⟩ := mem_iff_getElem?.mp hv
      simpa using fun heq => h ⟨i, v, hi, heq⟩
    rw [hall]
    rfl

end

theorem tryAdd_of_not_admits {w : FileMetaVersion} (h : ¬ Admits fm.versions w) :
    (fm.tryAdd rt codec w).1 = fm := by
  rcases addVersionFilemata_spec rt codec fm w with ⟨ha, -⟩ | ⟨-, e, herr⟩
  · exact absurd ha h
  · simp [tryAdd, herr]

theorem marker_ne_spared (hws : ws = [] ∨ ws = fi.marker rt) : ∀ w ∈ ws, ∀ v ∈ fm.spared fi free,
      v.header.versionId ≠ w.getVersionId := by
  intro w hw v hv
  rcases hws with rfl | rfl
  · simp at hw
  · unfold FileInfo.marker at hw
    split at hw
    · next hdel =>
      obtain rfl := mem_singleton.mp hw
      rw [getVersionId_ventry hdel]
      exact (mem_spared.mp hv).2.1
    · simp at hw

variable (codec) in
theorem sublist_spared_touch {p : Touch × List FileMetaVersion} (hp : Planned rt fm fi p)
    (htime : ¬ fm.TouchSetsTime p.1) (f : Option FileMetaVersion) :
    (fm.spared fi f).Sublist (fm.touch rt codec p.1).versions := by
  refine sublist_touch htime filter_sublist ?_
  intro i x hx htouch hmem
  have hnames : Names fm fi i := by
    cases hp <;> simp_all
  obtain ⟨y, hy, hid⟩ := hnames
  obtain rfl : x = y := by simpa [hx] using hy
  exact (mem_spared.mp hmem).2.1 hid

section

variable {p : Touch × List FileMetaVersion} {i : ℕ} {w : FileMetaVersion}
  (hn : (fm.versions.map fun v => v.header.versionId).Nodup)

theorem retimes_iff (hp : fm.plan rt codec fi = p) : fm.Retimes rt codec fi ↔
    fm.TouchSetsTime p.1 ∨ RecordSetsTime rt codec (fm.touch rt codec p.1) p.2 := by
  rw [Retimes, hp]

include hn

variable (rt codec) in
theorem perm_touch (hplanned : Planned rt fm fi p) : ∃ t, (Option.isSome t → ∃ v ∈ fm.versions,
    v.header.versionId = some fi.requestedId) ∧
      (fm.touch rt codec p.1).versions.Perm (t.toList ++ fm.spared fi none) := by
  cases hplanned with
  | leave hws => exact perm_versions hn
  | remove hi hws | free hi hw => exact ⟨none, by simp, perm_removeIdx hn hi⟩
  | @rewrite i ver ws hi hws =>
    have hi' := hi
    obtain ⟨x, hx, hid⟩ := hi'
    obtain ⟨hlt, -⟩ := List.getElem?_eq_some_iff.mp hx
    obtain ⟨fm', hset, -, hp⟩ := setIdx_spec rt codec hlt ver
    refine ⟨some (.ofVersion rt codec ver), fun _ => ⟨x, mem_of_getElem? hx, hid⟩, ?_⟩
    rw [touch, trySet, hset]
    exact hp.trans ((perm_removeIdx hn hi).cons _)

/-- A request that records at most a delete marker. -/
theorem leaves_marker (hp : fm.plan rt codec fi = p) (hplanned : Planned rt fm fi p)
    (hws : p.2 = [] ∨ p.2 = fi.marker rt) : ∃ target marker,
      Leaves rt codec fm fi (fm.deleteVersion rt codec fi).2 target none marker := by
  obtain ⟨t, hstored, hperm⟩ := perm_touch rt codec hn hplanned
  obtain ⟨t', marker, ht, hmarker, hperm⟩ :=
    perm_record_marker rt codec hperm (fun v hv => (mem_spared.mp hv).2.1) hws
  have hdelete : (fm.deleteVersion rt codec fi).2 = fm.carryOut rt codec p := hp ▸ deleteVersion_plan
  refine ⟨t', marker, ?_, ?_, by simp, hmarker, ?_, ?_⟩
  · rw [hdelete, carryOut]
    simpa using hperm
  · rcases ht with rfl | ⟨rfl, -⟩
    · exact hstored
    · simp
  · intro htime
    rw [retimes_iff hp, not_or] at htime
    rw [hdelete]
    exact sublist_record htime.2 (sublist_spared_touch codec hplanned htime.1 none) (marker_ne_spared hws)
  · exact fun h => isSortedByModTime_iff.mpr (newestFirst_of_retimes h)

/-- The free version stands for the version removed, and for one that had its id. -/
theorem perm_tryAdd_free (hi : Names fm fi i) (ha : Admits (fm.removeIdx i).versions w) :
    ((fm.removeIdx i).tryAdd rt codec w).1.versions.Perm
      ((some (ofVersion rt codec w)).toList ++ fm.spared fi (some w)) := by
  have hadd : ((fm.removeIdx i).tryAdd rt codec w).1.versions.Perm _ := tryAdd_placed
  have hn' : ((fm.removeIdx i).versions.map fun v => v.header.versionId).Nodup :=
    hn.sublist ((eraseIdx_sublist _ _).map _)
  rw [placed, if_pos ha, eraseP_versionId hn'] at hadd
  refine hadd.trans ((((perm_removeIdx hn hi).filter _).cons _).trans ?_)
  simp [spared, filter_filter, Bool.and_comm, Bool.beq_eq_decide_eq]

omit hn in
/-- What the removal and the free version leave in order, the delete marker does too. -/
theorem sublist_delete_free (hp : fm.plan rt codec fi = (.remove i, w :: fi.marker rt))
    (htime : ¬ fm.Retimes rt codec fi)
    (hsub : (fm.spared fi free).Sublist ((fm.removeIdx i).tryAdd rt codec w).1.versions) :
    (fm.spared fi free).Sublist (fm.deleteVersion rt codec fi).2.versions := by
  have hmarker : ¬ RecordSetsTime rt codec ((fm.removeIdx i).tryAdd rt codec w).1 (fi.marker rt) :=
    fun h => htime ((retimes_iff hp).mpr (.inr (.inr h)))
  have hrecorded := sublist_record hmarker hsub (marker_ne_spared (.inr rfl))
  rwa [deleteVersion_plan, hp]

/-- A request that wants a free version, and finds a place for it or not. -/
theorem leaves_free (hp : fm.plan rt codec fi = (.remove i, w :: fi.marker rt))
    (hi : Names fm fi i) (hw : IsFree rt fi w) : ∃ target free marker,
      Leaves rt codec fm fi (fm.deleteVersion rt codec fi).2 target free marker := by
  have hdelete : (fm.deleteVersion rt codec fi).2 =
      ((fm.removeIdx i).tryAdd rt codec w).1.record rt codec (fi.marker rt) := by
    rw [deleteVersion_plan, hp]
    rfl
  have hresorted : fm.Retimes rt codec fi →
      isSortedByModTime (fm.deleteVersion rt codec fi).2.versions :=
    fun h => isSortedByModTime_iff.mpr (newestFirst_of_retimes h)
  have hplanned : Planned rt fm fi (.remove i, w :: fi.marker rt) := .free hi hw
  have htouched : ∀ free, (fm.spared fi free).Sublist (fm.removeIdx i).versions :=
    sublist_spared_touch codec hplanned id
  have hordered : ¬ fm.Retimes rt codec fi →
      (fm.spared fi (some w)).Sublist (fm.deleteVersion rt codec fi).2.versions := by
    intro htime
    have hadds := (retimes_iff hp).not.mp htime
    refine sublist_delete_free hp htime ?_
    refine sublist_tryAdd (fun h => hadds (.inr (.inl h))) (htouched _) ?_
    exact fun v hv => (mem_spared.mp hv).2.2 w rfl
  have hrest : ∀ free, ∀ v ∈ fm.spared fi free, v.header.versionId ≠ some fi.requestedId :=
    fun free v hv => (mem_spared.mp hv).2.1
  by_cases ha : Admits (fm.removeIdx i).versions w
  · obtain ⟨t', marker, ht, hmarker, hperm⟩ :=
      perm_record_marker rt codec (perm_tryAdd_free hn hi ha) (hrest _) (.inr rfl)
    rw [← hdelete] at hperm
    rcases ht with rfl | ⟨rfl, hid⟩
    · exact ⟨none, some w, marker, by simpa using hperm, by simp, by simpa using hw, hmarker,
        hordered, hresorted⟩
    · -- the delete marker takes the id of the free version
      have hid : w.getVersionId = some fi.requestedId := hid _ rfl
      have hsame : fm.spared fi (some w) = fm.spared fi none := by simp [spared, hid]
      rw [hsame] at hperm hordered
      exact ⟨none, none, marker, by simpa using hperm, by simp, by simp, hmarker, hordered, hresorted⟩
  · have hsame : ((fm.removeIdx i).tryAdd rt codec w).1 = fm.removeIdx i := tryAdd_of_not_admits ha
    have hperm : (fm.removeIdx i).versions.Perm (none.toList ++ fm.spared fi none) :=
      perm_removeIdx hn hi
    obtain ⟨t', marker, ht, hmarker, hperm⟩ := perm_record_marker rt codec hperm (hrest _) (.inr rfl)
    obtain rfl : t' = none := by rcases ht with h | ⟨h, -⟩ <;> exact h
    rw [← hsame, ← hdelete] at hperm
    refine ⟨none, none, marker, by simpa using hperm, by simp, by simp, hmarker, ?_, hresorted⟩
    refine fun htime => sublist_delete_free hp htime ?_
    rw [hsame]
    exact htouched none

end

variable (rt codec fm fi) in
/-- A delete request in an `xl.meta` with distinct ids leaves the other versions as they are. -/
theorem deleteVersion_leaves (hn : (fm.versions.map fun v => v.header.versionId).Nodup) :
    ∃ target free marker,
      Leaves rt codec fm fi (fm.deleteVersion rt codec fi).2 target free marker := by
  generalize hp : fm.plan rt codec fi = p
  have hplanned : Planned rt fm fi p := hp ▸ planned_plan
  have hcases := hplanned
  cases hcases with
  | free hi hw => exact leaves_free hn hp hi hw
  | leave hws | rewrite hi hws | remove hi hws =>
    obtain ⟨target, marker, h⟩ := leaves_marker hn hp hplanned hws
    exact ⟨target, none, marker, h⟩

end

section

/-- Two versions of one time above an older one. -/
def tiedVersions : FileMeta FileMetaVersion :=
  { versions := [.ofVersion restingRuntime plainCodec (storedObject 2 8 20),
      .ofVersion restingRuntime plainCodec (storedObject 3 9 20),
      .ofVersion restingRuntime plainCodec (storedObject 1 7 10)] }

/-- Deletes version 1 by a marker that takes its place and time. -/
def markRestored : FileInfo :=
  { versionId := some 1, expireRestored := true, deleted := true, modTime := some 30 }

/-- Deletes version 1, which was moved to the tier, and marks it deleted at time 30. -/
def markFreed : FileInfo := { freeRequest with deleted := true, modTime := some 30 }

/-- The version moved to the tier, above an older one. -/
def transitionedFirst : FileMeta FileMetaVersion :=
  { versions := oneTransitioned.versions.drop 1 ++
      [.ofVersion restingRuntime plainCodec (storedObject 2 8 5)] }

/-- Every text reads as the id 2, which is taken. -/
def twoRuntime : Runtime := { restingRuntime with parseUuid := fun _ => some 2 }

/-- The sort of a rewritten version moves the others, two versions are added at once, and a free
version overwrites another one. -/
theorem deleteVersion_moves_others :
    ((tiedVersions.versions.map fun v => v.header.versionId) = [some 2, some 3, some 1] ∧
      ((tiedVersions.deleteVersion restingRuntime plainCodec markRestored).2.versions.map
        fun v => v.header.versionId) = [some 1, some 3, some 2]) ∧
    ((transitionedFirst.versions.map fun v => (v.header.versionId, v.header.versionType)) =
        [(some 1, .object), (some 2, .object)] ∧
      ((transitionedFirst.deleteVersion nineRuntime plainCodec markFreed).2.versions.map
        fun v => (v.header.versionId, v.header.versionType)) =
          [(some 1, .delete), (some 9, .delete), (some 2, .object)] ∧
      ((transitionedFirst.deleteVersion twoRuntime plainCodec freeRequest).2.versions.map
        fun v => (v.header.versionId, v.header.versionType)) = [(some 2, .delete)]) := by
  decide

theorem twoVersions_leaves :
    ((twoVersions 7 8).versions.map fun v => v.header.versionId).Nodup ∧
    ∃ target free marker, Leaves restingRuntime plainCodec (twoVersions 7 8) { versionId := some 1 }
      ((twoVersions 7 8).deleteVersion restingRuntime plainCodec { versionId := some 1 }).2
      target free marker :=
  ⟨by decide, deleteVersion_leaves _ _ _ _ (by decide)⟩

end

end FileMeta

end Rustfs
