import Rustfs.Filemeta.SharedDataDir

/-! Whether the versions a delete request records find a place among the stored ones. -/
namespace Rustfs

open List

namespace FileMeta

variable {B : Type} (rt : Runtime) (codec : MetaCodec B) (fm : FileMeta B) (fi : FileInfo)
  (vs : List (FileMetaShallowVersion B))

/-- The versions with the new one, if there is a place for it. -/
def placed (w : FileMetaVersion) : List (FileMetaShallowVersion B) :=
  if Admits vs w then .ofVersion rt codec w :: vs.eraseP (·.header.versionId == w.getVersionId)
  else vs

/-- There is a place for the version, or it is stored already. -/
def Holds (w : FileMetaVersion) : Prop :=
  Admits vs w ∨ .ofVersion rt codec w ∈ vs

/-- Each version has a place, the delete marker beside the free version, and each its own id. -/
def Fits : List FileMetaVersion → Prop
  | [] => True
  | [w] => Holds rt codec vs w
  | free :: marker :: _ =>
    Holds rt codec vs free ∧ Holds rt codec (placed rt codec vs free) marker ∧
      (marker.getVersionId = free.getVersionId → marker = free)

/-- Every version the request wants to record is there afterwards. -/
def RecordsAll : Prop :=
  ∀ w ∈ (fm.plan rt codec fi).2, .ofVersion rt codec w ∈ (fm.deleteVersion rt codec fi).2.versions

/-- The versions a request leaves have room for those it wants to record. -/
def HasRoom : Prop :=
  Fits rt codec (fm.touch rt codec (fm.plan rt codec fi).1).versions (fm.plan rt codec fi).2

section

variable {rt codec fm fi} {vs vs' : List (FileMetaShallowVersion B)} {w : FileMetaVersion}
  {ws : List FileMetaVersion}

theorem ofVersion_injective {v w : FileMetaVersion}
    (h : FileMetaShallowVersion.ofVersion rt codec v = .ofVersion rt codec w) : v = w := by
  have hbuf : codec.marshal v = codec.marshal w := congrArg FileMetaShallowVersion.metaBuf h
  have hdec := codec.unmarshal_marshal v
  rw [hbuf, codec.unmarshal_marshal] at hdec
  simpa using hdec.symm

variable {v : FileMetaShallowVersion B}

theorem tryAdd_placed : (fm.tryAdd rt codec w).1.versions.Perm (placed rt codec fm.versions w) :=
  (tryAdd_spec rt codec fm w).2.2

theorem holds_perm (h : vs.Perm vs') : Holds rt codec vs w ↔ Holds rt codec vs' w := by
  simp only [Holds, Admits.perm_iff h, h.mem_iff]

theorem holds_iff_mem_placed : Holds rt codec vs w ↔ .ofVersion rt codec w ∈ placed rt codec vs w := by
  unfold Holds placed
  split
  · simp_all
  · simp_all

theorem mem_of_mem_placed (hv : v ∈ placed rt codec vs w) :
    (Admits vs w ∧ v = .ofVersion rt codec w) ∨ v ∈ vs := by
  unfold placed at hv
  split at hv
  · next ha => exact (mem_cons.mp hv).imp (⟨ha, ·⟩) mem_of_mem_eraseP
  · exact .inr hv

/-- A stored version stays unless another takes its id. -/
theorem mem_placed (hv : v ∈ vs)
    (hid : v.header.versionId = w.getVersionId → v = .ofVersion rt codec w) :
    v ∈ placed rt codec vs w := by
  unfold placed
  split
  · by_cases h : v.header.versionId = w.getVersionId
    · rw [hid h]
      exact mem_cons_self
    · refine mem_cons_of_mem _ ((mem_eraseP_of_neg ?_).mpr hv)
      simpa using h
  · exact hv

theorem mem_tryAdd_iff : .ofVersion rt codec w ∈ (fm.tryAdd rt codec w).1.versions ↔
    Holds rt codec fm.versions w := by
  rw [tryAdd_placed.mem_iff, holds_iff_mem_placed]

theorem mem_record_of_fits (hfit : Fits rt codec fm.versions ws) (hlen : ws.length ≤ 2) :
    ∀ w ∈ ws, .ofVersion rt codec w ∈ (fm.record rt codec ws).versions := by
  match ws with
  | [] => simp
  | [w] => simpa using mem_tryAdd_iff.mpr hfit
  | [free, marker] =>
    obtain ⟨hfree, hmarker, hid⟩ := hfit
    have hmarker : Holds rt codec (fm.tryAdd rt codec free).1.versions marker :=
      (holds_perm tryAdd_placed).mpr hmarker
    simp only [record_cons, record_nil, mem_cons, not_mem_nil, or_false, forall_eq_or_imp,
      forall_eq]
    refine ⟨?_, mem_tryAdd_iff.mpr hmarker⟩
    refine tryAdd_placed.mem_iff.mpr (mem_placed (mem_tryAdd_iff.mpr hfree) fun heq => ?_)
    rw [hid heq.symm]
  | _ :: _ :: _ :: _ => simp at hlen

/-- With each id stored once, a version placed is the only one with its id. -/
theorem eq_of_mem_placed (hn : (vs.map fun v => v.header.versionId).Nodup) (ha : Admits vs w)
    (hv : v ∈ placed rt codec vs w)
    (hid : v.header.versionId = w.getVersionId) : v = .ofVersion rt codec w := by
  rw [placed, if_pos ha] at hv
  rcases mem_cons.mp hv with rfl | hv
  · rfl
  · simp [eraseP_versionId hn, hid] at hv

theorem nodup_placed (hn : (vs.map fun v => v.header.versionId).Nodup) :
    ((placed rt codec vs w).map fun v => v.header.versionId).Nodup := by
  unfold placed
  split
  · refine nodup_cons.mpr ⟨?_, hn.sublist (eraseP_sublist.map _)⟩
    rintro hmem
    obtain ⟨v, hv, hid⟩ := mem_map.mp hmem
    simp_all [eraseP_versionId hn, FileMetaShallowVersion.ofVersion]
  · exact hn

theorem fits_of_mem_record
    (hn : 2 ≤ ws.length → (fm.versions.map fun v => v.header.versionId).Nodup)
    (hlen : ws.length ≤ 2)
    (h : ∀ w ∈ ws, .ofVersion rt codec w ∈ (fm.record rt codec ws).versions) :
    Fits rt codec fm.versions ws := by
  match ws with
  | [] => trivial
  | [w] => exact mem_tryAdd_iff.mp (by simpa using h)
  | [free, marker] =>
    have hn := hn (by simp)
    have hfree := h free (by simp)
    have hmarker := h marker (by simp)
    have hmarker := (holds_perm tryAdd_placed).mp (mem_tryAdd_iff.mp hmarker)
    have hp : (fm.tryAdd rt codec free).1.versions.Perm (placed rt codec fm.versions free) :=
      tryAdd_placed
    have hfree := tryAdd_placed.mem_iff.mp hfree
    refine ⟨?_, hmarker, fun hid => ?_⟩
    · rcases mem_of_mem_placed hfree with ⟨ha, heq⟩ | hmem
      · -- the marker is the free version itself
        obtain rfl := ofVersion_injective heq
        refine .inl (by_contra fun hnot => hnot ?_)
        rwa [Admits.perm_iff hp, placed, if_neg hnot] at ha
      · exact holds_iff_mem_placed.mpr (hp.mem_iff.mp hmem)
    · have hn' := ((hp.map _).nodup_iff).mpr (nodup_placed hn)
      by_cases ha : Admits (fm.tryAdd rt codec free).1.versions marker
      · exact (ofVersion_injective (eq_of_mem_placed hn' ha hfree hid.symm)).symm
      · rw [placed, if_neg ha] at hfree
        have hmem := (((holds_perm hp).mpr hmarker).resolve_left ha)
        exact ofVersion_injective (inj_on_of_nodup_map hn' hmem hfree hid)
  | _ :: _ :: _ :: _ => simp at hlen

variable {p : Touch × List FileMetaVersion}

/-- A request wants at most a free version and a delete marker. -/
theorem Planned.length_le (h : Planned rt fm fi p) : p.2.length ≤ 2 := by
  have hmarker := fi.length_marker_le rt
  cases h with
  | free hi hw => simpa using hmarker
  | leave hws | rewrite hi hws | remove hi hws =>
    rcases hws with rfl | rfl
    · simp
    · exact hmarker.trans (by omega)

/-- A request that wants two versions only removes one before. -/
theorem Planned.nodup_touch (h : Planned rt fm fi p)
    (hn : (fm.versions.map fun v => v.header.versionId).Nodup) (hlen : 2 ≤ p.2.length) :
    ((fm.touch rt codec p.1).versions.map fun v => v.header.versionId).Nodup := by
  have hmarker := fi.length_marker_le rt
  cases h with
  | free hi hw => exact hn.sublist ((eraseIdx_sublist _ _).map _)
  | leave hws | rewrite hi hws | remove hi hws =>
    rcases hws with rfl | rfl <;> grind

/-- The versions a request wants to record are recorded if there is room for them, and only then
when each id is stored once. -/
theorem recordsAll_iff : (HasRoom rt codec fm fi → RecordsAll rt codec fm fi) ∧
    ((fm.versions.map fun v => v.header.versionId).Nodup →
      RecordsAll rt codec fm fi → HasRoom rt codec fm fi) := by
  have hplan : Planned rt fm fi (fm.plan rt codec fi) := planned_plan
  unfold RecordsAll HasRoom
  rw [deleteVersion_plan]
  exact ⟨fun hfit => mem_record_of_fits hfit hplan.length_le,
    fun hn h => fits_of_mem_record (hplan.nodup_touch hn) hplan.length_le h⟩

end

/-- Adding a version with a new id, and what delete requests record, in a sorted `xl.meta`. -/
theorem versions_recorded_iff (h : isSortedByModTime fm.versions) :
    (∀ ver : FileMetaVersion, ver.valid →
      (∀ v ∈ fm.versions, v.header.versionId ≠ ver.getVersionId) →
      (AddsInOrder rt codec fm ver ↔
        fm.versions = [] ∨ ∃ v ∈ fm.versions, standsBefore ver.getModTime v)) ∧
    ∀ fi, (HasRoom rt codec fm fi → RecordsAll rt codec fm fi) ∧
      ((fm.versions.map fun v => v.header.versionId).Nodup →
        RecordsAll rt codec fm fi → HasRoom rt codec fm fi) :=
  ⟨fun _ hvalid hnew => addsInOrder_iff (isSortedByModTime_iff.mp h) hvalid hnew,
    fun _ => recordsAll_iff⟩

section

/-- A version at time 10 that was moved to the tier, below one at time 20. -/
def oneTransitioned : FileMeta FileMetaVersion :=
  { versions := [.ofVersion restingRuntime plainCodec (storedObject 2 8 20),
      .ofVersion restingRuntime plainCodec
        { versionType := .object
          object := some
            { versionId := some 1, dataDir := some 7, erasureAlgorithm := .reedSolomon,
              bitrotChecksumAlgo := .highwayHash, size := 1, modTime := some 10,
              metaSys := (∅ : StrMap Bytes).insert transitionStatusKey (utf8 transitionComplete) } }] }

/-- Every text reads as the id 9. -/
def nineRuntime : Runtime := { restingRuntime with parseUuid := fun _ => some 9 }

/-- Deletes version 1, whose free version is to get the id the request brings. -/
def freeRequest : FileInfo :=
  { versionId := some 1, metadata := (∅ : StrMap String).insert tierFvIdKey "9" }

/-- A version older than all stored ones is refused, and so a free version is lost. -/
theorem older_version_not_recorded :
    (isSortedByModTime oneTransitioned.versions ∧ (storedObject 3 9 5).valid ∧
      (∀ v ∈ oneTransitioned.versions, v.header.versionId ≠ (storedObject 3 9 5).getVersionId) ∧
      ¬ AddsInOrder nineRuntime plainCodec oneTransitioned (storedObject 3 9 5)) ∧
    ¬ RecordsAll nineRuntime plainCodec oneTransitioned freeRequest := by
  refine ⟨⟨by decide, by decide, by decide, ?_⟩, ?_⟩
  · rintro ⟨fm', hok, -⟩
    cases hok
  · unfold RecordsAll
    decide

/-- A newer version is recorded, and so is the delete marker of a request at time 30. -/
theorem newer_version_recorded :
    AddsInOrder restingRuntime plainCodec (twoVersions 7 8) (storedObject 3 9 15) ∧
    RecordsAll restingRuntime plainCodec (twoVersions 7 8)
      { versionId := some 1, deleted := true, modTime := some 30 } := by
  obtain ⟨hadds, hrecords⟩ :=
    versions_recorded_iff restingRuntime plainCodec (twoVersions 7 8) (by decide)
  refine ⟨(hadds _ (by decide) (by decide)).mpr (by decide), (hrecords _).1 ?_⟩
  exact .inl (by decide)

end

end FileMeta

end Rustfs
