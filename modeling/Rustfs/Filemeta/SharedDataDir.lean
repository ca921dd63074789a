import Rustfs.Filemeta.DeletePlan

/-! The data directories of the versions that a delete request leaves. -/
namespace Rustfs

open FileMetaShallowVersion FileMetaVersion List

/-- The data of the object is in its data directory: neither inline nor in the remote tier only. -/
def MetaObject.onDisk (rt : Runtime) (o : MetaObject) : Bool :=
  if o.transitioned then isRestoredObjectOnDisk rt o.metaUser else !o.inlinedata

namespace FileMeta

variable {B : Type} (rt : Runtime) (codec : MetaCodec B) (fm : FileMeta B) (fi : FileInfo)

/-- The version is an object whose data is on disk in directory `d`. -/
def holds (d : Uuid) (v : FileMetaShallowVersion B) : Bool :=
  v.header.versionType == .object &&
    match codec.unmarshal v.metaBuf with
    | .ok ver => ver.object.any fun o => o.dataDir == some d && o.onDisk rt
    | .error _ => false

/-- The version stays as it is: the request is not about it, and no free version takes its id. -/
def Untouched (i : ℕ) (e : Edit) (v : FileMetaShallowVersion B) : Prop :=
  v ∈ fm.versions.eraseIdx i ∧ ∀ free, e = .drop (some free) →
    Admits (fm.versions.eraseIdx i) free → v.header.versionId ≠ free.getVersionId

/-- The last change of the request, the delete marker if it asks for one, finds its place. -/
def Completes (i : ℕ) (e : Edit) : Prop :=
  if fi.deleted then Admits (fm.edited rt codec i e) (fi.ventry rt)
  else ∀ free, e = .drop (some free) → Admits (fm.versions.eraseIdx i) free

/-- The sharing count sees no other version in the directory of the object. -/
def Unshared (i : ℕ) (e : Edit) (o : MetaObject) : Prop :=
  (fm.data.find (Uuid.display (o.versionId.getD Uuid.nil))).isSome ∨
    ∀ v, fm.Untouched i e v → ¬ sharesDataDir codec (o.versionId.getD Uuid.nil) o.dataDir v

/-- A request that hands out a directory in which a remaining version has its data: one that
records a purge status, or one that takes out or edits an object version whose directory the
sharing count misses. -/
inductive Exposes : Prop where
  | purged (i : ℕ) (ver : FileMetaVersion) (o : MetaObject) (d : Uuid)
    (found : fm.scan fi = .purge i) (decoded : fm.getIdx codec i = .ok ver)
    (object : ver.object = some o) (dir : o.dataDir = some d)
    (live : (o.purged fi).onDisk rt ∨ ∃ v ∈ fm.versions.eraseIdx i, holds rt codec d v)
  | deleted (i : ℕ) (ver : FileMetaVersion) (o : MetaObject) (d : Uuid) (e : Edit)
    (found : fm.scan fi = .done (some i)) (decoded : fm.getIdx codec i = .ok ver)
    (object : ver.object = some o) (dir : o.dataDir = some d) (edit : ver.edit rt fi o = .ok e)
    (completes : fm.Completes rt codec fi i e) (unshared : fm.Unshared codec i e o)
    (live : (∃ v, fm.Untouched i e v ∧ holds rt codec d v) ∨
      ∃ ver' o', e = .keep ver' ∧ fi.deleted = false ∧ ver'.object = some o' ∧ o'.onDisk rt)

section

variable {rt codec fm fi} {i : ℕ} {e : Edit} {x : FileMetaShallowVersion B} {ver : FileMetaVersion}
  {o : MetaObject}

@[simp] theorem holds_ofVersion (d : Uuid) :
    holds rt codec d (.ofVersion rt codec ver) = (ver.versionType == .object &&
      ver.object.any fun o => o.dataDir == some d && o.onDisk rt) := by
  simp [holds, ofVersion]

variable {v : FileMetaShallowVersion B}

theorem holds_object {d : Uuid} (h : holds rt codec d v) : v.header.versionType = .object := by
  simp only [holds, Bool.and_eq_true, beq_iff_eq] at h
  exact h.1

theorem sharesDataDir_object {id : Uuid} {dir : Option Uuid}
    (h : sharesDataDir codec id dir v) : v.header.versionType = .object := by
  simp only [sharesDataDir, Bool.and_eq_true, beq_iff_eq] at h
  exact h.1.1.1

section

variable (ht : Tidy codec fm.versions) (hx : fm.versions[i]? = some x)
  (hkeep : ∀ ver', e = .keep ver' → ver'.getVersionId = x.header.versionId)
  (hdrop : ∀ free, e = .drop (some free) → free.versionType = .delete)

include ht hdrop in
/-- The objects among the edited versions: those left untouched, and the one kept. -/
theorem exists_mem_edited {p : FileMetaShallowVersion B → Prop}
    (hp : ∀ v, p v → v.header.versionType = .object) :
    (∃ v ∈ fm.edited rt codec i e, p v) ↔
      (∃ v, fm.Untouched i e v ∧ p v) ∨ ∃ ver', e = .keep ver' ∧ p (.ofVersion rt codec ver') := by
  have hrest := ht.sublist (eraseIdx_sublist fm.versions i)
  match e with
  | .keep ver' => simp [edited, Untouched, or_comm]
  | .drop none => simp [edited, Untouched]
  | .drop (some free) =>
    -- the free version is a delete marker, so none of the objects
    have hfree : ¬ p (.ofVersion rt codec free) := by
      intro h
      have := hp _ h
      simp [ofVersion, hdrop free rfl] at this
    simp only [edited, Untouched, Edit.drop.injEq, Option.some.injEq, forall_eq', reduceCtorEq,
      false_and, exists_false, or_false]
    split
    · next ha => simp [hfree, hrest.mem_eraseP, ha]
    · next ha => simp [ha]

variable (rt) in
include ht hx hkeep hdrop in
/-- The whole request: it completes or fails as `Completes` says, and leaves the untouched
objects, beside the kept one unless the delete marker takes its id. -/
theorem applyRequest_spec (hid : x.header.versionId = some fi.requestedId) :
    (fm.applyRequest rt codec fi i e).1.data = fm.data ∧
    ((fm.applyRequest rt codec fi i e).2 = none ↔ fm.Completes rt codec fi i e) ∧
    (fm.Completes rt codec fi i e → ∀ p : FileMetaShallowVersion B → Prop,
      (∀ v, p v → v.header.versionType = .object) →
      ((∃ v ∈ (fm.applyRequest rt codec fi i e).1.versions, p v) ↔
        (∃ v, fm.Untouched i e v ∧ p v) ∨
          ∃ ver', e = .keep ver' ∧ fi.deleted = false ∧ p (.ofVersion rt codec ver'))) := by
  obtain ⟨hlt, -⟩ := List.getElem?_eq_some_iff.mp hx
  obtain ⟨hdata, hok, hperm⟩ := applyEdit_spec rt codec hlt e
  unfold applyRequest Completes
  cases hdel : fi.deleted with
  | false =>
    simp only [Bool.false_eq_true, if_false, true_and]
    refine ⟨hdata, hok, fun _ p hp => ?_⟩
    simp only [hperm.mem_iff]
    exact exists_mem_edited ht hdrop hp
  | true =>
    obtain ⟨hdata', hok', hperm'⟩ :=
      tryAdd_spec rt codec (fm.applyEdit rt codec i e).1 (fi.ventry rt)
    have hmarker : (fi.ventry rt).versionType = .delete ∧
        (fi.ventry rt).getVersionId = some fi.requestedId := by
      simp [FileInfo.ventry, hdel, getVersionId]
    have htidy := (tidy_edited ht hx hkeep).perm hperm
    have hadmits : Admits _ (fi.ventry rt) ↔ _ := Admits.perm_iff hperm
    simp only [if_true, reduceCtorEq, false_and, and_false, exists_false, or_false]
    refine ⟨hdata'.trans hdata, hok'.trans hadmits, fun ha p hp => ?_⟩
    have hnot : ¬ p (.ofVersion rt codec (fi.ventry rt)) := by
      intro h
      have := hp _ h
      simp [ofVersion, hmarker.1] at this
    rw [if_pos (hadmits.mpr ha)] at hperm'
    simp only [hperm'.mem_iff, mem_cons, exists_eq_or_imp, hnot, false_or, htidy.mem_eraseP,
      hperm.mem_iff, hmarker.2, and_assoc]
    rw [exists_mem_edited ht hdrop fun v h => hp v h.2]
    constructor
    · rintro (⟨v, hv, -, hpv⟩ | ⟨ver', he, hne, -⟩)
      · exact ⟨v, hv, hpv⟩
      · exact absurd ((hkeep ver' he).trans hid) hne
    · rintro ⟨v, hv, hpv⟩
      exact .inl ⟨v, hv, hid ▸ ((ht.mem_eraseIdx hx v).mp hv.1).2, hpv⟩

include ht hx hkeep hdrop in
theorem sharedDataDirCount_applyRequest (hid : x.header.versionId = some fi.requestedId)
    (hoid : o.versionId = some fi.requestedId) (hc : fm.Completes rt codec fi i e) :
    (fm.applyRequest rt codec fi i e).1.sharedDataDirCount codec o.versionId o.dataDir = 0 ↔
      fm.Unshared codec i e o := by
  obtain ⟨hdata, -, hmem⟩ := applyRequest_spec rt ht hx hkeep hdrop hid
  have hshared := hmem hc (sharesDataDir codec fi.requestedId o.dataDir ·)
    fun v => sharesDataDir_object
  -- the kept version has the id that the count leaves out
  have hkept : ¬ ∃ ver', e = .keep ver' ∧ fi.deleted = false ∧
      sharesDataDir codec fi.requestedId o.dataDir (.ofVersion rt codec ver') := by
    rintro ⟨ver', he, -, hs⟩
    simp [sharesDataDir, ofVersion, hkeep ver' he, hid] at hs
  rw [or_iff_left hkept] at hshared
  rw [sharedDataDirCount_eq_zero_iff, hdata, Unshared, hoid, Option.getD_some]
  refine or_congr_right ?_
  simpa only [not_exists, not_and] using not_congr hshared

end

variable (rt codec) in
/-- The answer hands out a directory in which a version of the new list has its data. -/
def HandsOutLive (answer : Except FilemetaFailure (Option Uuid) × FileMeta B) : Prop :=
  ∃ d fm', answer = (.ok (some d), fm') ∧ ∃ v ∈ fm'.versions, holds rt codec d v

theorem not_handsOutLive_error (f : FilemetaFailure) : ¬ HandsOutLive rt codec (.error f, fm) := by
  rintro ⟨d, fm', h, -⟩
  cases h

variable (r : FileMeta B × Option FilemetaError)

theorem not_handsOutLive_nothing : ¬ HandsOutLive rt codec (nothing r) := by
  rintro ⟨d, fm', h, -⟩
  match r with
  | (_, none) => cases h
  | (_, some _) => cases h

theorem not_handsOutLive_missing : ¬ HandsOutLive rt codec (fm.deleteMissing rt codec fi) := by
  unfold deleteMissing
  split
  · exact not_handsOutLive_nothing _
  · exact not_handsOutLive_error _

theorem not_handsOutLive_marker :
    ¬ HandsOutLive rt codec (fm.deleteMarkerVersion rt codec fi i) := by
  unfold deleteMarkerVersion
  split_ifs
  · split
    · exact not_handsOutLive_error _
    · exact not_handsOutLive_nothing _
  · exact not_handsOutLive_nothing _
  · exact not_handsOutLive_nothing (fm.removeIdx i, none)

/-- Recording a purge status hands out the directory of the version that stays. -/
theorem handsOutLive_purge (ht : Tidy codec fm.versions) (hs : fm.scan fi = .purge i) :
    HandsOutLive rt codec (fm.purgeObjectVersion rt codec fi i) ↔
      ∃ ver o d, fm.getIdx codec i = .ok ver ∧ ver.object = some o ∧ o.dataDir = some d ∧
        ((o.purged fi).onDisk rt ∨ ∃ v ∈ fm.versions.eraseIdx i, holds rt codec d v) := by
  obtain ⟨x, hx, -, htype⟩ := scan_purge hs
  obtain ⟨hlt, -⟩ := List.getElem?_eq_some_iff.mp hx
  unfold purgeObjectVersion
  cases hdec : fm.getIdx codec i with
  | error f => simpa using not_handsOutLive_error f
  | ok ver =>
    have hobject : ver.versionType = .object := by
      rw [← htype]
      exact (ht.headed x (mem_of_getElem? hx) ver ((getIdx_of_getElem? hx).mp hdec)).1
    obtain ⟨fm', hok, -, hp⟩ :=
      setIdx_spec rt codec hlt { ver with object := ver.object.map (MetaObject.purged fi) }
    have hmem : ∀ d, (∃ v ∈ fm'.versions, holds rt codec d v) ↔
        (∃ o, ver.object = some o ∧ o.dataDir = some d ∧ (o.purged fi).onDisk rt) ∨
          ∃ v ∈ fm.versions.eraseIdx i, holds rt codec d v := by
      intro d
      cases hobj : ver.object <;> simp [hp.mem_iff, hobject, hobj]
    simp only [trySet, hok, HandsOutLive, Prod.mk.injEq, Except.ok.injEq]
    constructor
    · rintro ⟨d, fm'', ⟨hdir, rfl⟩, hlive⟩
      obtain ⟨o, hobj, hdir⟩ : ∃ o, ver.object = some o ∧ o.dataDir = some d := by
        cases hobj : ver.object with
        | none => simp [hobj] at hdir
        | some o => exact ⟨o, rfl, by simpa [hobj] using hdir⟩
      refine ⟨ver, o, d, rfl, hobj, hdir, ?_⟩
      simpa [hobj, hdir] using (hmem d).mp hlive
    · rintro ⟨_, o, d, rfl, hobj, hdir, hlive⟩
      refine ⟨d, fm', ⟨by simpa [hobj] using hdir, rfl⟩, (hmem d).mpr ?_⟩
      simpa [hobj, hdir] using hlive

theorem handsOutLive_handOut :
    HandsOutLive rt codec (handOut codec o r) ↔ ∃ d, o.dataDir = some d ∧ r.2 = none ∧
      r.1.sharedDataDirCount codec o.versionId o.dataDir = 0 ∧
      ∃ v ∈ r.1.versions, holds rt codec d v := by
  obtain ⟨fm, err⟩ := r
  simp only [HandsOutLive, handOut]
  split
  · next h =>
    have hne : fm.sharedDataDirCount codec o.versionId o.dataDir ≠ 0 := by omega
    simp [hne]
  · next h =>
    have heq : fm.sharedDataDirCount codec o.versionId o.dataDir = 0 := by omega
    cases err <;> simp [heq, and_assoc]

section

variable {d : Uuid} {ver' : FileMetaVersion}

/-- The version an edit keeps is live in the directory when its object is on disk. -/
theorem holds_kept (htype : ver.versionType = .object) (hobj : ver.object = some o)
    (hdir : o.dataDir = some d) (he : ver.edit rt fi o = .ok (.keep ver')) :
    holds rt codec d (.ofVersion rt codec ver') ↔ ∃ o', ver'.object = some o' ∧ o'.onDisk rt := by
  obtain ⟨htype', -, o', hobj', hdir'⟩ := edit_keep hobj he
  simp [htype', htype, hobj', hdir', hdir]

end

/-- Taking out or editing an object version hands out its directory when the request completes
and the sharing count misses every other version in it. -/
theorem handsOutLive_object (ht : Tidy codec fm.versions) (hs : fm.scan fi = .done (some i)) :
    HandsOutLive rt codec (fm.deleteObjectVersion rt codec fi i) ↔
      ∃ ver o d e, fm.getIdx codec i = .ok ver ∧ ver.object = some o ∧ o.dataDir = some d ∧
        ver.edit rt fi o = .ok e ∧ fm.Completes rt codec fi i e ∧ fm.Unshared codec i e o ∧
        ((∃ v, fm.Untouched i e v ∧ holds rt codec d v) ∨
          ∃ ver' o', e = .keep ver' ∧ fi.deleted = false ∧ ver'.object = some o' ∧ o'.onDisk rt) := by
  obtain ⟨x, hx, hid, htype⟩ := scan_done hs
  unfold deleteObjectVersion
  cases hdec : fm.getIdx codec i with
  | error f => simpa using not_handsOutLive_error f
  | ok ver =>
    obtain ⟨hobject, hverid⟩ :=
      ht.headed x (mem_of_getElem? hx) ver ((getIdx_of_getElem? hx).mp hdec)
    rw [htype] at hobject
    simp only [Except.ok.injEq, exists_and_left, exists_eq_left']
    cases hobj : ver.object with
    | none => simpa using not_handsOutLive_missing
    | some o =>
      have hoid : o.versionId = some fi.requestedId := by
        simpa [getVersionId, hobject, hobj, hid] using hverid
      simp only [Option.some.injEq, exists_eq_left']
      cases he : ver.edit rt fi o with
      | error f => simpa using not_handsOutLive_error f
      | ok e =>
        have hkeep : ∀ ver', e = .keep ver' → ver'.getVersionId = x.header.versionId := by
          rintro ver' rfl
          exact (edit_keep hobj he).2.1.trans hverid
        have hdrop : ∀ free, e = .drop (some free) → free.versionType = .delete := by
          rintro free rfl
          exact beq_iff_eq.mp (Bool.and_eq_true_iff.mp (isFree_of_edit he).1).1
        obtain ⟨-, hok, hmem⟩ := applyRequest_spec rt ht hx hkeep hdrop hid
        simp only [handsOutLive_handOut, hok, Except.ok.injEq, exists_eq_left']
        refine exists_congr fun d => and_congr_right fun hdir => and_congr_right fun hc => ?_
        refine and_congr (sharedDataDirCount_applyRequest ht hx hkeep hdrop hid hoid hc) ?_
        rw [hmem hc (holds rt codec d ·) fun v => holds_object]
        refine or_congr_right (exists_congr fun ver' => and_congr_right fun hkept => ?_)
        subst hkept
        exact and_congr_right fun _ => holds_kept hobject hobj hdir he

theorem handsOutLive_iff (ht : Tidy codec fm.versions) :
    HandsOutLive rt codec (fm.deleteVersion rt codec fi) ↔ fm.Exposes rt codec fi := by
  have hvalid : (fi.deleted && !fi.isValid) = false := by
    cases hd : fi.deleted <;> simp [FileInfo.isValid, hd]
  rw [deleteVersion, hvalid, if_neg Bool.false_ne_true]
  cases hs : fm.scan fi with
  | invalid =>
    refine iff_of_false (not_handsOutLive_error _) fun h => ?_
    cases h <;> simp_all
  | marker i =>
    refine iff_of_false not_handsOutLive_marker fun h => ?_
    cases h <;> simp_all
  | purge i =>
    refine (handsOutLive_purge ht hs).trans ⟨?_, ?_⟩
    · rintro ⟨ver, o, d, hdec, hobj, hdir, hlive⟩
      exact .purged i ver o d hs hdec hobj hdir hlive
    · rintro (⟨j, ver, o, d, hj, hdec, hobj, hdir, hlive⟩ | ⟨j, _, _, _, _, hj⟩)
      · obtain rfl : i = j := by simpa [hs] using hj
        exact ⟨ver, o, d, hdec, hobj, hdir, hlive⟩
      · simp [hs] at hj
  | done found =>
    cases found with
    | none =>
      refine iff_of_false not_handsOutLive_missing fun h => ?_
      cases h <;> simp_all
    | some i =>
      refine (handsOutLive_object ht hs).trans ⟨?_, ?_⟩
      · rintro ⟨ver, o, d, e, hdec, hobj, hdir, he, hc, hun, hlive⟩
        exact .deleted i ver o d e hs hdec hobj hdir he hc hun hlive
      · rintro (⟨j, _, _, _, hj⟩ | ⟨j, ver, o, d, e, hj, hdec, hobj, hdir, he, hc, hun, hlive⟩)
        · simp [hs] at hj
        · obtain rfl : i = j := by simpa [hs] using hj
          exact ⟨ver, o, d, e, hdec, hobj, hdir, he, hc, hun, hlive⟩

/-- For versions with different ids and faithful headers: no directory handed out for removal is
one in which a remaining version has its data, unless the request exposes one. -/
theorem deleteVersion_spares_live_iff (ht : Tidy codec fm.versions) :
    (∀ d fm', fm.deleteVersion rt codec fi = (.ok (some d), fm') →
      ∀ v ∈ fm'.versions, ¬ holds rt codec d v) ↔ ¬ fm.Exposes rt codec fi := by
  rw [← handsOutLive_iff ht, HandsOutLive]
  push Not
  rfl

end

section

/-- A clock at the epoch and a serializer that keeps the version itself. -/
def restingRuntime : Runtime :=
  { now := 0, parseRfc3339 := fun _ => none, displayTime := fun _ => "", parseUuid := fun _ => none }

def plainCodec : MetaCodec FileMetaVersion :=
  { marshal := id, unmarshal := .ok, compare := fun _ _ => .eq, unmarshal_marshal := fun _ => rfl }

def storedObject (id dir : Uuid) (modTime : Time) : FileMetaVersion :=
  { versionType := .object
    object := some
      { versionId := some id, dataDir := some dir, erasureAlgorithm := .reedSolomon,
        bitrotChecksumAlgo := .highwayHash, size := 1, modTime := some modTime } }

/-- Two versions of an object, the second newer, with their data in the directories given. -/
def twoVersions (dir₁ dir₂ : Uuid) : FileMeta FileMetaVersion :=
  { versions := [.ofVersion restingRuntime plainCodec (storedObject 2 dir₂ 20),
      .ofVersion restingRuntime plainCodec (storedObject 1 dir₁ 10)] }

theorem tidy_twoVersions (dir₁ dir₂ : Uuid) : Tidy plainCodec (twoVersions dir₁ dir₂).versions := by
  have hnil : Tidy plainCodec [] := ⟨nodup_nil, by simp⟩
  refine (hnil.cons (by simp)).cons ?_
  simp [ofVersion, getVersionId, storedObject]

/-- Version 1 and version 2 share their directory; deleting version 1 hands it out. -/
theorem deleteVersion_hands_out_shared_dir :
    (twoVersions 7 7).deleteVersion restingRuntime plainCodec { versionId := some 1 } =
      (.ok (some 7), { versions := [.ofVersion restingRuntime plainCodec (storedObject 2 7 20)] }) ∧
    holds restingRuntime plainCodec 7
      (.ofVersion restingRuntime plainCodec (storedObject 2 7 20)) :=
  ⟨rfl, rfl⟩

/-- With a directory for each version, the one handed out is not that of the version left. -/
theorem deleteVersion_spares_own_dir :
    (twoVersions 7 8).deleteVersion restingRuntime plainCodec { versionId := some 1 } =
      (.ok (some 7), { versions := [.ofVersion restingRuntime plainCodec (storedObject 2 8 20)] }) ∧
    ¬ holds restingRuntime plainCodec 7
      (.ofVersion restingRuntime plainCodec (storedObject 2 8 20)) := by
  have hdeleted : (twoVersions 7 8).deleteVersion restingRuntime plainCodec { versionId := some 1 } =
      (.ok (some 7),
        { versions := [.ofVersion restingRuntime plainCodec (storedObject 2 8 20)] }) := rfl
  have hsafe : ¬ (twoVersions 7 8).Exposes restingRuntime plainCodec { versionId := some 1 } := by
    rintro (⟨i, ver, o, d, hs, -⟩ | ⟨i, ver, o, d, e, hs, hdec, hobj, hdir, he, -, -, hlive⟩)
    · cases hs
    · cases hs
      cases hdec
      cases hobj
      cases hdir
      cases he
      rcases hlive with ⟨v, ⟨hv, -⟩, hholds⟩ | ⟨ver', o', hkeep, -⟩
      · obtain rfl := mem_singleton.mp hv
        cases hholds
      · cases hkeep
  have hspared := (deleteVersion_spares_live_iff (tidy_twoVersions 7 8)).mpr hsafe
  exact ⟨hdeleted, hspared 7 _ hdeleted _ (mem_singleton_self _)⟩

end

end FileMeta

end Rustfs
