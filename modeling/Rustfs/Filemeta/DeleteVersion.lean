import Rustfs.Filemeta.FileMeta

/-! Deleting a version from `xl.meta`, with the directory of its data for the disk to remove. -/
namespace Rustfs

open FileMetaVersion MetaObject List

variable (fi : FileInfo) (rt : Runtime)

namespace FileInfo

/-- The replication status of a delete marker, written into its metadata. -/
def markReplication (fi : FileInfo) (sys : StrMap Bytes) : StrMap Bytes :=
  let state := fi.replicationStateInternal
  let stamp (t : ReplicationState → Option Time) : Bytes :=
    utf8 ((state.map fun v => rt.displayTime ((t v).getD 0)).getD "")
  match fi.deleteMarkerReplicationStatus with
  | .empty => sys
  | .replica =>
    (sys.insert (reservedMetadataPrefixLower ++ "replica-status")
      (utf8 ((state.map ReplicationState.replicaStatus).getD .empty).asStr)).insert
      (reservedMetadataPrefixLower ++ "replica-timestamp") (stamp ReplicationState.replicaTimestamp)
  | _ =>
    (sys.insert (reservedMetadataPrefixLower ++ "replication-status")
      (utf8 ((state.map fun v => v.replicationStatusInternal.getD "").getD ""))).insert
      (reservedMetadataPrefixLower ++ "replication-timestamp")
      (stamp ReplicationState.replicationTimestamp)

def markPurge (sys : StrMap Bytes) : StrMap Bytes :=
  sys.insert versionPurgeStatusKey
    (utf8 ((fi.replicationStateInternal.map fun v => v.versionPurgeStatusInternal.getD "").getD ""))

def markResets (sys : StrMap Bytes) : StrMap Bytes :=
  ((fi.replicationStateInternal.map ReplicationState.resetStatusesMap).getD ∅).entries.foldl
    (fun m e => m.insert e.1 (utf8 e.2)) sys

def requestedId : Uuid := fi.versionId.getD Uuid.nil

/-- The delete marker the request asks for; an invalid version when it asks for none. -/
def ventry (fi : FileInfo) : FileMetaVersion :=
  if fi.deleted then
    let sys := fi.markReplication rt ∅
    let sys := if fi.versionPurgeStatus ≠ .empty then fi.markPurge sys else sys
    { versionType := .delete
      deleteMarker := some
        { versionId := some fi.requestedId, modTime := fi.modTime, metaSys := fi.markResets sys } }
  else {}

/-- The request only records a replication or purge status on the version. -/
def updateVersion : Bool :=
  let purge := fi.versionPurgeStatus
  let replication := fi.deleteMarkerReplicationStatus
  if purge = .empty ∧ (replication = .replica ∨ replication = .empty) then fi.markDeleted
  else
    decide ((fi.deleted ∧ purge ≠ .complete ∧ (purge ≠ .empty ∨ replication = .empty)) ∨
      (purge ≠ .empty ∧ purge ≠ .complete))

end FileInfo

namespace MetaObject

variable (o : MetaObject)

/-- The object with the purge status of the request recorded on it. -/
def purged : MetaObject :=
  { o with metaSys := fi.markResets (fi.markPurge o.metaSys) }

@[simp] theorem dataDir_purged : (o.purged fi).dataDir = o.dataDir := rfl

/-- The free version that remembers a transitioned object until the tier has dropped it too. -/
def initFreeVersion (fi : FileInfo) : Except FilemetaFailure (Option FileMetaVersion) :=
  if (fi.metadata.lookup tierSkipFvIdKey).isSome then .ok none
  else if o.transitioned then
    match (fi.metadata.lookup tierFvIdKey).bind rt.parseUuid with
    | none => .error .panic
    | some vid =>
      let sys : StrMap Bytes := o.metaSys.entries.foldl (fun m e =>
        insertIf (decide (e.1 ∈ [transitionTierKey, transitionedObjectnameKey,
          transitionedVersionIdKey])) e.1 e.2 m) ((∅ : StrMap Bytes).insert freeVersionKey [])
      .ok (some
        { versionType := .delete
          deleteMarker := some { versionId := some vid, modTime := o.modTime, metaSys := sys } })
  else .ok none

end MetaObject

/-- What a delete request does to the object version it is about. -/
inductive Edit where
  | keep (ver : FileMetaVersion)
  | drop (free : Option FileMetaVersion)
  deriving DecidableEq

def FileMetaVersion.edit (fi : FileInfo) (ver : FileMetaVersion) (o : MetaObject) :
    Except FilemetaFailure Edit :=
  if fi.expireRestored then .ok (.keep { ver with object := some o.removeRestoreHdrs })
  else if fi.transitionStatus = transitionComplete then
    .ok (.keep { ver with object := some (o.setTransition fi).resetInlineData })
  else (o.initFreeVersion rt fi).map .drop

/-- What the loop over the versions finds. -/
inductive Scan where
  | invalid
  | marker (i : ℕ)
  | purge (i : ℕ)
  | done (found : Option ℕ)
  deriving DecidableEq

namespace FileMeta

variable {B : Type} (rt : Runtime) (codec : MetaCodec B) (fm : FileMeta B) (fi : FileInfo)

def scanFrom : List (FileMetaShallowVersion B) → ℕ → Option ℕ → Scan
  | [], _, found => .done found
  | v :: vs, i, found =>
    if v.header.versionId ≠ some fi.requestedId then scanFrom vs (i + 1) found
    else
      match v.header.versionType with
      | .invalid | .legacy => .invalid
      | .delete => .marker i
      | .object => if fi.updateVersion && !fi.deleted then .purge i else scanFrom vs (i + 1) (some i)

def scan : Scan := scanFrom fi fm.versions 0 none

/-- Adds a version and keeps the old list, with the error, when that fails. -/
def tryAdd (ver : FileMetaVersion) : FileMeta B × Option FilemetaError :=
  match fm.addVersionFilemata rt codec ver with
  | .ok fm' => (fm', none)
  | .error e => (fm, some e)

variable (i : ℕ)

def trySet (ver : FileMetaVersion) : FileMeta B × Option FilemetaError :=
  match fm.setIdx rt codec i ver with
  | .ok fm' => (fm', none)
  | .error e => (fm, some e)

def removeIdx : FileMeta B := { fm with versions := fm.versions.eraseIdx i }

def applyEdit : Edit → FileMeta B × Option FilemetaError
  | .keep ver => fm.trySet rt codec i ver
  | .drop none => (fm.removeIdx i, none)
  | .drop (some free) => (fm.removeIdx i).tryAdd rt codec free

/-- The edit, and the delete marker if one is asked for; its outcome then replaces the edit's. -/
def applyRequest (e : Edit) : FileMeta B × Option FilemetaError :=
  if fi.deleted then (fm.applyEdit rt codec i e).1.tryAdd rt codec (fi.ventry rt)
  else fm.applyEdit rt codec i e

/-- The answer of a step that hands out no directory. -/
def nothing : FileMeta B × Option FilemetaError → Except FilemetaFailure (Option Uuid) × FileMeta B
  | (fm, none) => (.ok none, fm)
  | (fm, some e) => (.error (.err e), fm)

/-- A request for a version that is not there. -/
def deleteMissing : Except FilemetaFailure (Option Uuid) × FileMeta B :=
  if fi.deleted then nothing (fm.tryAdd rt codec (fi.ventry rt))
  else (.error (.err .fileVersionNotFound), fm)

def deleteMarkerVersion : Except FilemetaFailure (Option Uuid) × FileMeta B :=
  if fi.updateVersion then
    match fm.getIdx codec i with
    | .error e => (.error e, fm)
    | .ok v =>
      let marker := v.deleteMarker.getD { versionId := some fi.requestedId, modTime := fi.modTime }
      let marker := { marker with metaSys := fi.markResets (fi.markReplication rt marker.metaSys) }
      nothing (fm.trySet rt codec i { v with deleteMarker := some marker })
  else if (fi.markDeleted ∧ fi.versionPurgeStatus ≠ .complete) ∨
      (fi.deleted ∧ fi.requestedId = Uuid.nil) then
    nothing ((fm.removeIdx i).tryAdd rt codec (fi.ventry rt))
  else (.ok none, fm.removeIdx i)

/-- Records the purge status on an object version. -/
def purgeObjectVersion : Except FilemetaFailure (Option Uuid) × FileMeta B :=
  match fm.getIdx codec i with
  | .error e => (.error e, fm)
  | .ok v =>
    let v := { v with object := v.object.map (MetaObject.purged fi) }
    match fm.trySet rt codec i v with
    | (fm', none) => (.ok (v.object.bind MetaObject.dataDir), fm')
    | (fm', some e) => (.error (.err e), fm')

/-- The directory of the object, unless another version is counted in it. -/
def handOut (o : MetaObject) :
    FileMeta B × Option FilemetaError → Except FilemetaFailure (Option Uuid) × FileMeta B
  | (fm, err) =>
    if fm.sharedDataDirCount codec o.versionId o.dataDir > 0 then (.ok none, fm)
    else
      match err with
      | some e => (.error (.err e), fm)
      | none => (.ok o.dataDir, fm)

def deleteObjectVersion : Except FilemetaFailure (Option Uuid) × FileMeta B :=
  match fm.getIdx codec i with
  | .error e => (.error e, fm)
  | .ok ver =>
    match ver.object with
    | none => fm.deleteMissing rt codec fi
    | some o =>
      match ver.edit rt fi o with
      | .error e => (.error e, fm)
      | .ok e => handOut codec o (fm.applyRequest rt codec fi i e)

/-- Deletes a version and answers with the data directory the disk is to remove. -/
def deleteVersion : Except FilemetaFailure (Option Uuid) × FileMeta B :=
  if fi.deleted && !fi.isValid then (.error (.err (.other "invalid file meta version")), fm)
  else
    match fm.scan fi with
    | .invalid => (.error (.err (.other "invalid file meta version")), fm)
    | .marker i => fm.deleteMarkerVersion rt codec fi i
    | .purge i => fm.purgeObjectVersion rt codec fi i
    | .done (some i) => fm.deleteObjectVersion rt codec fi i
    | .done none => fm.deleteMissing rt codec fi

/-- The versions once the edit is made, in some order. -/
def edited : Edit → List (FileMetaShallowVersion B)
  | .keep ver => .ofVersion rt codec ver :: fm.versions.eraseIdx i
  | .drop none => fm.versions.eraseIdx i
  | .drop (some free) =>
    if Admits (fm.versions.eraseIdx i) free then
      .ofVersion rt codec free ::
        (fm.versions.eraseIdx i).eraseP (·.header.versionId == free.getVersionId)
    else fm.versions.eraseIdx i

section

variable {rt codec fm fi} {i k : ℕ} {e : Edit} {x : FileMetaShallowVersion B} {ver : FileMetaVersion}
  {o : MetaObject} {vs : List (FileMetaShallowVersion B)} {t : VersionType}

variable (fi) in
/-- Index `i` of a list that starts at index `k` has a version of this type with the id asked for. -/
def Located (vs : List (FileMetaShallowVersion B)) (k i : ℕ) (t : VersionType) : Prop :=
  k ≤ i ∧ ∃ x, vs[i - k]? = some x ∧ x.header.versionId = some fi.requestedId ∧
    x.header.versionType = t

theorem Located.cons (h : Located fi vs (k + 1) i t) (v : FileMetaShallowVersion B) :
    Located fi (v :: vs) k i t := by
  obtain ⟨hk, x, hx, hid⟩ := h
  refine ⟨by omega, x, ?_, hid⟩
  rwa [show i - k = (i - (k + 1)) + 1 by omega, getElem?_cons_succ]

variable (fi) in
/-- What the loop may find in the list, when it already has `found`. -/
def Finds (vs : List (FileMetaShallowVersion B)) (k : ℕ) (found : Option ℕ) : Scan → Prop
  | .marker i => Located fi vs k i .delete
  | .purge i => Located fi vs k i .object
  | .done (some i) => found = some i ∨ Located fi vs k i .object
  | _ => True

theorem Finds.cons {f : Option ℕ} {r : Scan} (h : Finds fi vs (k + 1) f r)
    (v : FileMetaShallowVersion B) : Finds fi (v :: vs) k f r := by
  match r with
  | .invalid | .done none => trivial
  | .marker i | .purge i => exact Located.cons h v
  | .done (some i) => exact Or.imp_right (fun hl => Located.cons hl v) h

/-- An index found in the list itself need not be given. -/
theorem Finds.forget {f : Option ℕ} {j : ℕ} {r : Scan} (h : Finds fi vs k (some j) r)
    (hj : Located fi vs k j .object) : Finds fi vs k f r := by
  match r with
  | .invalid | .done none => trivial
  | .marker i | .purge i => exact h
  | .done (some i) =>
    rcases h with heq | hl
    · obtain rfl : j = i := by simpa using heq
      exact .inr hj
    · exact .inr hl

theorem finds_scanFrom (vs : List (FileMetaShallowVersion B)) (k : ℕ) (f : Option ℕ) :
    Finds fi vs k f (scanFrom fi vs k f) := by
  induction vs generalizing k f with
  | nil => cases f <;> simp [scanFrom, Finds]
  | cons v vs ih =>
    unfold scanFrom
    split
    · exact (ih (k + 1) f).cons v
    · next hid =>
      push Not at hid
      have hhere : Located fi (v :: vs) k k v.header.versionType := ⟨le_rfl, v, by simp, hid, rfl⟩
      cases ht : v.header.versionType with
      | invalid => trivial
      | legacy => trivial
      | delete =>
        rw [ht] at hhere
        exact hhere
      | object =>
        rw [ht] at hhere
        dsimp only
        split
        · exact hhere
        · exact ((ih (k + 1) (some k)).cons v).forget hhere

theorem finds_scan : Finds fi fm.versions 0 none (fm.scan fi) := finds_scanFrom _ _ _

theorem Located.getElem? (h : Located fi vs 0 i t) : ∃ x, vs[i]? = some x ∧
    x.header.versionId = some fi.requestedId ∧ x.header.versionType = t := by
  simpa using h.2

theorem scan_purge (h : fm.scan fi = .purge i) : ∃ x, fm.versions[i]? = some x ∧
    x.header.versionId = some fi.requestedId ∧ x.header.versionType = .object := by
  have hf : Finds fi fm.versions 0 none (.purge i) := h ▸ finds_scan
  exact Located.getElem? hf

theorem scan_marker (h : fm.scan fi = .marker i) : ∃ x, fm.versions[i]? = some x ∧
    x.header.versionId = some fi.requestedId ∧ x.header.versionType = .delete := by
  have hf : Finds fi fm.versions 0 none (.marker i) := h ▸ finds_scan
  exact Located.getElem? hf

theorem scan_done (h : fm.scan fi = .done (some i)) : ∃ x, fm.versions[i]? = some x ∧
    x.header.versionId = some fi.requestedId ∧ x.header.versionType = .object := by
  have hf : Finds fi fm.versions 0 none (.done (some i)) := h ▸ finds_scan
  rcases hf with hnone | hl
  · simp at hnone
  · exact hl.getElem?

variable (rt codec fm) in
theorem tryAdd_spec (ver : FileMetaVersion) :
    (fm.tryAdd rt codec ver).1.data = fm.data ∧
    ((fm.tryAdd rt codec ver).2 = none ↔ Admits fm.versions ver) ∧
    (fm.tryAdd rt codec ver).1.versions.Perm
      (if Admits fm.versions ver then
        .ofVersion rt codec ver :: fm.versions.eraseP (·.header.versionId == ver.getVersionId)
      else fm.versions) := by
  rcases addVersionFilemata_spec rt codec fm ver with ⟨ha, fm', hok, hd, hp⟩ | ⟨ha, e, herr⟩
  · simp [tryAdd, hok, ha, hd, hp]
  · simp [tryAdd, herr, ha]

variable (rt codec) in
theorem applyEdit_spec (hi : i < fm.versions.length) (e : Edit) :
    (fm.applyEdit rt codec i e).1.data = fm.data ∧
    ((fm.applyEdit rt codec i e).2 = none ↔
      ∀ free, e = .drop (some free) → Admits (fm.versions.eraseIdx i) free) ∧
    (fm.applyEdit rt codec i e).1.versions.Perm (fm.edited rt codec i e) := by
  match e with
  | .keep ver =>
    obtain ⟨fm', hok, hd, hp⟩ := setIdx_spec rt codec hi ver
    simp [applyEdit, trySet, hok, hd, edited, hp]
  | .drop none => simp [applyEdit, removeIdx, edited]
  | .drop (some free) =>
    obtain ⟨hd, hok, hp⟩ := tryAdd_spec rt codec (fm.removeIdx i) free
    exact ⟨hd, by simpa [applyEdit, removeIdx] using hok, hp⟩

/-- What an edit does not change of the version it keeps. -/
theorem edit_keep {ver' : FileMetaVersion} (hobj : ver.object = some o)
    (he : ver.edit rt fi o = .ok (.keep ver')) :
    ver'.versionType = ver.versionType ∧ ver'.getVersionId = ver.getVersionId ∧
      ∃ o', ver'.object = some o' ∧ o'.dataDir = o.dataDir := by
  unfold edit at he
  split_ifs at he
  · obtain rfl : { ver with object := some o.removeRestoreHdrs } = ver' := by simpa using he
    cases ht : ver.versionType <;> simp [getVersionId, ht, hobj, removeRestoreHdrs]
  · obtain rfl : { ver with object := some (o.setTransition fi).resetInlineData } = ver' := by
      simpa using he
    cases ht : ver.versionType <;> simp [getVersionId, ht, hobj, resetInlineData, setTransition]
  · cases hf : o.initFreeVersion rt fi <;> simp [hf, Except.map] at he

section

variable (ht : Tidy codec fm.versions) (hx : fm.versions[i]? = some x)

include ht hx in
theorem tidy_edited
    (hkeep : ∀ ver', e = .keep ver' → ver'.getVersionId = x.header.versionId) :
    Tidy codec (fm.edited rt codec i e) := by
  have hrest := ht.sublist (eraseIdx_sublist fm.versions i)
  match e with
  | .keep ver' =>
    refine hrest.cons fun v hv => ?_
    rw [hkeep ver' rfl]
    exact ((ht.mem_eraseIdx hx v).mp hv).2
  | .drop none => exact hrest
  | .drop (some free) =>
    rw [edited]
    split
    · refine (hrest.sublist eraseP_sublist).cons fun v hv => ?_
      exact ((hrest.mem_eraseP _ v).mp hv).2
    · exact hrest

include ht hx in
theorem tidy_applyEdit
    (hkeep : ∀ ver', e = .keep ver' → ver'.getVersionId = x.header.versionId) :
    Tidy codec (fm.applyEdit rt codec i e).1.versions := by
  obtain ⟨hlt, -⟩ := List.getElem?_eq_some_iff.mp hx
  exact (tidy_edited ht hx hkeep).perm (applyEdit_spec rt codec hlt e).2.2

include ht in
theorem tidy_tryAdd (ver : FileMetaVersion) : Tidy codec (fm.tryAdd rt codec ver).1.versions := by
  unfold tryAdd
  split
  · next hadd => exact ht.addVersionFilemata hadd
  · exact ht

include ht hx in
/-- The version decoded at an index is the one its header describes. -/
theorem headed_getIdx (hdec : fm.getIdx codec i = .ok ver) :
    ver.versionType = x.header.versionType ∧ ver.getVersionId = x.header.versionId :=
  ht.headed x (mem_of_getElem? hx) ver ((getIdx_of_getElem? hx).mp hdec)

end

variable (r : FileMeta B × Option FilemetaError)

@[simp] theorem versions_nothing : (nothing r).2 = r.1 := by
  match r with
  | (_, none) | (_, some _) => rfl

@[simp] theorem versions_handOut : (handOut codec o r).2 = r.1 := by
  obtain ⟨fm, err⟩ := r
  simp only [handOut]
  split
  · rfl
  · cases err <;> rfl

section

variable (ht : Tidy codec fm.versions)
include ht

theorem tidy_deleteMissing : Tidy codec (fm.deleteMissing rt codec fi).2.versions := by
  unfold deleteMissing
  split
  · rw [versions_nothing]
    exact tidy_tryAdd ht _
  · exact ht

theorem tidy_deleteMarkerVersion (hs : fm.scan fi = .marker i) :
    Tidy codec (fm.deleteMarkerVersion rt codec fi i).2.versions := by
  obtain ⟨x, hx, hid, htype⟩ := scan_marker hs
  have hremoved : Tidy codec (fm.removeIdx i).versions :=
    ht.sublist (eraseIdx_sublist fm.versions i)
  unfold deleteMarkerVersion
  split_ifs
  · cases hdec : fm.getIdx codec i with
    | error f => exact ht
    | ok ver =>
      obtain ⟨htype', hverid⟩ := headed_getIdx ht hx hdec
      rw [versions_nothing]
      refine tidy_applyEdit (e := .keep _) ht hx ?_
      rintro ver' ⟨rfl⟩
      -- the marker is there, since the version has the id asked for
      cases hm : ver.deleteMarker <;> simp_all [getVersionId]
  · rw [versions_nothing]
    exact tidy_tryAdd hremoved _
  · exact hremoved

theorem tidy_purgeObjectVersion (hs : fm.scan fi = .purge i) :
    Tidy codec (fm.purgeObjectVersion rt codec fi i).2.versions := by
  obtain ⟨x, hx, hid, htype⟩ := scan_purge hs
  unfold purgeObjectVersion
  cases hdec : fm.getIdx codec i with
  | error f => exact ht
  | ok ver =>
    obtain ⟨htype', hverid⟩ := headed_getIdx ht hx hdec
    have htidy : Tidy codec (fm.trySet rt codec i
        { ver with object := ver.object.map (purged fi) }).1.versions := by
      refine tidy_applyEdit (e := .keep _) ht hx ?_
      rintro ver' ⟨rfl⟩
      rw [← hverid]
      cases hobj : ver.object <;> simp [getVersionId, htype', htype, hobj, purged]
    dsimp only
    split
    all_goals
      next h =>
        rw [h] at htidy
        exact htidy

theorem tidy_deleteObjectVersion (hs : fm.scan fi = .done (some i)) :
    Tidy codec (fm.deleteObjectVersion rt codec fi i).2.versions := by
  obtain ⟨x, hx, hid, htype⟩ := scan_done hs
  unfold deleteObjectVersion
  cases hdec : fm.getIdx codec i with
  | error f => exact ht
  | ok ver =>
    obtain ⟨-, hverid⟩ := headed_getIdx ht hx hdec
    dsimp only
    cases hobj : ver.object with
    | none => exact tidy_deleteMissing ht
    | some o =>
      dsimp only
      cases he : ver.edit rt fi o with
      | error f => exact ht
      | ok e =>
        have htidy : Tidy codec (fm.applyEdit rt codec i e).1.versions := by
          refine tidy_applyEdit ht hx ?_
          rintro ver' rfl
          exact (edit_keep hobj he).2.1.trans hverid
        rw [versions_handOut, applyRequest]
        split
        · exact tidy_tryAdd htidy _
        · exact htidy

/-- Deleting a version keeps the ids different and the headers faithful. -/
theorem Tidy.deleteVersion (rt : Runtime) (fi : FileInfo) :
    Tidy codec (fm.deleteVersion rt codec fi).2.versions := by
  unfold FileMeta.deleteVersion
  split
  · exact ht
  · cases hs : fm.scan fi with
    | invalid => exact ht
    | marker i => exact tidy_deleteMarkerVersion ht hs
    | purge i => exact tidy_purgeObjectVersion ht hs
    | done found =>
      cases found with
      | none => exact tidy_deleteMissing ht
      | some i => exact tidy_deleteObjectVersion ht hs

end

end

end FileMeta

end Rustfs
