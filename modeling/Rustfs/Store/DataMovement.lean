import Rustfs.Lib.Run
import Rustfs.Store.Pools

/-! Moving an entry out of a pool: its versions are copied one by one, and it is deleted when all
of them are counted as moved. -/
namespace Rustfs.DataMovement

open List

/-- A listed entry, with `file_info_versions` where its metadata can be read. -/
structure Entry where
  name : String
  isDir : Bool := false
  versions : Option (List FileInfo)

/-- One attempt at copying a version: what the source set holds when it is read, and what the
write meets in the store. -/
structure Attempt where
  stored : List FileInfo
  readFailure : Option StorageError := none
  /-- `get_actual_size` of the version that was read -/
  sizeFailure : Option StorageError := none
  call : StoreCall

/-- What the steps for one version meet: the attempts at copying an object, or the request for a
delete marker. -/
structure VersionCalls where
  attempts : ℕ → Attempt
  call : StoreCall
  set : SetDisks.DeleteCall

/-- How one version leaves the loop: counted without a copy, copied, passed over, or failed, which
ends the loop for an object but not for a delete marker. -/
inductive Step where
  | skipped
  | moved (w : Option Write)
  | ignored
  | failed
  | aborted

def Step.counts : Step → Bool
  | .skipped | .moved _ => true
  | _ => false

def Step.write : Step → Option Write
  | .moved w => w
  | _ => none

/-- What the loop over the versions leaves: the counter, and what was written for which version. -/
structure Moved where
  count : ℕ := 0
  writes : List (FileInfo × Write) := []

/-- What is left of an entry that was worked on. -/
structure EntryRun where
  deletes : Bool
  writes : List (FileInfo × Write)

/-- The order of `sort_by(|a, b| b.mod_time.cmp(&a.mod_time))`; no time is before every time. -/
def notOlder : Option Time → Option Time → Bool
  | _, none => true
  | none, some _ => false
  | some a, some b => decide (b ≤ a)

def sortVersions (versions : List FileInfo) : List FileInfo :=
  versions.insertionSort fun a b => notOlder a.modTime b.modTime

def moveVersions (step : FileInfo → Step) : List FileInfo → Moved
  | [] => {}
  | v :: vs =>
    match step v with
    | .skipped =>
      let rest := moveVersions step vs
      { rest with count := rest.count + 1 }
    | .moved w =>
      let rest := moveVersions step vs
      { count := rest.count + 1, writes := w.toList.map (v, ·) ++ rest.writes }
    | .ignored | .failed => moveVersions step vs
    | .aborted => {}

/-- The entry is deleted when the counter has reached the number of versions. -/
def moveEntry (step : FileInfo → Step) (versions : List FileInfo) : EntryRun :=
  let run := moveVersions step (sortVersions versions)
  { deletes := run.count == versions.length, writes := run.writes }

/-- The version is gone, or is in another pool already. -/
def alreadyMoved (err : StorageError) : Bool :=
  err.isErrObjectNotFound || err.isErrVersionNotFound || err.isErrDataMovementOverwrite

def rustfsMetaBucket : String := ".rustfs.sys"

def dataUsageCacheName : String := ".usage-cache.bin"

/-- One movement of data out of pool `src`, with what each version's steps meet. -/
structure Mover where
  rt : Runtime
  src : ℕ
  bucket : String
  calls : FileInfo → VersionCalls

namespace Mover

variable (m : Mover) (entry : Entry) (n : ℕ)

def objectOptions (oi : ObjectInfo) : ObjectOptions where
  srcPoolIdx := m.src
  dataMovement := true
  versionId := oi.versionId
  modTime := oi.modTime

def markerOptions (version : FileInfo) : ObjectOptions where
  versioned := true
  versionId := version.versionId
  modTime := version.modTime
  srcPoolIdx := m.src
  dataMovement := true
  deleteMarker := true
  skipDecommissioned := true

/-- The object that was read is put into another pool, part by part if it has several. -/
def moveObject (a : Attempt) (oi : ObjectInfo) : Except StorageError Write :=
  match a.sizeFailure with
  | some e => .error e
  | none =>
    if oi.isMultipart then
      a.call.handleMultipartUpload m.bucket oi.name (m.objectOptions oi) m.rt.now
    else a.call.handlePutObject m.bucket oi.name (m.objectOptions oi) m.rt.now

def rebalanceObject : Attempt → ObjectInfo → Except StorageError Write := m.moveObject

def decommissionObject : Attempt → ObjectInfo → Except StorageError Write := m.moveObject

/-- One turn of the retry loop: read the version from the source set, then move it. -/
def tryMove (ignoresRead : Bool) (move : Attempt → ObjectInfo → Except StorageError Write)
    (version : FileInfo) (a : Attempt) : Retry.Outcome Write :=
  match SetDisks.getObjectReader a.stored a.readFailure m.bucket (encodeDirObject entry.name)
      version.versionId with
  | .error err =>
    if err.isErrObjectNotFound || err.isErrVersionNotFound || ignoresRead then .stop else .again
  | .ok oi =>
    match move a oi with
    | .error err => if alreadyMoved err then .stop else .again
    | .ok w => .done w

/-- The three attempts at an object. -/
def attempts (version : FileInfo) : List Attempt := (List.range 3).map (m.calls version).attempts

def objectStep : Retry.Outcome Write → Step
  | .done w => .moved (some w)
  | .stop => .ignored
  | .again => .aborted

def markerStep : Except StorageError (Option Write) → Step
  | .ok w => .moved w
  | .error err => if alreadyMoved err then .ignored else .failed

def tryRebalance : FileInfo → Attempt → Retry.Outcome Write :=
  m.tryMove entry false m.rebalanceObject

/-- The body of the loop of `rebalance_entry`, for an entry of `n` versions. A delete marker is
written by `set`, which is a set of the source pool. -/
def rebalanceStep (version : FileInfo) : Step :=
  if version.isRemote m.rt then .ignored
  else if version.deleted && n == 1 then .skipped
  else if version.deleted then
    markerStep <| (SetDisks.deleteObject m.rt.now (m.calls version).set m.bucket entry.name
      (m.markerOptions version)).map (Write.ofDelete m.src)
  else objectStep (Retry.run (m.tryRebalance entry version) (m.attempts version))

def rebalanceEntry (rebalanceDone : Bool) : Option EntryRun :=
  if entry.isDir || rebalanceDone then none
  else entry.versions.map fun versions => moveEntry (m.rebalanceStep entry versions.length) versions

def ignoresRead : Bool :=
  m.bucket == rustfsMetaBucket &&
    entry.name.toList.tails.any fun rest => dataUsageCacheName.toList.isPrefixOf rest

def tryDecommission : FileInfo → Attempt → Retry.Outcome Write :=
  m.tryMove entry (m.ignoresRead entry) m.decommissionObject

/-- The body of the loop of `decommission_entry`. A delete marker is written by the store. -/
def decommissionStep (rcfg : Option String) (version : FileInfo) : Step :=
  if version.deleted && n == 1 && rcfg.isNone then .skipped
  else if version.deleted then
    markerStep <| (m.calls version).call.handleDeleteObject m.bucket entry.name
      (m.markerOptions version) (m.calls version).set m.rt.now
  else objectStep (Retry.run (m.tryDecommission entry version) (m.attempts version))

def decommissionEntry (rcfg : Option String) : Option EntryRun :=
  if entry.isDir then none
  else
    entry.versions.map fun versions =>
      moveEntry (m.decommissionStep entry versions.length rcfg) versions

end Mover

/-- The write put `version`, under its own id and time, into a pool other than `src`. -/
structure CopyOf (src : ℕ) (version : FileInfo) (w : Write) : Prop where
  pool : w.pool ≠ src
  versionId : w.versionId = version.versionId
  modTime : w.modTime = version.modTime
  deleted : w.deleted = version.deleted

/-- If the entry is deleted, every version of it was written to another pool, except a delete
marker that is the only version. -/
def SafelyDeletes (src : ℕ) (entry : Entry) (run : Option EntryRun) : Prop :=
  ∀ r ∈ run, r.deletes = true → ∀ versions ∈ entry.versions, ∀ v ∈ versions,
    (∃ w, (v, w) ∈ r.writes ∧ CopyOf src v w) ∨ v.deleted = true ∧ versions.length = 1

section

variable {s : FileInfo → Step} {vs : List FileInfo} {v : FileInfo} {w : Write}

theorem moveVersions_count_le : (moveVersions s vs).count ≤ vs.length := by
  induction vs with
  | nil => exact le_rfl
  | cons v vs ih =>
    unfold moveVersions
    split <;> simp only [length_cons] <;> omega

/-- The counter reaches the number of versions only if no version is passed over. -/
theorem moveVersions_count_eq_length_iff :
    (moveVersions s vs).count = vs.length ↔ ∀ v ∈ vs, (s v).counts = true := by
  induction vs with
  | nil => simp [moveVersions]
  | cons v vs ih =>
    have hle : (moveVersions s vs).count ≤ vs.length := moveVersions_count_le
    rw [forall_mem_cons, ← ih]
    cases hv : s v <;> simp [moveVersions, hv, Step.counts] <;> omega

theorem moveVersions_writes_cons (h : (s v).counts = true) :
    (moveVersions s (v :: vs)).writes =
      (s v).write.toList.map (v, ·) ++ (moveVersions s vs).writes := by
  cases hv : s v <;> simp [hv, Step.counts, Step.write, moveVersions] at h ⊢

theorem mem_moveVersions_writes (h : ∀ v ∈ vs, (s v).counts = true) :
    (v, w) ∈ (moveVersions s vs).writes ↔ v ∈ vs ∧ w ∈ (s v).write := by
  induction vs with
  | nil => simp [moveVersions]
  | cons x vs ih =>
    obtain ⟨hx, hvs⟩ := forall_mem_cons.mp h
    have hhead : (v, w) ∈ (s x).write.toList.map (x, ·) ↔ v = x ∧ w ∈ (s x).write := by
      simp [eq_comm, and_comm]
    rw [moveVersions_writes_cons hx, mem_append, ih hvs, hhead, mem_cons]
    constructor
    · rintro (⟨rfl, hw⟩ | ⟨hv, hw⟩)
      · exact ⟨.inl rfl, hw⟩
      · exact ⟨.inr hv, hw⟩
    · rintro ⟨rfl | hv, hw⟩
      · exact .inl ⟨rfl, hw⟩
      · exact .inr ⟨hv, hw⟩

theorem moveEntry_deletes_iff {vs : List FileInfo} :
    (moveEntry s vs).deletes = true ↔ ∀ v ∈ vs, (s v).counts = true := by
  have hperm : (sortVersions vs).Perm vs := perm_insertionSort _ _
  rw [moveEntry, beq_iff_eq, ← hperm.length_eq, moveVersions_count_eq_length_iff]
  exact forall_congr' fun v => by rw [hperm.mem_iff]

/-- An entry that is deleted has for each version exactly what its own step wrote. -/
theorem moveEntry_writes {vs : List FileInfo} (h : (moveEntry s vs).deletes = true) (hv : v ∈ vs) :
    (v, w) ∈ (moveEntry s vs).writes ↔ w ∈ (s v).write := by
  have hperm : (sortVersions vs).Perm vs := perm_insertionSort _ _
  have hall := moveEntry_deletes_iff.mp h
  rw [moveEntry, mem_moveVersions_writes fun v hv => hall v (hperm.mem_iff.mp hv)]
  exact and_iff_right (hperm.mem_iff.mpr hv)

end

end Rustfs.DataMovement
