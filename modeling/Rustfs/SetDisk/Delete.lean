import Rustfs.StoreApi

/-! One set of drives: which version a read finds, and what a delete request writes. -/
namespace Rustfs

/-- The version is a leftover of a tiered one, which no read without its id returns. -/
def FileInfo.freeVersion (fi : FileInfo) : Bool :=
  fi.deleted && (fi.metadata.lookup freeVersionKey).isSome

namespace SetDisks

/-- `FileMeta::into_fileinfo`: the version with the id, or the first of all when none is asked
for. -/
def findVersion (versions : List FileInfo) (versionId : Option Uuid) : Option FileInfo :=
  versions.find? fun fi =>
    !(fi.freeVersion && fi.versionId != versionId) && (versionId.isNone || fi.versionId == versionId)

/-- `get_object_reader`, with the versions the set agrees on and the error of reading them. -/
def getObjectReader (versions : List FileInfo) (failure : Option StorageError)
    (bucket object : String) (versionId : Option Uuid) : Except StorageError ObjectInfo :=
  match failure with
  | some e => .error e
  | none =>
    match findVersion versions versionId with
    | none =>
      .error <| if versionId.isNone then .objectNotFound bucket (decodeDirObject object)
        else .versionNotFound bucket (decodeDirObject object) ""
    | some fi =>
      if fi.deleted then
        .error <| if versionId.isNone then .objectNotFound bucket (decodeDirObject object)
          else .methodNotAllowed
      else .ok (.fromFileInfo fi object false)

theorem getObjectReader_eq_ok {vs : List FileInfo} {f : Option StorageError}
    {b o : String} {v : Option Uuid} {oi : ObjectInfo} (h : getObjectReader vs f b o v = .ok oi) :
    findVersion vs v ≠ none ∧
      ∀ fi ∈ findVersion vs v, fi.deleted = false ∧ oi = .fromFileInfo fi o false := by
  unfold getObjectReader at h
  split at h
  · cases h
  split at h
  · cases h
  rename_i fi hfi
  split_ifs at h with hdel
  cases h
  simpa [hfi] using hdel

/-- What a delete request meets in the set: the version it is about, the replication state the
bucket's rules give it, a fresh id, and how the lock and the drives answer. -/
structure DeleteCall where
  lock : Option StorageError := none
  /-- `get_object_fileinfo` -/
  held : Except StorageError FileInfo
  replication : Option ReplicationState := none
  freshId : Uuid
  /-- `delete_object_version` -/
  failure : Option StorageError := none

variable (opts : ObjectOptions) (goi : Option ObjectInfo)

/-- The version that is found is only marked, for a replication that is still to happen. -/
def marksDelete : Bool :=
  goi.any (·.versionId.isSome) &&
    !(opts.versionId.isSome &&
      (goi.isSome && opts.deleteMarkerReplicationStatus == .replica ||
        opts.versionPurgeStatus == .empty && opts.deleteMarkerReplicationStatus == .empty ||
        opts.versionPurgeStatus == .complete))

/-- The request writes a delete marker, unless it names a version that is not one. -/
def makesMarker : Bool :=
  opts.versioned &&
    !(opts.versionId.isSome && goi.any fun g => g.versionPurgeStatus != .empty || !g.deleteMarker)

/-- The version `delete_object` hands to the drives. -/
def deleteFileInfo (now : Time) (freshId : Uuid) : FileInfo :=
  let fi : FileInfo :=
    { versionId := opts.versionId
      deleted := makesMarker opts goi
      markDeleted := marksDelete opts goi
      modTime := some (opts.modTime.getD now)
      replicationStateInternal := opts.deleteReplication }
  if marksDelete opts goi && (opts.versioned || opts.versionSuspended) then
    { fi with
      deleted := fi.deleted || opts.versionSuspended && opts.versionId.isNone
      versionId := opts.versionId <|> if opts.versioned then some freshId else none }
  else fi

/-- `SetDisks::delete_object` without `delete_prefix`. -/
def deleteObject (now : Time) (call : DeleteCall) (bucket object : String) (opts : ObjectOptions) :
    Except StorageError FileInfo :=
  match call.lock with
  | some e => .error e
  | none =>
    let delete (goi : Option ObjectInfo) : Except StorageError FileInfo :=
      let opts :=
        if call.replication.isSome then { opts with deleteReplication := call.replication } else opts
      match call.failure with
      | some e => .error (e.toObjectErr [bucket, object])
      | none => .ok (deleteFileInfo opts goi now call.freshId)
    match call.held with
    | .ok fi => delete (some (.fromFileInfo fi object (opts.versioned || opts.versionSuspended)))
    | .error e => if opts.deleteMarker then delete none else .error e

/-- The delete marker of a versioned request is left under the id it was asked for. With an id
that takes a set without the version, or with it as a marker that is not purged; without an id it
takes a set in which nothing is found, since otherwise a fresh id is given out. -/
def DeleteCall.LeavesMarker (call : DeleteCall) (versionId : Option Uuid) : Prop :=
  match versionId with
  | some _ => ∀ fi, call.held = .ok fi → fi.deleted = true ∧ fi.versionPurgeStatus = .empty
  | none => ∃ e, call.held = .error e

variable {opts goi} {now : Time} {f : Uuid}

theorem deleteFileInfo_modTime :
    (deleteFileInfo opts goi now f).modTime = some (opts.modTime.getD now) := by
  unfold deleteFileInfo
  split <;> rfl

/-- Where no version is read, a marker is what a versioned request leaves. -/
@[simp] theorem deleteFileInfo_none_deleted :
    (deleteFileInfo opts none now f).deleted = opts.versioned := by
  simp [deleteFileInfo, marksDelete, makesMarker]

theorem deleteFileInfo_deleted (hs : opts.versionSuspended = false) :
    (deleteFileInfo opts goi now f).deleted = makesMarker opts goi := by
  unfold deleteFileInfo
  split <;> simp [hs]

theorem deleteFileInfo_versionId (hv : opts.versioned = true) :
    (deleteFileInfo opts goi now f).versionId =
      (opts.versionId <|> if marksDelete opts goi then some f else none) := by
  unfold deleteFileInfo
  split <;> rename_i hm
  · simp [(Bool.and_eq_true_iff.mp hm).1]
  · have : marksDelete opts goi = false := by simpa [hv] using hm
    simp [this]

theorem deleteFileInfo_leaves_iff (hv : opts.versioned = true) (hs : opts.versionSuspended = false)
    (hid : ∀ g ∈ goi, g.versionId.isSome) :
    (deleteFileInfo opts goi now f).deleted = true ∧
        (deleteFileInfo opts goi now f).versionId = opts.versionId ↔
      match opts.versionId with
      | some _ => ∀ g ∈ goi, g.deleteMarker = true ∧ g.versionPurgeStatus = .empty
      | none => goi = none := by
  rw [deleteFileInfo_deleted hs, deleteFileInfo_versionId hv]
  cases hvid : opts.versionId with
  | some id => cases goi <;> simp [makesMarker, hv, hvid, and_comm]
  | none =>
    cases goi with
    | none => simp [makesMarker, marksDelete, hv, hvid]
    | some g => simp [marksDelete, hvid, hid g rfl]

variable {c : DeleteCall} {bucket o : String} {fi : FileInfo}
  (hd : opts.deleteMarker = true)
include hd

theorem deleteObject_ok_iff : deleteObject now c bucket o opts = .ok fi ↔
      c.lock = none ∧ c.failure = none ∧
        deleteFileInfo
          (if c.replication.isSome then { opts with deleteReplication := c.replication }
            else opts)
          (c.held.toOption.map
            (.fromFileInfo · o (opts.versioned || opts.versionSuspended))) now c.freshId = fi := by
  unfold deleteObject
  cases c.lock <;> cases c.failure <;> cases c.held <;> simp [hd, Except.toOption]

/-- A request that succeeds leaves the marker it was made for exactly under `LeavesMarker`. -/
theorem deleteObject_leaves_iff (hv : opts.versioned = true) (hs : opts.versionSuspended = false)
    (h : deleteObject now c bucket o opts = .ok fi) :
    fi.modTime = some (opts.modTime.getD now) ∧
      (fi.deleted = true ∧ fi.versionId = opts.versionId ↔ c.LeavesMarker opts.versionId) := by
  obtain ⟨-, -, rfl⟩ := (deleteObject_ok_iff hd).mp h
  set opts' :=
    if c.replication.isSome then { opts with deleteReplication := c.replication } else opts
    with hopts
  have hid : opts'.versionId = opts.versionId := by rw [hopts]; split <;> rfl
  have ht : opts'.modTime = opts.modTime := by rw [hopts]; split <;> rfl
  have hv' : opts'.versioned = true := by rw [hopts]; split <;> exact hv
  have hs' : opts'.versionSuspended = false := by rw [hopts]; split <;> exact hs
  refine ⟨by rw [deleteFileInfo_modTime, ht], ?_⟩
  rw [← hid, deleteFileInfo_leaves_iff hv' hs' ?_]
  · cases opts'.versionId <;> cases hh : c.held <;>
      simp [DeleteCall.LeavesMarker, hh, Except.toOption, ObjectInfo.fromFileInfo]
  · cases c.held with
    | error e => simp [Except.toOption]
    | ok fi =>
      simp only [Except.toOption, Option.map_some, Option.mem_some_iff, forall_eq',
        ObjectInfo.fromFileInfo, hv, Bool.true_or, Bool.true_and]
      cases fi.versionId <;> rfl

end SetDisks

end Rustfs
