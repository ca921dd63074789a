import Mathlib.Data.List.Sort
import Rustfs.SetDisk.Delete

/-! The pools of a store: where an object is looked up, put and deleted. -/
namespace Rustfs

open Except

/-- A version as one pool of the store has taken it. -/
structure Write where
  pool : ℕ
  versionId : Option Uuid
  modTime : Option Time
  deleted : Bool
  deriving DecidableEq

/-- What a delete request leaves in a pool: a delete marker, or nothing. -/
def Write.ofDelete (pool : ℕ) (fi : FileInfo) : Option Write :=
  if fi.deleted then
    some { pool := pool, versionId := fi.versionId, modTime := fi.modTime, deleted := true }
  else none

theorem Write.pool_of_mem_ofDelete {p : ℕ} {fi : FileInfo} {w : Write}
    (h : w ∈ Write.ofDelete p fi) : w.pool = p := by
  unfold Write.ofDelete at h
  split at h
  · cases h
    rfl
  · cases h

structure PoolObjInfo where
  index : ℕ := 0
  objectInfo : ObjectInfo := {}
  err : Option StorageError := none
  deriving DecidableEq

/-- What one call meets in the store: the outcome of its argument check, the pools that are left
out, their answers about the object, and how the chosen pool's own operation ends. -/
structure StoreCall where
  args : Option StorageError := none
  suspended : ℕ → Bool := fun _ => false
  rebalancing : ℕ → Bool := fun _ => false
  /-- `get_object_info` of every pool, asked for the latest version -/
  infos : List (Except StorageError ObjectInfo)
  /-- whether `list_multipart_uploads` of a pool finds an upload of the object -/
  uploads : List (Except StorageError Bool) := []
  /-- `get_available_pool_idx` -/
  available : Option ℕ := none
  failure : Option StorageError := none

/-- A result that stands unless the call failed. -/
def unlessErr {α : Type} (err : Option StorageError) (a : α) : Except StorageError α :=
  match err with
  | some e => .error e
  | none => .ok a

theorem unlessErr_eq_ok_iff {α : Type} {err : Option StorageError} {a b : α} :
    unlessErr err a = .ok b ↔ err = none ∧ a = b := by
  cases err <;> simp [unlessErr]

namespace StoreCall

variable (call : StoreCall) (bucket object : String) (opts : ObjectOptions)

def singlePool : Bool := call.infos.length == 1

/-- The pools' answers, the newest object first. -/
def poolObjInfos : List PoolObjInfo :=
  (call.infos.mapIdx fun i res =>
      match res with
      | .ok oi => { index := i, objectInfo := oi : PoolObjInfo }
      | .error e => { index := i, err := some e }).insertionSort
    fun a b => b.objectInfo.modTime.getD 0 ≤ a.objectInfo.modTime.getD 0

/-- The loop over the pools' answers; `defPool` is the last pool without the object. -/
def scanPools : Option PoolObjInfo → List PoolObjInfo → Except StorageError PoolObjInfo
  | defPool, [] =>
    match defPool with
    | some pinfo =>
      if opts.replicationRequest && opts.deleteMarker then .ok pinfo
      else .error (.objectNotFound bucket object)
    | none => .error (.objectNotFound bucket object)
  | defPool, pinfo :: rest =>
    if opts.skipDecommissioned && call.suspended pinfo.index then scanPools defPool rest
    else if opts.skipRebalancing && call.rebalancing pinfo.index then scanPools defPool rest
    else
      match pinfo.err with
      | none => .ok pinfo
      | some err =>
        if err == .erasureReadQuorum && !opts.metadataChg then .ok pinfo
        else if !err.isErrObjectNotFound && !err.isErrVersionNotFound then .error err
        else if pinfo.objectInfo.deleteMarker && pinfo.objectInfo.name != "" then .ok pinfo
        else scanPools (some pinfo) rest

def getPoolInfoExistingWithOpts : Except StorageError PoolObjInfo :=
  call.scanPools bucket object opts none call.poolObjInfos

/-- The pool that has the object already, or one with space for it. -/
def getPoolIdx : Except StorageError ℕ :=
  match call.getPoolInfoExistingWithOpts bucket object
      { skipDecommissioned := true, skipRebalancing := true } with
  | .ok pinfo => .ok pinfo.index
  | .error err =>
    if !err.isErrObjectNotFound then .error err
    else
      match call.available with
      | some idx => .ok idx
      | none => .error .diskFull

/-- The pool of `get_pool_idx`, which must not be the one the data is moved away from. -/
def movedPool (version : String) : Except StorageError ℕ :=
  match call.getPoolIdx bucket object with
  | .error err => .error err
  | .ok idx =>
    if opts.dataMovement && idx == opts.srcPoolIdx then
      .error (.dataMovementOverwriteErr bucket object version)
    else .ok idx

/-- The pool `handle_put_object` writes to. -/
def putPool : Except StorageError ℕ :=
  if call.singlePool then .ok 0
  else call.movedPool bucket (encodeDirObject object) opts
    ((opts.versionId.map Uuid.display).getD "")

/-- `put_object` of pool `idx`. -/
def poolPut (now : Time) (idx : ℕ) : Except StorageError Write :=
  unlessErr call.failure
    { pool := idx, versionId := opts.versionId, modTime := some (opts.modTime.getD now)
      deleted := false }

def handlePutObject (now : Time) : Except StorageError Write :=
  match call.args with
  | some e => .error e
  | none =>
    match call.putPool bucket object opts with
    | .error e => .error e
    | .ok idx => call.poolPut opts now idx

/-- The first pool in use that has an upload of the object, from pool `idx` on. -/
def poolWithUpload : ℕ → List (Except StorageError Bool) → Except StorageError (Option ℕ)
  | _, [] => .ok none
  | idx, res :: rest =>
    if call.suspended idx || call.rebalancing idx then poolWithUpload (idx + 1) rest
    else
      match res with
      | .error e => .error e
      | .ok true => .ok (some idx)
      | .ok false => poolWithUpload (idx + 1) rest

/-- The pool `handle_new_multipart_upload` opens the upload in. -/
def uploadPool : Except StorageError ℕ :=
  if call.singlePool then .ok 0
  else
    match call.poolWithUpload 0 call.uploads with
    | .error e => .error e
    | .ok (some idx) => .ok idx
    | .ok none => call.movedPool bucket object opts ""

/-- `handle_new_multipart_upload`, the parts, and `handle_complete_multipart_upload`, which finds
the upload by its id in the pool that opened it. -/
def handleMultipartUpload (now : Time) : Except StorageError Write :=
  match call.args with
  | some e => .error e
  | none =>
    match call.uploadPool bucket object opts with
    | .error e => .error e
    | .ok idx => call.poolPut opts now idx

/-- `handle_delete_object` for a version that is moved to another pool; `set` is the set of the
pool it is found in. -/
def handleDeleteObject (set : SetDisks.DeleteCall) (now : Time) :
    Except StorageError (Option Write) :=
  match call.args with
  | some e => .error e
  | none =>
    match call.getPoolInfoExistingWithOpts bucket (encodeDirObject object) opts with
    | .error e => .error (if e.isErrReadQuorum then .erasureWriteQuorum else e)
    | .ok pinfo =>
      if pinfo.objectInfo.deleteMarker && opts.versionId.isNone then .ok none
      else if opts.srcPoolIdx == pinfo.index then
        .error (.dataMovementOverwriteErr bucket (encodeDirObject object)
          ((opts.versionId.map Uuid.display).getD ""))
      else
        (SetDisks.deleteObject now set bucket (encodeDirObject object) opts).map
          (Write.ofDelete pinfo.index)

/-- The pool that is chosen for moved data is not `src`: the store has other pools, and of those in
use `src` is not the first with an upload of the object. -/
def AvoidsPool (src : ℕ) (multipart : Bool) : Prop :=
  if call.singlePool then src ≠ 0
  else multipart = true → call.poolWithUpload 0 call.uploads ≠ .ok (some src)

/-- The delete marker of a moved version is left in the pool the version is found in, under its
own id: without an id, that pool's latest version is no delete marker. -/
def LeavesMarker (set : SetDisks.DeleteCall) : Prop :=
  set.LeavesMarker opts.versionId ∧
    (opts.versionId = none → ∀ pinfo,
      call.getPoolInfoExistingWithOpts bucket (encodeDirObject object) opts = .ok pinfo →
        pinfo.objectInfo.deleteMarker = false)

variable {call bucket object opts} {idx : ℕ} {now : Time} {w : Write}

section

variable (hm : opts.dataMovement = true)
include hm

theorem movedPool_ne_src {v : String}
    (h : call.movedPool bucket object opts v = .ok idx) : idx ≠ opts.srcPoolIdx := by
  unfold movedPool at h
  split at h
  · cases h
  · split_ifs at h with hne
    cases h
    simpa [hm] using hne

theorem putPool_ne_src_iff (h : call.putPool bucket object opts = .ok idx) :
    idx ≠ opts.srcPoolIdx ↔ call.AvoidsPool opts.srcPoolIdx false := by
  unfold putPool at h
  unfold AvoidsPool
  split at h
  · cases h
    simp [*, eq_comm]
  · simp [*, movedPool_ne_src hm h]

theorem uploadPool_ne_src_iff (h : call.uploadPool bucket object opts = .ok idx) :
    idx ≠ opts.srcPoolIdx ↔ call.AvoidsPool opts.srcPoolIdx true := by
  unfold uploadPool at h
  unfold AvoidsPool
  split at h
  · cases h
    simp [*, eq_comm]
  · split at h
    · cases h
    · cases h
      simp [*]
    · simp [*, movedPool_ne_src hm h]

end

theorem poolPut_eq_ok (h : call.poolPut opts now idx = .ok w) :
    w = { pool := idx, versionId := opts.versionId, modTime := some (opts.modTime.getD now)
          deleted := false } :=
  (unlessErr_eq_ok_iff.mp h).2.symm

theorem handlePutObject_eq_ok (h : call.handlePutObject bucket object opts now = .ok w) :
    call.putPool bucket object opts = .ok w.pool ∧ call.poolPut opts now w.pool = .ok w := by
  unfold handlePutObject at h
  split at h
  · cases h
  · split at h
    · cases h
    · have hw := poolPut_eq_ok h
      simp_all

theorem handleMultipartUpload_eq_ok
    (h : call.handleMultipartUpload bucket object opts now = .ok w) :
    call.uploadPool bucket object opts = .ok w.pool ∧ call.poolPut opts now w.pool = .ok w := by
  unfold handleMultipartUpload at h
  split at h
  · cases h
  · split at h
    · cases h
    · have hw := poolPut_eq_ok h
      simp_all

theorem handleDeleteObject_leaves_iff {set : SetDisks.DeleteCall} {res : Option Write}
    (hd : opts.deleteMarker = true) (hv : opts.versioned = true)
    (hs : opts.versionSuspended = false)
    (h : call.handleDeleteObject bucket object opts set now = .ok res) :
    (∀ w ∈ res, w.modTime = some (opts.modTime.getD now)) ∧
      ((∃ w ∈ res, w.pool ≠ opts.srcPoolIdx ∧ w.versionId = opts.versionId ∧ w.deleted = true) ↔
        call.LeavesMarker bucket object opts set) := by
  unfold handleDeleteObject at h
  split at h
  · cases h
  split at h
  · cases h
  rename_i pinfo hp
  split at h
  · -- nothing is written: the latest version there is a delete marker already
    rename_i hmark
    obtain ⟨hmark, hnone⟩ := Bool.and_eq_true_iff.mp hmark
    cases h
    refine ⟨by simp, ?_⟩
    simp only [Option.not_mem_none, false_and, exists_false, false_iff, LeavesMarker, not_and]
    intro _ hleaves
    simp [hleaves (Option.isNone_iff_eq_none.mp hnone) pinfo hp] at hmark
  split at h
  · cases h
  rename_i hmark hsrc
  cases hfi : SetDisks.deleteObject now set bucket (encodeDirObject object) opts with
  | error e => simp [hfi, Except.map] at h
  | ok fi =>
  obtain rfl : Write.ofDelete pinfo.index fi = res := by simpa [hfi, Except.map] using h
  obtain ⟨htime, hleaves⟩ := SetDisks.deleteObject_leaves_iff hd hv hs hfi
  have hpool : pinfo.index ≠ opts.srcPoolIdx := fun he => hsrc (by simp [he])
  have hlatest : opts.versionId = none → ∀ p,
      call.getPoolInfoExistingWithOpts bucket (encodeDirObject object) opts = .ok p →
        p.objectInfo.deleteMarker = false := by
    intro hnone p hp'
    obtain rfl := ok.inj (hp.symm.trans hp')
    simpa [hnone] using hmark
  rw [LeavesMarker, and_iff_left hlatest, ← hleaves, Write.ofDelete]
  cases fi.deleted <;> simp [hpool, htime]

end StoreCall

end Rustfs
