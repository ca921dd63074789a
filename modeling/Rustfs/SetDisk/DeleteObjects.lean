import Rustfs.Error
import Rustfs.Filemeta.Version

/-! Deleting many objects at once: in one set of drives, in the sets of a pool, and in all pools. -/
namespace Rustfs

open ErrorReduce

structure ObjectToDelete where
  objectName : String
  versionId : Option Uuid := none
  deriving DecidableEq

structure DeletedObject where
  deleteMarker : Bool := false
  deleteMarkerVersionId : Option Uuid := none
  objectName : String := ""
  versionId : Option Uuid := none
  found : Bool := false
  deriving DecidableEq

/-- What the versioning configuration of the bucket says. -/
structure VersioningConfig where
  suspended : Bool := false
  prefixEnabled : String → Bool := fun _ => false

/-- The request asks for a delete marker. -/
def VersioningConfig.marks (cfg : VersioningConfig) (o : ObjectToDelete) : Bool :=
  o.versionId.isNone && (cfg.suspended || cfg.prefixEnabled o.objectName)

/-- A version that the drives are to delete, or the marker they are to write. -/
structure DeleteEntry where
  idx : ℕ
  versionId : Option Uuid
  deleted : Bool
  deriving DecidableEq

/-- What one call meets in a set: the locks that are refused, the fresh ids, and the answers of the
drives to the versions of one object; `none` is a drive that is offline. -/
structure SetDelete where
  locks : String → Option String := fun _ => none
  fresh : ℕ → Uuid
  drives : List (Option (String → List DeleteEntry → Option DiskError))
  order : ErrOrder

namespace SetDelete

variable (set : SetDelete) (cfg : VersioningConfig) (bucket : String)

def entry (i : ℕ) (o : ObjectToDelete) : DeleteEntry where
  idx := i
  versionId :=
    if cfg.marks o && cfg.prefixEnabled o.objectName then some (set.fresh i) else o.versionId
  deleted := cfg.marks o

variable (objects : List ObjectToDelete)

/-- All entries of one object, in the order of the request. -/
def group (name : String) : List DeleteEntry :=
  objects.zipIdx.filterMap fun p =>
    if p.1.objectName = name then some (set.entry cfg p.2 p.1) else none

/-- The entries are sorted with the markers last, and cut after the first marker. -/
def kept (entries : List DeleteEntry) : List DeleteEntry :=
  let sorted := entries.filter (!·.deleted) ++ entries.filter (·.deleted)
  match sorted.findIdx? (·.deleted) with
  | some i => sorted.take (i + 1)
  | none => sorted

/-- The entries of an object that are sent to the drives. -/
def sent (name : String) : List DeleteEntry :=
  if (set.locks name).isSome then [] else kept (set.group cfg objects name)

variable (i : ℕ) (o : ObjectToDelete)

/-- What one drive answers for the `i`-th object, whose entry may have been left out. -/
def driveErr (drive : Option (String → List DeleteEntry → Option DiskError)) : Option DiskError :=
  let entries := set.sent cfg objects o.objectName
  if entries.any (·.idx == i) then
    match drive with
    | some answer => answer o.objectName entries
    | none => some .diskNotFound
  else none

def driveErrs : List (Option DiskError) :=
  set.drives.map (set.driveErr cfg objects i o)

def writeQuorum : ℕ := set.drives.length / 2 + 1

/-- The error that the drives agree on. -/
def setErr : Option DiskError :=
  reduceWriteQuorumErrs set.order (set.driveErrs cfg objects i o) objectOpIgnoredErrs set.writeQuorum

def deletedObject : DeletedObject :=
  let vr := set.entry cfg i o
  if vr.deleted then
    { deleteMarker := true, deleteMarkerVersionId := vr.versionId, objectName := o.objectName }
  else { objectName := o.objectName, versionId := vr.versionId }

/-- What `SetDisks::delete_objects` answers for the `i`-th object. -/
def result : DeletedObject × Option StorageError :=
  let del := set.deletedObject cfg i o
  let lockErr := (set.locks o.objectName).map StorageError.other
  match set.setErr cfg objects i o with
  | none => ({ del with found := true }, lockErr)
  | some err =>
    let er := StorageError.ofDisk err
    if (er.isErrObjectNotFound || er.isErrVersionNotFound) && !del.deleteMarker then (del, lockErr)
    else
      (del, some (er.toObjectErr
        (if del.versionId.isSome then
          [bucket, o.objectName, (o.versionId.getD Uuid.nil).display]
        else [bucket, o.objectName])))

def deleteObjects : List (DeletedObject × Option StorageError) :=
  objects.mapIdx fun i o => set.result cfg bucket objects i o

end SetDelete

/-- The sets of a pool, and the set that an object is in. -/
structure PoolDelete where
  setOf : String → ℕ
  sets : ℕ → SetDelete

namespace PoolDelete

variable (pool : PoolDelete) (cfg : VersioningConfig) (bucket : String)

/-- The set of the object, the objects of the request that are in it, and the position there of the
`i`-th object of the request. -/
def set (o : ObjectToDelete) : SetDelete := pool.sets (pool.setOf o.objectName)

def inSet (o o' : ObjectToDelete) : Bool := pool.setOf o'.objectName == pool.setOf o.objectName

variable (objects : List ObjectToDelete)

def setObjects (o : ObjectToDelete) : List ObjectToDelete :=
  objects.filter (pool.inSet o)

def position (i : ℕ) (o : ObjectToDelete) : ℕ :=
  (objects.take i).countP (pool.inSet o)

/-- `Sets::delete_objects`: each set deletes its own objects, and the answers go back to the places
of the request. -/
def deleteObjects : List (DeletedObject × Option StorageError) :=
  objects.mapIdx fun i o =>
    (((pool.set o).deleteObjects cfg bucket (pool.setObjects objects o))[pool.position objects i o]?).getD
      ({}, none)

end PoolDelete

/-- One pass over the pools' answers for an object: the first that found it is taken, else the first
error, or the last answer if there is none. -/
def mergeAnswers : DeletedObject × Option StorageError →
    List (DeletedObject × Option StorageError) → DeletedObject × Option StorageError
  | acc, [] => acc
  | acc, (del, err) :: rest =>
    if err.isNone && del.found then (del, none)
    else mergeAnswers (if acc.2.isNone then (del, err) else acc) rest

/-- A store and the pools it is made of, of which there is one at least. -/
structure StoreDelete where
  cfg : VersioningConfig
  bucket : String
  first : PoolDelete
  rest : List PoolDelete

namespace StoreDelete

variable (store : StoreDelete)

def pools : List PoolDelete := store.first :: store.rest

variable (objects : List ObjectToDelete)

def encoded : List ObjectToDelete :=
  objects.map fun o => { o with objectName := encodeDirObject o.objectName }

/-- `handle_delete_objects`. -/
def deleteObjects : List (DeletedObject × Option StorageError) :=
  let results := store.pools.map fun pool =>
    pool.deleteObjects store.cfg store.bucket (encoded objects)
  (List.range objects.length).map fun idx =>
    let merged := mergeAnswers ({}, none) (results.map fun r => r.getD idx ({}, none))
    ({ merged.1 with objectName := decodeDirObject merged.1.objectName }, merged.2)

end StoreDelete

end Rustfs
