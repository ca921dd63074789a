import Rustfs.Bucket.ObjectLock
import Rustfs.Error

/-! The requests that set the retention of a version and that delete versions. -/
namespace Rustfs.ObjectLock

/-- Why a request was not carried out. -/
inductive Refusal where
  | accessDenied (message : String)
  | invalidRequest (message : String)
  | malformedXml (message : String)
  | invalidArgument (message : String)
  | internalError (message : String)
  | forceDeleteForbidden (message : String)
  | storage (err : StorageError)
  /-- A date without a text ends the request's task. -/
  | panicked
  deriving DecidableEq

/-- What the bucket's object lock configuration is found to be. -/
inductive LockConfig where
  | enabled
  | notEnabled
  | missing
  | failed
  deriving DecidableEq

inductive Versioning where
  | enabled
  | suspended
  | off
  deriving DecidableEq

/-- What a request meets: the time, the bucket's configuration, and the errors of the store. -/
structure Context where
  now : Time
  lockConfig : LockConfig
  defaultRetention : Option DefaultRetention
  versioning : Versioning
  /-- The error of `get_object_info`, which otherwise tells what is stored. -/
  readError : Option StorageError
  /-- The error of the update or the deletion, which then does not happen. -/
  storeError : Option StorageError
  /-- The id a new delete marker gets. -/
  freshId : Uuid
  /-- The key is that of a directory. -/
  isDirObject : Bool

/-- The version a request is about: for a directory, the null version where none is named. -/
def Context.versionOf (ctx : Context) (versionId : Option Uuid) : Option Uuid :=
  versionId.or (if ctx.isDirObject then some Uuid.nil else none)

/-- The versions of one key, the latest one first. -/
abbrev Versions : Type := List StoredVersion

def Versions.get (versions : Versions) (versionId : Option Uuid) : Option StoredVersion :=
  match versionId with
  | none => versions.head?
  | some id => versions.find? (·.id = id)

def validateBucketObjectLockEnabled : LockConfig → Except Refusal Unit
  | .enabled => .ok ()
  | .notEnabled => .error (.invalidRequest "Object Lock is not enabled for this bucket")
  | .missing => .error (.invalidRequest "Bucket is missing ObjectLockConfiguration")
  | .failed => .error (.internalError "Failed to get bucket ObjectLockConfiguration")

variable (cal : Calendar)

def retentionTimestampKey : String := "x-rustfs-internal-objectlock-retention-timestamp"

/-- The text of a date, where the request has one: it must be in the future if a mode is set. -/
def retainUntilText (now : Time) (mode : String) : Option Time → Except Refusal String
  | none => .ok ""
  | some retainUntil =>
    if mode ≠ "" ∧ retainUntil ≤ now then
      .error (.invalidArgument "The retain until date must be in the future")
    else
      match cal.formatRfc3339 retainUntil with
      | some text => .ok text
      | none => .error .panicked

def retentionMode : Option String → Except Refusal String
  | none => .ok ""
  | some mode =>
    if mode = compliance ∨ mode = governance then .ok mode
    else .error (.malformedXml
      "The XML you provided was not well-formed or did not validate against our published schema")

/-- What is written into the metadata, in this order. -/
def parseObjectLockRetention (now : Time) (retention : Option ObjectLockRetention) :
    Except Refusal (List (String × String)) :=
  match retention with
  | none => .ok []
  | some v => do
    let mode ← retentionMode v.mode
    let retainUntilDate ← retainUntilText cal now mode v.retainUntilDate
    pure [(modeKey, mode), (retainUntilDateKey, retainUntilDate),
      (retentionTimestampKey, cal.stamp now)]

def insertAll (metadata : Metadata) (entries : List (String × String)) : Metadata :=
  entries.foldl (fun m entry => m.insert entry.1 entry.2) metadata

variable (ctx : Context) (versions : Versions) (versionId : Option Uuid)

/-- Writes the entries into the metadata of the version. -/
def putObjectMetadata (entries : List (String × String)) : Except Refusal Versions :=
  match ctx.storeError with
  | some err => .error (.storage err)
  | none =>
    match versions.get versionId with
    | none => .error (.storage .fileNotFound)
    | some v =>
      if v.deleteMarker then .error (.storage .methodNotAllowed)
      else .ok (versions.map fun w =>
        if w.id = v.id then { w with userDefined := insertAll w.userDefined entries } else w)

/-- The retention that is there may forbid the change. The check is left out where the version
cannot be read. -/
def checkExistingRetention
    (newRetainUntil : Option Time) (bypassGovernance : Bool) : Except Refusal Unit :=
  match ctx.readError, versions.get versionId with
  | none, some existing =>
    match checkRetentionForModification cal ctx.now existing.userDefined newRetainUntil
        bypassGovernance with
    | some reason => .error (.accessDenied (reason.errorMessage cal))
    | none => .ok ()
  | _, _ => .ok ()

structure PutRetention where
  versionId : Option Uuid
  retention : Option ObjectLockRetention
  bypassGovernance : Bool
  deriving DecidableEq

def executePutObjectRetention (req : PutRetention) : Except Refusal Versions := do
  validateBucketObjectLockEnabled ctx.lockConfig
  checkExistingRetention cal ctx versions (ctx.versionOf req.versionId)
    (req.retention.bind (·.retainUntilDate)) req.bypassGovernance
  let evalMetadata ← parseObjectLockRetention cal ctx.now req.retention
  putObjectMetadata ctx versions (ctx.versionOf req.versionId) evalMetadata

/-- A deletion: the version id of the request, the one in the replication header, and the header
that asks for all that starts with the key. -/
structure DeleteRequest where
  versionId : Option Uuid
  sourceVersionId : Option Uuid
  forceDelete : Bool
  bypassGovernance : Bool
  deriving DecidableEq

/-- A delete marker is on top, so a deletion that names no version has nothing to do. -/
def markerOnTop : Bool := (versions.head?).any (·.deleteMarker)

variable (settled force : Bool)

/-- Whether a deletion takes the version away. Without an id, an enabled bucket gets a delete
marker, a suspended one has its null version replaced by it, another one loses the null version;
if it is settled before the drives are asked, nothing happens. -/
def takes (versionId : Option Uuid) (id : Uuid) : Bool :=
  if force then true
  else
    match versionId with
    | some v => v == id
    | none =>
      if settled then false
      else
        match ctx.versioning with
        | .enabled => ctx.freshId == id
        | .suspended | .off => Uuid.nil == id

/-- The delete marker the deletion leaves, if any. -/
def newMarker (versionId : Option Uuid) : Option StoredVersion :=
  if force || versionId.isSome || settled then none
  else
    match ctx.versioning with
    | .enabled => some ⟨ctx.freshId, true, ∅, some ctx.now⟩
    | .suspended => some ⟨Uuid.nil, true, ∅, some ctx.now⟩
    | .off => none

/-- What the store has after a deletion that went through. -/
def afterDelete (versionId : Option Uuid) : Versions :=
  (newMarker ctx settled force versionId).toList ++
    versions.filter fun v => !takes ctx settled force versionId v.id

def notFound (err : StorageError) : Bool := err.isErrObjectNotFound || err.isErrVersionNotFound

/-- The deletion itself: what is not there counts as deleted. -/
def deleteFromStore (versionId : Option Uuid) : Except Refusal Versions :=
  match ctx.storeError with
  | none => .ok (afterDelete ctx versions settled force versionId)
  | some err => if notFound err then .ok versions else .error (.storage err)

/-- What `get_object_info` answers. -/
def getObjectInfo : Except StorageError StoredVersion :=
  match ctx.readError, versions.get versionId with
  | some err, _ => .error err
  | none, none => .error .fileNotFound
  | none, some v => .ok v

/-- Whether the lock lets a deletion go on. One object that cannot be read is not deleted; among
many objects, every one that cannot be read is. -/
def checkDeletion (many : Bool) (versionId : Option Uuid)
    (bypassGovernance : Bool) : Except Refusal Unit :=
  match getObjectInfo ctx versions versionId with
  | .ok v =>
    match checkObjectLockForDeletion cal ctx.now ctx.defaultRetention v bypassGovernance with
    | some reason => .error (.accessDenied (reason.errorMessage cal))
    | none => .ok ()
  | .error err => if many || notFound err then .ok () else .error (.storage err)

/-- The check looks at the version that the request names, the deletion also at the header. Where a
delete marker is on top, `handle_delete_object` returns it. -/
def executeDeleteObject (req : DeleteRequest) : Except Refusal Versions := do
  if ctx.defaultRetention.isSome && req.forceDelete then
    throw (.forceDeleteForbidden "force-delete is forbidden on Object Locking enabled buckets")
  checkDeletion cal ctx versions false (ctx.versionOf req.versionId) req.bypassGovernance
  deleteFromStore ctx versions (markerOnTop versions) req.forceDelete
    (ctx.versionOf (req.versionId.or req.sourceVersionId))

/-- One item of a request that deletes many: here the check looks at the header too, and every item
goes to the drives. -/
def executeDeleteItem (req : DeleteRequest) : Except Refusal Versions := do
  checkDeletion cal ctx versions true (ctx.versionOf (req.versionId.or req.sourceVersionId))
    req.bypassGovernance
  deleteFromStore ctx versions false false (ctx.versionOf req.versionId)

inductive Request where
  | putRetention (req : PutRetention)
  | deleteObject (req : DeleteRequest)
  | deleteItem (req : DeleteRequest)
  deriving DecidableEq

def respond (e : Context × Request) : Except Refusal Versions :=
  match e.2 with
  | .putRetention req => executePutObjectRetention cal e.1 versions req
  | .deleteObject req => executeDeleteObject cal e.1 versions req
  | .deleteItem req => executeDeleteItem cal e.1 versions req

/-- A request that is refused leaves everything as it is. -/
def step (e : Context × Request) : Versions :=
  match respond cal versions e with
  | .ok versions' => versions'
  | .error _ => versions

end Rustfs.ObjectLock
