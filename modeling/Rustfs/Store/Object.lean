import Rustfs.Path
import Rustfs.Store.Pools

/-! The requests of a store about objects, and the pools whose drives they change. -/
namespace Rustfs

/-- A bucket, and the name under which an object is stored in it. -/
abbrev ObjectKey := String × String

/-- What reading the latest version of an object in one pool meets. -/
structure PoolRead where
  lock : Option String := none
  /-- `get_object_fileinfo` -/
  held : Except StorageError FileInfo

/-- `get_object_info` of the pool. -/
def PoolRead.info (r : PoolRead) (bucket object : String) (versioned : Bool) :
    Except StorageError ObjectInfo :=
  match r.lock with
  | some text => .error (.other ("Failed to acquire read lock: " ++ text))
  | none =>
    match r.held with
    | .error e => .error (e.toObjectErr [bucket, object])
    | .ok fi => .ok (.fromFileInfo fi object versioned)

/-- The versions of every object in every pool. -/
structure Store where
  pools : ℕ
  versions : ℕ → ObjectKey → List FileInfo

/-- What one request meets: its argument check, the pools' reads of the object that is looked up,
the pool with space, the pools' own deletes, what the drives of a pool hold of an object after a
change was sent to them, and which versions a deleted prefix leaves. -/
structure ObjectCall where
  args : Option StorageError := none
  now : Time := 0
  reads : ℕ → PoolRead
  available : Option ℕ := none
  deletes : ℕ → SetDisks.DeleteCall
  after : ℕ → ObjectKey → List FileInfo
  keeps : ℕ → ObjectKey → FileInfo → Bool

inductive Request where
  | put (bucket object : String) (opts : ObjectOptions)
  | copy (srcBucket srcObject dstBucket dstObject : String) (srcOpts dstOpts : ObjectOptions)
      (hasReader : Bool)
  | delete (bucket object : String) (opts : ObjectOptions) (deletePrefix : Bool)
  | deleteObjects (bucket : String) (objects : List String)

namespace Store

variable (s : Store) (call : ObjectCall) (bucket object : String)

/-- The pools as a lookup of the object finds them; none is decommissioned or rebalanced. -/
def lookup (versioned : Bool) : StoreCall where
  infos := (List.range s.pools).map fun i => (call.reads i).info bucket object versioned
  available := call.available

variable (opts : ObjectOptions)

/-- The pool and the object that `handle_put_object` writes. -/
def putWrites : List (ℕ × ObjectKey) :=
  match call.args with
  | some _ => []
  | none =>
    match (s.lookup call bucket (encodeDirObject object) false).putPool bucket object opts with
    | .error _ => []
    | .ok idx => [(idx, bucket, encodeDirObject object)]

/-- A copy of an object onto itself that `copy_object` of the pool makes. -/
def copiesInPlace (srcOpts dstOpts : ObjectOptions) : Bool :=
  srcOpts.versionId.isSome && srcOpts.versionId == dstOpts.versionId ||
    !dstOpts.versioned && srcOpts.versionId.isNone ||
    dstOpts.versioned && srcOpts.versionId != dstOpts.versionId

/-- The pool and the object that `handle_copy_object` writes: the pool is that of the source. -/
def copyWrites (srcBucket srcObject dstBucket dstObject : String) (srcOpts dstOpts : ObjectOptions)
    (hasReader : Bool) : List (ℕ × ObjectKey) :=
  let src := encodeDirObject srcObject
  let dst := encodeDirObject dstObject
  match call.args with
  | some _ => []
  | none =>
    match (s.lookup call srcBucket src false).getPoolIdx srcBucket src with
    | .error _ => []
    | .ok idx =>
      if Path.pathJoin srcBucket src == Path.pathJoin dstBucket dst &&
          copiesInPlace srcOpts dstOpts then
        [(idx, srcBucket, src)]
      else if hasReader then [(idx, dstBucket, dst)]
      else []

/-- The version that `delete_object` of pool `i` hands to its drives. -/
def deletedInfo (object : String) (opts : ObjectOptions) (i : ℕ) : FileInfo :=
  let del := call.deletes i
  SetDisks.deleteFileInfo
    (if del.replication.isSome then { opts with deleteReplication := del.replication } else opts)
    (del.held.toOption.map (.fromFileInfo · object (opts.versioned || opts.versionSuspended)))
    call.now del.freshId

/-- `delete_object` of pool `i` changes its drives: the lock is held, a version is read or the
caller asks for a delete marker, and the drives have the object or are forced to take a marker. -/
def deletes (key : ObjectKey) (opts : ObjectOptions) (i : ℕ) : Bool :=
  (call.deletes i).lock.isNone &&
    ((call.deletes i).held.toOption.isSome || opts.deleteMarker) &&
    (!(s.versions i key).isEmpty || (deletedInfo call key.2 opts i).deleted && opts.deleteMarker)

/-- The pools after which `handle_delete_object` stops, in turn. -/
def deleteTurns (key : ObjectKey) (opts : ObjectOptions) : List ℕ → List ℕ
  | [] => []
  | i :: rest =>
    match SetDisks.deleteObject call.now (call.deletes i) key.1 key.2 opts with
    | .ok _ => [i]
    | .error e =>
      if !e.isErrObjectNotFound && !e.isErrVersionNotFound then [i]
      else i :: deleteTurns key opts rest

/-- `pools_with_object`. -/
def poolsWithObject (infos : List (Except StorageError ObjectInfo)) : List ℕ :=
  (List.range infos.length).filter fun i =>
    infos[i]?.any fun res =>
      match res with
      | .ok _ => true
      | .error e => e == .erasureReadQuorum

/-- The pools whose `delete_object` is called by `handle_delete_object`. -/
def deletePools : List ℕ :=
  let lookup := s.lookup call bucket object (opts.versioned || opts.versionSuspended)
  match lookup.getPoolInfoExistingWithOpts bucket object opts with
  | .error _ => []
  | .ok pinfo =>
    let errs :=
      if pinfo.err.isNone || pinfo.err == some .erasureReadQuorum then poolsWithObject lookup.infos
      else []
    if pinfo.objectInfo.deleteMarker && opts.versionId.isNone then []
    else if opts.dataMovement then
      if opts.srcPoolIdx == pinfo.index then [] else [pinfo.index]
    else if !errs.isEmpty && !opts.versioned && !opts.versionSuspended then errs
    else deleteTurns call (bucket, object) opts (List.range s.pools)

def deleteWrites : List (ℕ × ObjectKey) :=
  let key := (bucket, encodeDirObject object)
  match call.args with
  | some _ => []
  | none =>
    ((s.deletePools call bucket (encodeDirObject object) opts).filter (s.deletes call key opts)).map
      fun i => (i, key)

/-- `handle_delete_objects`: every pool is asked, and one without the object changes nothing. -/
def deleteObjectsWrites (bucket : String) (objects : List String) : List (ℕ × ObjectKey) :=
  (List.range s.pools).flatMap fun i =>
    (objects.map fun object => (i, bucket, encodeDirObject object)).filter fun w =>
      !(s.versions w.1 w.2).isEmpty

/-- The objects in the pools whose drives a request changes. -/
def writes : Request → List (ℕ × ObjectKey)
  | .put bucket object opts => s.putWrites call bucket object opts
  | .copy srcBucket srcObject dstBucket dstObject srcOpts dstOpts hasReader =>
    s.copyWrites call srcBucket srcObject dstBucket dstObject srcOpts dstOpts hasReader
  | .delete bucket object opts deletePrefix =>
    if deletePrefix then [] else s.deleteWrites call bucket object opts
  | .deleteObjects bucket objects => s.deleteObjectsWrites bucket objects

/-- The objects that may lose versions with a prefix. -/
def clears : Request → ObjectKey → Bool
  | .delete bucket object _ true, key =>
    call.args.isNone && key.1 == bucket && object.toList.isPrefixOf key.2.toList
  | _, _ => false

/-- One request: what it changes ends as the drives have it, the rest stays. -/
def step (req : Request) : Store where
  pools := s.pools
  versions := fun i key =>
    if (i, key) ∈ s.writes call req then call.after i key
    else if clears call req key then (s.versions i key).filter (call.keeps i key)
    else s.versions i key

def run (s : Store) (reqs : List (ObjectCall × Request)) : Store :=
  reqs.foldl (fun s r => s.step r.1 r.2) s

end Store

end Rustfs
