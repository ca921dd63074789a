import Rustfs.Filemeta.FileMeta
import Rustfs.StoreApi

/-! The conditions a write may carry, and how they are checked against the metadata of the object. -/
namespace Rustfs

structure HttpPreconditions where
  ifMatch : Option String := none
  ifNoneMatch : Option String := none

/-- `canonicalize_etag`: the last run of characters that are no quotes loses the quotes around it. -/
def canonicalizeEtag (etag : String) : String :=
  let rest := etag.toList.reverse.dropWhile (· == '"')
  String.ofList
    (((rest.dropWhile (· != '"')).dropWhile (· == '"')).reverse ++
      (rest.takeWhile (· != '"')).reverse)

/-- The condition is `*`, which any etag meets. -/
def isAnyEtag (condition : String) : Bool :=
  trimMatches isWhiteSpace condition.toList == ['*']

def eTagMatches (etag condition : String) : Bool :=
  isAnyEtag condition || canonicalizeEtag etag == canonicalizeEtag condition

def shouldPreventWrite (oi : ObjectInfo) (ifNoneMatch ifMatch : Option String) : Bool :=
  match oi.etag with
  | some etag =>
    ifNoneMatch.any (eTagMatches etag) || ifMatch.any fun condition => !eTagMatches etag condition
  | none => ifNoneMatch.isSome || ifMatch.isSome

/-- `get_object_info` without a lock, from what `get_object_fileinfo` answers. -/
def getObjectInfo (bucket object : String) (versioned : Bool)
    (answer : Except StorageError FileInfo) : Except StorageError ObjectInfo :=
  match answer with
  | .ok fi => .ok (.fromFileInfo fi object versioned)
  | .error e => .error (e.toObjectErr [bucket, object])

/-- The errors for which `check_write_precondition` takes the object as not there. -/
def takenAsAbsent : StorageError → Bool
  | .versionNotFound _ _ _ => true
  | .objectNotFound _ _ => true
  | .erasureReadQuorum => true
  | _ => false

def checkWritePrecondition (bucket object : String) (versioned : Bool) (pre : HttpPreconditions)
    (answer : Except StorageError FileInfo) : Option StorageError :=
  match getObjectInfo bucket object versioned answer with
  | .ok oi =>
    if oi.deleteMarker then none
    else if shouldPreventWrite oi pre.ifNoneMatch pre.ifMatch then some .preconditionFailed
    else none
  | .error e =>
    if takenAsAbsent e then
      if pre.ifMatch.isSome then some (.objectNotFound bucket object) else none
    else some e

end Rustfs
