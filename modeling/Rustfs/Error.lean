import Rustfs.Disk.Error

/-! Errors of the object layer, and how disk errors become them. -/
namespace Rustfs

def globalDirSuffix : List Char := "__XLDIR__".toList

/-- `str::trim_end_matches` with a fixed suffix, which is taken off as often as it stands there. -/
def trimEndMatches (suffix : List Char) : ℕ → List Char → List Char
  | 0, s => s
  | fuel + 1, s =>
    if suffix.isSuffixOf s then trimEndMatches suffix fuel (s.take (s.length - suffix.length)) else s

/-- The name of a directory object ends in a slash again. -/
def decodeDirObject (object : String) : String :=
  let s := object.toList
  if globalDirSuffix.isSuffixOf s then
    String.ofList (trimEndMatches globalDirSuffix s.length s) ++ "/"
  else object

/-- A directory object is stored under a name that does not end in a slash. -/
def encodeDirObject (object : String) : String :=
  let s := object.toList
  if "/".toList.isSuffixOf s then
    String.ofList (trimEndMatches "/".toList s.length s ++ globalDirSuffix)
  else object

inductive StorageError where
  | faultyDisk
  | faultyRemoteDisk
  | diskFull
  | diskNotFound
  | diskAccessDenied
  | driveIsRoot
  | unformattedDisk
  | corruptedFormat
  | corruptedBackend
  | tooManyOpenFiles
  | volumeNotFound
  | volumeExists
  | volumeNotEmpty
  | volumeAccessDenied
  | fileNotFound
  | fileVersionNotFound
  | fileNameTooLong
  | fileAccessDenied
  | fileCorrupt
  | isNotRegular
  | bucketNotFound (bucket : String)
  | bucketExists (bucket : String)
  | bucketNotEmpty (bucket : String)
  | objectNotFound (bucket object : String)
  | objectNameInvalid (bucket object : String)
  | objectExistsAsDirectory (bucket object : String)
  | versionNotFound (bucket object version : String)
  | dataMovementOverwriteErr (bucket object version : String)
  | prefixAccessDenied (bucket object : String)
  | erasureReadQuorum
  | erasureWriteQuorum
  | preconditionFailed
  | insufficientReadQuorum (bucket object : String)
  | insufficientWriteQuorum (bucket object : String)
  | notFirstDisk
  | firstDiskWait
  | storageFull
  | slowDown
  | noHealRequired
  | unexpected
  | methodNotAllowed
  | io (e : IoError)
  deriving Repr, DecidableEq

namespace StorageError

def other (text : String) : StorageError := .io (.plain .other text)

/-- `From<DiskError> for StorageError`. -/
def ofDisk : DiskError → StorageError
  | .io k t => .io (.plain k t)
  | .unexpected => .unexpected
  | .corruptedFormat => .corruptedFormat
  | .corruptedBackend => .corruptedBackend
  | .unformattedDisk => .unformattedDisk
  | .diskFull => .diskFull
  | .diskNotFound => .diskNotFound
  | .driveIsRoot => .driveIsRoot
  | .faultyRemoteDisk => .faultyRemoteDisk
  | .faultyDisk => .faultyDisk
  | .diskAccessDenied => .diskAccessDenied
  | .fileNotFound => .fileNotFound
  | .fileVersionNotFound => .fileVersionNotFound
  | .tooManyOpenFiles => .tooManyOpenFiles
  | .fileNameTooLong => .fileNameTooLong
  | .volumeExists => .volumeExists
  | .isNotRegular => .isNotRegular
  | .volumeNotFound => .volumeNotFound
  | .volumeNotEmpty => .volumeNotEmpty
  | .volumeAccessDenied => .volumeAccessDenied
  | .fileAccessDenied => .fileAccessDenied
  | .fileCorrupt => .fileCorrupt
  | .noHealRequired => .noHealRequired
  | .methodNotAllowed => .methodNotAllowed
  | .erasureReadQuorum => .erasureReadQuorum
  | .erasureWriteQuorum => .erasureWriteQuorum
  | e => .io (.disk e)

/-- `From<io::Error> for StorageError`: a wrapped disk error is taken out again. -/
def ofIo : IoError → StorageError
  | .disk e => ofDisk e
  | e => .io e

/-- The error a caller of the object layer sees, with the names of what was asked for. -/
def toObjectErr (err : StorageError) (params : List String) : StorageError :=
  let bucket := params[0]?.getD ""
  let object := (params[1]?.map decodeDirObject).getD ""
  let version := params[2]?.getD ""
  match err with
  | .diskFull => .storageFull
  | .fileNotFound => .objectNotFound bucket object
  | .fileVersionNotFound => .versionNotFound bucket object version
  | .tooManyOpenFiles => .slowDown
  | .fileNameTooLong => .objectNameInvalid bucket object
  | .volumeExists => .bucketExists bucket
  | .isNotRegular => .objectExistsAsDirectory bucket object
  | .volumeNotFound => .bucketNotFound bucket
  | .volumeNotEmpty => .bucketNotEmpty bucket
  | .fileAccessDenied => .prefixAccessDenied bucket object
  | .erasureReadQuorum => .insufficientReadQuorum bucket object
  | .erasureWriteQuorum => .insufficientWriteQuorum bucket object
  | e => e

def isErrObjectNotFound : StorageError → Bool
  | .fileNotFound | .objectNotFound _ _ => true
  | _ => false

def isErrVersionNotFound : StorageError → Bool
  | .fileVersionNotFound | .versionNotFound _ _ _ => true
  | _ => false

def isErrReadQuorum (err : StorageError) : Bool := err == .erasureReadQuorum

def isErrBucketNotFound : StorageError → Bool
  | .volumeNotFound | .diskNotFound | .bucketNotFound _ => true
  | _ => false

def isErrDataMovementOverwrite : StorageError → Bool
  | .dataMovementOverwriteErr _ _ _ => true
  | _ => false

end StorageError

/-- What a call of the object layer that does not return `Ok` ends in. -/
inductive ObjectFailure where
  | err (e : StorageError)
  | panic
  deriving Repr, DecidableEq

end Rustfs
