import Rustfs.Error
import Rustfs.Filemeta.Version

/-! What the object layer is asked with, and what it answers about an object. -/
namespace Rustfs

structure ObjectInfo where
  name : String := ""
  modTime : Option Time := none
  versionId : Option Uuid := none
  deleteMarker : Bool := false
  etag : Option String := none
  versionPurgeStatus : VersionPurgeStatusType := .empty
  deriving DecidableEq

namespace ObjectInfo

/-- The etag of a single part is an MD5 sum in hexadecimal, that of several parts is longer. -/
def isMultipart (oi : ObjectInfo) : Bool := oi.etag.any (·.utf8ByteSize != 32)

def fromFileInfo (fi : FileInfo) (object : String) (versioned : Bool) : ObjectInfo where
  name := decodeDirObject object
  modTime := fi.modTime
  versionId := if versioned && fi.versionId.isNone then some Uuid.nil else fi.versionId
  deleteMarker := fi.deleted
  etag := fi.metadata.lookup "etag"
  versionPurgeStatus := fi.versionPurgeStatus

end ObjectInfo

structure ObjectOptions where
  versioned : Bool := false
  versionSuspended : Bool := false
  versionId : Option Uuid := none
  modTime : Option Time := none
  srcPoolIdx : ℕ := 0
  dataMovement : Bool := false
  deleteMarker : Bool := false
  skipDecommissioned : Bool := false
  skipRebalancing : Bool := false
  metadataChg : Bool := false
  replicationRequest : Bool := false
  deleteReplication : Option ReplicationState := none

namespace ObjectOptions

def versionPurgeStatus (opts : ObjectOptions) : VersionPurgeStatusType :=
  (opts.deleteReplication.map (·.compositeVersionPurgeStatus)).getD .empty

def deleteMarkerReplicationStatus (opts : ObjectOptions) : ReplicationStatusType :=
  (opts.deleteReplication.map (·.compositeReplicationStatus)).getD .empty

end ObjectOptions

end Rustfs
