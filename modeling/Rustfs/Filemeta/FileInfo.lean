import Rustfs.Filemeta.Replication
import Rustfs.Lib.Parts
import Rustfs.Lib.Stream

/-! The metadata of one version of an object, as the set layer passes it to the disks. -/
namespace Rustfs

def reservedMetadataPrefixLower : String := "x-rustfs-internal-"

def transitionComplete : String := "complete"

/-- The hyphenated text of a UUID. -/
def Uuid.display (u : Uuid) : String :=
  String.ofList ((List.range 32).flatMap fun i =>
    (if i ∈ [8, 12, 16, 20] then ['-'] else []) ++ [Nat.digitChar (u.toNat / 16 ^ (31 - i) % 16)])

structure ObjectPartInfo where
  etag : String := ""
  number : ℕ := 0
  size : ℕ := 0
  actualSize : ℤ := 0
  index : Option Bytes := none
  deriving DecidableEq

structure ErasureInfo where
  dataBlocks : ℕ := 0
  parityBlocks : ℕ := 0
  blockSize : ℕ := 0
  index : ℕ := 0
  distribution : List ℕ := []
  deriving DecidableEq

structure FileInfo where
  versionId : Option Uuid := none
  deleted : Bool := false
  transitionStatus : String := ""
  transitionedObjname : String := ""
  transitionTier : String := ""
  transitionVersionId : Option Uuid := none
  expireRestored : Bool := false
  dataDir : Option Uuid := none
  modTime : Option Time := none
  size : ℤ := 0
  metadata : StrMap String := ∅
  parts : List ObjectPartInfo := []
  erasure : ErasureInfo := {}
  markDeleted : Bool := false
  replicationStateInternal : Option ReplicationState := none
  data : Option Bytes := none
  fresh : Bool := false
  checksum : Option Bytes := none
  deriving DecidableEq

namespace FileInfo

variable (fi : FileInfo)

def isValid : Bool :=
  fi.deleted ||
    (decide (fi.erasure.dataBlocks ≥ fi.erasure.parityBlocks) && decide (fi.erasure.dataBlocks > 0) &&
      (decide (fi.erasure.index > 0) &&
        decide (fi.erasure.index ≤ fi.erasure.dataBlocks + fi.erasure.parityBlocks) &&
        fi.erasure.distribution.length == fi.erasure.dataBlocks + fi.erasure.parityBlocks))

/-- The part an offset falls into, with the offset inside it; `none` is "part not found". -/
def toPartOffset (offset : ℕ) : Option (ℕ × ℕ) :=
  if offset = 0 then some (0, 0) else Parts.locate (fi.parts.map ObjectPartInfo.size) offset

def versionPurgeStatus : VersionPurgeStatusType :=
  (fi.replicationStateInternal.map (·.compositeVersionPurgeStatus)).getD .empty

def deleteMarkerReplicationStatus : ReplicationStatusType :=
  if fi.deleted then
    (fi.replicationStateInternal.map (·.compositeReplicationStatus)).getD .empty
  else .empty

end FileInfo

end Rustfs
