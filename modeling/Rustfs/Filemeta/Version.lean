import Rustfs.Filemeta.Restore

/-! The versions stored in `xl.meta`: objects and delete markers, with the header kept beside each. -/
namespace Rustfs

def reservedMetadataPrefix : String := "X-RustFS-Internal-"
def rustfsHealing : String := "X-Rustfs-Internal-healing"
def rustfsDataMov : String := "X-Rustfs-Internal-data-mov"
def versionPurgeStatusKey : String := "X-Rustfs-Internal-purgestatus"
def amzRestoreExpiryDays : String := "X-Amz-Restore-Expiry-Days"
def amzRestoreRequestDate : String := "X-Amz-Restore-Request-Date"

def transitionStatusKey : String := reservedMetadataPrefixLower ++ "transition-status"
def transitionedObjectnameKey : String := reservedMetadataPrefixLower ++ "transitioned-object"
def transitionedVersionIdKey : String := reservedMetadataPrefixLower ++ "transitioned-versionID"
def transitionTierKey : String := reservedMetadataPrefixLower ++ "transition-tier"
def freeVersionKey : String := reservedMetadataPrefixLower ++ "free-version"
def inlineDataKey : String := reservedMetadataPrefixLower ++ "inline-data"
def tierFvIdKey : String := reservedMetadataPrefixLower ++ "tier-free-versionID"
def tierSkipFvIdKey : String := reservedMetadataPrefixLower ++ "tier-skip-fvid"

def Uuid.nil : Uuid := 0

/-- The sixteen bytes of a UUID, most significant first. -/
def Uuid.asBytes (u : Uuid) : Bytes :=
  (List.range 16).map fun i => UInt8.ofNat (u.toNat / 256 ^ (15 - i))

inductive VersionType where
  | invalid
  | object
  | delete
  | legacy
  deriving Repr, DecidableEq, Ord

instance : Std.TransOrd VersionType where
  eq_swap {a b} := by cases a <;> cases b <;> rfl
  isLE_trans {a b c} := by cases a <;> cases b <;> cases c <;> decide

instance : Std.LawfulEqOrd VersionType where
  compare_self {a} := by cases a <;> rfl
  eq_of_compare {a b} := by cases a <;> cases b <;> decide

inductive ErasureAlgo where
  | invalid
  | reedSolomon
  deriving Repr, DecidableEq

inductive ChecksumAlgo where
  | invalid
  | highwayHash
  deriving Repr, DecidableEq

structure MetaObject where
  versionId : Option Uuid := none
  dataDir : Option Uuid := none
  erasureAlgorithm : ErasureAlgo := .invalid
  erasureM : ℕ := 0
  erasureN : ℕ := 0
  erasureBlockSize : ℕ := 0
  erasureIndex : ℕ := 0
  erasureDist : List UInt8 := []
  bitrotChecksumAlgo : ChecksumAlgo := .invalid
  partNumbers : List ℕ := []
  partEtags : List String := []
  partSizes : List ℕ := []
  partActualSizes : List ℤ := []
  partIndices : List Bytes := []
  size : ℤ := 0
  modTime : Option Time := none
  metaSys : StrMap Bytes := ∅
  metaUser : StrMap String := ∅
  deriving DecidableEq

structure MetaDeleteMarker where
  versionId : Option Uuid := none
  modTime : Option Time := none
  metaSys : StrMap Bytes := ∅
  deriving DecidableEq

structure FileMetaVersion where
  versionType : VersionType := .invalid
  object : Option MetaObject := none
  deleteMarker : Option MetaDeleteMarker := none
  writeVersion : ℕ := 0
  deriving DecidableEq

structure FileMetaVersionHeader where
  versionId : Option Uuid := none
  modTime : Option Time := none
  signature : List UInt8 := [0, 0, 0, 0]
  versionType : VersionType := .invalid
  flags : BitVec 8 := 0
  ecN : UInt8 := 0
  ecM : UInt8 := 0
  deriving DecidableEq

variable (o : MetaObject) (fi : FileInfo)

namespace MetaObject

/-- The transition to the remote tier has completed. -/
def transitioned : Bool :=
  o.metaSys.lookup transitionStatusKey == some (utf8 transitionComplete)

def usesDataDir (rt : Runtime) (o : MetaObject) : Bool :=
  if o.transitioned then false else isRestoredObjectOnDisk rt o.metaUser

def inlinedata : Bool := (o.metaSys.lookup inlineDataKey).isSome

def resetInlineData : MetaObject :=
  { o with metaSys := o.metaSys.erase inlineDataKey }

def setTransition : MetaObject :=
  let sys := (o.metaSys.insert transitionStatusKey (utf8 fi.transitionStatus)).insert
    transitionedObjectnameKey (utf8 fi.transitionedObjname)
  let sys := match fi.transitionVersionId with
    | some id => sys.insert transitionedVersionIdKey id.asBytes
    | none => sys
  { o with metaSys := sys.insert transitionTierKey (utf8 fi.transitionTier) }

def removeRestoreHdrs : MetaObject :=
  { o with metaUser :=
      ((o.metaUser.erase amzRestore).erase amzRestoreExpiryDays).erase amzRestoreRequestDate }

/-- The key is one of the internal ones, kept apart from the user's metadata. -/
def isSysKey (k : String) : Bool :=
  decide (k.utf8ByteSize > reservedMetadataPrefix.utf8ByteSize) &&
    (reservedMetadataPrefix.toList.isPrefixOf k.toList ||
      reservedMetadataPrefixLower.toList.isPrefixOf k.toList)

def insertIf {β : Type} (p : Bool) (k : String) (v : β) (m : StrMap β) : StrMap β :=
  if p then m.insert k v else m

def ofFileInfo : MetaObject :=
  let sys : StrMap Bytes := fi.metadata.entries.foldl (fun m e =>
    insertIf (isSysKey e.1 && !(e.1 == rustfsHealing || e.1 == rustfsDataMov)) e.1 (utf8 e.2) m) ∅
  let user : StrMap String := fi.metadata.entries.foldl (fun m e =>
    insertIf (!isSysKey e.1) e.1 e.2 m) ∅
  let sys := insertIf (fi.transitionStatus != "") transitionStatusKey (utf8 fi.transitionStatus) sys
  let sys := insertIf (fi.transitionedObjname != "") transitionedObjectnameKey
    (utf8 fi.transitionedObjname) sys
  let sys := match fi.transitionVersionId with
    | some id => sys.insert transitionedVersionIdKey id.asBytes
    | none => sys
  let sys := insertIf (fi.transitionTier != "") transitionTierKey (utf8 fi.transitionTier) sys
  let sys := match fi.checksum with
    | some hash => sys.insert (reservedMetadataPrefixLower ++ "crc") hash
    | none => sys
  { versionId := fi.versionId
    dataDir := fi.dataDir
    size := fi.size
    modTime := fi.modTime
    erasureAlgorithm := .reedSolomon
    erasureM := fi.erasure.dataBlocks
    erasureN := fi.erasure.parityBlocks
    erasureBlockSize := fi.erasure.blockSize
    erasureIndex := fi.erasure.index
    erasureDist := fi.erasure.distribution.map UInt8.ofNat
    bitrotChecksumAlgo := .highwayHash
    partNumbers := fi.parts.map ObjectPartInfo.number
    partEtags := fi.parts.map ObjectPartInfo.etag
    partSizes := fi.parts.map ObjectPartInfo.size
    partActualSizes := fi.parts.map ObjectPartInfo.actualSize
    partIndices := fi.parts.map fun p => p.index.getD []
    metaSys := sys
    metaUser := user }

end MetaObject

namespace FileMetaVersion

def ofFileInfo : FileMetaVersion :=
  if fi.deleted then
    { versionType := .delete
      deleteMarker := some { versionId := fi.versionId, modTime := fi.modTime } }
  else { versionType := .object, object := some (MetaObject.ofFileInfo fi) }

variable (v : FileMetaVersion)

def valid : Bool :=
  match v.versionType with
  | .object =>
    match v.object with
    | some o => o.erasureAlgorithm != .invalid && o.bitrotChecksumAlgo != .invalid && o.modTime.isSome
    | none => false
  | .delete =>
    match v.deleteMarker with
    | some m => decide (m.modTime.getD 0 > 0)
    | none => false
  | _ => false

def getDataDir : Option Uuid :=
  if v.valid && v.versionType == .object then v.object.bind MetaObject.dataDir else none

def getVersionId : Option Uuid :=
  match v.versionType with
  | .object => v.object.bind MetaObject.versionId
  | .delete => v.deleteMarker.bind MetaDeleteMarker.versionId
  | _ => none

def getModTime : Option Time :=
  match v.versionType with
  | .object => v.object.bind MetaObject.modTime
  | .delete => v.deleteMarker.bind MetaDeleteMarker.modTime
  | _ => none

def freeVersion : Bool :=
  v.versionType == .delete &&
    v.deleteMarker.any fun m => (m.metaSys.lookup freeVersionKey).isSome

variable (rt : Runtime)

def header (v : FileMetaVersion) : FileMetaVersionHeader :=
  let isObject := v.versionType == .object
  let object := if isObject then v.object else none
  { versionId := v.getVersionId
    modTime := v.getModTime
    versionType := v.versionType
    flags := (if v.freeVersion then 1 else 0) ||| (if object.any (·.usesDataDir rt) then 2 else 0) |||
      (if object.any (·.inlinedata) then 4 else 0)
    ecN := UInt8.ofNat ((object.map MetaObject.erasureN).getD 0)
    ecM := UInt8.ofNat ((object.map MetaObject.erasureM).getD 0) }

@[simp] theorem header_versionType (v : FileMetaVersion) :
    (v.header rt).versionType = v.versionType := rfl

@[simp] theorem header_versionId (v : FileMetaVersion) :
    (v.header rt).versionId = v.getVersionId := rfl

end FileMetaVersion

namespace FileMetaVersionHeader

def usesDataDir (h : FileMetaVersionHeader) : Bool := h.flags &&& 2 != 0

def compare (a b : FileMetaVersionHeader) : Ordering :=
  (Ord.compare a.modTime b.modTime).then <| (Ord.compare a.versionType b.versionType).then <|
    (Ord.compare a.signature b.signature).then <| (Ord.compare a.versionId b.versionId).then <|
      Ord.compare a.flags b.flags

end FileMetaVersionHeader

namespace MetaObject

variable (rt : Runtime)

@[simp] theorem dataDir_setTransition : (o.setTransition fi).dataDir = o.dataDir := rfl

@[simp] theorem dataDir_resetInlineData : o.resetInlineData.dataDir = o.dataDir := rfl

@[simp] theorem dataDir_removeRestoreHdrs : o.removeRestoreHdrs.dataDir = o.dataDir := rfl

end MetaObject

end Rustfs
