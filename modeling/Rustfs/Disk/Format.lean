import Rustfs.Disk.Error
import Rustfs.Filemeta.Version

/-! The format file of a drive, and how a drive answers when it is read. -/
namespace Rustfs

def Uuid.max : Uuid := BitVec.allOnes 128

inductive FormatMetaVersion where
  | v1
  | unknown
  deriving Repr, DecidableEq

inductive FormatBackend where
  | erasure
  | erasureSingle
  | unknown
  deriving Repr, DecidableEq

inductive FormatErasureVersion where
  | v1
  | v2
  | v3
  | unknown
  deriving Repr, DecidableEq

inductive DistributionAlgoVersion where
  | v1
  | v2
  | v3
  deriving Repr, DecidableEq

structure FormatErasureV3 where
  version : FormatErasureVersion
  this : Uuid
  sets : List (List Uuid)
  distributionAlgo : DistributionAlgoVersion
  deriving Repr, DecidableEq

structure FormatV3 where
  version : FormatMetaVersion
  format : FormatBackend
  id : Uuid
  erasure : FormatErasureV3
  deriving Repr, DecidableEq

/-- The random ids that one new format is made of. -/
structure FreshIds where
  deployment : Uuid
  drive : ℕ → ℕ → Uuid

namespace FormatV3

def new (numSets setLen : ℕ) (ids : FreshIds) : FormatV3 where
  version := .v1
  format := if setLen = 1 then .erasureSingle else .erasure
  id := ids.deployment
  erasure :=
    { version := .v3
      this := Uuid.nil
      sets := (List.range numSets).map fun i => (List.range setLen).map (ids.drive i)
      distributionAlgo := .v3 }

variable (f : FormatV3)

/-- The number of drives over all sets. -/
def drives : ℕ := (f.erasure.sets.map List.length).sum

def findDiskIndexByDiskId (diskId : Uuid) : Except DiskError (ℕ × ℕ) :=
  if diskId = Uuid.nil then .error .diskNotFound
  else if diskId = Uuid.max then .error (.other "disk offline")
  else
    match f.erasure.sets.zipIdx.findSome? fun p => (p.1.idxOf? diskId).map fun j => (p.2, j) with
    | some ij => .ok ij
    | none => .error (.other ("disk id not found " ++ diskId.display))

@[simp] theorem findDiskIndexByDiskId_nil :
    f.findDiskIndexByDiskId Uuid.nil = .error .diskNotFound := by
  simp [findDiskIndexByDiskId]

/-- Only the nil id is reported as a missing drive. -/
theorem findDiskIndexByDiskId_error {f : FormatV3} {d : Uuid} {e : DiskError}
    (h : f.findDiskIndexByDiskId d = .error e) (hnil : d ≠ Uuid.nil) : ∃ text, e = .other text := by
  unfold findDiskIndexByDiskId at h
  rw [if_neg hnil] at h
  split_ifs at h
  · exact ⟨_, (Except.error.inj h).symm⟩
  · split at h
    · cases h
    · exact ⟨_, (Except.error.inj h).symm⟩

end FormatV3

namespace IoError

def toFileError (err : IoError) : IoError :=
  match err.kind with
  | .notFound => ofDisk .fileNotFound
  | .permissionDenied => ofDisk .fileAccessDenied
  | .isADirectory => ofDisk .isNotRegular
  | .notADirectory => ofDisk .fileAccessDenied
  | .directoryNotEmpty => ofDisk .fileAccessDenied
  | .unexpectedEof => ofDisk .faultyDisk
  | .tooManyLinks => ofDisk .tooManyOpenFiles
  | .invalidInput => ofDisk .fileNotFound
  | .invalidData => ofDisk .fileCorrupt
  | .storageFull => ofDisk .diskFull
  | _ => err

def toUnformattedDiskError (err : IoError) : IoError :=
  match err.kind with
  | .notFound => ofDisk .unformattedDisk
  | .permissionDenied => ofDisk .diskAccessDenied
  | .unexpectedEof => ofDisk .unformattedDisk
  | .invalidData => ofDisk .unformattedDisk
  | .other =>
    match err with
    | .disk .fileNotFound => ofDisk .unformattedDisk
    | .disk .diskNotFound => ofDisk .unformattedDisk
    | .disk .volumeNotFound => ofDisk .unformattedDisk
    | .disk .fileAccessDenied => ofDisk .diskAccessDenied
    | .disk .diskAccessDenied => ofDisk .diskAccessDenied
    | _ => ofDisk .unformattedDisk
  | _ => ofDisk .unformattedDisk

end IoError

/-- An error that the operating system returns. -/
structure OsError where
  kind : ErrorKind
  text : String
  deriving Repr, DecidableEq

namespace OsError

variable (e : OsError)

def toFileError : DiskError := (IoError.plain e.kind e.text).toFileError.toDisk

def toUnformattedDiskError : DiskError :=
  (IoError.plain e.kind e.text).toUnformattedDiskError.toDisk

/-- The two kinds that a file read reports as a missing file. -/
def IsMissing : Prop := e.kind = .notFound ∨ e.kind = .invalidInput

/-- A file read never reports a missing drive, and a missing file for two kinds only. -/
theorem toFileError_cases : e.toFileError ≠ .diskNotFound ∧
    e.toFileError ≠ .unformattedDisk ∧ (e.toFileError = .fileNotFound ↔ e.IsMissing) := by
  obtain ⟨kind, text⟩ := e
  cases kind <;> simp [toFileError, IoError.toFileError, IoError.kind, IoError.toDisk,
    IoError.ofDisk, IsMissing]

/-- Every error but a refused permission counts as an unformatted drive. -/
theorem toUnformattedDiskError_eq : e.toUnformattedDiskError =
    if e.kind = .permissionDenied then .diskAccessDenied else .unformattedDisk := by
  obtain ⟨kind, text⟩ := e
  cases kind <;> rfl

end OsError

end Rustfs
