import Rustfs.Disk.Error
import Rustfs.Filemeta.DeleteVersion

/-! The calls of a local disk that change the `xl.meta` and the data directories of an object. -/
namespace Rustfs

/-- The file format of `xl.meta`. -/
structure XlFormat (B : Type) where
  isXl2V1Format : Bytes → Bool
  load : Bytes → Except FilemetaError (FileMeta B)
  marshal : FileMeta B → Except FilemetaError Bytes

def DiskError.ofFilemeta : FilemetaError → DiskError
  | .fileNotFound => .fileNotFound
  | .fileVersionNotFound => .fileVersionNotFound
  | .other text => .other text
  | .rmpSerdeDecode text => .other ("rmp serde decode error: " ++ text)

def storageFormatFile : String := "xl.meta"
def storageFormatFileBackup : String := "xl.meta.bkp"

/-- The directory of an object on one disk: its `xl.meta`, and its data directories by their
files. -/
structure ObjectDir where
  xlMeta : Option Bytes := none
  dataDirs : Uuid → Option (StrMap Bytes) := fun _ => none

namespace ObjectDir

variable (dir : ObjectDir) (d : Uuid) (files : Option (StrMap Bytes))

def setDir : ObjectDir :=
  { dir with dataDirs := Function.update dir.dataDirs d files }

/-- `rmdir`: it removes an empty directory and leaves any other. -/
def removeDir : ObjectDir :=
  match dir.dataDirs d with
  | some files => if files.entries.isEmpty then dir.setDir d none else dir
  | none => dir

/-- Writes a file of a data directory, which is made if it is missing. -/
def writeFile (name : String) (content : Bytes) : ObjectDir :=
  dir.setDir d (some (((dir.dataDirs d).getD ∅).insert name content))

@[simp] theorem removeDir_xlMeta : (dir.removeDir d).xlMeta = dir.xlMeta := by
  unfold removeDir
  split
  · split <;> rfl
  · rfl

theorem setDir_of_ne {d x : Uuid} (h : x ≠ d) (fs : Option (StrMap Bytes)) :
    (dir.setDir d fs).dataDirs x = dir.dataDirs x := by
  simp [setDir, h]

theorem removeDir_of_ne {d x : Uuid} (h : x ≠ d) :
    (dir.removeDir d).dataDirs x = dir.dataDirs x := by
  unfold removeDir
  split
  · split
    · exact dir.setDir_of_ne h none
    · rfl
  · rfl

theorem writeFile_of_ne {d x : Uuid} (h : x ≠ d) (n : String)
    (c : Bytes) : (dir.writeFile d n c).dataDirs x = dir.dataDirs x :=
  dir.setDir_of_ne h _

end ObjectDir

/-- `rename_all` of a data directory between two objects: a missing source is no error, and a
directory that is not empty is not replaced. -/
def renameDir (src dst : ObjectDir) (d : Uuid) : Except DiskError (ObjectDir × ObjectDir) :=
  match src.dataDirs d with
  | none => .ok (src, dst)
  | some files =>
    if (dst.dataDirs d).any fun old => !old.entries.isEmpty then .error .fileAccessDenied
    else .ok (src.setDir d none, dst.setDir d (some files))

/-- How a call on a disk ends when it does not return `Ok`. -/
inductive DiskFailure where
  | err (e : DiskError)
  | panic
  deriving DecidableEq

/-- The operations of `write_metadata` that fail. A failing write may leave a torn file. -/
structure WriteFaults where
  read : Option DiskError := none
  write : Option (DiskError × Option Bytes) := none

/-- The operations of `delete` and `delete_version` that fail. A file or directory that cannot be
moved to the trash stays, without an error. -/
structure DeleteFaults where
  access : Option DiskError := none
  read : Option DiskError := none
  trashFails : Bool := false
  writeMeta : Option DiskError := none
  undoRename : Option DiskError := none

namespace ObjectDir

variable {B : Type} (rt : Runtime) (codec : MetaCodec B) (fmt : XlFormat B) (dir : ObjectDir)
  (fi : FileInfo)

/-- The versions a new one is added to; what does not load counts as no versions. -/
def existing (buf : Option Bytes) : FileMeta B :=
  match buf with
  | some b =>
    if b.isEmpty then {}
    else
      match fmt.load b with
      | .ok xlmeta => xlmeta
      | .error _ => {}
  | none => {}

/-- The `xl.meta` with the version added to those that are there. -/
def rewritten (faults : WriteFaults) : Except DiskError Bytes :=
  let buf : Except DiskError (Option Bytes) :=
    if fi.fresh then .ok none
    else
      match faults.read with
      | some e => if e = .fileNotFound then .ok none else .error e
      | none => .ok dir.xlMeta
  match buf with
  | .error e => .error e
  | .ok buf =>
    match (existing fmt buf).addVersion rt codec fi with
    | .error e => .error (.ofFilemeta e)
    | .ok xlmeta => (fmt.marshal xlmeta).mapError .ofFilemeta

/-- `LocalDisk::write_metadata`: the file is truncated and written in place. -/
def writeMetadata (faults : WriteFaults) : Except DiskError Unit × ObjectDir :=
  match dir.rewritten rt codec fmt fi faults with
  | .error e => (.error e, dir)
  | .ok data =>
    match faults.write with
    | none => (.ok (), { dir with xlMeta := some data })
    | some (e, none) => (.error e, dir)
    | some (e, some torn) => (.error e, { dir with xlMeta := some torn })

variable (faults : DeleteFaults)

/-- `LocalDisk::delete` of `xl.meta`, recursive. -/
def deleteXlMeta : Except DiskError Unit × ObjectDir :=
  match faults.access with
  | some e => (.error e, dir)
  | none => (.ok (), if faults.trashFails then dir else { dir with xlMeta := none })

def trashDir (d : Uuid) : ObjectDir :=
  if faults.trashFails then dir else dir.setDir d none

/-- The last step of an undone write: the backup is looked for under its own name, and moved to
a path below the object that is not its `xl.meta`. -/
def undoBackup (oldDataDir : Uuid) : Except DiskFailure Unit × ObjectDir :=
  match faults.undoRename with
  | some e => (.error (.err e), dir)
  | none =>
    match dir.dataDirs oldDataDir with
    | some files => (.ok (), dir.setDir oldDataDir (some (files.erase storageFormatFileBackup)))
    | none => (.ok (), dir)

/-- `LocalDisk::delete_version`. -/
def deleteVersion (writeFaults : WriteFaults) (faults : DeleteFaults) (forceDelMarker : Bool)
    (undoWrite : Bool) (oldDataDir : Option Uuid) : Except DiskFailure Unit × ObjectDir :=
  let buf : Except DiskError Bytes := match faults.read, dir.xlMeta with
    | some e, _ => .error e
    | none, some buf => .ok buf
    | none, none => .error .fileNotFound
  match buf with
  | .error e =>
    if e ≠ .fileNotFound then (.error (.err e), dir)
    else if fi.deleted && forceDelMarker then
      let r := dir.writeMetadata rt codec fmt fi writeFaults
      (r.1.mapError .err, r.2)
    else (.error (.err (if fi.versionId.isSome then .fileVersionNotFound else .fileNotFound)), dir)
  | .ok buf =>
    match fmt.load buf with
    | .error e => (.error (.err (.ofFilemeta e)), dir)
    | .ok xlmeta =>
      match xlmeta.deleteVersion rt codec fi with
      | (.error .panic, _) => (.error .panic, dir)
      | (.error (.err e), _) => (.error (.err (.ofFilemeta e)), dir)
      | (.ok oldDir, xlmeta) =>
        let dir := match oldDir with
          | some d => dir.trashDir faults d
          | none => dir
        let xlmeta := match oldDir with
          | some d => { xlmeta with data := xlmeta.data.remove [fi.versionId.getD Uuid.nil, d] }
          | none => xlmeta
        if xlmeta.versions ≠ [] then
          match fmt.marshal xlmeta, faults.writeMeta with
          | .error e, _ => (.error (.err (.ofFilemeta e)), dir)
          | .ok _, some e => (.error (.err e), dir)
          | .ok data, none => (.ok (), { dir with xlMeta := some data })
        else
          match oldDataDir, undoWrite with
          | some d, true => dir.undoBackup faults d
          | _, _ => (.ok (), if faults.trashFails then dir else { dir with xlMeta := none })

end ObjectDir

/-- The operations of `rename_data` that fail on a disk, with the error of each. A failing
backup may leave a torn file. -/
structure RenameFaults where
  access : Option DiskError := none
  readDst : Option DiskError := none
  writeSrc : Option DiskError := none
  renameData : Option DiskError := none
  backup : Option (DiskError × Option Bytes) := none
  renameMeta : Option DiskError := none

/-- A disk as `rename_data` sees it: the object's temporary and its final place. -/
structure LocalDisk where
  src : ObjectDir
  dst : ObjectDir
  faults : RenameFaults := {}
  undoFaults : DeleteFaults := {}

/-- What `rename_data` has worked out when it starts to write. -/
structure RenamePlan where
  dstBuf : Option Bytes
  oldDataDir : Option Uuid
  newBuf : Bytes
  deriving DecidableEq

namespace LocalDisk

variable {B : Type} (rt : Runtime) (codec : MetaCodec B) (fmt : XlFormat B) (disk : LocalDisk)
  (fi : FileInfo)

/-- The previous `xl.meta`, if there is one. -/
def readDst : Except DiskError (Option Bytes) :=
  match disk.faults.readDst with
  | some e => if e ≠ .fileNotFound then .error e else .ok none
  | none => .ok disk.dst.xlMeta

def loadOrNew (buf : Option Bytes) : FileMeta B :=
  match buf with
  | some b =>
    if fmt.isXl2V1Format b then
      match fmt.load b with
      | .ok xlmeta => xlmeta
      | .error _ => {}
    else {}
  | none => {}

/-- The directory of the version that is overwritten, if no other version is counted in it. -/
def oldDataDir (xlmeta : FileMeta B) : Option Uuid :=
  let searchVersionId := some (fi.versionId.getD Uuid.nil)
  match xlmeta.findVersion codec searchVersionId with
  | .ok (_, ver) =>
    ver.getDataDir.filter fun d => xlmeta.shardDataDirCount codec searchVersionId (some d) == 0
  | .error _ => none

def prepare : Except DiskError RenamePlan :=
  match disk.faults.access with
  | some e => .error e
  | none =>
    match disk.readDst with
    | .error e => .error e
    | .ok dstBuf =>
      let xlmeta := loadOrNew fmt dstBuf
      let old := oldDataDir codec fi xlmeta
      let xlmeta := match old with
        | some d => { xlmeta with data := xlmeta.data.remove [fi.versionId.getD Uuid.nil, d] }
        | none => xlmeta
      match xlmeta.addVersion rt codec fi with
      | .error e => .error (.ofFilemeta e)
      | .ok xlmeta =>
        match fmt.marshal xlmeta with
        | .error e => .error (.ofFilemeta e)
        | .ok newBuf => .ok { dstBuf := dstBuf, oldDataDir := old, newBuf := newBuf }

/-- The data directory of the new version, unless its data is in a remote tier. -/
def newDataDir : Option Uuid := if fi.isRemote rt then none else fi.dataDir

def noInline : Bool := fi.data.isNone && decide (fi.size > 0)

/-- Moves the data of the new version into place. -/
def moveData : Except DiskError LocalDisk :=
  match newDataDir rt fi with
  | some d =>
    if noInline fi then
      match disk.faults.renameData with
      | some e => .error e
      | none => (renameDir disk.src disk.dst d).map fun r => { disk with src := r.1, dst := r.2 }
    else .ok disk
  | none => .ok disk

/-- `delete_file` of the new data directory, not recursive. -/
def dropDataDir : LocalDisk :=
  match newDataDir rt fi with
  | some d => { disk with dst := disk.dst.removeDir d }
  | none => disk

/-- Keeps the previous `xl.meta` in the old data directory. -/
def writeBackup (plan : RenamePlan) : Option DiskError × LocalDisk :=
  match plan.oldDataDir, plan.dstBuf with
  | some d, some buf =>
    match disk.faults.backup with
    | none => (none, { disk with dst := disk.dst.writeFile d storageFormatFile buf })
    | some (e, none) => (some e, disk)
    | some (e, some torn) =>
      (some e, { disk with dst := disk.dst.writeFile d storageFormatFile torn })
  | _, _ => (none, disk)

/-- Moves the new `xl.meta` into place; from here on the version is committed. -/
def commit (plan : RenamePlan) : Except DiskError (Option Uuid) × LocalDisk :=
  match disk.faults.renameMeta with
  | some e => (.error e, disk.dropDataDir rt fi)
  | none =>
    (.ok plan.oldDataDir,
      { disk with
        src := { disk.src with xlMeta := none }
        dst := { disk.dst with xlMeta := some plan.newBuf } })

/-- `LocalDisk::rename_data`. -/
def renameData : Except DiskError (Option Uuid) × LocalDisk :=
  match disk.prepare rt codec fmt fi with
  | .error e => (.error e, disk)
  | .ok plan =>
    match disk.faults.writeSrc with
    | some e => (.error e, disk)
    | none =>
      let disk := { disk with src := { disk.src with xlMeta := some plan.newBuf } }
      match disk.moveData rt fi with
      | .error e => (.error e, disk.dropDataDir rt fi)
      | .ok disk =>
        match disk.writeBackup plan with
        | (some e, disk) => (.error e, disk)
        | (none, disk) => disk.commit rt fi plan

/-- The undo call of the set: `delete_version` at the place the version came from. -/
def undoWrite (oldDataDir : Option Uuid) : LocalDisk :=
  { disk with
    src := (disk.src.deleteVersion rt codec fmt fi {} disk.undoFaults false true oldDataDir).2 }

end LocalDisk

end Rustfs
