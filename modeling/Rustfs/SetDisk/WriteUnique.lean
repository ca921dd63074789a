import Rustfs.SetDisk.Rollback

/-! Writing the metadata of a version to every disk, and the revert without a write quorum. -/
namespace Rustfs

open List

section

variable {B : Type} (codec : MetaCodec B) (fmt : XlFormat B)

/-- The version is in this `xl.meta`, with this metadata. -/
def FileHasVersion (xlMeta : Option Bytes) (ver : FileMetaVersion) : Prop :=
  ∃ buf xlmeta v, xlMeta = some buf ∧ fmt.load buf = .ok xlmeta ∧ v ∈ xlmeta.versions ∧
    codec.unmarshal v.metaBuf = .ok ver

/-- Every version of the first file is in the second one too. -/
def KeepsVersions (before after : Option Bytes) : Prop :=
  ∀ ver, FileHasVersion codec fmt before ver → FileHasVersion codec fmt after ver

theorem KeepsVersions.refl (x : Option Bytes) : KeepsVersions codec fmt x x :=
  fun _ h => h

/-- Only a file without a version loses none when it is removed. -/
theorem keepsVersions_none_iff {x : Option Bytes} :
    KeepsVersions codec fmt x none ↔ ∀ ver, ¬ FileHasVersion codec fmt x ver := by
  refine forall_congr' fun ver => ⟨fun h hver => ?_, fun h hver => (h hver).elim⟩
  obtain ⟨buf, -, -, hnone, -⟩ := h hver
  cases hnone

end

namespace SetDisks

open ErrorReduce Tally

/-- A disk as `write_unique_file_info` sees it: the object, and the operations that fail. -/
structure MetaDisk where
  dir : ObjectDir
  writeFaults : WriteFaults := {}
  deleteFaults : DeleteFaults := {}

variable {B : Type} (rt : Runtime) (codec : MetaCodec B) (fmt : XlFormat B)

/-- The metadata as disk `i` is given it. -/
def placed (i : ℕ) (f : FileInfo) : FileInfo :=
  { f with erasure := { f.erasure with index := i + 1 } }

/-- The call on disk `i`. -/
def writeOne (i : ℕ) (disk : Option MetaDisk) (f : FileInfo) :
    Except DiskError Unit × Option MetaDisk :=
  match disk with
  | none => (.error .diskNotFound, none)
  | some disk =>
    let r := disk.dir.writeMetadata rt codec fmt (placed i f) disk.writeFaults
    (r.1, some { disk with dir := r.2 })

/-- `delete` of the whole `xl.meta`, its answer ignored. -/
def revert (disk : MetaDisk) : MetaDisk :=
  { disk with dir := (disk.dir.deleteXlMeta disk.deleteFaults).2 }

def writeUniqueFileInfo (order : ErrOrder) (disks : List (Option MetaDisk))
    (files : List FileInfo) (writeQuorum : ℕ) : Except DiskFailure Unit × List (Option MetaDisk) :=
  if files.length < disks.length then (.error .panic, disks)
  else
    let done := (disks.zip files).mapIdx fun i x => writeOne rt codec fmt i x.1 x.2
    let errs := done.map fun r => errOf r.1
    match reduceWriteQuorumErrs order errs objectOpIgnoredErrs writeQuorum with
    | some e =>
      (.error (.err e), done.map fun r => if (errOf r.1).isSome then r.2 else r.2.map revert)
    | none => (.ok (), done.map Prod.snd)

/-- No version of the disk is lost: its call stops before the file is touched, or what is left of
the file in the end holds every version that was there. -/
def MetaDisk.Spares (disk : MetaDisk) (fi : FileInfo) : Prop :=
  ∀ data, disk.dir.rewritten rt codec fmt fi disk.writeFaults = .ok data →
    match disk.writeFaults.write with
    | some (_, none) => True
    | some (_, some torn) => KeepsVersions codec fmt disk.dir.xlMeta (some torn)
    | none =>
      if disk.deleteFaults.access.isNone && !disk.deleteFaults.trashFails then
        ∀ ver, ¬ FileHasVersion codec fmt disk.dir.xlMeta ver
      else KeepsVersions codec fmt disk.dir.xlMeta (some data)

variable {rt codec fmt} {order : ErrOrder} {disks : List (Option MetaDisk)}
  {files : List FileInfo} {writeQuorum i : ℕ} {disk : MetaDisk} {f : FileInfo}

variable (rt codec fmt) in
/-- What a disk is left with when the quorum is missed. -/
def settled (disk : MetaDisk) (fi : FileInfo) : MetaDisk :=
  match disk.dir.writeMetadata rt codec fmt fi disk.writeFaults with
  | (.ok _, dir) => revert { disk with dir := dir }
  | (.error _, dir) => { disk with dir := dir }

theorem keepsVersions_settled_iff (fi : FileInfo) :
    KeepsVersions codec fmt disk.dir.xlMeta (settled rt codec fmt disk fi).dir.xlMeta ↔
      disk.Spares rt codec fmt fi := by
  have hrefl := KeepsVersions.refl codec fmt disk.dir.xlMeta
  unfold settled MetaDisk.Spares ObjectDir.writeMetadata
  cases hr : disk.dir.rewritten rt codec fmt fi disk.writeFaults with
  | error e => simpa using hrefl
  | ok data =>
    match disk.writeFaults.write with
    | some (e, none) => simpa using hrefl
    | some (e, some torn) => simp
    | none =>
      simp only [Except.ok.injEq, forall_eq', revert, ObjectDir.deleteXlMeta]
      rw [← keepsVersions_none_iff]
      cases disk.deleteFaults.access <;> cases disk.deleteFaults.trashFails <;> simp

theorem writeUniqueFileInfo_error {e : DiskError}
    (herr : (writeUniqueFileInfo rt codec fmt order disks files writeQuorum).1 = .error (.err e))
    (hdisk : disks[i]? = some (some disk)) : ∃ f, files[i]? = some f ∧
      (writeUniqueFileInfo rt codec fmt order disks files writeQuorum).2[i]? =
        some (some (settled rt codec fmt disk (placed i f))) := by
  unfold writeUniqueFileInfo at herr ⊢
  split at herr
  · cases herr
  · next hlen =>
    have hi : i < files.length := by
      have := (List.getElem?_eq_some_iff.mp hdisk).1
      omega
    have hzip : (disks.zip files)[i]? = some (some disk, files[i]) := by
      simp [getElem?_zip_eq_some, hdisk, hi]
    refine ⟨files[i], getElem?_eq_getElem hi, ?_⟩
    rw [if_neg hlen]
    dsimp only at herr ⊢
    split at herr
    · next hquorum =>
      simp only [getElem?_map, getElem?_mapIdx, hzip, Option.map_some, writeOne, settled]
      cases disk.dir.writeMetadata rt codec fmt (placed i files[i]) disk.writeFaults with
      | mk answer dir => cases answer <;> simp [errOf]
    · cases herr

/-- If the quorum is missed, every version on every disk is kept exactly where each disk spares
its own. -/
theorem writeUniqueFileInfo_keeps_versions_iff {e : DiskError}
    (herr : (writeUniqueFileInfo rt codec fmt order disks files writeQuorum).1 = .error (.err e)) :
    (∀ (i : ℕ) disk after, disks[i]? = some (some disk) →
      (writeUniqueFileInfo rt codec fmt order disks files writeQuorum).2[i]? = some (some after) →
      KeepsVersions codec fmt disk.dir.xlMeta after.dir.xlMeta) ↔
    ∀ (i : ℕ) disk f, disks[i]? = some (some disk) → files[i]? = some f →
      disk.Spares rt codec fmt (placed i f) := by
  constructor
  · intro h i disk f hdisk hf
    obtain ⟨f', hf', hafter⟩ := writeUniqueFileInfo_error herr hdisk
    obtain rfl : f' = f := by simpa [hf'] using hf
    exact (keepsVersions_settled_iff _).mp (h i disk _ hdisk hafter)
  · intro h i disk after hdisk hafter
    obtain ⟨f, hf, hafter'⟩ := writeUniqueFileInfo_error herr hdisk
    obtain rfl : settled rt codec fmt disk (placed i f) = after := by
      simpa [hafter'] using hafter
    exact (keepsVersions_settled_iff _).mpr (h i disk f hdisk hf)

section

open FileMeta

/-- A disk that holds version 1, with the error of its write. -/
def versionedDisk (write : Option DiskError) : MetaDisk where
  dir := (holdingDisk none).dst
  writeFaults := { write := write.map fun e => (e, none) }

def versionedDisks (faults : List (Option DiskError)) : List (Option MetaDisk) :=
  faults.map fun e => some (versionedDisk e)

def writeVersioned (faults : List (Option DiskError)) :=
  writeUniqueFileInfo restingRuntime plainCodec oneFileFormat .insertion (versionedDisks faults)
    (List.replicate 3 newVersion) 2

theorem fileHasVersion_one :
    FileHasVersion plainCodec oneFileFormat (some [1]) (storedObject 1 7 10) :=
  ⟨_, _, _, rfl, rfl, mem_singleton_self _, rfl⟩

/-- Two of three disks fail; the revert removes the `xl.meta` of the third, with version 1. -/
theorem writeUniqueFileInfo_drops_versions :
    (writeVersioned [none, some .diskFull, some .fileAccessDenied]).1 =
      .error (.err .erasureWriteQuorum) ∧
    (writeVersioned [none, some .diskFull, some .fileAccessDenied]).2.map
      (Option.map fun disk => disk.dir.xlMeta) = [some none, some (some [1]), some (some [1])] ∧
    (versionedDisks [none, some .diskFull, some .fileAccessDenied]).map
      (Option.map fun disk => disk.dir.xlMeta) = [some (some [1]), some (some [1]), some (some [1])] ∧
    ¬ KeepsVersions plainCodec oneFileFormat (some [1]) none := by
  refine ⟨rfl, rfl, rfl, fun h => ?_⟩
  exact (keepsVersions_none_iff _ _).mp h _ fileHasVersion_one

/-- Where no disk takes the write, version 1 stays on all of them. -/
theorem writeUniqueFileInfo_keeps_untouched :
    (writeVersioned [some .fileCorrupt, some .diskFull, some .fileAccessDenied]).1 =
      .error (.err .erasureWriteQuorum) ∧
    ∀ (i : ℕ) disk after,
      (versionedDisks [some .fileCorrupt, some .diskFull, some .fileAccessDenied])[i]? =
        some (some disk) →
      (writeVersioned [some .fileCorrupt, some .diskFull, some .fileAccessDenied]).2[i]? =
        some (some after) →
      KeepsVersions plainCodec oneFileFormat disk.dir.xlMeta after.dir.xlMeta := by
  refine ⟨rfl, (writeUniqueFileInfo_keeps_versions_iff rfl).mpr fun i disk f hdisk _ data _ => ?_⟩
  obtain ⟨e, he, heq⟩ := mem_map.mp (mem_of_getElem? hdisk)
  cases heq
  cases e with
  | none => simp at he
  | some e => trivial

end

end SetDisks

end Rustfs
