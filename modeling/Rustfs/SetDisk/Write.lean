import Rustfs.Error
import Rustfs.SetDisk.Metadata

/-! Committing a new version: every disk renames it into place, and without a quorum the disks
that did are asked to undo it. -/
namespace Rustfs.SetDisks

open ErrorReduce Tally

/-- `reduce_common_data_dir`: the most frequent old data directory, where it has a quorum. -/
def reduceCommonDataDir (order : IterOrder (Option Uuid × ℕ)) (dataDirs : List (Option Uuid))
    (writeQuorum : ℕ) : Option Uuid :=
  let best := (order.run (tally dataDirs)).foldl
    (fun best entry => if entry.2 > best.2 then entry else best) (none, 0)
  if best.2 ≥ writeQuorum then best.1 else none

/-- `eval_disks`: the disks without an error. -/
def evalDisks {D : Type} (disks : List (Option D)) (errs : List (Option DiskError)) :
    List (Option D) :=
  if disks.length ≠ errs.length then []
  else List.zipWith (fun disk err => if err.isNone then disk else none) disks errs

/-- The two calls that `rename_data` makes on a disk, for one source and one destination. -/
structure RenameCalls (D : Type) where
  renameData : D → FileInfo → Except DiskError (Option Uuid) × D
  undoWrite : D → FileInfo → Option Uuid → D

variable {D : Type}

/-- The metadata as disk `i` is given it. -/
def indexed (i : ℕ) (f : FileInfo) : FileInfo :=
  if f.erasure.index = 0 then { f with erasure := { f.erasure with index := i + 1 } } else f

/-- The task of disk `i`. -/
def renameOne (calls : RenameCalls D) (i : ℕ) (disk : Option D) (f : FileInfo) :
    Except DiskError (Option Uuid) × Option D :=
  if (indexed i f).isValid then
    match disk with
    | some d => ((calls.renameData d (indexed i f)).1, some (calls.renameData d (indexed i f)).2)
    | none => (.error .diskNotFound, none)
  else (.error .fileCorrupt, disk)

def errOf {α : Type} : Except DiskError α → Option DiskError
  | .ok _ => none
  | .error e => some e

/-- `SetDisks::rename_data`: what it returns, and the disks as they are left. -/
def renameData (order : ErrOrder) (dirOrder : IterOrder (Option Uuid × ℕ))
    (calls : RenameCalls D) (disks : List (Option D)) (fileInfos : List FileInfo)
    (writeQuorum : ℕ) : Except DiskError (List (Option D) × Option Uuid) × List (Option D) :=
  let done := (disks.zip fileInfos).mapIdx fun i x => (renameOne calls i x.1 x.2, x.2)
  let errs := done.map fun r => errOf r.1.1
  match reduceWriteQuorumErrs order errs objectOpIgnoredErrs writeQuorum with
  | some e =>
    (.error e, done.map fun r =>
      match r.1.1, r.1.2 with
      | .ok oldDataDir, some d => some (calls.undoWrite d r.2 oldDataDir)
      | _, disk => disk)
  | none =>
    let disks' := done.map fun r => r.1.2
    let dataDirs := done.map fun r => r.1.1.toOption.join
    (.ok (evalDisks disks' errs, reduceCommonDataDir dirOrder dataDirs writeQuorum), disks')

end Rustfs.SetDisks
