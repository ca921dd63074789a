import Rustfs.Disk.Local
import Rustfs.Filemeta.SharedDataDir
import Rustfs.SetDisk.Write

/-! What a `rename_data` without write quorum leaves at the destination of every disk. -/
namespace Rustfs

open Option List

namespace ObjectDir

variable {B : Type} (codec : MetaCodec B) (fmt : XlFormat B) (dir : ObjectDir)

/-- A version in `xl.meta` has its data in directory `d`. -/
def Refers (d : Uuid) : Prop :=
  ∃ buf xlmeta v ver o, dir.xlMeta = some buf ∧ fmt.load buf = .ok xlmeta ∧ v ∈ xlmeta.versions ∧
    codec.unmarshal v.metaBuf = .ok ver ∧ ver.object = some o ∧ o.dataDir = some d

/-- The two directories are both missing, or have the same files. -/
def SameFiles (a b : Option (StrMap Bytes)) : Prop :=
  (a.map fun files name => files.lookup name) = b.map fun files name => files.lookup name

/-- The destination is as before: its `xl.meta`, and every directory that refers to. -/
def Restored (before after : ObjectDir) : Prop :=
  after.xlMeta = before.xlMeta ∧
    ∀ d, before.Refers codec fmt d → SameFiles (before.dataDirs d) (after.dataDirs d)

def HasFile (d : Uuid) (name : String) (content : Bytes) : Prop :=
  ∃ files, dir.dataDirs d = some files ∧ files.lookup name = some content

/-- Nothing but the directory `new` may differ. -/
def AsideFrom (new : Option Uuid) (before after : ObjectDir) : Prop :=
  after.xlMeta = before.xlMeta ∧
    ∀ d, new ≠ some d → after.dataDirs d = before.dataDirs d

variable {codec fmt} {new : Option Uuid} {b mid a : ObjectDir}

theorem AsideFrom.refl (dir : ObjectDir) : AsideFrom new dir dir := ⟨rfl, fun _ _ => rfl⟩

theorem AsideFrom.restored (h : AsideFrom new b a)
    (hfresh : ∀ d, new = some d → ¬ b.Refers codec fmt d) : Restored codec fmt b a := by
  refine ⟨h.1, fun d hd => ?_⟩
  rw [h.2 d fun hnew => hfresh d hnew hd]
  rfl

theorem asideFrom_removeDir (d : Uuid) : AsideFrom (some d) dir (dir.removeDir d) :=
  ⟨dir.removeDir_xlMeta d, fun _ hx => dir.removeDir_of_ne fun h => hx (congrArg some h.symm)⟩

theorem AsideFrom.restored_iff (h : AsideFrom new mid a)
    (hfresh : ∀ d, new = some d → ¬ b.Refers codec fmt d) :
    Restored codec fmt b a ↔ Restored codec fmt b mid := by
  refine and_congr (by rw [h.1]) (forall₂_congr fun d hd => ?_)
  rw [h.2 d fun hnew => hfresh d hnew hd]

theorem sameFiles_insert {fs : Option (StrMap Bytes)} {n : String} {c : Bytes} :
    SameFiles fs (some ((fs.getD ∅).insert n c)) ↔
      ∃ old, fs = some old ∧ old.lookup n = some c := by
  cases fs with
  | none => simp [SameFiles]
  | some old =>
    simp only [SameFiles, map_some, some.injEq, getD_some, exists_eq_left']
    constructor
    · intro h
      simpa using congrFun h n
    · intro h
      funext x
      by_cases hx : x = n
      · rw [hx, h, AList.lookup_insert]
      · rw [AList.lookup_insert_ne hx]

/-- Writing a file into a directory that is referred to leaves it as before only if the file was
there already. -/
theorem restored_writeFile {d : Uuid} {n : String} {c : Bytes}
    (h : AsideFrom new b mid) (hfresh : ∀ d, new = some d → ¬ b.Refers codec fmt d)
    (hd : b.Refers codec fmt d) : Restored codec fmt b (mid.writeFile d n c) ↔ b.HasFile d n c := by
  have hne : new ≠ some d := fun hnew => hfresh d hnew hd
  have hdir : (mid.writeFile d n c).dataDirs d = some (((b.dataDirs d).getD ∅).insert n c) := by
    simp [writeFile, setDir, h.2 d hne]
  constructor
  · rintro ⟨-, hall⟩
    have hsame := hall d hd
    rw [hdir] at hsame
    exact sameFiles_insert.mp hsame
  · intro hfile
    refine ⟨h.1, fun x hx => ?_⟩
    by_cases hxd : x = d
    · subst hxd
      rw [hdir]
      exact sameFiles_insert.mpr hfile
    · rw [mid.writeFile_of_ne hxd, h.2 x fun hnew => hfresh x hnew hx]
      rfl

end ObjectDir

namespace LocalDisk

open ObjectDir

variable {B : Type} (rt : Runtime) (codec : MetaCodec B) (fmt : XlFormat B) (disk : LocalDisk)
  (fi : FileInfo) (plan : RenamePlan)

/-- The data of the new version gets into place, where there is any to move. -/
def dataMoves : Bool :=
  match newDataDir rt fi with
  | some d =>
    !noInline fi || (disk.faults.renameData.isNone &&
      ((disk.src.dataDirs d).isNone || !(disk.dst.dataDirs d).any fun old => !old.entries.isEmpty))
  | none => true

/-- The backup of `xl.meta`, whole or torn, and the old data directory it is written to. -/
def backupLeft : Option (Uuid × Bytes) :=
  match plan.oldDataDir, plan.dstBuf with
  | some d, some buf =>
    match disk.faults.backup with
    | none => some (d, buf)
    | some (_, torn) => torn.map (d, ·)
  | _, _ => none

/-- The backup, where one is needed, is written without an error. -/
def backsUp : Bool :=
  plan.oldDataDir.isNone || plan.dstBuf.isNone || disk.faults.backup.isNone

/-- The call changes nothing that counts: it stops before it has written at the destination, or
all that it writes there, backup and new `xl.meta`, was there already. -/
def Harmless : Prop :=
  ∀ plan, disk.prepare rt codec fmt fi = .ok plan → disk.faults.writeSrc = none →
    disk.dataMoves rt fi →
      (∀ d content, disk.backupLeft plan = some (d, content) →
        disk.dst.HasFile d storageFormatFile content) ∧
      (disk.backsUp plan → disk.faults.renameMeta = none → disk.dst.xlMeta = some plan.newBuf)

variable {rt codec fmt disk fi plan}

theorem prepare_ok (h : disk.prepare rt codec fmt fi = .ok plan) :
    disk.readDst = .ok plan.dstBuf ∧
      plan.oldDataDir = oldDataDir codec fi (loadOrNew fmt plan.dstBuf) := by
  unfold prepare at h
  split at h
  · cases h
  · split at h
    · cases h
    · next dstBuf hread =>
      dsimp only at h
      split at h
      · cases h
      · split at h
        · cases h
        · cases h
          exact ⟨hread, rfl⟩

/-- The directory of the overwritten version is that of a version of the list. -/
theorem mem_of_oldDataDir {x : FileMeta B} {d : Uuid} (h : oldDataDir codec fi x = some d) :
    ∃ v ∈ x.versions, ∃ ver o, codec.unmarshal v.metaBuf = .ok ver ∧ ver.object = some o ∧
      o.dataDir = some d := by
  unfold oldDataDir at h
  dsimp only at h
  split at h
  · next ver hfind =>
    obtain ⟨v, hv, -, hdec⟩ := FileMeta.findVersion_ok hfind
    have hdir : ver.getDataDir = some d := (filter_eq_some_iff.mp h).1
    unfold FileMetaVersion.getDataDir at hdir
    split at hdir
    · obtain ⟨o, hobj, hdir⟩ := bind_eq_some_iff.mp hdir
      exact ⟨v, hv, ver, o, hdec, hobj, hdir⟩
    · cases hdir
  · cases h

/-- The version whose directory is backed up is one of the previous `xl.meta`. -/
theorem refers_oldDataDir {d : Uuid} {buf : Bytes} (hp : disk.prepare rt codec fmt fi = .ok plan)
    (hold : plan.oldDataDir = some d) (hbuf : plan.dstBuf = some buf) :
    disk.dst.Refers codec fmt d := by
  obtain ⟨hread, holddir⟩ := prepare_ok hp
  rw [hold, hbuf] at holddir
  obtain ⟨v, hv, ver, o, hdec, hobj, hdir⟩ := mem_of_oldDataDir holddir.symm
  have hmeta : disk.dst.xlMeta = some buf := by
    unfold readDst at hread
    split at hread
    · split at hread <;> simp [hbuf] at hread
    · simpa [hbuf] using hread
  have hload : fmt.load buf = .ok (loadOrNew fmt (some buf)) := by
    unfold loadOrNew at hv ⊢
    dsimp only at hv ⊢
    split at hv
    · next hx =>
      rw [if_pos hx]
      split at hv
      · next hl => simp [hl]
      · simp at hv
    · simp at hv
  exact ⟨buf, _, v, ver, o, hmeta, hload, hv, hdec, hobj, hdir⟩

theorem moveData_ok {d' : LocalDisk} (h : disk.moveData rt fi = .ok d') :
    AsideFrom (newDataDir rt fi) disk.dst d'.dst ∧ d'.faults = disk.faults := by
  unfold moveData at h
  split at h
  · next d hd =>
    split at h
    · split at h
      · cases h
      · unfold renameDir at h
        split at h
        · cases h
          exact ⟨.refl _, rfl⟩
        · split at h
          · cases h
          · cases h
            refine ⟨⟨rfl, fun x hx => ?_⟩, rfl⟩
            exact disk.dst.setDir_of_ne (fun hxd => hx (hd.trans (congrArg some hxd.symm))) _
    · cases h
      exact ⟨.refl _, rfl⟩
  · cases h
    exact ⟨.refl _, rfl⟩

theorem dataMoves_iff : disk.dataMoves rt fi ↔ ∃ disk', disk.moveData rt fi = .ok disk' := by
  unfold dataMoves moveData
  cases newDataDir rt fi with
  | none => simp
  | some d =>
    cases noInline fi with
    | false => simp
    | true =>
      cases disk.faults.renameData with
      | some e => simp
      | none =>
        cases hs : disk.src.dataDirs d with
        | none => simp [renameDir, hs, Except.map]
        | some files =>
          by_cases hd : (disk.dst.dataDirs d).any fun old => !old.entries.isEmpty
          all_goals simp [renameDir, hs, hd, Except.map]

theorem asideFrom_dropDataDir : AsideFrom (newDataDir rt fi) disk.dst (disk.dropDataDir rt fi).dst := by
  unfold dropDataDir
  cases newDataDir rt fi with
  | none => exact .refl _
  | some d => exact asideFrom_removeDir _ _

variable (disk plan) in
theorem writeBackup_spec : ((disk.writeBackup plan).1 = none ↔ disk.backsUp plan) ∧
    (disk.writeBackup plan).2.faults = disk.faults ∧
    (disk.writeBackup plan).2.dst = (match disk.backupLeft plan with
      | some (d, content) => disk.dst.writeFile d storageFormatFile content
      | none => disk.dst) := by
  unfold writeBackup backsUp backupLeft
  cases plan.oldDataDir with
  | none => simp
  | some d =>
    cases plan.dstBuf with
    | none => simp
    | some buf =>
      match disk.faults.backup with
      | none => simp
      | some (e, none) => simp
      | some (e, some torn) => simp

section

variable {mid : LocalDisk}
  (hfresh : ∀ d, newDataDir rt fi = some d → ¬ disk.dst.Refers codec fmt d)
  (hp : disk.prepare rt codec fmt fi = .ok plan) (hfaults : mid.faults = disk.faults)
  (hmid : AsideFrom (newDataDir rt fi) disk.dst mid.dst)

include hfresh hp hfaults hmid in
/-- After the backup the destination is as before exactly if the backup was there already. -/
theorem restored_writeBackup_iff :
    Restored codec fmt disk.dst (mid.writeBackup plan).2.dst ↔
      ∀ d content, disk.backupLeft plan = some (d, content) →
        disk.dst.HasFile d storageFormatFile content := by
  have hleft : mid.backupLeft plan = disk.backupLeft plan := by
    simp only [backupLeft, hfaults]
  rw [(writeBackup_spec mid plan).2.2, hleft]
  cases hb : disk.backupLeft plan with
  | none => simpa using hmid.restored hfresh
  | some r =>
    obtain ⟨d, content⟩ := r
    obtain ⟨buf, hold, hbuf⟩ : ∃ buf, plan.oldDataDir = some d ∧ plan.dstBuf = some buf := by
      unfold backupLeft at hb
      split at hb
      · next d' buf hold hbuf =>
        refine ⟨buf, ?_, hbuf⟩
        split at hb
        · simp_all
        · simp only [map_eq_some_iff, Prod.mk.injEq] at hb
          obtain ⟨_, -, rfl, -⟩ := hb
          exact hold
      · cases hb
    have hiff : Restored codec fmt disk.dst (mid.dst.writeFile d storageFormatFile content) ↔ _ :=
      restored_writeFile hmid hfresh (refers_oldDataDir hp hold hbuf)
    simpa using hiff

include hfresh in
/-- The last step commits the new `xl.meta`, or leaves the rest as it is. -/
theorem restored_commit_iff (hmeta : mid.dst.xlMeta = disk.dst.xlMeta) :
    Restored codec fmt disk.dst (mid.commit rt fi plan).2.dst ↔
      Restored codec fmt disk.dst mid.dst ∧
        (mid.faults.renameMeta = none → disk.dst.xlMeta = some plan.newBuf) := by
  unfold commit
  cases mid.faults.renameMeta with
  | some e => simpa using asideFrom_dropDataDir.restored_iff hfresh
  | none =>
    simp only [Restored, hmeta, forall_const, true_and]
    rw [and_comm, eq_comm]

end

/-- At the destination a `rename_data` leaves nothing changed exactly when it is harmless. -/
theorem restored_renameData_iff
    (hfresh : ∀ d, newDataDir rt fi = some d → ¬ disk.dst.Refers codec fmt d) :
    Restored codec fmt disk.dst (disk.renameData rt codec fmt fi).2.dst ↔
      disk.Harmless rt codec fmt fi := by
  have hrefl : Restored codec fmt disk.dst disk.dst := (AsideFrom.refl disk.dst).restored hfresh
  unfold renameData Harmless
  cases hp : disk.prepare rt codec fmt fi with
  | error e => simpa using hrefl
  | ok plan =>
    simp only [Except.ok.injEq, forall_eq']
    cases hw : disk.faults.writeSrc with
    | some e => simpa using hrefl
    | none =>
      have hsame : ({ disk with src := { disk.src with xlMeta := some plan.newBuf } } :
          LocalDisk).dataMoves rt fi = disk.dataMoves rt fi := rfl
      simp only [forall_const]
      rw [← hsame, dataMoves_iff]
      split
      · next hmove =>
        simp only [hmove, reduceCtorEq, exists_false, false_implies, iff_true]
        exact asideFrom_dropDataDir.restored hfresh
      · next mid hmove =>
        obtain ⟨hmid, hfaults⟩ := moveData_ok hmove
        have hbackup := restored_writeBackup_iff hfresh hp hfaults hmid
        obtain ⟨hok, hfaults', hdst⟩ := writeBackup_spec mid plan
        have hbacks : mid.backsUp plan = disk.backsUp plan := by simp only [backsUp, hfaults]
        rw [hbacks] at hok
        simp only [hmove, Except.ok.injEq, exists_eq', forall_const]
        rw [← hbackup]
        split
        · next e mid' hw =>
          rw [hw] at hok ⊢
          have hnot : ¬ disk.backsUp plan := fun h => by simpa using hok.mpr h
          simp [hnot]
        · next mid' hw =>
          rw [hw] at hok hfaults' hdst ⊢
          have hmeta : mid'.dst.xlMeta = disk.dst.xlMeta := by
            rw [show mid'.dst = _ from hdst, ← hmid.1]
            cases mid.backupLeft plan <;> rfl
          rw [restored_commit_iff hfresh hmeta, show mid'.faults = _ from hfaults', hfaults]
          simp [hok.mp rfl]

variable (rt codec fmt) in
def calls : SetDisks.RenameCalls LocalDisk where
  renameData disk fi := disk.renameData rt codec fmt fi
  undoWrite disk fi oldDataDir := disk.undoWrite rt codec fmt fi oldDataDir

end LocalDisk

namespace SetDisks

open LocalDisk ObjectDir Tally

variable {B : Type} (rt : Runtime) (codec : MetaCodec B) (fmt : XlFormat B)
  (order : ErrOrder) (dirOrder : IterOrder (Option Uuid × ℕ))
  (disks : List (Option LocalDisk)) (fileInfos : List FileInfo) (writeQuorum : ℕ)

variable {rt codec fmt order dirOrder disks fileInfos writeQuorum}

@[simp] theorem newDataDir_indexed (i : ℕ) (f : FileInfo) :
    newDataDir rt (indexed i f) = newDataDir rt f := by
  unfold indexed
  split <;> rfl

/-- Without a quorum the destination of a disk is as its own call left it: the undo step works at
the source. -/
theorem dst_of_renameData_error {e : DiskError} {i : ℕ} {d : LocalDisk} {f : FileInfo}
    (herr : (renameData order dirOrder (calls rt codec fmt) disks fileInfos writeQuorum).1 = .error e)
    (hdisk : disks[i]? = some (some d)) (hf : fileInfos[i]? = some f) :
    ∃ after, (renameData order dirOrder (calls rt codec fmt) disks fileInfos writeQuorum).2[i]? =
        some (some after) ∧
      after.dst = if (indexed i f).isValid then (d.renameData rt codec fmt (indexed i f)).2.dst
        else d.dst := by
  have hzip : (disks.zip fileInfos)[i]? = some (some d, f) := by
    simp [getElem?_zip_eq_some, hdisk, hf]
  unfold renameData at herr ⊢
  dsimp only at herr ⊢
  split
  · simp only [getElem?_map, getElem?_mapIdx, hzip, map_some, some.injEq]
    by_cases hvalid : (indexed i f).isValid
    · simp only [renameOne, hvalid, if_true]
      cases ((calls rt codec fmt).renameData d (indexed i f)).1 with
      | ok oldDataDir | error e => exact ⟨_, rfl, rfl⟩
    · simp only [renameOne, hvalid]
      exact ⟨d, rfl, rfl⟩
  · next hnone => simp [hnone] at herr

/-- If `rename_data` ends without a write quorum, every destination is as before exactly when
every call on a disk was harmless. The directory of the new data is a new one. -/
theorem renameData_rolls_back_iff {e : DiskError}
    (hfresh : ∀ (i : ℕ) disk f d, disks[i]? = some (some disk) → fileInfos[i]? = some f →
      newDataDir rt f = some d → ¬ disk.dst.Refers codec fmt d)
    (herr : (renameData order dirOrder (calls rt codec fmt) disks fileInfos writeQuorum).1 =
      .error e) :
    (∀ (i : ℕ) disk f after, disks[i]? = some (some disk) → fileInfos[i]? = some f →
      (renameData order dirOrder (calls rt codec fmt) disks fileInfos writeQuorum).2[i]? =
        some (some after) → Restored codec fmt disk.dst after.dst) ↔
    ∀ (i : ℕ) disk f, disks[i]? = some (some disk) → fileInfos[i]? = some f →
      (indexed i f).isValid → disk.Harmless rt codec fmt (indexed i f) := by
  refine forall₃_congr fun i disk f => ?_
  constructor
  · intro h hdisk hf hvalid
    obtain ⟨after, hafter, hdst⟩ := dst_of_renameData_error herr hdisk hf
    have hrestored := h after hdisk hf hafter
    rw [hdst, if_pos hvalid, restored_renameData_iff] at hrestored
    · exact hrestored
    · exact fun d hd => hfresh i disk f d hdisk hf (by simpa using hd)
  · intro h after' hdisk hf hafter'
    obtain ⟨after, hafter, hdst⟩ := dst_of_renameData_error herr hdisk hf
    obtain rfl : after = after' := by simpa [hafter] using hafter'
    rw [hdst]
    split
    · next hvalid =>
      refine (restored_renameData_iff fun d hd => ?_).mpr (h hdisk hf hvalid)
      exact hfresh i disk f d hdisk hf (by simpa using hd)
    · have hrefl : AsideFrom none disk.dst disk.dst := .refl _
      exact hrefl.restored (by simp)

section

open FileMeta

/-- A format with one known file, which holds version 1 with its data in directory 7. -/
def oneFileFormat : XlFormat FileMetaVersion where
  isXl2V1Format _ := true
  load buf :=
    if buf = [1] then
      .ok { versions := [.ofVersion restingRuntime plainCodec (storedObject 1 7 10)] }
    else .error (.other "unknown file")
  marshal _ := .ok [2]

def newVersion : FileInfo :=
  { versionId := some 2, dataDir := some 9, modTime := some 20, size := 1,
    erasure := { dataBlocks := 2, parityBlocks := 1, blockSize := 1, distribution := [1, 2, 3] } }

/-- A disk that holds version 1 and the data of version 2 at its temporary place. -/
def holdingDisk (writeSrc : Option DiskError) : LocalDisk where
  src := { dataDirs := fun d => if d = 9 then some ((∅ : StrMap Bytes).insert "part.1" [5]) else none }
  dst :=
    { xlMeta := some [1],
      dataDirs := fun d => if d = 7 then some ((∅ : StrMap Bytes).insert "part.1" [4]) else none }
  faults := { writeSrc := writeSrc }

variable (faults : List (Option DiskError))

def holdingDisks : List (Option LocalDisk) :=
  faults.map fun e => some (holdingDisk e)

def renameHolding :=
  renameData .insertion .insertion (calls restingRuntime plainCodec oneFileFormat)
    (holdingDisks faults) (List.replicate 3 newVersion) 2

theorem not_refers_holdingDisk (e : Option DiskError) :
    ¬ (holdingDisk e).dst.Refers plainCodec oneFileFormat 9 := by
  rintro ⟨buf, xlmeta, v, ver, o, hbuf, hload, hv, hdec, hobj, hdir⟩
  cases hbuf
  cases hload
  obtain rfl := mem_singleton.mp hv
  cases hdec
  cases hobj
  cases hdir

theorem mem_holdingDisks {fs : List (Option DiskError)} {i : ℕ} {d : LocalDisk}
    (h : (holdingDisks fs)[i]? = some (some d)) : ∃ e ∈ fs, d = holdingDisk e := by
  obtain ⟨e, he, heq⟩ := mem_map.mp (mem_of_getElem? h)
  exact ⟨e, he, (some.inj heq).symm⟩

/-- Two of three disks fail; the third keeps the `xl.meta` that it has renamed into place. -/
theorem renameData_keeps_committed_disk :
    (renameHolding [none, some .diskFull, some .fileAccessDenied]).1 = .error .erasureWriteQuorum ∧
    (renameHolding [none, some .diskFull, some .fileAccessDenied]).2.map
      (Option.map fun disk => disk.dst.xlMeta) = [some (some [2]), some (some [1]), some (some [1])] ∧
    (holdingDisks [none, some .diskFull, some .fileAccessDenied]).map
      (Option.map fun disk => disk.dst.xlMeta) = [some (some [1]), some (some [1]), some (some [1])] :=
  ⟨rfl, rfl, rfl⟩

/-- Where all three disks fail before they write, all three are as before. -/
theorem renameData_restores_failed_disks :
    (renameHolding [some .fileCorrupt, some .diskFull, some .fileAccessDenied]).1 =
      .error .erasureWriteQuorum ∧
    ∀ (i : ℕ) disk f after,
      (holdingDisks [some .fileCorrupt, some .diskFull, some .fileAccessDenied])[i]? =
        some (some disk) → (List.replicate 3 newVersion)[i]? = some f →
      (renameHolding [some .fileCorrupt, some .diskFull, some .fileAccessDenied]).2[i]? =
        some (some after) → Restored plainCodec oneFileFormat disk.dst after.dst := by
  refine ⟨rfl, (renameData_rolls_back_iff (fun i disk f d hdisk hf hd => ?_) rfl).mpr ?_⟩
  · obtain ⟨e, -, rfl⟩ := mem_holdingDisks hdisk
    obtain rfl := eq_of_mem_replicate (mem_of_getElem? hf)
    cases hd
    exact not_refers_holdingDisk e
  · intro i disk f hdisk _ _ plan _ hw
    obtain ⟨e, he, rfl⟩ := mem_holdingDisks hdisk
    obtain rfl : e = none := hw
    simp at he

end

end SetDisks

end Rustfs
