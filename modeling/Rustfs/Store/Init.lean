import Rustfs.Disk.Drive
import Rustfs.Error
import Rustfs.Lib.Trial

/-! Loading the formats of all drives of a pool, and formatting the drives of a new one. -/
namespace Rustfs.StoreInit

open ErrorReduce Tally List Nat

/-- The answer of one drive, `None` for a drive that could not be opened. -/
def loadFormat (ctx : DriveContext) : Option Disk → Except DiskError FormatV3
  | some disk => loadFormatErasure ctx disk
  | none => .error .diskNotFound

def loadFormatErasureAll (ctx : DriveContext) (disks : List (Option Disk)) :
    List (Except DiskError FormatV3) :=
  disks.map (loadFormat ctx)

def errOf : Except DiskError FormatV3 → Option DiskError
  | .error e => some e
  | .ok _ => none

variable (loads : List (Except DiskError FormatV3))

def formatsOf : List (Option FormatV3) :=
  loads.map Except.toOption

def errsOf : List (Option DiskError) :=
  loads.map errOf

variable (errs : List (Option DiskError))

def quorumUnformattedDisks : Bool :=
  countErrs errs .unformattedDisk > errs.length / 2

def shouldInitErasureDisks : Bool :=
  countErrs errs .unformattedDisk = errs.length

def checkDiskFatalErrs : Except DiskError Unit :=
  if countErrs errs .unsupportedDisk = errs.length then .error .unsupportedDisk
  else if countErrs errs .fileAccessDenied = errs.length then .error .fileAccessDenied
  else if countErrs errs .diskNotDir = errs.length then .error .diskNotDir
  else .ok ()

def checkFormatErasureValue (format : FormatV3) : Except StorageError Unit :=
  if format.version ≠ .v1 then .error (.other "invalid FormatMetaVersion")
  else if format.erasure.version ≠ .v3 then .error (.other "invalid FormatErasureVersion")
  else .ok ()

/-- What `check_format_erasure_values` asks of one format, for a pool of `count` drives. -/
def checkFormatShape (count setDriveCount : ℕ) (f : FormatV3) : Except StorageError Unit :=
  match checkFormatErasureValue f with
  | .error e => .error e
  | .ok () =>
    match f.erasure.sets with
    | [] => .error (.other "erasure.sets is empty")
    | firstSet :: _ =>
      let expected := f.erasure.sets.length * firstSet.length
      if count ≠ expected then
        .error (.other ("formats length for erasure.sets does not match: got " ++ toString count ++
          ", expected " ++ toString expected))
      else if firstSet.length ≠ setDriveCount then
        .error (.other ("erasure set length for set_drive_count does not match: got " ++
          toString firstSet.length ++ ", expected " ++ toString setDriveCount))
      else .ok ()

def checkFormatErasureValues (formats : List (Option FormatV3)) (setDriveCount : ℕ) :
    Except StorageError Unit :=
  formats.forM fun f =>
    match f with
    | none => .ok ()
    | some f => checkFormatShape formats.length setDriveCount f

/-- `get_format_erasure_in_quorum`; `order` is the order in which the counts are looked through. -/
def getFormatErasureInQuorum (order : IterOrder (ℕ × ℕ)) (formats : List (Option FormatV3)) :
    Except StorageError FormatV3 :=
  let countmap := tally (formats.reduceOption.map FormatV3.drives)
  let best := (maxBy (order.run countmap)).getD (0, 0)
  if best.1 = 0 ∨ best.2 ≤ formats.length / 2 then .error .erasureReadQuorum
  else
    match formats.reduceOption.find? fun f => f.drives = best.1 with
    | none => .error .erasureReadQuorum
    | some f => .ok { f with erasure := { f.erasure with this := Uuid.nil } }

/-- What `save_format_file` meets: the drive when each of its two writes comes, and the answers of the
file system. -/
structure SaveCalls where
  atWrite : Disk
  write : Except DiskError Unit
  atRename : Disk
  rename : Except DiskError Unit

/-- What the calls of one start of a pool meet: the random ids, the drives that are sent new
formats, and the order of the error counts and of the format counts. -/
structure InitCalls where
  ids : FreshIds
  saves : ℕ → SaveCalls
  errOrder : ErrOrder
  formatOrder : IterOrder (ℕ × ℕ)

/-- The formats that are written, by the position of the drive, and what the call returns. -/
structure InitRun where
  written : List (ℕ × FormatV3)
  result : Except ObjectFailure FormatV3

/-- The format of the `j`-th drive of the `i`-th set. -/
def driveFormat (fm : FormatV3) (deploymentId : Option Uuid) (i j : ℕ) : FormatV3 :=
  { fm with
    id := deploymentId.getD fm.id
    erasure := { fm.erasure with this := (fm.erasure.sets.getD i []).getD j Uuid.nil } }

def layoutSlots (setCount setDriveCount : ℕ) : List (ℕ × ℕ) :=
  (List.range setCount).flatMap fun i => (List.range setDriveCount).map fun j => (i, j)

/-- `fms[idx] = Some(newfm)` for each slot; `none` when an index is out of bounds. -/
def fillFormats (fm : FormatV3) (deploymentId : Option Uuid) (setDriveCount : ℕ) :
    List (ℕ × ℕ) → List (Option FormatV3) → Option (List (Option FormatV3))
  | [], fms => some fms
  | (i, j) :: slots, fms =>
    if i * setDriveCount + j < fms.length then
      fillFormats fm deploymentId setDriveCount slots
        (fms.set (i * setDriveCount + j) (some (driveFormat fm deploymentId i j)))
    else none

/-- The new file is written, and gets the name of the format file. -/
def SaveCalls.take (ctx : DriveContext) (calls : SaveCalls) : Bool :=
  (calls.atWrite.change ctx calls.write).isOk && calls.atRename.admits ctx && calls.rename.isOk

/-- What `save_format_file` returns. -/
def saveFormatFile (ctx : DriveContext) (calls : SaveCalls) (disk : Option Disk)
    (format : Option FormatV3) : Option DiskError :=
  match disk, format with
  | none, _ => some .diskNotFound
  | some _, none => some (.other "format is none")
  | some _, some _ =>
    match calls.atWrite.change ctx calls.write, calls.atRename.change ctx calls.rename with
    | .error e, _ | .ok _, .error e => some e
    | .ok _, .ok _ => none

/-- The format that the drive has after `save_format_file`, if it is new. -/
def writtenFormat (ctx : DriveContext) (calls : SaveCalls) (disk : Option Disk)
    (format : Option FormatV3) : Option FormatV3 :=
  match disk, format with
  | some _, some fm => if calls.take ctx then some fm else none
  | _, _ => none

def initFormatErasure (ctx : DriveContext) (calls : InitCalls) (disks : List (Option Disk))
    (setCount setDriveCount : ℕ) (deploymentId : Option Uuid) : InitRun :=
  let fm := FormatV3.new setCount setDriveCount calls.ids
  match fillFormats fm deploymentId setDriveCount (layoutSlots setCount setDriveCount)
      (List.replicate disks.length none) with
  | none => { written := [], result := .error .panic }
  | some fms =>
    { written := (List.range disks.length).filterMap fun k =>
        (writtenFormat ctx (calls.saves k) (disks.getD k none) (fms.getD k none)).map fun fm => (k, fm)
      result :=
        let errors := (List.range disks.length).map fun k =>
          saveFormatFile ctx (calls.saves k) (disks.getD k none) (fms.getD k none)
        match reduceWriteQuorumErrs calls.errOrder errors [] disks.length with
        | some e => .error (.err (.ofDisk e))
        | none => (getFormatErasureInQuorum calls.formatOrder fms).mapError .err }

def connectLoadInitFormats (ctx : DriveContext) (calls : InitCalls) (firstDisk : Bool)
    (disks : List (Option Disk)) (setCount setDriveCount : ℕ) (deploymentId : Option Uuid) :
    InitRun :=
  let loads := loadFormatErasureAll ctx disks
  match checkDiskFatalErrs (errsOf loads) with
  | .error e => { written := [], result := .error (.err (.ofDisk e)) }
  | .ok () =>
    match checkFormatErasureValues (formatsOf loads) setDriveCount with
    | .error e => { written := [], result := .error (.err e) }
    | .ok () =>
      if firstDisk && shouldInitErasureDisks (errsOf loads) then
        initFormatErasure ctx calls disks setCount setDriveCount deploymentId
      else if quorumUnformattedDisks (errsOf loads) && !firstDisk then
        { written := [], result := .error (.err .notFirstDisk) }
      else if quorumUnformattedDisks (errsOf loads) && firstDisk then
        { written := [], result := .error (.err .firstDiskWait) }
      else
        { written := []
          result := (getFormatErasureInQuorum calls.formatOrder (formatsOf loads)).mapError .err }

section

variable {ctx : DriveContext} {calls : InitCalls} {firstDisk : Bool} {disks : List (Option Disk)}
  {setCount setDriveCount : ℕ} {deploymentId : Option Uuid} {fm : FormatV3}
  {ss : List (ℕ × ℕ)} {fms r : List (Option FormatV3)}

theorem mem_layoutSlots {i j : ℕ} :
    (i, j) ∈ layoutSlots setCount setDriveCount ↔ i < setCount ∧ j < setDriveCount := by
  simp [layoutSlots]

/-- The index of a slot is within the drives exactly when the layout has no more slots than that. -/
theorem layoutSlots_fit_iff {c : ℕ} :
    (∀ s ∈ layoutSlots setCount setDriveCount, s.1 * setDriveCount + s.2 < c) ↔
      setCount * setDriveCount ≤ c := by
  constructor
  · intro h
    by_contra hlt
    obtain ⟨i, rfl⟩ : ∃ i, setCount = i + 1 := exists_eq_succ_of_ne_zero (by rintro rfl; omega)
    obtain ⟨j, rfl⟩ : ∃ j, setDriveCount = j + 1 :=
      exists_eq_succ_of_ne_zero (by rintro rfl; omega)
    have hlast := h (i, j) (mem_layoutSlots.2 ⟨lt_succ_self i, lt_succ_self j⟩)
    rw [add_mul, one_mul] at hlt
    dsimp only at hlast
    omega
  · rintro h ⟨i, j⟩ hmem
    obtain ⟨hi, hj⟩ := mem_layoutSlots.1 hmem
    calc i * setDriveCount + j < (i + 1) * setDriveCount := by rw [add_mul, one_mul]; omega
      _ ≤ setCount * setDriveCount := mul_le_mul_right _ hi
      _ ≤ c := h

theorem exists_layoutSlot_iff {k : ℕ} :
    (∃ s ∈ layoutSlots setCount setDriveCount, s.1 * setDriveCount + s.2 = k) ↔
      k < setCount * setDriveCount := by
  constructor
  · rintro ⟨s, hs, rfl⟩
    exact layoutSlots_fit_iff.2 le_rfl s hs
  · intro hk
    have hpos : 0 < setDriveCount := Nat.pos_of_mul_pos_left (zero_lt_of_lt hk)
    refine ⟨(k / setDriveCount, k % setDriveCount), mem_layoutSlots.2 ⟨?_, mod_lt k hpos⟩,
      div_add_mod' k setDriveCount⟩
    exact (Nat.div_lt_iff_lt_mul hpos).2 hk

theorem fillFormats_isSome_iff : (fillFormats fm deploymentId setDriveCount ss fms).isSome ↔
    ∀ s ∈ ss, s.1 * setDriveCount + s.2 < fms.length := by
  induction ss generalizing fms with
  | nil => simp [fillFormats]
  | cons s ss ih =>
    obtain ⟨i, j⟩ := s
    by_cases hlt : i * setDriveCount + j < fms.length <;> simp [fillFormats, hlt, ih]

theorem fillFormats_spec (h : fillFormats fm deploymentId setDriveCount ss fms = some r) (k : ℕ) :
    (r.getD k none).isSome ↔
      (fms.getD k none).isSome ∨ ∃ s ∈ ss, s.1 * setDriveCount + s.2 = k := by
  induction ss generalizing fms with
  | nil =>
    cases h
    simp
  | cons s ss ih =>
    obtain ⟨i, j⟩ := s
    rw [fillFormats] at h
    split_ifs at h with hlt
    rw [ih h, exists_mem_cons_iff, ← or_assoc]
    refine or_congr_left ?_
    by_cases hki : i * setDriveCount + j = k
    · subst hki
      simp [getD_eq_getElem?_getD, hlt]
    · simp [getD_eq_getElem?_getD, getElem?_set_ne hki, hki]

variable {loads}

theorem shouldInitErasureDisks_iff :
    shouldInitErasureDisks (errsOf loads) = true ↔ ∀ x ∈ loads, x = .error .unformattedDisk := by
  have herr : ∀ x : Except DiskError FormatV3,
      some DiskError.unformattedDisk = errOf x ↔ x = .error .unformattedDisk := by
    intro x
    cases x <;> simp [errOf, eq_comm]
  rw [shouldInitErasureDisks, decide_eq_true_iff, countErrs, count_eq_length, errsOf,
    forall_mem_map]
  exact forall₂_congr fun x _ => herr x

theorem checkFormatErasureValues_ok_iff : checkFormatErasureValues fms setDriveCount = .ok () ↔
    ∀ f, some f ∈ fms → checkFormatShape fms.length setDriveCount f = .ok () := by
  rw [checkFormatErasureValues, Trial.forM_eq_ok_iff]
  constructor
  · intro h f hf
    exact h _ hf
  · intro h f hf
    cases f with
    | none => rfl
    | some f => exact h f hf

theorem checks_of_unformatted (s : ℕ)
    (hne : loads ≠ []) (h : ∀ x ∈ loads, x = .error .unformattedDisk) :
    checkDiskFatalErrs (errsOf loads) = .ok () ∧
      checkFormatErasureValues (formatsOf loads) s = .ok () := by
  have heq : loads = List.replicate loads.length (.error .unformattedDisk) :=
    eq_replicate_of_mem h
  have hlen : loads.length ≠ 0 := by simpa using hne
  have herrs : errsOf loads = List.replicate loads.length (some .unformattedDisk) := by
    rw [errsOf, heq]
    simp [errOf]
  have hforms : formatsOf loads = List.replicate loads.length none := by
    rw [formatsOf, heq]
    simp [Except.toOption]
  constructor
  · simp [checkDiskFatalErrs, countErrs, herrs, count_replicate, Ne.symm hlen]
  · simp [checkFormatErasureValues_ok_iff, hforms]

theorem loadFormat_unformatted_iff {disk : Option Disk} :
    loadFormat ctx disk = .error .unformattedDisk ↔
      ∃ d, disk = some d ∧ d.ReadsUnformatted ctx := by
  cases disk with
  | none => simp [loadFormat]
  | some d => simp [loadFormat, loadFormatErasure_unformatted_iff]

theorem written_ne_nil_iff : ((List.range disks.length).filterMap fun k =>
    (writtenFormat ctx (calls.saves k) (disks.getD k none) (fms.getD k none)).map fun fm => (k, fm)) ≠
      [] ↔ ∃ k, k < disks.length ∧ (disks.getD k none).isSome ∧ (fms.getD k none).isSome ∧
        (calls.saves k).take ctx = true := by
  have hwritten : ∀ (save : SaveCalls) (disk : Option Disk) (format : Option FormatV3),
      writtenFormat ctx save disk format ≠ none ↔
        disk.isSome ∧ format.isSome ∧ save.take ctx = true := by
    intro save disk format
    cases disk <;> cases format <;> simp [writtenFormat]
  simp only [ne_eq, filterMap_eq_nil_iff, not_forall, mem_range, Option.map_eq_none_iff,
    exists_prop]
  exact exists_congr fun k => and_congr_right fun _ => hwritten _ _ _

/-- Initialising writes a format exactly when the layout fits and the drive of a slot takes it. -/
theorem initFormatErasure_written_iff (h : ∀ disk ∈ disks, ∃ d, disk = some d) :
    (initFormatErasure ctx calls disks setCount setDriveCount deploymentId).written ≠ [] ↔
      setCount * setDriveCount ≤ disks.length ∧
        ∃ k < setCount * setDriveCount, (calls.saves k).take ctx = true := by
  have hfit : (fillFormats (FormatV3.new setCount setDriveCount calls.ids) deploymentId setDriveCount
      (layoutSlots setCount setDriveCount) (List.replicate disks.length none)).isSome ↔
        setCount * setDriveCount ≤ disks.length := by
    rw [fillFormats_isSome_iff, length_replicate, layoutSlots_fit_iff]
  unfold initFormatErasure
  dsimp only
  cases hfill : fillFormats (FormatV3.new setCount setDriveCount calls.ids) deploymentId setDriveCount
      (layoutSlots setCount setDriveCount) (List.replicate disks.length none) with
  | none =>
    rw [hfill] at hfit
    refine iff_of_false (fun h => h rfl) fun hfits => ?_
    cases hfit.2 hfits.1
  | some fms =>
    have hle : setCount * setDriveCount ≤ disks.length := hfit.1 (by rw [hfill]; rfl)
    have hslots : ∀ k, (fms.getD k none).isSome ↔ k < setCount * setDriveCount := by
      intro k
      rw [fillFormats_spec hfill, exists_layoutSlot_iff, getD_eq_getElem?_getD, getElem?_replicate]
      split <;> simp
    rw [written_ne_nil_iff]
    constructor
    · rintro ⟨k, -, -, hslot, htake⟩
      exact ⟨hle, k, (hslots k).1 hslot, htake⟩
    · rintro ⟨-, k, hk, htake⟩
      have hlt : k < disks.length := hk.trans_le hle
      obtain ⟨d, hd⟩ := h _ (getElem_mem hlt)
      refine ⟨k, hlt, ?_, (hslots k).2 hk, htake⟩
      simp [getD_eq_getElem?_getD, getElem?_eq_getElem hlt, hd]

/-- When the start of a pool writes new formats. -/
theorem connectLoadInitFormats_written_iff :
    (connectLoadInitFormats ctx calls firstDisk disks setCount setDriveCount deploymentId).written ≠ []
      ↔ firstDisk = true ∧ setCount * setDriveCount ≤ disks.length ∧
        (∃ k < setCount * setDriveCount, (calls.saves k).take ctx = true) ∧
        ∀ disk ∈ disks, ∃ d, disk = some d ∧ d.ReadsUnformatted ctx := by
  have hall : shouldInitErasureDisks (errsOf (loadFormatErasureAll ctx disks)) = true ↔
      ∀ disk ∈ disks, ∃ d, disk = some d ∧ d.ReadsUnformatted ctx := by
    rw [shouldInitErasureDisks_iff, loadFormatErasureAll, forall_mem_map]
    exact forall₂_congr fun disk _ => loadFormat_unformatted_iff
  have hsome (hshould : shouldInitErasureDisks (errsOf (loadFormatErasureAll ctx disks)) = true) :
      ∀ disk ∈ disks, ∃ d, disk = some d := fun disk hmem =>
    (hall.1 hshould disk hmem).imp fun d hd => hd.1
  rw [← hall]
  unfold connectLoadInitFormats
  constructor
  · intro hne
    cases hfatal : checkDiskFatalErrs (errsOf (loadFormatErasureAll ctx disks)) with
    | error e => simp [hfatal] at hne
    | ok u =>
      cases hvalues : checkFormatErasureValues (formatsOf (loadFormatErasureAll ctx disks))
          setDriveCount with
      | error e => simp [hfatal, hvalues] at hne
      | ok u =>
        simp only [hfatal, hvalues] at hne
        split at hne
        · rename_i hinit
          obtain ⟨hfirst, hshould⟩ := Bool.and_eq_true_iff.1 hinit
          obtain ⟨hle, htake⟩ := (initFormatErasure_written_iff (hsome hshould)).1 hne
          exact ⟨hfirst, hle, htake, hshould⟩
        · split at hne
          · exact absurd rfl hne
          · split at hne <;> exact absurd rfl hne
  · rintro ⟨hfirst, hle, ⟨k, hk, htake⟩, hshould⟩
    have hne : loadFormatErasureAll ctx disks ≠ [] := by
      have hlen : disks.length ≠ 0 := by omega
      simpa [loadFormatErasureAll] using hlen
    obtain ⟨hfatal, hvalues⟩ :=
      checks_of_unformatted setDriveCount hne (shouldInitErasureDisks_iff.1 hshould)
    simp only [hfatal, hvalues, hfirst, hshould, Bool.and_self, if_true]
    exact (initFormatErasure_written_iff (hsome hshould)).2 ⟨hle, k, hk, htake⟩

variable (ctx calls firstDisk disks setCount setDriveCount deploymentId)

/-- New formats are written only if all drives are fresh, unless the first node of a pool whose layout
fits reads every drive as unformatted although one of them does not answer or has a format, and the
drive of a slot takes the new file. -/
theorem connectLoadInitFormats_fresh_iff :
    ((connectLoadInitFormats ctx calls firstDisk disks setCount setDriveCount deploymentId).written ≠
        [] → ∀ disk ∈ disks, ∃ d, disk = some d ∧ d.Fresh) ↔
      (firstDisk = true → setCount * setDriveCount ≤ disks.length →
        (∃ k < setCount * setDriveCount, (calls.saves k).take ctx = true) →
        (∀ disk ∈ disks, ∃ d, disk = some d ∧ d.ReadsUnformatted ctx) →
        ∀ disk ∈ disks, ∃ d, disk = some d ∧ d.Fresh) := by
  rw [connectLoadInitFormats_written_iff]
  constructor
  · intro h hfirst hle htake hall
    exact h ⟨hfirst, hle, htake, hall⟩
  · rintro h ⟨hfirst, hle, htake, hall⟩
    exact h hfirst hle htake hall

end

section

/-- A format of an earlier deployment of one set, on the drive with this id. -/
def oldFormat (this : Uuid) : FormatV3 :=
  { version := .v1, format := .erasure, id := 99
    erasure := { version := .v3, this := this, sets := [[11, 12, 13]], distributionAlgo := .v3 } }

/-- The content of a format file is the id of its drive. -/
def oldContext : DriveContext where
  parse := fun b => .ok (oldFormat (BitVec.ofNat 128 (b.head?.elim 0 UInt8.toNat)))
  now := 0
  timeout := "30s"

def newDrive : Disk :=
  .local { file := { stat := some ⟨.notFound, "No such file or directory"⟩
                     content := .error ⟨.notFound, "No such file or directory"⟩ } }

/-- A drive of another node, whose file system may fail. -/
def otherDrive (stat : Option OsError) : Disk :=
  .remote { peer := some { diskId := some 12, diskIdx := 1, file := { stat := stat, content := .ok [12] } } }

/-- A drive that carries a format with another id than it had before. -/
def changedDrive : Disk := .local { diskId := some 23, diskIdx := 2, file := { content := .ok [13] } }

/-- The file system of the other node has just failed. -/
def oldDisks : List (Option Disk) :=
  [some newDrive, some (otherDrive (some ⟨.uncategorized, "Input/output error"⟩)), some changedDrive]

/-- When the new formats come, it answers again. -/
def oldCalls : InitCalls where
  ids := { deployment := 1, drive := fun _ j => BitVec.ofNat 128 (31 + j) }
  saves := fun k =>
    let disk := [newDrive, otherDrive none, changedDrive].getD k newDrive
    { atWrite := disk, write := .ok (), atRename := disk, rename := .ok () }
  errOrder := .insertion
  formatOrder := .insertion

/-- An unreachable and a formatted drive are taken for fresh ones. A new drive and the one that was
unreachable get the format of a new deployment. -/
theorem connectLoadInitFormats_reformats :
    (connectLoadInitFormats oldContext oldCalls true oldDisks 1 3 none).written.map
        (fun p => (p.1, p.2.id, p.2.erasure.this)) = [(0, 1, 31), (1, 1, 32)] ∧
      ¬∀ disk ∈ oldDisks, ∃ d, disk = some d ∧ d.Fresh := by
  refine ⟨by decide, fun h => ?_⟩
  obtain ⟨d, hd, hfresh⟩ := h _ (getLast_mem (l := oldDisks) (by simp [oldDisks]))
  cases hd
  obtain ⟨-, -, e, he, -⟩ := hfresh
  cases he

end

end Rustfs.StoreInit
