import Rustfs.Disk.Format

/-! Reading the format file of a local or a remote drive through the health checks around it. -/
namespace Rustfs

open DiskError

/-- What a drive remembers of its format file; of the file's metadata only that there is one. -/
structure FormatInfo where
  id : Option Uuid := none
  data : Bytes := []
  fileInfo : Bool := false
  lastCheck : Option Time := none
  deriving DecidableEq

/-- What the file system answers for `format.json`: the error of its `stat`, whether it is still
the file that is remembered, and its content. -/
structure FormatFile where
  stat : Option OsError := none
  sameFile : Bool := false
  content : Except OsError Bytes

/-- The answer to the `stat` and the read after it as one. -/
def FormatFile.answer (f : FormatFile) : Except OsError Bytes :=
  match f.stat with
  | some e => .error e
  | none => f.content

/-- A local drive and the wrapper around it when a call comes. -/
structure LocalDrive where
  info : FormatInfo := {}
  file : FormatFile
  setIdx : ℤ := 0
  diskIdx : ℤ := 0
  diskId : Option Uuid := none
  faulty : Bool := false
  timesOut : Bool := false

/-- The clock and the texts that answers are made with. -/
structure DriveContext where
  parse : Bytes → Except String FormatV3
  now : Time
  timeout : String

def Time.unixTimestamp (t : Time) : ℤ := t / 1000000000

/-- A day, in the unit of times. -/
def day : Time := 86400000000000

/-- The first and the last moment that a time can be. -/
def firstTime : Time := -377705116800000000000

def lastTime : Time := 253402300799999999999

def saturatingAdd (t d : Time) : Time :=
  if t + d < firstTime then firstTime else if lastTime < t + d then lastTime else t + d

namespace LocalDrive

variable (ctx : DriveContext) (d : LocalDrive)

/-- The remembered id is handed out without a look at the file. -/
def trustsCache : Bool :=
  d.info.fileInfo && d.info.id.isSome &&
    d.info.lastCheck.any fun t => t.unixTimestamp + 1 < ctx.now.unixTimestamp

/-- What `get_disk_id` finds in the format file when it reads it. -/
def idInFile : Except DiskError (Option Uuid × Bytes) :=
  match d.file.content with
  | .error e => .error e.toUnformattedDiskError
  | .ok b =>
    match ctx.parse b with
    | .error _ => .error .corruptedBackend
    | .ok fm =>
      match fm.findDiskIndexByDiskId fm.erasure.this with
      | .error e => .error e
      | .ok (m, n) =>
        if (m : ℤ) ≠ d.setIdx ∨ (n : ℤ) ≠ d.diskIdx then .error .inconsistentDisk
        else .ok (some fm.erasure.this, b)

/-- `get_disk_id`: the id, and the content of the format file that is remembered afterwards. -/
def getDiskId : Except DiskError (Option Uuid × Bytes) :=
  if d.trustsCache ctx then .ok (d.info.id, d.info.data)
  else
    match d.file.stat with
    | some e => .error e.toUnformattedDiskError
    | none =>
      if d.info.fileInfo && d.file.sameFile then .ok (d.info.id, d.info.data) else d.idInFile ctx

/-- `check_disk_stale`, with the content of the format file that is remembered afterwards. -/
def checkDiskStale : Except DiskError Bytes :=
  match d.diskId with
  | none => .ok d.info.data
  | some current =>
    match d.getDiskId ctx with
    | .error e => .error e
    | .ok (none, data) => .ok data
    | .ok (some stored, data) => if current ≠ stored then .error .diskNotFound else .ok data

/-- `read_file_all` of the format file. -/
def readFileAll : Except DiskError Bytes :=
  match d.file.stat with
  | some e => .error e.toFileError
  | none => d.file.content.mapError OsError.toFileError

/-- An operation that is given what the drive remembers of the format file. -/
def trackDiskHealth {α : Type} (operation : Bytes → Except DiskError α) : Except DiskError α :=
  if d.faulty then .error .faultyDisk
  else
    match d.checkDiskStale ctx with
    | .error e => .error e
    | .ok data =>
      if d.timesOut then .error (.other ("disk operation timeout after " ++ ctx.timeout))
      else operation data

/-- `read_all` of the format file. -/
def readAll : Except DiskError Bytes :=
  d.trackDiskHealth ctx fun data => if data ≠ [] then .ok data else d.readFileAll

/-- An operation gets to the drive, and may be carried out even if it times out. -/
def admits : Bool := !d.faulty && (d.checkDiskStale ctx).isOk

end LocalDrive

/-- A drive of another node: the state of the connection, and the drive there if it is known. -/
structure RemoteDrive where
  faulty : Bool := false
  timesOut : Bool := false
  transport : Option String := none
  peer : Option LocalDrive

/-- A disk error after it went over the wire as a code and a text. -/
def DiskError.overWire (e : DiskError) : DiskError :=
  match fromU32 e.toU32 with
  | some (.io _ _) => .other e.display
  | some err => err
  | none => .other e.display

namespace RemoteDrive

variable (ctx : DriveContext) (r : RemoteDrive)

def executeWithTimeout {α : Type} (operation : LocalDrive → Except DiskError α) :
    Except DiskError α :=
  if r.faulty then .error .faultyDisk
  else if r.timesOut then .error (.other ("Remote disk operation timeout after " ++ ctx.timeout))
  else
    match r.transport, r.peer with
    | some text, _ => .error (.other text)
    | none, none => .error (DiskError.overWire (.other "can not find disk"))
    | none, some d => (operation d).mapError DiskError.overWire

def readAll : Except DiskError Bytes := r.executeWithTimeout ctx (·.readAll ctx)

def admits : Bool := !r.faulty && r.transport.isNone && r.peer.any (·.admits ctx)

end RemoteDrive

inductive Disk where
  | local (d : LocalDrive)
  | remote (r : RemoteDrive)

namespace Disk

variable (ctx : DriveContext)

def readAll : Disk → Except DiskError Bytes
  | .local d => d.readAll ctx
  | .remote r => r.readAll ctx

/-- A call that changes files, with the answer of the file system. -/
def change (answer : Except DiskError Unit) : Disk → Except DiskError Unit
  | .local d => d.trackDiskHealth ctx fun _ => answer
  | .remote r => r.executeWithTimeout ctx fun d => d.trackDiskHealth ctx fun _ => answer

def admits : Disk → Bool
  | .local d => d.admits ctx
  | .remote r => r.admits ctx

end Disk

/-- `load_format_erasure` without healing. -/
def loadFormatErasure (ctx : DriveContext) (disk : Disk) : Except DiskError FormatV3 :=
  match disk.readAll ctx with
  | .error .fileNotFound => .error .unformattedDisk
  | .error .diskNotFound => .error .unformattedDisk
  | .error e => .error e
  | .ok data => (ctx.parse data).mapError DiskError.other

/-- The errors of a read that loading takes for a drive without a format. -/
def DiskError.CountsUnformatted (e : DiskError) : Prop :=
  e = .fileNotFound ∨ e = .diskNotFound ∨ e = .unformattedDisk

theorem DiskError.countsUnformatted_overWire (e : DiskError) :
    e.overWire.CountsUnformatted ↔ e.CountsUnformatted := by
  rcases fromU32_toU32 e with h | ⟨k, t, rfl⟩
  · unfold overWire
    rw [h]
    split
    · rename_i heq
      cases heq
      simp [CountsUnformatted, other]
    · rename_i heq
      cases heq
      rfl
    · rename_i heq
      cases heq
  · simp [overWire, toU32, fromU32, CountsUnformatted, other]

theorem exists_mapError_overWire {x : Except DiskError Bytes} :
    (∃ e, x.mapError overWire = .error e ∧ e.CountsUnformatted) ↔
      ∃ e, x = .error e ∧ e.CountsUnformatted := by
  cases x with
  | error e => simp [Except.mapError, e.countsUnformatted_overWire]
  | ok b => simp [Except.mapError]

theorem OsError.countsUnformatted_toFileError (e : OsError) :
    e.toFileError.CountsUnformatted ↔ e.IsMissing := by
  obtain ⟨hdisk, hunf, hfile⟩ := e.toFileError_cases
  simp [DiskError.CountsUnformatted, hdisk, hunf, hfile]

theorem OsError.countsUnformatted_toUnformatted (e : OsError) :
    e.toUnformattedDiskError.CountsUnformatted ↔ e.kind ≠ .permissionDenied := by
  rw [e.toUnformattedDiskError_eq, DiskError.CountsUnformatted]
  split_ifs with h <;> simp [h]

namespace LocalDrive

variable (ctx : DriveContext) (d : LocalDrive)

/-- The id check answers from what the drive remembers. -/
def Remembers : Prop :=
  d.trustsCache ctx = true ∨
    d.file.stat = none ∧ d.info.fileInfo = true ∧ d.file.sameFile = true

/-- The id check reads the format file again. -/
def Rereads : Prop :=
  d.trustsCache ctx = false ∧ d.file.stat = none ∧ (d.info.fileInfo && d.file.sameFile) = false

/-- The id check meets an I/O error other than a refused permission. -/
def IdUnreadable : Prop :=
  ∃ e : OsError, e.kind ≠ .permissionDenied ∧
    (d.trustsCache ctx = false ∧ d.file.stat = some e ∨
      d.Rereads ctx ∧ d.file.content = .error e)

/-- The format file is there, but names no drive. -/
def HasNilId : Prop :=
  d.Rereads ctx ∧ ∃ b fm, d.file.content = .ok b ∧ ctx.parse b = .ok fm ∧ fm.erasure.this = Uuid.nil

/-- The drive shows `id`, from its memory or from its format file. -/
def ShowsId (id : Uuid) : Prop :=
  d.Remembers ctx ∧ d.info.id = some id ∨
    d.Rereads ctx ∧ ∃ b fm, d.file.content = .ok b ∧ ctx.parse b = .ok fm ∧ fm.erasure.this = id ∧
      ∃ m n : ℕ, fm.findDiskIndexByDiskId id = .ok (m, n) ∧ m = d.setIdx ∧ n = d.diskIdx

/-- The id check of a drive that should carry `current` fails as if there were no drive. -/
def LooksWiped (current : Uuid) : Prop :=
  d.IdUnreadable ctx ∨ d.HasNilId ctx ∨ ∃ id, d.ShowsId ctx id ∧ current ≠ id

variable {ctx d}

theorem getDiskId_of_remembers (h : d.Remembers ctx) :
    d.getDiskId ctx = .ok (d.info.id, d.info.data) := by
  unfold getDiskId
  rcases h with h | ⟨hstat, hinfo, hsame⟩
  · rw [if_pos h]
  · simp [hstat, hinfo, hsame]

theorem getDiskId_of_stat {e : OsError} (h : d.trustsCache ctx = false)
    (hstat : d.file.stat = some e) : d.getDiskId ctx = .error e.toUnformattedDiskError := by
  simp [getDiskId, h, hstat]

theorem getDiskId_of_rereads (h : d.Rereads ctx) : d.getDiskId ctx = d.idInFile ctx := by
  obtain ⟨htrust, hstat, hsame⟩ := h
  simp [getDiskId, htrust, hstat, hsame]

theorem idCheck_cases (ctx : DriveContext) (d : LocalDrive) : d.Remembers ctx ∨
    (∃ e, d.trustsCache ctx = false ∧ d.file.stat = some e) ∨ d.Rereads ctx := by
  cases htrust : d.trustsCache ctx with
  | true => exact .inl (.inl htrust)
  | false =>
    cases hstat : d.file.stat with
    | some e => exact .inr (.inl ⟨e, rfl, rfl⟩)
    | none =>
      cases hsame : d.info.fileInfo && d.file.sameFile with
      | true => exact .inl (.inr ⟨hstat, Bool.and_eq_true_iff.1 hsame⟩)
      | false => exact .inr (.inr ⟨htrust, hstat, hsame⟩)

theorem not_rereads_of_remembers (h : d.Remembers ctx) : ¬d.Rereads ctx := by
  rintro ⟨htrust, -, hsame⟩
  rcases h with h | ⟨-, hinfo, hsame'⟩
  · simp [htrust] at h
  · simp [hinfo, hsame'] at hsame

theorem not_remembers_of_stat {e : OsError} (h : d.trustsCache ctx = false)
    (hstat : d.file.stat = some e) : ¬d.Remembers ctx := by
  rintro (htrust | ⟨hnone, -⟩)
  · simp [h] at htrust
  · simp [hstat] at hnone

/-- When the id check fails in a way that counts as an unformatted drive. -/
theorem getDiskId_unformatted_iff : (∃ e, d.getDiskId ctx = .error e ∧ e.CountsUnformatted) ↔
    d.IdUnreadable ctx ∨ d.HasNilId ctx := by
  rcases idCheck_cases ctx d with hrem | ⟨e, htrust, hstat⟩ | hre
  · have hnot := not_rereads_of_remembers hrem
    have hstat : ∀ e, ¬(d.trustsCache ctx = false ∧ d.file.stat = some e) := fun e h =>
      not_remembers_of_stat h.1 h.2 hrem
    simp [getDiskId_of_remembers hrem, IdUnreadable, HasNilId, hnot, hstat]
  · simp [getDiskId_of_stat htrust hstat, e.countsUnformatted_toUnformatted, IdUnreadable,
      HasNilId, Rereads, htrust, hstat]
  · have hstat := hre.2.1
    rw [getDiskId_of_rereads hre, idInFile]
    cases hc : d.file.content with
    | error e =>
      simp [e.countsUnformatted_toUnformatted, IdUnreadable, HasNilId, hre, hstat, hc]
    | ok b =>
      dsimp only
      cases hp : ctx.parse b with
      | error e => simp [IdUnreadable, HasNilId, hstat, hc, hp, DiskError.CountsUnformatted]
      | ok fm =>
        have hgoal : (d.IdUnreadable ctx ∨ d.HasNilId ctx) ↔ fm.erasure.this = Uuid.nil := by
          simp [IdUnreadable, HasNilId, hre, hstat, hc, hp]
        rw [hgoal]
        dsimp only
        by_cases hnil : fm.erasure.this = Uuid.nil
        · simp [hnil, DiskError.CountsUnformatted]
        · cases hfind : fm.findDiskIndexByDiskId fm.erasure.this with
          | error e =>
            obtain ⟨text, rfl⟩ := FormatV3.findDiskIndexByDiskId_error hfind hnil
            simp [hnil, DiskError.CountsUnformatted, other]
          | ok mn =>
            obtain ⟨m, n⟩ := mn
            dsimp only
            split <;> simp [hnil, DiskError.CountsUnformatted]

theorem getDiskId_shows_iff {id : Uuid} :
    (∃ data, d.getDiskId ctx = .ok (some id, data)) ↔ d.ShowsId ctx id := by
  rcases idCheck_cases ctx d with hrem | ⟨e, htrust, hstat⟩ | hre
  · simp [getDiskId_of_remembers hrem, ShowsId, hrem, not_rereads_of_remembers hrem]
  · have hnot : ¬d.Rereads ctx := fun h => by simp [h.2.1] at hstat
    simp [getDiskId_of_stat htrust hstat, ShowsId, not_remembers_of_stat htrust hstat, hnot]
  · have hnot : ¬d.Remembers ctx := fun h => not_rereads_of_remembers h hre
    rw [getDiskId_of_rereads hre, idInFile]
    cases hc : d.file.content with
    | error e => simp [ShowsId, hnot, hc]
    | ok b =>
      dsimp only
      cases hp : ctx.parse b with
      | error e => simp [ShowsId, hnot, hc, hp]
      | ok fm =>
        have hgoal : d.ShowsId ctx id ↔ fm.erasure.this = id ∧
            ∃ m n : ℕ, fm.findDiskIndexByDiskId id = .ok (m, n) ∧ m = d.setIdx ∧ n = d.diskIdx := by
          simp [ShowsId, hnot, hre, hc, hp]
        rw [hgoal]
        dsimp only
        cases hfind : fm.findDiskIndexByDiskId fm.erasure.this with
        | error e =>
          refine iff_of_false (by simp) ?_
          rintro ⟨rfl, m, n, hok, -⟩
          simp [hok] at hfind
        | ok mn =>
          obtain ⟨m, n⟩ := mn
          dsimp only
          split_ifs with hidx
          · refine iff_of_false (by simp) ?_
            rintro ⟨rfl, m', n', hok, hm, hn⟩
            obtain ⟨rfl, rfl⟩ : m = m' ∧ n = n' := by simpa [hfind] using hok
            exact hidx.elim (· hm) (· hn)
          · rw [not_or, not_not, not_not] at hidx
            constructor
            · rintro ⟨data, hdata⟩
              obtain ⟨rfl, -⟩ : fm.erasure.this = id ∧ b = data := by simpa using hdata
              exact ⟨rfl, m, n, hfind, hidx⟩
            · rintro ⟨rfl, -⟩
              exact ⟨b, rfl⟩

/-- When the staleness check fails in a way that counts as an unformatted drive. -/
theorem checkDiskStale_unformatted_iff :
    (∃ e, d.checkDiskStale ctx = .error e ∧ e.CountsUnformatted) ↔
      ∃ current, d.diskId = some current ∧ d.LooksWiped ctx current := by
  unfold checkDiskStale
  cases hid : d.diskId with
  | none => simp
  | some current =>
    have hwiped : (∃ c, some current = some c ∧ d.LooksWiped ctx c) ↔ d.LooksWiped ctx current := by
      simp
    rw [hwiped, LooksWiped, ← or_assoc, ← getDiskId_unformatted_iff]
    simp only [← getDiskId_shows_iff]
    rcases hget : d.getDiskId ctx with e | ⟨id, data⟩
    · simp
    · cases id with
      | none => simp
      | some stored =>
        by_cases hne : current = stored <;> simp [hne, DiskError.CountsUnformatted]

variable (ctx d)

/-- The read ends in an error that counts as an unformatted drive: the id check fails so, or it
passes with nothing remembered and the file is reported missing. -/
def ReadsUnformatted : Prop :=
  d.faulty = false ∧
    ((∃ current, d.diskId = some current ∧ d.LooksWiped ctx current) ∨
      d.checkDiskStale ctx = .ok [] ∧ d.timesOut = false ∧
        ∃ e, d.file.answer = .error e ∧ e.IsMissing)

/-- The drive answers, and its file system has no format file. -/
def Fresh : Prop :=
  d.faulty = false ∧ d.timesOut = false ∧ ∃ e, d.file.answer = .error e ∧ e.kind = .notFound

variable {ctx d}

theorem readFileAll_eq : d.readFileAll = d.file.answer.mapError OsError.toFileError := by
  unfold readFileAll FormatFile.answer
  cases d.file.stat <;> rfl

theorem readFileAll_unformatted_iff : (∃ e, d.readFileAll = .error e ∧ e.CountsUnformatted) ↔
    ∃ e, d.file.answer = .error e ∧ e.IsMissing := by
  rw [readFileAll_eq]
  cases d.file.answer with
  | error e => simp [Except.mapError, e.countsUnformatted_toFileError]
  | ok b => simp [Except.mapError]

theorem readAll_unformatted_iff : (∃ e, d.readAll ctx = .error e ∧ e.CountsUnformatted) ↔
    d.ReadsUnformatted ctx := by
  rw [ReadsUnformatted, ← checkDiskStale_unformatted_iff, ← readFileAll_unformatted_iff]
  unfold readAll trackDiskHealth
  cases hfaulty : d.faulty with
  | true => simp [DiskError.CountsUnformatted]
  | false =>
    cases hstale : d.checkDiskStale ctx with
    | error e => simp
    | ok data =>
      cases htime : d.timesOut with
      | true => simp [DiskError.CountsUnformatted, other]
      | false => by_cases hdata : data = [] <;> simp [hdata]

end LocalDrive

namespace RemoteDrive

variable (ctx : DriveContext) (r : RemoteDrive)

/-- The other node is reached and knows the drive, for which `p` holds there. -/
def Reaches (p : LocalDrive → Prop) : Prop :=
  r.faulty = false ∧ r.timesOut = false ∧ r.transport = none ∧ ∃ d, r.peer = some d ∧ p d

theorem readAll_unformatted_iff : (∃ e, r.readAll ctx = .error e ∧ e.CountsUnformatted) ↔
    r.Reaches (LocalDrive.ReadsUnformatted ctx) := by
  unfold readAll executeWithTimeout Reaches
  cases hfaulty : r.faulty with
  | true => simp [DiskError.CountsUnformatted]
  | false =>
    cases htime : r.timesOut with
    | true => simp [DiskError.CountsUnformatted, other]
    | false =>
      cases htrans : r.transport with
      | some text => simp [DiskError.CountsUnformatted, other]
      | none =>
        cases hpeer : r.peer with
        | none =>
          have hnot : ¬(overWire (.other "can not find disk")).CountsUnformatted := by
            rw [countsUnformatted_overWire]
            simp [DiskError.CountsUnformatted, other]
          simpa using hnot
        | some d =>
          have hd : (∃ e, d.readAll ctx = .error e ∧ e.CountsUnformatted) ↔
              d.ReadsUnformatted ctx := d.readAll_unformatted_iff
          rw [← exists_mapError_overWire] at hd
          simpa using hd

end RemoteDrive

namespace Disk

def ReadsUnformatted (ctx : DriveContext) : Disk → Prop
  | .local d => d.ReadsUnformatted ctx
  | .remote r => r.Reaches (LocalDrive.ReadsUnformatted ctx)

/-- The drive answers, and its file system has no format file. -/
def Fresh : Disk → Prop
  | .local d => d.Fresh
  | .remote r => r.Reaches LocalDrive.Fresh

theorem readAll_unformatted_iff (ctx : DriveContext) (disk : Disk) :
    (∃ e, disk.readAll ctx = .error e ∧ e.CountsUnformatted) ↔ disk.ReadsUnformatted ctx := by
  cases disk with
  | «local» d => exact d.readAll_unformatted_iff
  | remote r => exact r.readAll_unformatted_iff ctx

end Disk

theorem loadFormatErasure_unformatted_iff (ctx : DriveContext) (d : Disk) :
    loadFormatErasure ctx d = .error .unformattedDisk ↔ d.ReadsUnformatted ctx := by
  rw [← d.readAll_unformatted_iff ctx, loadFormatErasure]
  cases hread : d.readAll ctx with
  | error e => cases e <;> simp [DiskError.CountsUnformatted]
  | ok data =>
    dsimp only
    cases hp : ctx.parse data <;> simp [Except.mapError, other]

end Rustfs
