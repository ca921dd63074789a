import Mathlib.Data.Nat.ModEq
import Mathlib.Data.List.Sort
import Rustfs.ErasureCoding.EncodeQuorum
import Rustfs.SetDisk.Write

/-! Putting an object: its shards are written to the disks, then the disks commit its metadata. -/
namespace Rustfs

open List Option Nat

namespace FileInfo

def blockSizeV2 : ℕ := 1024 * 1024

/-- `FileInfo::new`; `start` is the checksum of the object's name. -/
def new (start dataBlocks parityBlocks : ℕ) : FileInfo where
  erasure :=
    { dataBlocks, parityBlocks, blockSize := blockSizeV2,
      distribution := (List.range (dataBlocks + parityBlocks)).map fun i =>
        1 + (start + (i + 1)) % (dataBlocks + parityBlocks) }

variable (fi : FileInfo)

def insertMeta (key value : String) : FileInfo :=
  { fi with metadata := fi.metadata.insert (reservedMetadataPrefixLower ++ key) value }

def setInlineData : FileInfo := fi.insertMeta "inline-data" "true"

def setDataMoved : FileInfo := fi.insertMeta "data-moved" "true"

/-- `add_object_part`: a part of the same number is replaced. -/
def addObjectPart (part : ObjectPartInfo) : FileInfo :=
  if fi.parts.any (·.number == part.number) then
    { fi with parts := fi.parts.map fun p => if p.number = part.number then part else p }
  else
    { fi with parts := (fi.parts ++ [part]).insertionSort fun a b => a.number ≤ b.number }

end FileInfo

namespace SetDisks

open ErasureCode Erasure ErrorReduce MultiWriter

/-- A disk by its answers: whether it is online, the file it opens, and whether it commits. -/
structure PutDisk where
  online : Bool
  create : Except DiskError Sink
  rename : Except DiskError (Option Uuid)

/-- The undo is asked for at the source of the rename: what was committed stays. -/
def PutDisk.calls : RenameCalls PutDisk := ⟨fun d _ => (d.rename, d), fun d _ _ => d⟩

structure PutRequest where
  /-- the checksum of the object's name -/
  start : ℕ
  parityDrives : ℕ
  maxParity : Bool
  versionId : Option Uuid
  dataDir : Uuid
  shouldInline : ℤ → Bool
  size : ℤ
  actualSize : ℤ
  stream : Source IoError
  userDefined : StrMap String
  etag : String
  index : Option Bytes
  checksum : Option Bytes
  modTime : Time
  dataMovement : Bool
  /-- an error of the checks before the data is read -/
  refused : Option StorageError
  /-- an error of the lock taken before the commit -/
  lockError : Option StorageError

namespace PutRequest

variable (req : PutRequest)

def parity (n : ℕ) : ℕ := if req.maxParity then n / 2 else req.parityDrives

def writeQuorum (n : ℕ) : ℕ :=
  if n - req.parity n = req.parity n then n - req.parity n + 1 else n - req.parity n

def fileInfo (n : ℕ) : FileInfo :=
  { FileInfo.new req.start (n - req.parity n) (req.parity n) with
    versionId := req.versionId, dataDir := some req.dataDir }

/-- The coding of the object. -/
def coding (n : ℕ) : Erasure := erasureOf (req.fileInfo n)

/-- The metadata of the request, with what is known after the data was read. -/
def metadata (written : ℕ) : StrMap String :=
  let key := reservedMetadataPrefixLower ++ "compression"
  let m := req.userDefined
  let m := if key ∈ m then
    m.insert (reservedMetadataPrefixLower ++ "compression-size") (toString written) else m
  let m := m.insert "etag" req.etag
  if m.lookup "x-amz-storage-class" = some "STANDARD" then m.erase "x-amz-storage-class" else m

/-- What is filled into the metadata of one disk before the commit. -/
def fill (inline : Bool) (written : ℕ) (writer : Option BitrotWriter) (f : FileInfo) : FileInfo :=
  let f := { f with metadata := req.metadata written }
  let f := if inline then
      FileInfo.setInlineData (match writer with
        | some w => { f with data := some w.inner.content }
        | none => f)
    else f
  let f := { f with modTime := some req.modTime, size := written }
  let actualSize := if req.actualSize < 0 then (written : ℤ) else req.actualSize
  let f := f.addObjectPart ⟨req.etag, 1, written, actualSize, req.index⟩
  let f := { f with checksum := req.checksum }
  if req.dataMovement then f.setDataMoved else f

/-- The writer for one disk. -/
def openWriter (e : Erasure) (disk : Option PutDisk) : Except DiskError BitrotWriter :=
  match disk with
  | some d =>
    if d.online then
      createBitrotWriter (req.shouldInline (e.shardFileSize req.size)) (some fun _ => d.create)
        (e.shardFileSize req.size) e.shardSize .highwayHash256
    else .error .diskNotFound
  | none => .error .diskNotFound

def writers (e : Erasure) (disks : List (Option PutDisk)) : List (Option BitrotWriter) :=
  disks.map fun disk => (req.openWriter e disk).toOption

end PutRequest

/-- What `put_object` returns, and for every shard whether its disk committed the new version. -/
structure PutOutcome where
  result : Except ObjectFailure (Option Uuid)
  committed : List Bool

/-- `put_object` up to the commit: the removal of the replaced data and of the temporary directory,
and the description of the object it returns, come after it. -/
def putObject (h : Hasher) (order : ErrOrder)
    (dirOrder : IterOrder (Option Uuid × ℕ)) (c : Codec) (bucket object : String)
    (req : PutRequest) (disks : List (Option PutDisk)) : PutOutcome :=
  match req.refused with
  | some e => ⟨.error (.err e), []⟩
  | none =>
    let n := disks.length
    let fi := req.fileInfo n
    match shuffleDisksAndPartsMetadata disks (List.replicate n fi) fi with
    | none => ⟨.error .panic, []⟩
    | some s =>
      let e := req.coding n
      let errors := s.disks.map fun disk => errOf (req.openWriter e disk)
      if nilCount errors < req.writeQuorum n then
        match reduceWriteQuorumErrs order errors objectOpIgnoredErrs (req.writeQuorum n) with
        | some err => ⟨.error (.err ((StorageError.ofDisk err).toObjectErr [bucket, object])), []⟩
        -- the source appends the list of errors to this text
        | none => ⟨.error (.err (.other "not enough disks to write: ")), []⟩
      else
        match encode h order c e req.stream (req.writers e s.disks) (req.writeQuorum n) with
        | (.error (.err err), _) => ⟨.error (.err (.ofIo err)), []⟩
        | (.error .panic, _) => ⟨.error .panic, []⟩
        | (.ok (_, written), mw) =>
          if (written : ℤ) < req.size then
            ⟨.error (.err (.other ("put_object write size < data.size(), w_size=" ++
              toString written ++ ", data.size=" ++ toString req.size))), []⟩
          else
            let inline := req.shouldInline (e.shardFileSize req.size)
            let files := List.zipWith (req.fill inline written) mw.writers s.files
            match req.lockError with
            | some err => ⟨.error (.err err), []⟩
            | none =>
              let r := renameData order dirOrder PutDisk.calls s.disks files (req.writeQuorum n)
              let committed := (s.disks.zip files).mapIdx fun i x =>
                (renameOne PutDisk.calls i x.1 x.2).1.isOk
              match r.1 with
              | .error err => ⟨.error (.err (.ofDisk err)), committed⟩
              | .ok (_, oldDir) => ⟨.ok oldDir, committed⟩

variable {h : Hasher} {order : ErrOrder} {dirOrder : IterOrder (Option Uuid × ℕ)}
  {c : Codec} {bucket object : String} {req : PutRequest} {disks : List (Option PutDisk)}
  {s : Shuffled PutDisk} {n i : ℕ}

/-- The places of the shards are a rotation. -/
theorem isDistribution_new (s k m : ℕ) :
    IsDistribution (FileInfo.new s k m).erasure.distribution (k + m) := by
  show List.Perm ((List.range (k + m)).map fun i => 1 + (s + (i + 1)) % (k + m)) _
  generalize k + m = n
  have hnodup : ((List.range n).map fun i => 1 + (s + (i + 1)) % n).Nodup := by
    refine List.Nodup.map_on (fun i hi j hj hij => ?_) nodup_range
    rw [mem_range] at hi hj
    have hmod : (s + (i + 1)) ≡ (s + (j + 1)) [MOD n] := add_left_cancel hij
    have hcancel : i ≡ j [MOD n] :=
      Nat.ModEq.add_right_cancel' 1 (Nat.ModEq.add_left_cancel' s hmod)
    exact Nat.ModEq.eq_of_lt_of_lt hcancel hi hj
  have hsub : ((List.range n).map fun i => 1 + (s + (i + 1)) % n) ⊆ List.range' 1 n := by
    intro b hb
    obtain ⟨i, hi, rfl⟩ := mem_map.1 hb
    rw [mem_range] at hi
    have := mod_lt (s + (i + 1)) (by omega : n > 0)
    exact mem_range'_1.2 (by omega)
  exact (subperm_of_subset hnodup hsub).perm_of_length_le (by simp)

/-- The disks by shard; where there is a disk there is the metadata of the request. -/
theorem shuffle_put (req : PutRequest) (ds : List (Option PutDisk))
    (hpar : req.parity ds.length ≤ ds.length) : ∃ s,
    shuffleDisksAndPartsMetadata ds
        (List.replicate ds.length (req.fileInfo ds.length)) (req.fileInfo ds.length) =
      some s ∧ s.disks.length = ds.length ∧ s.files.length = ds.length ∧
      ∀ (i : ℕ) d, s.disks[i]? = some (some d) → s.files[i]? = some (req.fileInfo ds.length) := by
  have hd : IsDistribution (req.fileInfo ds.length).erasure.distribution ds.length := by
    have := isDistribution_new req.start (ds.length - req.parity ds.length) (req.parity ds.length)
    rwa [Nat.sub_add_cancel hpar] at this
  obtain ⟨s, hrun, hp⟩ := shuffleSlots_spec
    (fun f => (req.fileInfo ds.length).modTime.isNone || f.isValid) (fun _ _ => true) hd rfl
    (length_replicate (n := ds.length) (a := req.fileInfo ds.length))
  refine ⟨s, hrun, hp.length_disks, by simpa using hp.length_files, fun i d hi => ?_⟩
  have hlt : i < ds.length := hp.length_disks ▸ (List.getElem?_eq_some_iff.1 hi).1
  obtain ⟨k, hk, hb⟩ := hd.surjective hlt
  have hfile : (List.replicate ds.length (req.fileInfo ds.length))[k]? =
      some (req.fileInfo ds.length) := by simp [hk]
  obtain ⟨h₁, h₂⟩ := hp.slot k _ _ _ (getElem?_eq_getElem hk) hfile hb
  rw [if_pos hk, Nat.add_sub_cancel] at h₁ h₂
  rw [hi, some_inj, slotOf] at h₁
  split_ifs at h₁ with hused
  rw [h₂, slotOf, if_pos hused]

theorem fill_erasure (req : PutRequest) (i : Bool) (written : ℕ) (w : Option BitrotWriter)
    (f : FileInfo) : (req.fill i written w f).erasure = f.erasure ∧
      (req.fill i written w f).deleted = f.deleted := by
  have hpart : ∀ (f : FileInfo) p, (f.addObjectPart p).erasure = f.erasure ∧
      (f.addObjectPart p).deleted = f.deleted := by
    intro f p
    unfold FileInfo.addObjectPart
    split <;> exact ⟨rfl, rfl⟩
  unfold PutRequest.fill
  cases i <;> cases hm : req.dataMovement <;> cases w <;> exact hpart _ _

/-- The request comes to the commit: it is not refused, a quorum of the disks opens a file and a
quorum takes every block, the stream is read to its end and is long enough, the lock is taken. -/
structure Reaches (h : Hasher) (c : Codec) (req : PutRequest) (disks : List (Option PutDisk)) :
    Prop where
  accepted : req.refused = none
  opened : req.writeQuorum disks.length ≤
    nilCount (disks.map fun disk => errOf (req.openWriter (req.coding disks.length) disk))
  stream : ∃ rest written, streamResult c (req.coding disks.length) req.stream =
    .ok (rest, written) ∧ req.size ≤ written
  taken : streamBlocks c (req.coding disks.length) req.stream = [] ∨
    req.writeQuorum disks.length ≤ takers h (req.writers (req.coding disks.length) disks)
      (streamBlocks c (req.coding disks.length) req.stream)
  locked : req.lockError = none

/-- The writer of shard `i` was opened and took every block of its shard without an error. -/
def TookEvery (h : Hasher) (c : Codec) (req : PutRequest) (disks : List (Option PutDisk)) (i : ℕ) :
    Prop :=
  ∃ w, (req.writers (req.coding disks.length) disks)[i]? = some (some w) ∧
    tookAll h (some w) (column (streamBlocks c (req.coding disks.length) req.stream) i) = true

theorem indexed_isValid {f f' : FileInfo} (he : f'.erasure = f.erasure)
    (hd : f'.deleted = f.deleted) (i : ℕ) : (indexed i f').isValid = (indexed i f).isValid := by
  unfold indexed
  rw [he]
  split <;> simp [FileInfo.isValid, he, hd]

/-- The metadata of a request is valid for every shard. -/
theorem fileInfo_isValid (hne : 0 < n) (hpar : 2 * req.parity n ≤ n) (hi : i < n) :
    (indexed i (req.fileInfo n)).isValid = true := by
  have hdata : n - req.parity n + req.parity n = n := Nat.sub_add_cancel (by omega)
  simp only [indexed, PutRequest.fileInfo, FileInfo.new, if_true, FileInfo.isValid, hdata,
    length_map, length_range, Bool.false_or, Bool.and_eq_true, decide_eq_true_eq,
    beq_self_eq_true, and_true]
  omega

/-- The commits of a run that comes to them: every disk whose rename succeeds. -/
theorem renamed_iff (hne : 0 < n) (hpar : 2 * req.parity n ≤ n) (hlen : s.disks.length = n)
    (hfiles : ∀ (i : ℕ) d, s.disks[i]? = some (some d) → s.files[i]? = some (req.fileInfo n))
    {ws : List (Option BitrotWriter)} (hws : ws.length = n) (inline : Bool) (written : ℕ) :
    ((s.disks.zip (List.zipWith (req.fill inline written) ws s.files)).mapIdx fun i x =>
        (renameOne PutDisk.calls i x.1 x.2).1.isOk)[i]? = some true ↔
      ∃ d dir, s.disks[i]? = some (some d) ∧ d.rename = .ok dir := by
  rw [getElem?_mapIdx, map_eq_some_iff]
  constructor
  · rintro ⟨⟨disk, f⟩, hx, hok⟩
    obtain ⟨hdisk, -⟩ := getElem?_zip_eq_some.1 hx
    unfold renameOne at hok
    split at hok
    · cases disk with
      | none => simp [Except.isOk, Except.toBool] at hok
      | some d =>
        cases hr : d.rename with
        | error e => simp [PutDisk.calls, hr, Except.isOk, Except.toBool] at hok
        | ok dir => exact ⟨d, dir, hdisk, hr⟩
    · simp [Except.isOk, Except.toBool] at hok
  · rintro ⟨d, dir, hdisk, hr⟩
    have hi : i < n := hlen ▸ (List.getElem?_eq_some_iff.1 hdisk).1
    obtain ⟨w, hw⟩ : ∃ w, ws[i]? = some w := ⟨_, getElem?_eq_getElem (hws ▸ hi)⟩
    have hf := hfiles i d hdisk
    refine ⟨(some d, req.fill inline written w (req.fileInfo n)),
      getElem?_zip_eq_some.2 ⟨hdisk, by rw [getElem?_zipWith, hw, hf]⟩, ?_⟩
    obtain ⟨h₁, h₂⟩ := fill_erasure req inline written w (req.fileInfo n)
    have hvalid := (indexed_isValid h₁ h₂ i).trans (fileInfo_isValid hne hpar hi)
    simp [renameOne, hvalid, PutDisk.calls, hr, Except.isOk, Except.toBool]

/-- What put_object encodes into the disks of the shards. -/
def PutRequest.encode (req : PutRequest) (h : Hasher) (order : ErrOrder) (c : Codec)
    (disks : List (Option PutDisk)) : Except Failure (Source IoError × ℕ) × MultiWriter :=
  Erasure.encode h order c (req.coding disks.length) req.stream
    (req.writers (req.coding disks.length) disks) (req.writeQuorum disks.length)

section

variable (h order dirOrder bucket object) (hne : disks ≠ [])
  (hpar : 2 * req.parity disks.length ≤ disks.length)
  (hc : c.Lawful (disks.length - req.parity disks.length) (req.parity disks.length))
include hne hpar hc

/-- The encoder succeeds when the stream is read and a quorum takes every block. -/
theorem encode_put_ok_iff {x : Source IoError × ℕ} : (req.encode h order c disks).1 = .ok x ↔
      streamResult c (req.coding disks.length) req.stream = .ok x ∧
      (streamBlocks c (req.coding disks.length) req.stream = [] ∨
        req.writeQuorum disks.length ≤ takers h (req.writers (req.coding disks.length) disks)
          (streamBlocks c (req.coding disks.length) req.stream)) := by
  have hpos := length_pos_iff.2 hne
  refine encode_ok_iff h order req.stream _ ⟨?_, ?_⟩ hc ?_
  · show 0 < disks.length - req.parity disks.length
    omega
  · show 0 < FileInfo.blockSizeV2
    decide
  · rw [PutRequest.writers, length_map]
    exact (Nat.sub_add_cancel (by omega)).symm

/-- A disk commits exactly when the request comes to the commit and its rename succeeds: its
writes are not asked about. -/
theorem putObject_committed_iff
    (hs : shuffleDisksAndPartsMetadata disks
        (List.replicate disks.length (req.fileInfo disks.length)) (req.fileInfo disks.length) =
      some s) (hlen : s.disks.length = disks.length)
    (hfiles : ∀ (i : ℕ) d, s.disks[i]? = some (some d) →
      s.files[i]? = some (req.fileInfo disks.length)) :
    (putObject h order dirOrder c bucket object req disks).committed[i]? = some true ↔
      Reaches h c req s.disks ∧ ∃ d dir, s.disks[i]? = some (some d) ∧ d.rename = .ok dir := by
  have hpos := length_pos_iff.2 hne
  have hno : ∀ {r : Except ObjectFailure (Option Uuid)}, ¬Reaches h c req s.disks →
      ((PutOutcome.mk r []).committed[i]? = some true ↔ Reaches h c req s.disks ∧ ∃ d dir,
        s.disks[i]? = some (some d) ∧ d.rename = .ok dir) := by
    intro r hP
    simp [hP]
  have hne' : s.disks ≠ [] := length_pos_iff.1 (hlen ▸ hpos)
  rw [← hlen] at hpos hpar hc hs hfiles
  have hencode := fun x => encode_put_ok_iff h order (x := x) hne' hpar hc
  have hlenw := length_writers_encode h order c (req.coding s.disks.length) req.stream
    (req.writers (req.coding s.disks.length) s.disks) (req.writeQuorum s.disks.length)
  unfold putObject
  rw [← hlen]
  cases hrefused : req.refused with
  | some err => exact hno fun hr => by simpa [hrefused] using hr.accepted
  | none =>
    dsimp only
    rw [hs]
    dsimp only
    by_cases hopen : nilCount (s.disks.map fun disk =>
        errOf (req.openWriter (req.coding s.disks.length) disk)) < req.writeQuorum s.disks.length
    · rw [if_pos hopen]
      split <;> exact hno fun hr => Nat.not_le_of_lt hopen hr.opened
    rw [if_neg hopen]
    unfold PutRequest.encode at hencode
    cases henc : Erasure.encode h order c (req.coding s.disks.length) req.stream
        (req.writers (req.coding s.disks.length) s.disks) (req.writeQuorum s.disks.length) with
    | mk res mw =>
      rw [henc] at hencode hlenw
      cases res with
      | error f =>
        have hfail : ¬Reaches h c req s.disks := by
          intro hr
          obtain ⟨rest, written, hstream, -⟩ := hr.stream
          cases (hencode _).2 ⟨hstream, hr.taken⟩
        cases f <;> exact hno hfail
      | ok x =>
        obtain ⟨rest, written⟩ := x
        obtain ⟨hstream, htaken⟩ := (hencode _).1 rfl
        dsimp only
        by_cases hsize : (written : ℤ) < req.size
        · rw [if_pos hsize]
          refine hno fun hr => ?_
          obtain ⟨rest', written', hstream', hle⟩ := hr.stream
          rw [hstream] at hstream'
          obtain ⟨rfl, rfl⟩ : rest = rest' ∧ written = written' := by simpa using hstream'
          omega
        rw [if_neg hsize]
        cases hlock : req.lockError with
        | some err => exact hno fun hr => by simpa [hlock] using hr.locked
        | none =>
          have hrun : Reaches h c req s.disks :=
            ⟨hrefused, by omega, ⟨rest, written, hstream, by omega⟩, htaken, hlock⟩
          have hren := renamed_iff (i := i) hpos hpar rfl hfiles
            (hlenw.trans (by rw [PutRequest.writers, length_map]))
            (req.shouldInline ((req.coding s.disks.length).shardFileSize req.size)) written
          dsimp only
          split <;> simpa [hrun] using hren

end

variable (h order dirOrder bucket object req disks) in
/-- The disks that commit are among those that took every block exactly when, in a request that
comes to the commit, no disk that was offline, could not open its file or failed a write goes on to
accept the rename. And the encoder succeeds only with a quorum of writers that took every block. -/
theorem putObject_commits_written_iff (hne : disks ≠ [])
    (hpar : 2 * req.parity disks.length ≤ disks.length)
    (hc : c.Lawful (disks.length - req.parity disks.length) (req.parity disks.length)) :
    ∃ s, shuffleDisksAndPartsMetadata disks
        (List.replicate disks.length (req.fileInfo disks.length)) (req.fileInfo disks.length) =
      some s ∧
      ((∀ i, (putObject h order dirOrder c bucket object req disks).committed[i]? = some true →
          TookEvery h c req s.disks i) ↔
        (Reaches h c req s.disks → ∀ (i : ℕ) d dir, s.disks[i]? = some (some d) →
          d.rename = .ok dir → TookEvery h c req s.disks i)) ∧
      (req.writeQuorum s.disks.length ≤ nilCount (s.disks.map fun disk =>
          errOf (req.openWriter (req.coding s.disks.length) disk)) →
        ∀ x, (req.encode h order c s.disks).1 = .ok x →
          req.writeQuorum s.disks.length ≤
            takers h (req.writers (req.coding s.disks.length) s.disks)
              (streamBlocks c (req.coding s.disks.length) req.stream)) := by
  obtain ⟨s, hs, hlen, -, hfiles⟩ := shuffle_put req disks (by omega)
  refine ⟨s, hs, ?_, fun hopen x hx => ?_⟩
  · have hiff := fun i => putObject_committed_iff h order dirOrder bucket object (i := i) hne hpar
      hc hs hlen hfiles
    constructor
    · intro hsub hreach i d dir hd hr
      exact hsub i ((hiff i).2 ⟨hreach, d, dir, hd, hr⟩)
    · intro hcond i hi
      obtain ⟨hreach, d, dir, hd, hr⟩ := (hiff i).1 hi
      exact hcond hreach i d dir hd hr
  · have hne' : s.disks ≠ [] := length_pos_iff.1 (hlen ▸ length_pos_iff.2 hne)
    rw [← hlen] at hpar hc
    rcases ((encode_put_ok_iff h order hne' hpar hc).1 hx).2 with hnil | htaken
    · refine le_trans hopen (le_of_eq ?_)
      rw [hnil, takers_nil, PutRequest.writers, nilCount, List.count, countP_map,
        countP_map]
      congr 1
      funext disk
      cases hd : req.openWriter (req.coding s.disks.length) disk <;>
        simp [hd, errOf, Except.toOption]
    · exact htaken

/-- A request of four bytes for three disks, one of them for parity. -/
def fourBytes : PutRequest where
  start := 0
  parityDrives := 1
  maxParity := false
  versionId := none
  dataDir := 7
  shouldInline := fun _ => false
  size := 4
  actualSize := 4
  stream := [.chunk [1, 2, 3, 4]]
  userDefined := ∅
  etag := ""
  index := none
  checksum := none
  modTime := 1
  dataMovement := false
  refused := none
  lockError := none

/-- A disk that answers every call well. -/
def goodDisk : PutDisk := ⟨true, .ok ⟨[], []⟩, .ok none⟩

/-- A disk whose first write fails and that accepts the rename. -/
def brokenDisk : PutDisk :=
  ⟨true, .ok ⟨[], [.fail (.plain .other "write error") 0]⟩, .ok none⟩

/-- A disk whose first write fails and that refuses the rename as well. -/
def refusingDisk : PutDisk := { brokenDisk with rename := .error .faultyDisk }

/-- Where a disk whose write failed refuses the rename, the two others commit what they took. -/
theorem putObject_refusing_disk : ∃ s,
    shuffleDisksAndPartsMetadata [some goodDisk, some goodDisk, some refusingDisk]
      (List.replicate 3 (fourBytes.fileInfo 3)) (fourBytes.fileInfo 3) = some s ∧
    (putObject .zeros .insertion .insertion xorParity "b" "o" fourBytes
      [some goodDisk, some goodDisk, some refusingDisk]).committed = [false, true, true] ∧
    ∀ i, (putObject .zeros .insertion .insertion xorParity "b" "o" fourBytes
        [some goodDisk, some goodDisk, some refusingDisk]).committed[i]? = some true →
      TookEvery .zeros xorParity fourBytes s.disks i := by
  obtain ⟨s, hs, hiff, -⟩ := putObject_commits_written_iff .zeros .insertion .insertion "b" "o"
    fourBytes [some goodDisk, some goodDisk, some refusingDisk] (cons_ne_nil _ _) (by decide)
    xorParity_lawful
  have hdisks : s.disks = [some refusingDisk, some goodDisk, some goodDisk] :=
    some.inj (congrArg (Option.map Shuffled.disks) hs).symm
  refine ⟨s, hs, rfl, hiff.2 fun _ i d dir hd hr => ?_⟩
  rw [hdisks] at hd ⊢
  match i with
  | 0 =>
    obtain rfl : refusingDisk = d := by simpa using hd
    cases hr
  | 1 | 2 => exact ⟨_, rfl, rfl⟩
  | i + 3 => simp at hd

/-- The disk of shard 0 fails its only write, and commits its shard with the others. -/
theorem putObject_commits_broken_disk :
    (shuffleDisksAndPartsMetadata [some goodDisk, some goodDisk, some brokenDisk]
      (List.replicate 3 (fourBytes.fileInfo 3)) (fourBytes.fileInfo 3)).map Shuffled.disks =
      some [some brokenDisk, some goodDisk, some goodDisk] ∧
    (putObject .zeros .insertion .insertion xorParity "b" "o" fourBytes
      [some goodDisk, some goodDisk, some brokenDisk]).committed = [true, true, true] ∧
    ¬ TookEvery .zeros xorParity fourBytes [some brokenDisk, some goodDisk, some goodDisk] 0 := by
  refine ⟨rfl, rfl, ?_⟩
  rintro ⟨w, hw, htook⟩
  obtain rfl := some.inj (some.inj hw)
  cases htook

theorem le_nilCount_of_reduce {es : List (Option DiskError)} {ignored : List DiskError} {q : ℕ}
    (hnone : reduceWriteQuorumErrs order es ignored q = none) : q ≤ nilCount es := by
  rcases Nat.eq_zero_or_pos q with rfl | hq
  · exact Nat.zero_le _
  rcases reduceQuorumErrs_cases order es ignored hq .erasureWriteQuorum with
    ⟨-, hle⟩ | ⟨e, he, -⟩ | ⟨he, -⟩
  · exact hle
  all_goals exact nomatch hnone.symm.trans he

theorem renameData_ok_quorum {ds : List (Option PutDisk)} {fs : List FileInfo} {q : ℕ}
    {r : List (Option PutDisk) × Option Uuid}
    (hr : (renameData order dirOrder PutDisk.calls ds fs q).1 = .ok r) :
    q ≤ ((ds.zip fs).mapIdx fun i x => (renameOne PutDisk.calls i x.1 x.2).1.isOk).count true := by
  have hcount (x : Except DiskError (Option Uuid)) : (errOf x == none) = (x.isOk == true) := by
    cases x <;> rfl
  unfold renameData at hr
  dsimp only at hr
  split at hr
  · exact nomatch hr
  · refine (le_nilCount_of_reduce ‹_›).trans_eq ?_
    simp only [nilCount, List.count, mapIdx_eq_zipIdx_map, countP_map, Function.comp_def, hcount]

/-- A put that succeeds has committed the version on a write quorum of the disks. -/
theorem putObject_ok_quorum {d : Option Uuid}
    (hok : (putObject h order dirOrder c bucket object req disks).result = .ok d) :
    req.writeQuorum disks.length ≤
      (putObject h order dirOrder c bucket object req disks).committed.count true := by
  revert hok
  unfold putObject
  dsimp only
  -- whatever ends the request before the commit is an error
  split
  · exact nofun
  split
  · exact nofun
  split
  · split <;> exact nofun
  split
  · exact nofun
  · exact nofun
  split
  · exact nofun
  split
  · exact nofun
  split
  · exact nofun
  · exact fun _ => renameData_ok_quorum ‹_›

theorem putObject_good_disks :
    let out := putObject .zeros .insertion .insertion xorParity "b" "o" fourBytes
      [some goodDisk, some goodDisk, some goodDisk]
    out.result = .ok none ∧ 2 ≤ out.committed.count true := by
  intro out
  have hok : out.result = .ok none := rfl
  exact ⟨hok, putObject_ok_quorum hok⟩

end SetDisks

end Rustfs
