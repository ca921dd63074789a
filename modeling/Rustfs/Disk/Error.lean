import Rustfs.Lib.Tally

/-! Disk errors, and the reduction of the errors of several disks to one. -/
namespace Rustfs

open Option

/-- The kinds of `std::io::Error` that the modelled code builds or tests. -/
inductive ErrorKind where
  | notFound
  | permissionDenied
  | alreadyExists
  | invalidInput
  | invalidData
  | timedOut
  | writeZero
  | interrupted
  | unexpectedEof
  | notADirectory
  | isADirectory
  | directoryNotEmpty
  | storageFull
  | crossesDevices
  | brokenPipe
  | tooManyLinks
  | uncategorized
  | other
  deriving Repr, DecidableEq

inductive DiskError where
  | maxVersionsExceeded
  | unexpected
  | corruptedFormat
  | corruptedBackend
  | unformattedDisk
  | inconsistentDisk
  | unsupportedDisk
  | diskFull
  | diskNotDir
  | diskNotFound
  | diskOngoingReq
  | driveIsRoot
  | faultyRemoteDisk
  | faultyDisk
  | diskAccessDenied
  | fileNotFound
  | fileVersionNotFound
  | tooManyOpenFiles
  | fileNameTooLong
  | volumeExists
  | isNotRegular
  | pathNotFound
  | volumeNotFound
  | volumeNotEmpty
  | volumeAccessDenied
  | fileAccessDenied
  | fileCorrupt
  | shortWrite
  | bitrotHashAlgoInvalid
  | crossDeviceLink
  | lessData
  | moreData
  | outdatedXLMeta
  | partMissingOrCorrupt
  | noHealRequired
  | methodNotAllowed
  | erasureWriteQuorum
  | erasureReadQuorum
  | io (kind : ErrorKind) (text : String)
  | sourceStalled
  | timeout
  | invalidPath
  deriving Repr, DecidableEq

namespace DiskError

/-- `DiskError::other`. -/
def other (text : String) : DiskError := .io .other text

/-- The `Display` text of an error. -/
def display : DiskError → String
  | .maxVersionsExceeded => "maximum versions exceeded, please delete few versions to proceed"
  | .unexpected => "unexpected error"
  | .corruptedFormat => "corrupted format"
  | .corruptedBackend => "corrupted backend"
  | .unformattedDisk => "unformatted disk error"
  | .inconsistentDisk => "inconsistent drive found"
  | .unsupportedDisk => "drive does not support O_DIRECT"
  | .diskFull => "drive path full"
  | .diskNotDir => "disk not a dir"
  | .diskNotFound => "disk not found"
  | .diskOngoingReq => "drive still did not complete the request"
  | .driveIsRoot => "drive is part of root drive, will not be used"
  | .faultyRemoteDisk => "remote drive is faulty"
  | .faultyDisk => "drive is faulty"
  | .diskAccessDenied => "drive access denied"
  | .fileNotFound => "file not found"
  | .fileVersionNotFound => "file version not found"
  | .tooManyOpenFiles => "too many open files, please increase 'ulimit -n'"
  | .fileNameTooLong => "file name too long"
  | .volumeExists => "volume already exists"
  | .isNotRegular => "not of regular file type"
  | .pathNotFound => "path not found"
  | .volumeNotFound => "volume not found"
  | .volumeNotEmpty => "volume is not empty"
  | .volumeAccessDenied => "volume access denied"
  | .fileAccessDenied => "disk access denied"
  | .fileCorrupt => "file is corrupted"
  | .shortWrite => "short write"
  | .bitrotHashAlgoInvalid => "bit-rot hash algorithm is invalid"
  | .crossDeviceLink => "Rename across devices not allowed, please fix your backend configuration"
  | .lessData => "less data available than what was requested"
  | .moreData => "more data was sent than what was advertised"
  | .outdatedXLMeta => "outdated XL meta"
  | .partMissingOrCorrupt => "part missing or corrupt"
  | .noHealRequired => "No healing is required"
  | .methodNotAllowed => "method not allowed"
  | .erasureWriteQuorum => "erasure write quorum"
  | .erasureReadQuorum => "erasure read quorum"
  | .io _ text => "io error " ++ text
  | .sourceStalled => "source stalled"
  | .timeout => "timeout"
  | .invalidPath => "invalid path"

def toU32 : DiskError → ℕ
  | .maxVersionsExceeded => 0x01
  | .unexpected => 0x02
  | .corruptedFormat => 0x03
  | .corruptedBackend => 0x04
  | .unformattedDisk => 0x05
  | .inconsistentDisk => 0x06
  | .unsupportedDisk => 0x07
  | .diskFull => 0x08
  | .diskNotDir => 0x09
  | .diskNotFound => 0x0a
  | .diskOngoingReq => 0x0b
  | .driveIsRoot => 0x0c
  | .faultyRemoteDisk => 0x0d
  | .faultyDisk => 0x0e
  | .diskAccessDenied => 0x0f
  | .fileNotFound => 0x10
  | .fileVersionNotFound => 0x11
  | .tooManyOpenFiles => 0x12
  | .fileNameTooLong => 0x13
  | .volumeExists => 0x14
  | .isNotRegular => 0x15
  | .pathNotFound => 0x16
  | .volumeNotFound => 0x17
  | .volumeNotEmpty => 0x18
  | .volumeAccessDenied => 0x19
  | .fileAccessDenied => 0x1a
  | .fileCorrupt => 0x1b
  | .bitrotHashAlgoInvalid => 0x1c
  | .crossDeviceLink => 0x1d
  | .lessData => 0x1e
  | .moreData => 0x1f
  | .outdatedXLMeta => 0x20
  | .partMissingOrCorrupt => 0x21
  | .noHealRequired => 0x22
  | .methodNotAllowed => 0x23
  | .io _ _ => 0x24
  | .erasureWriteQuorum => 0x25
  | .erasureReadQuorum => 0x26
  | .shortWrite => 0x27
  | .sourceStalled => 0x28
  | .timeout => 0x29
  | .invalidPath => 0x2a

def fromU32 : ℕ → Option DiskError
  | 0x01 => some .maxVersionsExceeded
  | 0x02 => some .unexpected
  | 0x03 => some .corruptedFormat
  | 0x04 => some .corruptedBackend
  | 0x05 => some .unformattedDisk
  | 0x06 => some .inconsistentDisk
  | 0x07 => some .unsupportedDisk
  | 0x08 => some .diskFull
  | 0x09 => some .diskNotDir
  | 0x0a => some .diskNotFound
  | 0x0b => some .diskOngoingReq
  | 0x0c => some .driveIsRoot
  | 0x0d => some .faultyRemoteDisk
  | 0x0e => some .faultyDisk
  | 0x0f => some .diskAccessDenied
  | 0x10 => some .fileNotFound
  | 0x11 => some .fileVersionNotFound
  | 0x12 => some .tooManyOpenFiles
  | 0x13 => some .fileNameTooLong
  | 0x14 => some .volumeExists
  | 0x15 => some .isNotRegular
  | 0x16 => some .pathNotFound
  | 0x17 => some .volumeNotFound
  | 0x18 => some .volumeNotEmpty
  | 0x19 => some .volumeAccessDenied
  | 0x1a => some .fileAccessDenied
  | 0x1b => some .fileCorrupt
  | 0x1c => some .bitrotHashAlgoInvalid
  | 0x1d => some .crossDeviceLink
  | 0x1e => some .lessData
  | 0x1f => some .moreData
  | 0x20 => some .outdatedXLMeta
  | 0x21 => some .partMissingOrCorrupt
  | 0x22 => some .noHealRequired
  | 0x23 => some .methodNotAllowed
  | 0x24 => some (other "")
  | 0x25 => some .erasureWriteQuorum
  | 0x26 => some .erasureReadQuorum
  | 0x27 => some .shortWrite
  | 0x28 => some .sourceStalled
  | 0x29 => some .timeout
  | 0x2a => some .invalidPath
  | _ => none

/-- `PartialEq` of the source: I/O errors by kind and text, the others by their code. -/
def eq : DiskError → DiskError → Bool
  | .io k t, .io k' t' => k == k' && t == t'
  | a, b => a.toU32 == b.toU32

theorem fromU32_toU32 (e : DiskError) : fromU32 e.toU32 = some e ∨ ∃ k t, e = .io k t := by
  cases e <;> first | exact .inl rfl | exact .inr ⟨_, _, rfl⟩

/-- The hand-written equality of the source is equality of values. -/
theorem eq_iff (a b : DiskError) : eq a b = true ↔ a = b := by
  unfold eq
  split
  · simp
  · rename_i hio
    rw [beq_iff_eq]
    refine ⟨fun hc => ?_, congrArg toU32⟩
    have hcode := congrArg fromU32 hc
    rcases fromU32_toU32 a with ha | ⟨k, t, rfl⟩ <;> rcases fromU32_toU32 b with hb | ⟨k', t', rfl⟩
    · rw [ha, hb] at hcode
      exact some.inj hcode
    · rw [ha] at hcode
      exact (hio _ _ _ _ (some.inj hcode) rfl).elim
    · rw [hb] at hcode
      exact (hio _ _ _ _ rfl (some.inj hcode).symm).elim
    · exact (hio _ _ _ _ rfl rfl).elim

end DiskError

/-- A `std::io::Error`: one of its own kind and text, a disk error wrapped by
`io::Error::other`, or one that wraps a checksum mismatch. -/
inductive IoError where
  | plain (kind : ErrorKind) (text : String)
  | disk (e : DiskError)
  | checksumMismatch (kind : ErrorKind) (text : String)
  deriving Repr, DecidableEq

namespace IoError

def kind : IoError → ErrorKind
  | .plain k _ => k
  | .disk (.io k _) => k
  | .disk _ => .other
  | .checksumMismatch k _ => k

def display : IoError → String
  | .plain _ t => t
  | .disk e => e.display
  | .checksumMismatch _ t => t

/-- `From<io::Error> for DiskError`: a wrapped disk error is taken out again. -/
def toDisk : IoError → DiskError
  | .plain k t => .io k t
  | .disk e => e
  | .checksumMismatch k t => .io k t

/-- `From<DiskError> for io::Error`. -/
def ofDisk : DiskError → IoError
  | .io k t => .plain k t
  | e => .disk e

end IoError

/-- What a call that does not return `Ok` ends in. -/
inductive Failure where
  | err (e : IoError)
  | panic
  deriving Repr, DecidableEq

/-- The order in which a map hands over how often each error was met. -/
abbrev ErrOrder : Type := IterOrder (DiskError × ℕ)

namespace ErrorReduce

open Tally

variable {order : ErrOrder} {errors : List (Option DiskError)}
  {ignored : List DiskError} {e : DiskError} {c quorum : ℕ}

def objectOpIgnoredErrs : List DiskError :=
  [.diskNotFound, .faultyDisk, .faultyRemoteDisk, .diskAccessDenied, .diskOngoingReq,
    .unformattedDisk]

def isIgnoredErr (ignored : List DiskError) (e : DiskError) : Bool := ignored.any fun i => i == e

def countErrs (errors : List (Option DiskError)) (e : DiskError) : ℕ := errors.count (some e)

/-- The number of disks that reported no error. -/
def nilCount (errors : List (Option DiskError)) : ℕ := errors.count none

/-- The errors that take part in the count. -/
def counted (errors : List (Option DiskError)) (ignored : List DiskError) : List DiskError :=
  (errors.filterMap fun e => e).filter fun e => !isIgnoredErr ignored e

/-- `reduce_errs`: the most frequent error, or none where no error is more frequent than success.
Between errors of one count the order of the hash map decides. -/
def reduceErrs (order : ErrOrder) (errors : List (Option DiskError))
    (ignored : List DiskError) : ℕ × Option DiskError :=
  let best := (maxBy (order.run (tally (counted errors ignored)))).getD (.other "nil", 0)
  let nil := nilCount errors
  if nil > best.2 ∨ (nil = best.2 ∧ nil > 0) then (nil, none) else (best.2, some best.1)

def reduceQuorumErrs (order : ErrOrder) (errors : List (Option DiskError))
    (ignored : List DiskError) (quorum : ℕ) (quorumErr : DiskError) : Option DiskError :=
  let r := reduceErrs order errors ignored
  if r.1 ≥ quorum then r.2 else some quorumErr

def reduceWriteQuorumErrs (order : ErrOrder) (errors : List (Option DiskError))
    (ignored : List DiskError) (quorum : ℕ) : Option DiskError :=
  reduceQuorumErrs order errors ignored quorum .erasureWriteQuorum

def reduceReadQuorumErrs (order : ErrOrder) (errors : List (Option DiskError))
    (ignored : List DiskError) (quorum : ℕ) : Option DiskError :=
  reduceQuorumErrs order errors ignored quorum .erasureReadQuorum

theorem mem_counted : e ∈ counted errors ignored ↔
    some e ∈ errors ∧ isIgnoredErr ignored e = false := by
  simp [counted]

theorem count_counted (h : isIgnoredErr ignored e = false) :
    (counted errors ignored).count e = countErrs errors e := by
  rw [counted, List.count_filter (by simp [h]), countErrs]
  induction errors with
  | nil => rfl
  | cons x l ih => cases x <;> simp [List.count_cons, ih]

theorem nilCount_add_countErrs_le (es : List (Option DiskError)) (e : DiskError) :
    nilCount es + countErrs es e ≤ es.length :=
  count_add_count_le (some_ne_none e).symm es

section

variable (o : ErrOrder) (es : List (Option DiskError)) (i : List DiskError)

/-- Either no error is more frequent than success and there is a success, or the answer is an
error strictly more frequent than success (the text "nil" stands where there is neither). -/
theorem reduceErrs_cases :
    (reduceErrs o es i = (nilCount es, none) ∧ 0 < nilCount es ∧
      ∀ e, isIgnoredErr i e = false → countErrs es e ≤ nilCount es) ∨
    (∃ e, reduceErrs o es i = (countErrs es e, some e) ∧ some e ∈ es ∧
      isIgnoredErr i e = false ∧ nilCount es < countErrs es e ∧
      ∀ e', isIgnoredErr i e' = false → countErrs es e' ≤ countErrs es e) ∨
    (reduceErrs o es i = (0, some (.other "nil")) ∧ nilCount es = 0 ∧ counted es i = []) := by
  have hzero : ∀ e, isIgnoredErr i e = false → some e ∉ es → countErrs es e = 0 :=
    fun e _ he => List.count_eq_zero_of_not_mem he
  unfold reduceErrs
  cases hm : maxBy (o.run (tally (counted es i))) with
  | none =>
    have hnil : counted es i = [] := by simpa using maxBy_eq_none.1 hm
    have hnone : ∀ e, isIgnoredErr i e = false → countErrs es e = 0 := by
      intro e he
      refine hzero e he fun hmem => ?_
      simpa [hnil] using mem_counted.2 ⟨hmem, he⟩
    by_cases hpos : 0 < nilCount es
    · refine .inl ⟨?_, hpos, fun e he => ?_⟩
      · simp [hpos]
      · rw [hnone e he]
        exact Nat.zero_le _
    · have h0 : nilCount es = 0 := by omega
      exact .inr (.inr ⟨by simp [h0], h0, hnil⟩)
  | some p =>
    obtain ⟨e, c⟩ := p
    obtain ⟨hmem, hmax⟩ := maxBy_spec hm
    rw [IterOrder.mem_run, mem_tally, mem_counted] at hmem
    obtain ⟨⟨hin, hig⟩, rfl⟩ := hmem
    rw [count_counted hig] at hmax ⊢
    have hle : ∀ e', isIgnoredErr i e' = false → countErrs es e' ≤ countErrs es e := by
      intro e' he'
      by_cases hin' : some e' ∈ es
      · have := hmax (e', (counted es i).count e')
          (by rw [IterOrder.mem_run, mem_tally, mem_counted]; exact ⟨⟨hin', he'⟩, rfl⟩)
        rwa [count_counted he'] at this
      · rw [hzero e' he' hin']
        exact Nat.zero_le _
    have hpos : 0 < countErrs es e := List.count_pos_iff.2 hin
    simp only [getD_some]
    split_ifs with hnil
    · refine .inl ⟨rfl, by omega, fun e' he' => ?_⟩
      have := hle e' he'
      omega
    · refine .inr (.inl ⟨e, rfl, hin, hig, by omega, hle⟩)

/-- What a quorum decides: success, the error of a quorum of disks, or that there is none. -/
theorem reduceQuorumErrs_cases (hq : 0 < quorum) (q : DiskError) :
    (reduceQuorumErrs o es i quorum q = none ∧ quorum ≤ nilCount es) ∨
    (∃ e, reduceQuorumErrs o es i quorum q = some e ∧
      quorum ≤ countErrs es e ∧ isIgnoredErr i e = false ∧
      nilCount es < countErrs es e) ∨
    (reduceQuorumErrs o es i quorum q = some q ∧
      nilCount es < quorum ∧ ∀ e, isIgnoredErr i e = false → countErrs es e < quorum) := by
  unfold reduceQuorumErrs
  rcases reduceErrs_cases o es i with ⟨hr, -, hle⟩ | ⟨e, hr, -, hig, hlt, hle⟩ | ⟨hr, hnil, hnone⟩
  · by_cases hquorum : quorum ≤ nilCount es
    · exact .inl ⟨by simp [hr, hquorum], hquorum⟩
    · refine .inr (.inr ⟨by simp [hr, hquorum], by omega, fun e he => ?_⟩)
      have := hle e he
      omega
  · by_cases hquorum : quorum ≤ countErrs es e
    · exact .inr (.inl ⟨e, by simp [hr, hquorum], hquorum, hig, hlt⟩)
    · refine .inr (.inr ⟨by simp [hr, hquorum], by omega, fun e' he' => ?_⟩)
      have := hle e' he'
      omega
  · refine .inr (.inr ⟨by simp [hr, Nat.pos_iff_ne_zero.mp hq], by omega, fun e he => ?_⟩)
    rw [← count_counted he, hnone]
    exact hq

/-- With a majority for quorum there is no error exactly when that many succeed. -/
theorem reduceQuorumErrs_eq_none_iff (hq : errors.length < 2 * quorum) {q : DiskError} :
    reduceQuorumErrs o errors ignored quorum q = none ↔ quorum ≤ nilCount errors := by
  have hpos : 0 < quorum := by omega
  rcases reduceQuorumErrs_cases o errors ignored hpos q with
    ⟨hr, hle⟩ | ⟨e, hr, hle, -⟩ | ⟨hr, hlt, -⟩
  · simp [hr, hle]
  · have := nilCount_add_countErrs_le errors e
    simp only [hr, reduceCtorEq, false_iff]
    omega
  · simp [hr, hlt]

/-- An error other than a missed quorum is that of a quorum of disks. -/
theorem le_countErrs_of_reduceQuorumErrs {q : DiskError} (hq : 0 < quorum) (he : e ≠ q)
    (h : reduceQuorumErrs o errors ignored quorum q = some e) :
    quorum ≤ countErrs errors e := by
  rcases reduceQuorumErrs_cases o errors ignored hq q with
    ⟨hr, -⟩ | ⟨e', hr, hle, -⟩ | ⟨hr, -⟩
  · rw [hr] at h
    cases h
  · rwa [some.inj (h.symm.trans hr)]
  · exact absurd (some.inj (h.symm.trans hr)) he

end

/-- A majority leaves the order of the hash map nothing to decide. -/
theorem reduceQuorumErrs_order (hq : errors.length < 2 * quorum) (q : DiskError)
    (o o' : ErrOrder) :
    reduceQuorumErrs o errors ignored quorum q = reduceQuorumErrs o' errors ignored quorum q := by
  have hpos : 0 < quorum := by omega
  have hnil : ∀ e, nilCount errors + countErrs errors e ≤ errors.length :=
    nilCount_add_countErrs_le errors
  rcases reduceQuorumErrs_cases o errors ignored hpos q with
    ⟨hr, hle⟩ | ⟨e, hr, hle, hig, -⟩ | ⟨hr, hlt, hall⟩ <;>
    rcases reduceQuorumErrs_cases o' errors ignored hpos q with
      ⟨hr', hle'⟩ | ⟨e', hr', hle', hig', -⟩ | ⟨hr', hlt', hall'⟩ <;> rw [hr, hr']
  · have := hnil e'
    omega
  · omega
  · have := hnil e
    omega
  · -- two errors of a majority each are one
    by_contra hne
    have := count_add_count_le hne errors
    unfold countErrs at hle hle'
    omega
  · have := hall' e hig
    omega
  · omega
  · have := hall e' hig'
    omega

/-- The disks that failed with an error the source's `==` takes for this one. -/
def failedWith (errors : List (Option DiskError)) (e : DiskError) : ℕ :=
  errors.countP fun x => x.any fun err => err.eq e

theorem failedWith_eq (es : List (Option DiskError)) (e : DiskError) :
    failedWith es e = countErrs es e := by
  refine List.countP_congr fun x _ => ?_
  cases x <;> simp [DiskError.eq_iff]

theorem reduceQuorumErrs_majority (hq : errors.length < 2 * quorum) (quorumErr : DiskError)
    (order : ErrOrder) :
    (reduceQuorumErrs order errors ignored quorum quorumErr = none ↔ quorum ≤ nilCount errors) ∧
    (∀ e, reduceQuorumErrs order errors ignored quorum quorumErr = some e → e ≠ quorumErr →
      quorum ≤ failedWith errors e) ∧
    ∀ order', reduceQuorumErrs order' errors ignored quorum quorumErr =
      reduceQuorumErrs order errors ignored quorum quorumErr := by
  refine ⟨reduceQuorumErrs_eq_none_iff order hq, fun e h he => ?_, fun order' => ?_⟩
  · rw [failedWith_eq]
    exact le_countErrs_of_reduceQuorumErrs order (by omega) he h
  · exact reduceQuorumErrs_order hq quorumErr order' order

/-- Two of three disks without the file. -/
theorem reduceQuorumErrs_two_of_three : ∃ errors : List (Option DiskError), errors.length < 2 * 2 ∧
    reduceQuorumErrs .insertion errors objectOpIgnoredErrs 2 .erasureReadQuorum =
      some .fileNotFound ∧ 2 ≤ failedWith errors .fileNotFound := by
  have hred : reduceQuorumErrs .insertion [some .fileNotFound, none, some .fileNotFound]
      objectOpIgnoredErrs 2 .erasureReadQuorum = some .fileNotFound := by decide
  refine ⟨_, by decide, hred, ?_⟩
  exact (reduceQuorumErrs_majority (by decide) .erasureReadQuorum .insertion).2.1 _ hred (by decide)

end ErrorReduce

end Rustfs
