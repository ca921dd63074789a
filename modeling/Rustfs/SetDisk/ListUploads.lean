import Mathlib.Data.List.Sort
import Rustfs.Disk.Error
import Rustfs.Filemeta.FileInfo
import Rustfs.Lib.Listing

/-! The listing of the ongoing uploads of an object in pages. -/
namespace Rustfs.SetDisks

open List Option

structure MultipartInfo where
  bucket : String
  object : String
  uploadId : String
  initiated : Option Time
  deriving DecidableEq

structure ListMultipartsInfo where
  keyMarker : Option String
  nextUploadIdMarker : Option String := none
  maxUploads : ℕ
  isTruncated : Bool := false
  uploads : List MultipartInfo := []
  namePrefix : String
  delimiter : Option String

/-- A disk that may be asked for the uploads of an object. -/
structure UploadsDisk where
  isOnline : Bool
  listDir : Except DiskError (List String)

/-- What the clock and the libraries give: the time at which an upload without one in its name is
met, times from nanoseconds, and the text of an upload id. -/
structure UploadEnv where
  now : String → Time
  fromUnixTimestampNanos : ℤ → Except String Time
  encodeUploadId : String → String

/-- The directories of the uploads on the first disk that answers; none when there are none. -/
def findUploadIds : List (Option UploadsDisk) → Except DiskError (Option (List String))
  | [] => .ok (some [])
  | none :: disks => findUploadIds disks
  | some disk :: disks =>
    if !disk.isOnline then findUploadIds disks
    else
      match disk.listDir with
      | .ok ids => .ok (some ids)
      | .error err =>
        if err = .diskNotFound then findUploadIds disks
        else if err = .fileNotFound then .ok none
        else .error err

def trimEndSlash (name : String) : String :=
  String.ofList (name.toList.reverse.dropWhile (· == '/')).reverse

/-- `i128::from_str`. -/
def parseI128 (text : List Char) : Option ℤ :=
  let digits := if text.head? = some '+' ∨ text.head? = some '-' then text.tail else text
  if digits.isEmpty || !digits.all Char.isDigit then none
  else
    let n : ℤ := Nat.ofDigitChars 10 digits 0
    let v := if text.head? = some '-' then -n else n
    if -170141183460469231731687303715884105728 ≤ v ∧ v < 170141183460469231731687303715884105728 then
      some v
    else none

/-- The time at which an upload was started, from its name. -/
def startTime (env : UploadEnv) (name : String) : Except DiskError Time :=
  match name.toList.splitOn 'x' with
  | [_, time] =>
    match parseI128 time with
    | some unix =>
      match env.fromUnixTimestampNanos unix with
      | .ok t => .ok t
      | .error text => .error (.other text)
    | none => .ok (env.now name)
  | _ => .ok (env.now name)

/-- The loop over the directories, with the uploads and the names met so far. -/
def collectUploads (env : UploadEnv) (bucket object : String) :
    List String → List MultipartInfo → List String → Except DiskError (List MultipartInfo)
  | [], uploads, _ => .ok uploads
  | dir :: dirs, uploads, populated =>
    if trimEndSlash dir ∈ populated then collectUploads env bucket object dirs uploads populated
    else
      match startTime env (trimEndSlash dir) with
      | .error err => .error err
      | .ok start =>
        collectUploads env bucket object dirs
          (uploads ++ [{ bucket, object, uploadId := env.encodeUploadId (trimEndSlash dir),
                         initiated := some start }])
          (trimEndSlash dir :: populated)

def notLater (a b : Option Time) : Bool :=
  match a, b with
  | none, _ => true
  | some _, none => false
  | some a, some b => decide (a ≤ b)

/-- The loop that looks for the marker: what comes after it, nothing when it is not there. -/
def afterMarker (marker : String) : List MultipartInfo → List MultipartInfo
  | [] => []
  | u :: us => if u.uploadId = marker then us else afterMarker marker us

/-- The loop that fills a page. -/
def fillPage (maxUploads : ℕ) : List MultipartInfo → List MultipartInfo → List MultipartInfo
  | [], ret => ret
  | u :: us, ret =>
    if (ret ++ [u]).length > maxUploads then ret ++ [u] else fillPage maxUploads us (ret ++ [u])

section

variable (env : UploadEnv) (disks : List (Option UploadsDisk)) (bucket object : String)

/-- The ongoing uploads of an object, from the oldest on. -/
def ongoingUploads : Except DiskError (Option (List MultipartInfo)) :=
  match findUploadIds disks with
  | .error err => .error err
  | .ok none => .ok none
  | .ok (some ids) =>
    match collectUploads env bucket object ids [] [] with
    | .error err => .error err
    | .ok uploads => .ok (some (uploads.insertionSort fun a b => notLater a.initiated b.initiated))

def listMultipartUploads (keyMarker uploadIdMarker delimiter : Option String) (maxUploads : ℕ) :
    Except DiskError ListMultipartsInfo :=
  match ongoingUploads env disks bucket object with
  | .error err => .error err
  | .ok none => .ok { keyMarker, maxUploads, namePrefix := object, delimiter }
  | .ok (some uploads) =>
    let rest := match uploadIdMarker with
      | some marker => afterMarker marker uploads
      | none => uploads
    let retUploads := fillPage maxUploads rest []
    let isTruncated := decide (retUploads.length < uploads.length)
    .ok
      { keyMarker, maxUploads, namePrefix := object, delimiter, isTruncated, uploads := retUploads
        nextUploadIdMarker := if isTruncated then retUploads.getLast?.map MultipartInfo.uploadId else none }

/-- A page of uploads, as a client gets it that follows the upload id marker. -/
def uploadsPage (keyMarker delimiter : Option String) (maxUploads : ℕ) (marker : Option String) :
    Option (Page String MultipartInfo) :=
  (listMultipartUploads env disks bucket object keyMarker marker delimiter maxUploads).toOption.map
    fun ret => { items := ret.uploads, isTruncated := ret.isTruncated, next := ret.nextUploadIdMarker }

end

variable {env : UploadEnv} {disks : List (Option UploadsDisk)} {bucket object : String}
  {keyMarker delimiter : Option String} {maxUploads : ℕ} {found : Option (List MultipartInfo)}

/-- A page takes one upload more than asked for. -/
theorem fillPage_eq (us ret : List MultipartInfo) (h : ret.length ≤ maxUploads) :
    fillPage maxUploads us ret = ret ++ us.take (maxUploads + 1 - ret.length) := by
  induction us generalizing ret with
  | nil => simp [fillPage]
  | cons u us ih =>
    have hlen : (ret ++ [u]).length = ret.length + 1 := by simp
    rw [fillPage]
    split
    · rename_i hfull
      have hone : maxUploads + 1 - ret.length = 1 := by omega
      rw [hone, take_succ_cons, take_zero]
    · rename_i hroom
      have hmore : maxUploads + 1 - ret.length = maxUploads + 1 - (ret ++ [u]).length + 1 := by omega
      rw [ih (ret ++ [u]) (by omega), hmore, take_succ_cons, append_assoc]
      rfl

variable (keyMarker delimiter maxUploads) in
theorem uploadsPage_first (hfound : ongoingUploads env disks bucket object = .ok found) :
    ∃ p, uploadsPage env disks bucket object keyMarker delimiter maxUploads none = some p ∧
      p.items = (found.getD []).take (maxUploads + 1) ∧
      p.isTruncated = decide (maxUploads + 1 < (found.getD []).length) := by
  cases found with
  | none =>
    simp only [uploadsPage, listMultipartUploads, hfound, Except.toOption, map_some]
    exact ⟨_, rfl, rfl, rfl⟩
  | some uploads =>
    have hpage : fillPage maxUploads uploads [] = uploads.take (maxUploads + 1) :=
      fillPage_eq uploads [] (Nat.zero_le _)
    simp only [uploadsPage, listMultipartUploads, hfound, Except.toOption, map_some, hpage]
    refine ⟨_, rfl, rfl, ?_⟩
    simp

variable (keyMarker delimiter maxUploads) in
/-- Following the markers comes to an end with every upload once, no page above the limit and the
flag as it should be, exactly when there are no more uploads than the limit. -/
theorem listMultipartUploads_complete_iff
    (hfound : ongoingUploads env disks bucket object = .ok found) :
    (∃ pages, Page.Follows (uploadsPage env disks bucket object keyMarker delimiter maxUploads) none
        pages ∧
      (pages.flatMap Page.items).Perm (found.getD []) ∧
      (∀ p ∈ pages, p.items.length ≤ maxUploads) ∧
      ∀ before p after, pages = before ++ p :: after →
        (p.isTruncated = true ↔ after.flatMap Page.items ≠ [])) ↔
    (found.getD []).length ≤ maxUploads := by
  obtain ⟨p, hp, hitems, htruncated⟩ := uploadsPage_first keyMarker delimiter maxUploads hfound
  constructor
  · rintro ⟨pages, hfollows, -, hlimit, -⟩
    obtain ⟨q, rest, hq, rfl⟩ := hfollows.exists_head
    obtain rfl := some_inj.mp (hq.symm.trans hp)
    have hfirst := hlimit q mem_cons_self
    rw [hitems, length_take] at hfirst
    omega
  · intro hle
    have hlast : p.isTruncated = false := by
      rw [htruncated]
      exact decide_eq_false (by omega)
    have hall : p.items = found.getD [] := by
      rw [hitems, take_of_length_le (by omega)]
    refine ⟨[p], .last hp hlast, ?_, ?_, ?_⟩
    · simp [hall]
    · simpa [hall] using hle
    · intro before q after hsplit
      obtain ⟨rfl, rfl, rfl⟩ : before = [] ∧ q = p ∧ after = [] := by
        cases before with
        | nil => simpa [eq_comm] using hsplit
        | cons b before => simp at hsplit
      simp [hlast]

/-- With more uploads than a page takes every page is truncated, and a client never comes to an end. -/
theorem not_follows_uploads {us : List MultipartInfo} {m : Option String}
    {ps : List (Page String MultipartInfo)}
    (hfound : ongoingUploads env disks bucket object = .ok (some us))
    (hmore : maxUploads + 1 < us.length) :
    ¬Page.Follows (uploadsPage env disks bucket object keyMarker delimiter maxUploads) m ps := by
  intro hfollows
  induction hfollows with
  | more _ _ _ ih => exact ih
  | @last m p hp hlast =>
    simp only [uploadsPage, listMultipartUploads, hfound, Except.toOption, map_some, some_inj] at hp
    rw [← hp, decide_eq_false_iff_not, fillPage_eq _ [] (Nat.zero_le _), nil_append,
      length_take, length_nil] at hlast
    omega

def plainEnv : UploadEnv :=
  { now := fun _ => 0, fromUnixTimestampNanos := .ok, encodeUploadId := id }

def threeUploads : List (Option UploadsDisk) :=
  [some { isOnline := true, listDir := .ok ["ax1/", "bx2/", "cx3/"] }]

def upload (uploadId : String) (initiated : Time) : MultipartInfo :=
  { bucket := "b", object := "o", uploadId, initiated := some initiated }

theorem ongoingUploads_three : ongoingUploads plainEnv threeUploads "b" "o" =
    .ok (some [upload "ax1" 1, upload "bx2" 2, upload "cx3" 3]) := by
  rfl

/-- Three uploads in pages of three. -/
theorem listMultipartUploads_three :
    ∃ pages, Page.Follows (uploadsPage plainEnv threeUploads "b" "o" none none 3) none pages ∧
      (pages.flatMap Page.items).Perm [upload "ax1" 1, upload "bx2" 2, upload "cx3" 3] := by
  obtain ⟨pages, hfollows, hperm, -⟩ :=
    (listMultipartUploads_complete_iff none none 3 ongoingUploads_three).mpr (by decide)
  exact ⟨pages, hfollows, hperm⟩

/-- Three uploads in pages of two come all at once, in pages of one without an end. -/
theorem listMultipartUploads_overfull :
    ((uploadsPage plainEnv threeUploads "b" "o" none none 2 none).map fun p => p.items.length) =
      some 3 ∧
    ¬∃ pages, Page.Follows (uploadsPage plainEnv threeUploads "b" "o" none none 1) none pages :=
  ⟨rfl, fun ⟨_, hfollows⟩ => not_follows_uploads ongoingUploads_three (by decide) hfollows⟩

end Rustfs.SetDisks
