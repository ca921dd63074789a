import Mathlib.Data.String.Basic
import Rustfs.Lib.CrashLogic
import Rustfs.Lib.Listing
import Rustfs.Heal.Resume

/-! The heal of an erasure set, bucket by bucket, which resumes where an earlier one stopped. -/
namespace Rustfs.Heal

open Crash (Prog)
open Crash.Prog (ask fail read update attempt loop)

/-- What a run of the healer holds in memory. -/
structure Memory where
  state : ResumeState
  checkpoint : ResumeCheckpoint
  currentObjectIndex : ℕ
  processedObjects : ℕ
  successfulObjects : ℕ
  failedObjects : ℕ
  skippedObjects : ℕ

/-- What a heal has done, for the record. -/
inductive Deed where
  | passed (bucket object : String)
  | failed (bucket object : String)
  | healed (bucket : String)
  deriving Repr, DecidableEq

/-- The files of the tasks, the objects in each bucket, and the heal that runs or ran last. -/
structure Machine where
  files : ResumeFiles
  contents : String → Listing String
  cancelled : Bool
  memory : Memory
  deeds : List Deed
  result : Option (Except HealError Unit)

/-- What others do meanwhile. -/
inductive Change where
  | put (bucket object : String)
  | delete (bucket object : String)
  | cancel
  deriving Repr, DecidableEq

namespace Machine

def change (s : Machine) : Change → Machine
  | .put bucket object =>
    { s with contents := fun b => if b = bucket then (s.contents b).put object else s.contents b }
  | .delete bucket object =>
    { s with contents := fun b => if b = bucket then (s.contents b).delete object else s.contents b }
  | .cancel => { s with cancelled := true }

def changes (s : Machine) (before : List Change) : Machine := before.foldl change s

end Machine

/-- What the disk and the store reply. A fault stands for every error they may give. -/
inductive Reply where
  | listDir (entries : Option (List String))
  | readAll (fault : Option DiskFault)
  | writeAll (fault : Option DiskFault)
  | deleted (fault : Option DiskFault)
  | bucketInfo (fault : Option String)
  | page (fault : Option String)
  | objectExists (fault : Option String)
  | healObject (outcome : Except String (Option String))
  deriving Repr, DecidableEq

/-- A reply, and what others did before it. -/
structure Answer where
  before : List Change
  reply : Reply
  deriving Repr, DecidableEq

abbrev Healer (α : Type) : Type := Prog Machine Answer HealError α

/-- Waits for a reply of one kind. -/
def await {ρ α : Type} (kind : Reply → Option ρ) (f : Machine → ρ → Except HealError α × Machine) :
    Healer α :=
  ask fun s a => (kind a.reply).map (f (s.changes a.before))

namespace Reply

def asListDir : Reply → Option (Option (List String))
  | .listDir entries => some entries
  | _ => none

def asReadAll : Reply → Option (Option DiskFault)
  | .readAll fault => some fault
  | _ => none

def asWriteAll : Reply → Option (Option DiskFault)
  | .writeAll fault => some fault
  | _ => none

def asDeleted : Reply → Option (Option DiskFault)
  | .deleted fault => some fault
  | _ => none

def asBucketInfo : Reply → Option (Option String)
  | .bucketInfo fault => some fault
  | _ => none

def asPage : Reply → Option (Option String)
  | .page fault => some fault
  | _ => none

def asObjectExists : Reply → Option (Option String)
  | .objectExists fault => some fault
  | _ => none

def asHealObject : Reply → Option (Except String (Option String))
  | .healObject outcome => some outcome
  | _ => none

end Reply

def onMemory (f : Memory → Memory) : Healer Unit :=
  update fun s => { s with memory := f s.memory }

def onState (f : ResumeState → ResumeState) : Healer Unit :=
  onMemory fun m => { m with state := f m.state }

def onCheckpoint (f : ResumeCheckpoint → ResumeCheckpoint) : Healer Unit :=
  onMemory fun m => { m with checkpoint := f m.checkpoint }

def setObjectIndex (index : ℕ) : Healer Unit :=
  onMemory fun m => { m with currentObjectIndex := index }

def countProcessed : Healer Unit :=
  onMemory fun m => { m with processedObjects := m.processedObjects + 1 }

def countSuccessful : Healer Unit :=
  onMemory fun m => { m with successfulObjects := m.successfulObjects + 1 }

def countFailed : Healer Unit :=
  onMemory fun m => { m with failedObjects := m.failedObjects + 1 }

def note (deed : Deed) : Healer Unit :=
  update fun s => { s with deeds := deed :: s.deeds }

/-- `ResumeManager::save_state`: on an unformatted disk nothing is written, without an error. -/
def saveState : Healer Unit :=
  await Reply.asWriteAll fun s fault =>
    match fault with
    | none => (.ok (), { s with files := s.files.writeState s.memory.state })
    | some fault =>
      if fault.error = .unformattedDisk then (.ok (), s)
      else (.error (.taskExecutionFailed s!"Failed to save resume state: {fault.text}"), s)

/-- `CheckpointManager::save_checkpoint`; the deeds become part of the record with the file. -/
def saveCheckpoint (recorded : List Deed) : Healer Unit :=
  await Reply.asWriteAll fun s fault =>
    match fault with
    | none =>
      (.ok (), { s with
        files := s.files.writeCheckpoint s.memory.checkpoint
        deeds := recorded ++ s.deeds })
    | some fault => (.error (.taskExecutionFailed s!"Failed to save checkpoint: {fault.text}"), s)

def setCurrentItem (bucket object : Option String) : Healer Unit := do
  onState (·.setCurrentItem bucket object)
  saveState

def updateProgress (processed successful failed skipped : ℕ) : Healer Unit := do
  onState (·.updateProgress processed successful failed skipped)
  saveState

def completeBucket (bucket : String) : Healer Unit := do
  onState (·.completeBucket bucket)
  saveState

def markCompleted : Healer Unit := do
  onState (·.markCompleted)
  saveState

def updatePosition (bucketIndex objectIndex : ℕ) : Healer Unit := do
  onCheckpoint (·.updatePosition bucketIndex objectIndex)
  saveCheckpoint []

def addProcessedObject (object : String) : Healer Unit := do
  onCheckpoint (·.addProcessedObject object)
  saveCheckpoint []

variable (bucket object : String)

/-- The checkpoint holds the name only; which bucket it was found in is in the record. -/
def addFailedObject : Healer Unit := do
  onCheckpoint (·.addFailedObject object)
  saveCheckpoint [.failed bucket object]

def isCancelled : Healer Bool := do
  let s ← read
  pure s.cancelled

def getBucketInfo (_bucket : String) : Healer (Option Unit) :=
  await Reply.asBucketInfo fun s fault =>
    match fault with
    | none => (.ok (some ()), s)
    | some text => (.error (.other text), s)

def maxKeys : ℕ := 1000

def listObjectsForHealPage (bucket : String) (continuationToken : Option String) :
    Healer (List String × Option String × Bool) :=
  await Reply.asPage fun s fault =>
    match fault with
    | none => (.ok ((s.contents bucket).page continuationToken maxKeys), s)
    | some text => (.error (.other text), s)

def objectExists : Healer Bool :=
  await Reply.asObjectExists fun s fault =>
    match fault with
    | none => (.ok (object ∈ s.contents bucket), s)
    | some text => (.error (.other text), s)

/-- The object is passed to `heal_object`, which may also end well and still name an error. -/
def healObject : Healer (Option String) :=
  await Reply.asHealObject fun s outcome =>
    let s := { s with deeds := .passed bucket object :: s.deeds }
    match outcome with
    | .ok err => (.ok err, s)
    | .error text => (.error (.other text), s)

/-- Heals an object that exists, and saves its name with those processed or those failed. -/
def healAndRecord : Healer Unit := do
  match ← attempt (healObject bucket object) with
  | .ok none =>
    countSuccessful
    addProcessedObject object
  | .ok (some _) =>
    countFailed
    addFailedObject bucket object
  | .error _ =>
    countFailed
    addFailedObject bucket object

/-- Goes past an object that was healed: a cancelled heal ends here, and every hundredth position
is saved. -/
def passObject (bucketIndex index : ℕ) : Healer Unit := do
  countProcessed
  setObjectIndex index
  if ← isCancelled then fail .taskCancelled
  else if index % 100 = 0 then updatePosition bucketIndex index
  else pure ()

/-- The body of the loop over the objects of a page, for an object that is not skipped. The index
is the one after this object. -/
def healListedObject (bucket : String) (bucketIndex : ℕ) (object : String) (index : ℕ) :
    Healer Unit := do
  setCurrentItem (some bucket) (some object)
  match ← attempt (objectExists bucket object) with
  | .error _ =>
    countFailed
    addFailedObject bucket object
    setObjectIndex index
  | .ok false =>
    addProcessedObject object
    countSuccessful
    setObjectIndex index
  | .ok true =>
    healAndRecord bucket object
    passObject bucketIndex index

/-- The loop over the objects of a page, which returns the index after the last of them. -/
def healListedObjects (bucket : String) (bucketIndex : ℕ) : List String → ℕ → Healer ℕ
  | [], globalObjIdx => pure globalObjIdx
  | object :: objects, globalObjIdx => do
    let s ← read
    if globalObjIdx < s.memory.currentObjectIndex then
      healListedObjects bucket bucketIndex objects (globalObjIdx + 1)
    else if object ∈ s.memory.checkpoint.processedObjects then
      healListedObjects bucket bucketIndex objects (globalObjIdx + 1)
    else
      healListedObject bucket bucketIndex object (globalObjIdx + 1)
      healListedObjects bucket bucketIndex objects (globalObjIdx + 1)

/-- One turn of the loop over the pages. -/
def healPage (bucket : String) (bucketIndex : ℕ) (at_ : Option String × ℕ) :
    Healer ((Option String × ℕ) ⊕ Unit) := do
  let (objects, nextToken, isTruncated) ← listObjectsForHealPage bucket at_.1
  let globalObjIdx ← healListedObjects bucket bucketIndex objects at_.2
  if !isTruncated then pure (.inr ())
  else
    match nextToken with
    | none => pure (.inr ())
    | some token => pure (.inl (some token, globalObjIdx))

def healBucketWithResume (bucket : String) (bucketIndex : ℕ) : Healer Unit := do
  match ← getBucketInfo bucket with
  | none => pure ()
  | some _ => loop (healPage bucket bucketIndex) (none, 0)

/-- A bucket counts as completed only if its heal returned without an error. -/
def countBucket (bucket : String) : Except HealError Unit → Healer Unit
  | .ok _ => do
    note (.healed bucket)
    completeBucket bucket
  | .error _ => pure ()

/-- What follows the heal of a bucket: the position and the counts are saved before it is known
whether the bucket counts as completed. -/
def settleBucket (bucket : String) (bucketIndex : ℕ) (bucketResult : Except HealError Unit) :
    Healer Unit := do
  let s ← read
  updatePosition bucketIndex s.memory.currentObjectIndex
  updateProgress s.memory.processedObjects s.memory.successfulObjects s.memory.failedObjects
    s.memory.skippedObjects
  if ← isCancelled then fail .taskCancelled
  else
    countBucket bucket bucketResult
    setObjectIndex 0

/-- The loop over the buckets from the checkpoint on. Which buckets are completed is read once,
before it. -/
def healBuckets (completedBuckets : List String) : List (String × ℕ) → Healer Unit
  | [] => pure ()
  | (bucket, bucketIndex) :: buckets =>
    if bucket ∈ completedBuckets then healBuckets completedBuckets buckets
    else do
      setCurrentItem (some bucket) none
      let bucketResult ← attempt (healBucketWithResume bucket bucketIndex)
      settleBucket bucket bucketIndex bucketResult
      healBuckets completedBuckets buckets

def executeHealWithResume (buckets : List String) : Healer Unit := do
  onMemory fun m => { m with
    currentObjectIndex := m.checkpoint.currentObjectIndex
    processedObjects := m.state.processedObjects
    successfulObjects := m.state.successfulObjects
    failedObjects := m.state.failedObjects
    skippedObjects := m.state.skippedObjects }
  let s ← read
  healBuckets s.memory.state.completedBuckets
    (buckets.zipIdx.drop s.memory.checkpoint.currentBucketIndex)
  markCompleted

/-- Reads a file of a task; a file that is not there is an error of the disk too. -/
def readFile {α : Type} (file : ResumeFiles → Option α) (what : String) : Healer α :=
  await Reply.asReadAll fun s fault =>
    match fault, file s.files with
    | none, some content => (.ok content, s)
    | none, none => (.error (.taskExecutionFailed s!"Failed to read {what} file: file not found"), s)
    | some fault, _ =>
      (.error (.taskExecutionFailed s!"Failed to read {what} file: {fault.text}"), s)

variable (taskId : String)

def loadState : Healer ResumeState :=
  readFile (·.states taskId) "resume state"

def loadCheckpoint : Healer ResumeCheckpoint :=
  readFile (·.checkpoints taskId) "checkpoint"

/-- A file counts as there if it can be read. -/
def isReadable {α : Type} (load : Healer α) : Healer Bool := do
  match ← attempt load with
  | .ok _ => pure true
  | .error _ => pure false

def hasResumeState : Healer Bool := isReadable (loadState taskId)

def hasCheckpoint : Healer Bool := isReadable (loadCheckpoint taskId)

/-- The task ids of the state files in the listing of the directory; none if it cannot be listed. -/
def getResumableTasks : Healer (List String) :=
  await Reply.asListDir fun s entries => (.ok (entries.getD []), s)

/-- The first task of this set that can be read and resumed. -/
def findTask (setDiskId : String) : List String → Healer (Option String)
  | [] => pure none
  | taskId :: taskIds => do
    match ← attempt (loadState taskId) with
    | .ok state =>
      if state.setDiskId = setDiskId then
        if ← hasResumeState taskId then pure (some taskId) else findTask setDiskId taskIds
      else findTask setDiskId taskIds
    | .error _ => findTask setDiskId taskIds

def newTaskId (setDiskId uuid : String) : String := s!"{setDiskId}_{uuid}"

def getOrCreateTaskId (setDiskId uuid : String) : Healer String := do
  let resumableTasks ← getResumableTasks
  match ← findTask setDiskId resumableTasks with
  | some taskId => pure taskId
  | none => pure (newTaskId setDiskId uuid)

/-- `ResumeManager::new`, which goes on if the new state cannot be saved. -/
def newResumeManager (taskId setDiskId : String) (buckets : List String) : Healer Unit := do
  let _ ← attempt do
    onState fun _ => .new taskId setDiskId buckets
    saveState

def newCheckpointManager : Healer Unit := do
  let _ ← attempt do
    onCheckpoint fun _ => .new taskId
    saveCheckpoint []

def initializeResumeState (taskId setDiskId : String) (buckets : List String) : Healer Unit := do
  if ← hasResumeState taskId then
    let state ← loadState taskId
    onState fun _ => state
    if ← hasCheckpoint taskId then
      let checkpoint ← loadCheckpoint taskId
      onCheckpoint fun _ => checkpoint
    else newCheckpointManager taskId
  else
    newResumeManager taskId setDiskId buckets
    newCheckpointManager taskId

/-- Deletes a file; the disk's error is not looked at. -/
def deleteFile (delete : Machine → ResumeFiles) : Healer Unit :=
  await Reply.asDeleted fun s fault =>
    match fault with
    | none => (.ok (), { s with files := delete s })
    | some _ => (.ok (), s)

/-- `ResumeManager::cleanup`: the state file, the progress file, which nothing writes, and the
checkpoint file. -/
def cleanupState : Healer Unit := do
  deleteFile fun s => s.files.deleteState s.memory.state.taskId
  deleteFile fun s => s.files
  deleteFile fun s => s.files.deleteCheckpoint s.memory.state.taskId

def cleanupCheckpoint : Healer Unit :=
  deleteFile fun s => s.files.deleteCheckpoint s.memory.checkpoint.taskId

variable (buckets : List String)

/-- What a call does once it has its task. -/
def healTask (setDiskId taskId : String) : Healer Unit := do
  initializeResumeState taskId setDiskId buckets
  match ← attempt (executeHealWithResume buckets) with
  | .ok _ =>
    cleanupState
    cleanupCheckpoint
  | .error e => fail e

def healErasureSet (setDiskId uuid : String) : Healer Unit := do
  let taskId ← getOrCreateTaskId setDiskId uuid
  healTask buckets setDiskId taskId

/-- A change by others between two calls, or a call, with what it is answered until it returns or
stops. -/
inductive Step where
  | change (c : Change)
  | call (uuid : String) (script : List Answer)
  deriving Repr, DecidableEq

namespace Machine

/-- What others did in the time that is left of a script. -/
def outlast (s : Machine) (rest : List Answer) : Machine :=
  rest.foldl (fun s a => s.changes a.before) s

/-- How a call leaves the machine. -/
def ended : Crash.Outcome Machine Answer (Except HealError Unit) → Machine
  | .returned r s rest => { s.outlast rest with result := some r }
  | .stopped s rest => { s.outlast rest with result := none }

def step (setDiskId : String) (s : Machine) : Step → Machine
  | .change c => s.change c
  | .call uuid script =>
    ended (healErasureSet buckets setDiskId uuid { s with cancelled := false } script)

end Machine
end Rustfs.Heal
