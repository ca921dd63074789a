import Rustfs.Disk.Error

/-! What a heal of an erasure set keeps on disk of its own progress. -/
namespace Rustfs.Heal

inductive HealError where
  | taskCancelled
  | taskExecutionFailed (message : String)
  | other (text : String)
  deriving Repr, DecidableEq

/-- A disk error, with the text it is shown with. -/
structure DiskFault where
  error : DiskError
  text : String
  deriving Repr, DecidableEq

/-- `push` behind a `contains` check: the list holds each name once. -/
def pushNew (names : List String) (name : String) : List String :=
  if name ∈ names then names else names ++ [name]

@[simp]
theorem mem_pushNew {ns : List String} {n x : String} : x ∈ pushNew ns n ↔ x = n ∨ x ∈ ns := by
  unfold pushNew
  by_cases h : n ∈ ns
  · rw [if_pos h]
    constructor
    · exact .inr
    · rintro (rfl | hx)
      · exact h
      · exact hx
  · simp [h, or_comm]

structure ResumeState where
  taskId : String
  setDiskId : String
  completed : Bool
  processedObjects : ℕ
  successfulObjects : ℕ
  failedObjects : ℕ
  skippedObjects : ℕ
  currentBucket : Option String
  currentObject : Option String
  completedBuckets : List String
  pendingBuckets : List String
  deriving Repr, DecidableEq

namespace ResumeState

def new (taskId setDiskId : String) (buckets : List String) : ResumeState where
  taskId := taskId
  setDiskId := setDiskId
  completed := false
  processedObjects := 0
  successfulObjects := 0
  failedObjects := 0
  skippedObjects := 0
  currentBucket := none
  currentObject := none
  completedBuckets := []
  pendingBuckets := buckets

variable (st : ResumeState)

def updateProgress (processed successful failed skipped : ℕ) : ResumeState :=
  { st with processedObjects := processed, successfulObjects := successful,
            failedObjects := failed, skippedObjects := skipped }

def setCurrentItem (bucket object : Option String) : ResumeState :=
  { st with currentBucket := bucket, currentObject := object }

def completeBucket (bucket : String) : ResumeState :=
  { st with
    completedBuckets := pushNew st.completedBuckets bucket
    pendingBuckets := st.pendingBuckets.erase bucket }

def markCompleted : ResumeState := { st with completed := true }

end ResumeState

structure ResumeCheckpoint where
  taskId : String
  currentBucketIndex : ℕ
  currentObjectIndex : ℕ
  processedObjects : List String
  failedObjects : List String
  deriving Repr, DecidableEq

namespace ResumeCheckpoint

def new (taskId : String) : ResumeCheckpoint where
  taskId := taskId
  currentBucketIndex := 0
  currentObjectIndex := 0
  processedObjects := []
  failedObjects := []

variable (ck : ResumeCheckpoint)

def updatePosition (bucketIndex objectIndex : ℕ) : ResumeCheckpoint :=
  { ck with currentBucketIndex := bucketIndex, currentObjectIndex := objectIndex }

def addProcessedObject (object : String) : ResumeCheckpoint :=
  { ck with processedObjects := pushNew ck.processedObjects object }

def addFailedObject (object : String) : ResumeCheckpoint :=
  { ck with failedObjects := pushNew ck.failedObjects object }

/-- The names the checkpoint holds, of objects that were healed, gone or failed. -/
def Names (o : String) : Prop :=
  o ∈ ck.processedObjects ∨ o ∈ ck.failedObjects

end ResumeCheckpoint

/-- The files of the heal tasks on the disk, by task id. -/
structure ResumeFiles where
  states : String → Option ResumeState
  checkpoints : String → Option ResumeCheckpoint

namespace ResumeFiles

variable (files : ResumeFiles)

def writeState (st : ResumeState) : ResumeFiles :=
  { files with states := fun t => if t = st.taskId then some st else files.states t }

def writeCheckpoint (ck : ResumeCheckpoint) : ResumeFiles :=
  { files with checkpoints := fun t => if t = ck.taskId then some ck else files.checkpoints t }

def deleteState (taskId : String) : ResumeFiles :=
  { files with states := fun t => if t = taskId then none else files.states t }

def deleteCheckpoint (taskId : String) : ResumeFiles :=
  { files with checkpoints := fun t => if t = taskId then none else files.checkpoints t }

end ResumeFiles
end Rustfs.Heal
