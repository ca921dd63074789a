import Rustfs.Lib.Run
import Rustfs.Store.DataMovement
import Rustfs.Store.PoolMeta

/-! The decommission of a pool: a worker for each set lists every queued bucket, the entries are
moved and counted, and at the end the pool is marked. -/
namespace Rustfs.Decommission

open DataMovement

/-- An entry a listing hands over, with what its steps meet, how its deletion from the source set
ends, and the time after it. -/
structure ListedEntry where
  entry : Entry
  rt : Runtime
  calls : FileInfo → VersionCalls
  deleteFailure : Option StorageError := none

/-- One turn of a worker's loop: whether it finds the run cancelled, the entries its listing hands
over, and how the listing returns; `ok true` is a listing that came to its end. -/
structure Turn where
  cancelled : Bool := false
  entries : List ListedEntry := []
  result : Except StorageError Bool

/-- What the decommission of one bucket meets: the versioning state of the bucket, a worker for each
set, calls of `decommission_cancel`, and the order in which all of them get to the shared state. -/
structure BucketCalls where
  versioning : Option StorageError := none
  workers : List (List Turn)
  cancels : List Time := []
  schedule : List ℕ := []

/-- What a run meets, by the bucket it works on, and the time of its end. -/
structure RunCalls where
  bucket : String → BucketCalls
  cancels : List Time := []
  now : Time

/-- A change of the shared state by a worker or by a cancellation. -/
inductive Event where
  | countItem (size : ℕ) (failed : Bool)
  | track (bucket object : String) (now : Time)
  | cancel (now : Time)

/-- How the work on a bucket, or on all of them, ends. -/
inductive Ending where
  | ok
  | err (e : StorageError)
  | running
  deriving DecidableEq

variable (idx : ℕ)

def Event.apply (pm : PoolMeta) : Event → PoolMeta
  | .countItem size failed => pm.countItem idx size failed
  | .track bucket object now =>
    (pm.trackCurrentBucketObject idx bucket object).updateAfter idx 30 now
  | .cancel now => pm.decommissionCancel idx now

/-- The `count_item` calls of the loop over the versions, of which `decommissioned` are counted
before. -/
def countItems (step : FileInfo → Step) : ℕ → List FileInfo → List Event
  | _, [] => []
  | decommissioned, v :: vs =>
    match step v with
    | .skipped => countItems step (decommissioned + 1) vs
    | .ignored => countItems step decommissioned vs
    | .moved _ =>
      .countItem (if v.deleted then 0 else decommissioned) false ::
        countItems step (decommissioned + 1) vs
    | .failed => .countItem 0 true :: countItems step decommissioned vs
    | .aborted => [.countItem decommissioned true]

namespace ListedEntry

variable (bucket : String) (le : ListedEntry)

def mover : Mover where
  rt := le.rt
  src := idx
  bucket := bucket
  calls := le.calls

/-- What `decommission_entry` does to the shared state. -/
def events : List Event :=
  if le.entry.isDir then []
  else
    match le.entry.versions with
    | none => []
    | some versions =>
      countItems ((le.mover idx bucket).decommissionStep le.entry versions.length none) 0
          (sortVersions versions) ++
        [.track bucket le.entry.name le.rt.now]

end ListedEntry

/-- A worker stops when it finds the run cancelled, when its listing returns, and when the bucket
is not there. -/
def Turn.outcome (turn : Turn) : Retry.Outcome Bool :=
  if turn.cancelled then .stop
  else
    match turn.result with
    | .ok ended => .done ended
    | .error err => if err.isErrBucketNotFound then .stop else .again

/-- The entries that are handed over in a turn. -/
def Turn.handed (turn : Turn) : List ListedEntry := if turn.cancelled then [] else turn.entries

/-- The entries a worker gets in all the turns it takes. -/
def handedEntries (turns : List Turn) : List ListedEntry :=
  (Retry.tried Turn.outcome turns).flatMap Turn.handed

namespace BucketCalls

variable (bucket : DecomBucketInfo) (calls : BucketCalls)

def threads : List (List Event) :=
  calls.cancels.map (fun now => Event.cancel now) ::
    calls.workers.map fun turns => (handedEntries turns).flatMap (·.events idx bucket.name)

/-- The error `decommission_pool` returns before a worker is started. -/
def failure : Option StorageError :=
  if calls.workers.isEmpty then some (.other "n must be > 0")
  else if bucket.name = rustfsMetaBucket then none
  else calls.versioning

/-- Every worker stops at some time. -/
def ends : Bool := calls.workers.all fun turns => !(Retry.run Turn.outcome turns).isAgain

/-- `decommission_pool`. -/
def decommissionPool (pm : PoolMeta) : PoolMeta × Ending :=
  match calls.failure bucket with
  | some e => (pm, .err e)
  | none =>
    ((Interleave.merge calls.schedule (calls.threads idx bucket)).foldl (Event.apply idx) pm,
      if calls.ends then .ok else .running)

end BucketCalls

namespace RunCalls

variable (calls : RunCalls)

/-- The loop of `decommission_in_background` over the pending buckets. -/
def background : PoolMeta → List DecomBucketInfo → PoolMeta × Ending
  | pm, [] => (pm, .ok)
  | pm, b :: rest =>
    if pm.isBucketDecommissioned idx b.display then
      background (pm.bucketDone idx b.display) rest
    else
      match (calls.bucket b.display).decommissionPool idx b pm with
      | (pm, .ok) => background (pm.bucketDone idx b.display) rest
      | stopped => stopped

def decommissionInBackground (pm : PoolMeta) : PoolMeta × Ending :=
  calls.background idx pm (pm.pendingBuckets idx)

variable (singlePool : Bool) (pm : PoolMeta)

/-- `ECStore::decommission_failed`; a store of one pool refuses it. -/
def decommissionFailed : PoolMeta :=
  if singlePool then pm else pm.decommissionFailed idx calls.now

def completeDecommission : PoolMeta :=
  if singlePool then pm else pm.decommissionComplete idx calls.now

def doDecommissionInRoutine : PoolMeta :=
  match calls.decommissionInBackground idx pm with
  | (pm, .running) => pm
  | (pm, .err _) => calls.decommissionFailed idx singlePool pm
  | (pm, .ok) =>
    let pm := calls.cancels.foldl (fun pm now => pm.decommissionCancel idx now) pm
    let failed := (pm.info idx).any fun info => decide (info.itemsDecommissionFailed > 0)
    if !failed then calls.decommissionFailed idx singlePool pm
    else calls.completeDecommission idx singlePool pm

end RunCalls

end Rustfs.Decommission
