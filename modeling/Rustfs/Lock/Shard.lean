import Mathlib.Data.Finset.Basic
import Rustfs.Lock.State

/-! A shard of the lock table: the tasks that acquire, hold and release its locks, and the cleanup
of idle entries, as steps that interleave freely. -/
namespace Rustfs.FastLock

structure ObjectLockRequest (Key Owner : Type) where
  key : Key
  mode : LockMode
  owner : Owner

/-- Where an attempt is made: on the fast path, after its second look, or in the slow loop. -/
inductive Stage where
  | fast | second | slow

/-- How far a task is. The numbers name lock states; a task keeps the one it has cloned. -/
inductive Phase (Key Owner : Type) where
  | idle
  | seeking (req : ObjectLockRequest Key Owner)
  | creating (req : ObjectLockRequest Key Owner)
  | queueing (req : ObjectLockRequest Key Owner)
  | found (req : ObjectLockRequest Key Owner) (sid : ℕ) (stage : Stage)
  | trying (req : ObjectLockRequest Key Owner) (sid : ℕ) (stage : Stage)
  | recording (req : ObjectLockRequest Key Owner) (sid : ℕ)
  | refused (req : ObjectLockRequest Key Owner) (sid : ℕ)
  | waiting (req : ObjectLockRequest Key Owner) (sid : ℕ)
  | holding (req : ObjectLockRequest Key Owner) (sid : ℕ) (guard : Option ℕ)
  | releasing (req : ObjectLockRequest Key Owner) (sid mapped : ℕ) (guard : Option ℕ)
  | clearing (req : ObjectLockRequest Key Owner) (mapped : ℕ)

namespace Phase

variable {Key Owner : Type}

/-- The state a task has looked up and not yet made its attempt on. -/
def sought : Phase Key Owner → Option (ObjectLockRequest Key Owner × ℕ)
  | .found req sid _ | .trying req sid _ => some (req, sid)
  | _ => none

/-- The state a task holds: from its won attempt to the release of the word. -/
def held : Phase Key Owner → Option (ObjectLockRequest Key Owner × ℕ)
  | .recording req sid | .holding req sid _ | .releasing req sid _ _ => some (req, sid)
  | _ => none

variable {x : ObjectLockRequest Key Owner × ℕ}

/-- A task looks for a lock or holds it, never both. -/
theorem sought_of_held {p : Phase Key Owner} (h : p.held = some x) : p.sought = none := by
  cases p <;> first | rfl | simp [held] at h

theorem held_of_sought {p : Phase Key Owner} (h : p.sought = some x) : p.held = none := by
  cases p <;> first | rfl | simp [sought] at h

end Phase

/-- The table, every lock state ever made, and what each task is doing. A cleanup that is under
way keeps the table's write lock; `cleaning` is the entry it is about to remove. -/
structure LockShard (Key Owner Task : Type) where
  objects : Key → Option ℕ
  states : ℕ → ObjectLockState Owner
  next : ℕ
  cleaning : Option Key
  activeGuards : Finset ℕ
  guardIdCounter : ℕ
  phase : Task → Phase Key Owner

variable {Key Owner Task : Type} [DecidableEq Key] [DecidableEq Owner] [DecidableEq Task]
  (s : LockShard Key Owner Task)

namespace LockShard

def new : LockShard Key Owner Task where
  objects _ := none
  states _ := .new 0
  next := 0
  cleaning := none
  activeGuards := ∅
  guardIdCounter := 1
  phase _ := .idle

def setPhase (t : Task) (p : Phase Key Owner) : LockShard Key Owner Task :=
  { s with phase := Function.update s.phase t p }

def setState (sid : ℕ) (st : ObjectLockState Owner) : LockShard Key Owner Task :=
  { s with states := Function.update s.states sid st }

/-- A new lock state, entered under the key. -/
def insert (key : Key) (st : ObjectLockState Owner) : LockShard Key Owner Task :=
  { s with
    objects := Function.update s.objects key (some s.next)
    states := Function.update s.states s.next st
    next := s.next + 1 }

def remove (key : Key) : LockShard Key Owner Task :=
  { s with objects := Function.update s.objects key none, cleaning := none }

def clean (key : Key) : LockShard Key Owner Task :=
  { s with cleaning := some key }

def registerGuard : LockShard Key Owner Task :=
  { s with
    activeGuards := Insert.insert s.guardIdCounter s.activeGuards
    guardIdCounter := s.guardIdCounter + 1 }

def unregisterGuard : Option ℕ → LockShard Key Owner Task
  | none => s
  | some guard => { s with activeGuards := s.activeGuards.erase guard }

end LockShard

/-- The guard, if there is one, has not been used for a release yet. -/
def GuardActive (guard : Option ℕ) : Prop :=
  ∀ g, guard = some g → g ∈ s.activeGuards

variable (req : ObjectLockRequest Key Owner)

/-- After a fast path without success a writer takes the write lock to create the entry. -/
def afterFast : Phase Key Owner :=
  match req.mode with
  | .shared => .queueing req
  | .exclusive => .creating req

def afterRefusal (sid : ℕ) : Stage → Phase Key Owner
  | .fast => afterFast req
  | .second => .queueing req
  | .slow => .refused req sid

omit [DecidableEq Key] [DecidableEq Owner] in
theorem held_afterFast (req : ObjectLockRequest Key Owner) :
    (afterFast req).held = none ∧ (afterFast req).sought = none := by
  unfold afterFast
  cases req.mode <;> exact ⟨rfl, rfl⟩

omit [DecidableEq Key] [DecidableEq Owner] in
theorem held_afterRefusal (req : ObjectLockRequest Key Owner) (sid : ℕ) (s : Stage) :
    (afterRefusal req sid s).held = none ∧ (afterRefusal req sid s).sought = none := by
  cases s with
  | fast => exact held_afterFast req
  | second | slow => exact ⟨rfl, rfl⟩

inductive Action (Key Task : Type) where
  | move (t : Task)
  | condemn (key : Key)
  | evict (key : Key)

/-- One step of one task, or of the cleanup. Readings of the clock are free. The locks of the
owner records are left out, which only adds interleavings. -/
inductive Step : LockShard Key Owner Task → Action Key Task → LockShard Key Owner Task → Prop where
  | call {s t} req : s.phase t = .idle → Step s (.move t) (s.setPhase t (.seeking req))
  /-- `try_fast_path_only` looks at the word first. -/
  | unavailable {s t req sid} : s.phase t = .seeking req → s.cleaning = none →
      s.objects req.key = some sid → isFastPathAvailable req.mode (s.states sid).state = false →
      Step s (.move t) (s.setPhase t .idle)
  | looked {s t req sid} : s.phase t = .seeking req → s.cleaning = none →
      s.objects req.key = some sid → Step s (.move t) (s.setPhase t (.found req sid .fast))
  | missed {s t req} : s.phase t = .seeking req → s.cleaning = none →
      s.objects req.key = none → Step s (.move t) (s.setPhase t (afterFast req))
  | lookedAgain {s t req sid} : s.phase t = .creating req → s.cleaning = none →
      s.objects req.key = some sid → Step s (.move t) (s.setPhase t (.found req sid .second))
  /-- The new state is won before anybody can see it. -/
  | created {s t req} now : s.phase t = .creating req → req.mode = .exclusive →
      s.cleaning = none → s.objects req.key = none →
      Step s (.move t) ((s.insert req.key
        (({ ObjectLockState.new now with state := 1 } : ObjectLockState Owner).record
          .exclusive req.owner now)).setPhase t (.holding req s.next none))
  | queued {s t req sid} : s.phase t = .queueing req → s.cleaning = none →
      s.objects req.key = some sid → Step s (.move t) (s.setPhase t (.found req sid .slow))
  | entered {s t req} now : s.phase t = .queueing req → s.cleaning = none →
      s.objects req.key = none →
      Step s (.move t) ((s.insert req.key (.new now)).setPhase t (.found req s.next .slow))
  /-- A caller of `try_fast_path_only` does not go on to the slow path. -/
  | gaveUp {s t req} : s.phase t = .queueing req → Step s (.move t) (s.setPhase t .idle)
  | touched {s t req sid stage} now : s.phase t = .found req sid stage →
      Step s (.move t) ((s.setState sid ((s.states sid).updateAccessTime now)).setPhase t
        (.trying req sid stage))
  | won {s t req sid stage word} : s.phase t = .trying req sid stage →
      tryAcquire req.mode (s.states sid).state = some word →
      Step s (.move t) ((s.setState sid { s.states sid with state := word }).setPhase t
        (.recording req sid))
  | lost {s t req sid stage} : s.phase t = .trying req sid stage →
      tryAcquire req.mode (s.states sid).state = none →
      Step s (.move t) (s.setPhase t (afterRefusal req sid stage))
  | recorded {s t req sid} now : s.phase t = .recording req sid →
      Step s (.move t) ((s.setState sid ((s.states sid).record req.mode req.owner now)).setPhase t
        (.holding req sid none))
  /-- The deadline has passed, or the future is dropped in its sleep. -/
  | timedOut {s t req sid} : s.phase t = .refused req sid → Step s (.move t) (s.setPhase t .idle)
  | backedOff {s t req sid} : s.phase t = .refused req sid →
      Step s (.move t) (s.setPhase t (.queueing req))
  | registered {s t req sid} : s.phase t = .refused req sid →
      Step s (.move t) ((s.setState sid { s.states sid with
        state := incWaiting req.mode (s.states sid).state }).setPhase t (.waiting req sid))
  | woken {s t req sid} : s.phase t = .waiting req sid →
      Step s (.move t) ((s.setState sid { s.states sid with
        state := decWaiting req.mode (s.states sid).state }).setPhase t (.queueing req))
  | expired {s t req sid} : s.phase t = .waiting req sid →
      Step s (.move t) ((s.setState sid { s.states sid with
        state := decWaiting req.mode (s.states sid).state }).setPhase t .idle)
  /-- A future that is dropped while it waits stays counted. -/
  | cancelled {s t req sid} : s.phase t = .waiting req sid →
      Step s (.move t) (s.setPhase t .idle)
  | guarded {s t req sid} : s.phase t = .holding req sid none →
      Step s (.move t) (s.registerGuard.setPhase t (.holding req sid (some s.guardIdCounter)))
  /-- The entry of the key, not the state that was won, is the one that is released. -/
  | released {s t req sid mapped guard st} : s.phase t = .holding req sid guard →
      GuardActive s guard → s.cleaning = none → s.objects req.key = some mapped →
      (s.states mapped).checkOwner req.mode req.owner = some st →
      Step s (.move t) (((s.unregisterGuard guard).setState mapped st).setPhase t
        (.releasing req sid mapped guard))
  | disowned {s t req sid mapped guard} : s.phase t = .holding req sid guard →
      GuardActive s guard → s.cleaning = none → s.objects req.key = some mapped →
      (s.states mapped).checkOwner req.mode req.owner = none →
      Step s (.move t) ((s.unregisterGuard guard).setPhase t (.holding req sid guard))
  | vanished {s t req sid guard} : s.phase t = .holding req sid guard →
      GuardActive s guard → s.cleaning = none → s.objects req.key = none →
      Step s (.move t) ((s.unregisterGuard guard).setPhase t (.holding req sid guard))
  | unlocked {s t req sid mapped guard word} : s.phase t = .releasing req sid mapped guard →
      releaseWord req.mode (s.states mapped).state = some word →
      Step s (.move t) ((s.setState mapped { s.states mapped with state := word }).setPhase t
        (.clearing req mapped))
  | stillLocked {s t req sid mapped guard} : s.phase t = .releasing req sid mapped guard →
      releaseWord req.mode (s.states mapped).state = none →
      Step s (.move t) ((s.setState mapped
        ((s.states mapped).restore req.mode req.owner)).setPhase t (.holding req sid guard))
  | cleared {s t req mapped} now : s.phase t = .clearing req mapped →
      Step s (.move t) ((s.setState mapped ((s.states mapped).forget req.mode now)).setPhase t .idle)
  /-- A guard whose release failed is gone all the same when it is dropped. -/
  | dropped {s t req sid guard} : s.phase t = .holding req sid guard →
      (∀ g, guard = some g → g ∉ s.activeGuards) → Step s (.move t) (s.setPhase t .idle)
  /-- The cleanup has found the entry neither locked nor waited for, and idle long enough. -/
  | condemned {s key sid} nowMillis maxIdleMillis : s.cleaning = none →
      s.objects key = some sid → (s.states sid).state = 0 →
      maxIdleMillis < nowMillis - (s.states sid).lastAccessed * 1000 →
      Step s (.condemn key) (s.clean key)
  | evicted {s key} : s.cleaning = some key → Step s (.evict key) (s.remove key)

/-- The shard is reached by steps that all meet a condition. -/
def ReachableWith (C : LockShard Key Owner Task → Action Key Task → Prop)
    (s : LockShard Key Owner Task) : Prop :=
  Relation.ReflTransGen (fun s t => ∃ a, Step s a t ∧ C s a) .new s

def Reachable : LockShard Key Owner Task → Prop := ReachableWith fun _ _ => True

/-- A task holds the lock of a key. -/
def Holds (t : Task) (key : Key) (mode : LockMode) : Prop :=
  ∃ req sid, (s.phase t).held = some (req, sid) ∧ req.key = key ∧ req.mode = mode

end Rustfs.FastLock
