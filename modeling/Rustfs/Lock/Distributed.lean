import Mathlib.Data.List.FinRange
import Mathlib.Logic.Relation
import Rustfs.Lock.State

/-! The lock over several clients: an attempt asks all of them, keeps its locks when a quorum has
granted them, and gives them back otherwise. -/
namespace Rustfs.DistributedLock

open FastLock (LockMode)

structure LockRequest (Resource : Type) where
  resource : Resource
  mode : LockMode

/-- No two ids are the same: a client makes one for each lock it grants, and every request carries
one of its own, under which no client ever stores a lock. -/
inductive LockId (Task : Type) (n : ℕ) where
  | granted (t : Task) (i : Fin n)
  | requested (t : Task)
  deriving DecidableEq

/-- What a client has done about a request. -/
inductive Decision where
  | waiting | granted | refused

/-- What `acquire_lock` of a client returns. A lock's info names it, or, when it could not be read,
the request. -/
inductive Answer (Task : Type) (n : ℕ) where
  | error
  | failure
  | success (lockInfo : Option (LockId Task n))

/-- How far an attempt is. The entries are those it has still to release. -/
inductive Phase (Task : Type) (n : ℕ) where
  | idle
  | collecting
  | live (entries : List (LockId Task n × Fin n))
  | freeing (entries : List (LockId Task n × Fin n))
  | rolling (entries : List (LockId Task n × Fin n))
  | awaiting (entry : LockId Task n × Fin n) (entries : List (LockId Task n × Fin n))
  | failed
  | ended

/-- `DistributedLock::new` -/
def quorumOf (clients quorum : ℕ) : ℕ :=
  if clients ≤ 1 then 1 else min (max quorum 1) clients

/-- `NamespaceLock::with_clients`; `new_ns_lock` computes the same number. -/
def withClients (clients : ℕ) : ℕ :=
  quorumOf clients (if 1 < clients then clients / 2 + 1 else 1)

theorem lt_two_mul_withClients (n : ℕ) : n < 2 * withClients n := by
  unfold withClients quorumOf
  split
  · omega
  · rw [if_pos (by omega)]
    omega

/-- The clients' stores, the release requests that are on their way to them, and what each attempt
has asked, has been told and is doing. -/
structure System (Resource Task : Type) (n : ℕ) where
  storage : Fin n × LockId Task n → Option (LockRequest Resource)
  decision : Task × Fin n → Decision
  unlocking : Set (Fin n × LockId Task n)
  request : Task → Option (LockRequest Resource)
  answer : Task × Fin n → Option (Answer Task n)
  rollback : Task × Fin n → Option (Except Unit Bool)
  phase : Task → Phase Task n

variable {Resource Task : Type} {n : ℕ}

def initial : System Resource Task n where
  storage _ := none
  decision _ := .waiting
  unlocking := ∅
  request _ := none
  answer _ := none
  rollback _ := none
  phase _ := .idle

/-- The id in an answer with success and a lock's info. -/
def Answer.lock : Answer Task n → Option (LockId Task n)
  | .success lockInfo => lockInfo
  | _ => none

def individualLocks (s : System Resource Task n) (t : Task) : List (LockId Task n × Fin n) :=
  (List.finRange n).filterMap fun i => ((s.answer (t, i)).bind Answer.lock).map (·, i)

/-- A client by itself grants mutual exclusion. -/
def Admits (s : System Resource Task n) (i : Fin n) (req : LockRequest Resource) : Prop :=
  ∀ id held, s.storage (i, id) = some held → held.resource = req.resource →
    held.mode = .shared ∧ req.mode = .shared

variable [DecidableEq Task]

def System.setPhase (s : System Resource Task n) (t : Task) (p : Phase Task n) :
    System Resource Task n :=
  { s with phase := Function.update s.phase t p }

def System.tell (s : System Resource Task n) (t : Task) (i : Fin n) (a : Answer Task n) :
    System Resource Task n :=
  { s with answer := Function.update s.answer (t, i) (some a) }

def System.send (s : System Resource Task n) (entry : LockId Task n × Fin n) :
    System Resource Task n :=
  { s with unlocking := insert (entry.2, entry.1) s.unlocking }

/-- One step of an attempt or of a client. A call may fail at any moment, whatever the client does
about it then or later. -/
inductive Step (quorum : ℕ) : System Resource Task n → System Resource Task n → Prop where
  | call {s t} req : s.phase t = .idle → s.request t = none →
      Step quorum s ({ s with request := Function.update s.request t (some req) }.setPhase t
        .collecting)
  | granted {s t req} (i : Fin n) : s.request t = some req → s.decision (t, i) = .waiting →
      Admits s i req →
      Step quorum s { s with
        storage := Function.update s.storage (i, .granted t i) (some req)
        decision := Function.update s.decision (t, i) .granted }
  | refused {s t} (i : Fin n) : s.phase t = .collecting → s.answer (t, i) = none →
      s.decision (t, i) = .waiting →
      Step quorum s ({ s with decision := Function.update s.decision (t, i) .refused }.tell t i
        .failure)
  | errored {s t} (i : Fin n) : s.phase t = .collecting → s.answer (t, i) = none →
      Step quorum s (s.tell t i .error)
  | succeeded {s t} (i : Fin n) (info : Option (LockId Task n)) : s.phase t = .collecting →
      s.answer (t, i) = none → s.decision (t, i) = .granted →
      (∀ id, info = some id → id = .granted t i ∨ id = .requested t) →
      Step quorum s (s.tell t i (.success info))
  | acquired {s t} : s.phase t = .collecting → (∀ i, s.answer (t, i) ≠ none) →
      quorum ≤ (individualLocks s t).length →
      Step quorum s (s.setPhase t (.live (individualLocks s t)))
  | short {s t} : s.phase t = .collecting → (∀ i, s.answer (t, i) ≠ none) →
      (individualLocks s t).length < quorum →
      Step quorum s (s.setPhase t (.rolling (individualLocks s t)))
  | sent {s t entry entries} : s.phase t = .rolling (entry :: entries) →
      Step quorum s ((s.send entry).setPhase t (.awaiting entry entries))
  | answered {s t entry entries} (r : Except Unit Bool) : s.phase t = .awaiting entry entries →
      (∀ b, r = .ok b → (entry.2, entry.1) ∉ s.unlocking) →
      Step quorum s ({ s with
        rollback := Function.update s.rollback (t, entry.2) (some r) }.setPhase t
          (.rolling entries))
  | rolled {s t} : s.phase t = .rolling [] → Step quorum s (s.setPhase t .failed)
  /-- The future is dropped. -/
  | cancelled {s t} : s.phase t ≠ .idle → (∀ entries, s.phase t ≠ .live entries) →
      s.phase t ≠ .failed → Step quorum s (s.setPhase t .ended)
  /-- `release`, or the drop of the guard, leaves the entries to a worker. -/
  | released {s t entries} : s.phase t = .live entries →
      Step quorum s (s.setPhase t (.freeing entries))
  | disarmed {s t entries} : s.phase t = .live entries → Step quorum s (s.setPhase t .ended)
  | freed {s t entries} entry : s.phase t = .freeing entries → entry ∈ entries →
      Step quorum s ((s.send entry).setPhase t (.freeing (entries.erase entry)))
  | carriedOut {s} x : x ∈ s.unlocking →
      Step quorum s { s with
        storage := Function.update s.storage x none
        unlocking := s.unlocking \ {x} }

/-- Every state that some run reaches from the start. -/
def Reachable (quorum : ℕ) (s : System Resource Task n) : Prop :=
  Relation.ReflTransGen (Step quorum) initial s

variable (s : System Resource Task n)

/-- The attempt's guard has been given out and neither released nor disarmed. -/
def Live (t : Task) (req : LockRequest Resource) : Prop :=
  s.request t = some req ∧ ∃ entries, s.phase t = .live entries

/-- Of two guards for one resource both are shared. -/
def MutuallyExclusive : Prop :=
  ∀ t t' req req', t ≠ t' → Live s t req → Live s t' req' → req.resource = req'.resource →
    req.mode = .shared ∧ req'.mode = .shared

/-- The client stores a lock that it has granted to the attempt. -/
def Keeps (t : Task) (i : Fin n) : Prop :=
  s.storage (i, .granted t i) ≠ none

end Rustfs.DistributedLock
