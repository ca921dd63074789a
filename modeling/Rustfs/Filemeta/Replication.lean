import Mathlib.Data.List.AList

/-! The replication state that travels with a version, and the statuses read off it. -/
namespace Rustfs

/-- A `HashMap` with string keys. -/
abbrev StrMap (β : Type) := AList fun _ : String => β

/-- A UUID by its 128 bits; the nil id is zero. -/
abbrev Uuid := BitVec 128

/-- An `OffsetDateTime` by its nanoseconds since the epoch. -/
abbrev Time := ℤ

inductive ReplicationStatusType where
  | pending
  | completed
  | completedLegacy
  | failed
  | replica
  | empty
  deriving Repr, DecidableEq

def ReplicationStatusType.asStr : ReplicationStatusType → String
  | .pending => "PENDING"
  | .completed => "COMPLETED"
  | .completedLegacy => "COMPLETE"
  | .failed => "FAILED"
  | .replica => "REPLICA"
  | .empty => ""

def ReplicationStatusType.ofStr (s : String) : ReplicationStatusType :=
  if s = "PENDING" then .pending
  else if s = "COMPLETED" then .completed
  else if s = "COMPLETE" then .completedLegacy
  else if s = "FAILED" then .failed
  else if s = "REPLICA" then .replica
  else .empty

inductive VersionPurgeStatusType where
  | pending
  | complete
  | failed
  | empty
  deriving Repr, DecidableEq

def VersionPurgeStatusType.ofStr (s : String) : VersionPurgeStatusType :=
  if s = "PENDING" then .pending
  else if s = "COMPLETE" then .complete
  else if s = "FAILED" then .failed
  else .empty

structure ReplicationState where
  replicaTimestamp : Option Time := none
  replicaStatus : ReplicationStatusType := .empty
  replicationTimestamp : Option Time := none
  replicationStatusInternal : Option String := none
  versionPurgeStatusInternal : Option String := none
  targets : StrMap ReplicationStatusType := ∅
  purgeTargets : StrMap VersionPurgeStatusType := ∅
  resetStatusesMap : StrMap String := ∅
  deriving DecidableEq

/-- The status of all targets together: failed with any, completed with all. -/
def getComposite {σ : Type} [DecidableEq σ] (failed completed pending empty : σ)
    (targets : StrMap σ) : σ :=
  let statuses := targets.entries.map Sigma.snd
  if statuses = [] then empty
  else if failed ∈ statuses then failed
  else if statuses.count completed = statuses.length then completed
  else pending

def getCompositeReplicationStatus : StrMap ReplicationStatusType → ReplicationStatusType :=
  getComposite .failed .completed .pending .empty

def getCompositeVersionPurgeStatus : StrMap VersionPurgeStatusType → VersionPurgeStatusType :=
  getComposite .failed .complete .pending .empty

namespace ReplicationState

def compositeReplicationStatus (s : ReplicationState) : ReplicationStatusType :=
  match s.replicationStatusInternal with
  | some internal =>
    match ReplicationStatusType.ofStr internal with
    | .pending => .pending
    | .completed => .completed
    | .failed => .failed
    | .replica => .replica
    | _ =>
      let status := getCompositeReplicationStatus s.targets
      match s.replicaTimestamp, s.replicationTimestamp with
      | some replica, some replication =>
        if status = .completed ∧ replica > replication then s.replicaStatus else status
      | _, _ => status
  | none => if s.replicaStatus = .empty then .empty else s.replicaStatus

def compositeVersionPurgeStatus (s : ReplicationState) : VersionPurgeStatusType :=
  match VersionPurgeStatusType.ofStr (s.versionPurgeStatusInternal.getD "") with
  | .empty => getCompositeVersionPurgeStatus s.purgeTargets
  | status => status

end ReplicationState

end Rustfs
