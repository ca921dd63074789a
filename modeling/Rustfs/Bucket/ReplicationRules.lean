import Mathlib
import Rustfs.Filemeta.Replication
import Rustfs.Lib.Sorting

/-! The rule of a replication configuration that decides for an object: among those of one
destination it is the one with the lowest priority. -/
namespace Rustfs.Replication

open List

inductive ReplicationType where
  | unset | object | delete | metadata | heal | existingObject | resync | all
  deriving DecidableEq

structure ObjectOpts where
  name : String
  userTags : String := ""
  versionId : Option Uuid := none
  opType : ReplicationType := .unset
  replica : Bool := false
  existingObject : Bool := false
  targetArn : String := ""

/-- The settings besides the bucket are only compared. -/
structure Destination (S : Type) where
  bucket : String
  settings : S
  deriving DecidableEq

/-- `tags` is what `test_tags` reads. -/
structure ReplicationRuleFilter (T : Type) where
  filterPrefix : Option String := none
  andPrefix : Option (Option String) := none
  tags : T

/-- Statuses are texts. A rule without a priority comes before those with one. -/
structure ReplicationRule (S T : Type) where
  status : String
  destination : Destination S
  priority : WithBot ℤ
  filter : Option (ReplicationRuleFilter T) := none
  existingObjectReplication : Option String := none
  deleteReplication : Option String := none
  deleteMarkerReplication : Option (Option String) := none
  replicaModifications : Option String := none

structure ReplicationConfiguration (S T : Type) where
  role : String := ""
  rules : List (ReplicationRule S T)

variable {S T : Type}

namespace ReplicationRule

variable (rule : ReplicationRule S T) (obj : ObjectOpts)

def rulePrefix : String :=
  rule.filter.elim "" fun filter =>
    filter.filterPrefix.getD ((filter.andPrefix.bind id).getD "")

def metadataReplicate : Bool := !obj.replica || rule.replicaModifications == some "Enabled"

/-- What `replicate` returns at a rule that is not disabled. -/
def decide : Bool :=
  if obj.existingObject && rule.existingObjectReplication == some "Disabled" then false
  else if obj.opType = .delete then
    if obj.versionId.isSome then rule.deleteReplication == some "Enabled"
    else rule.deleteMarkerReplication == some (some "Enabled")
  else rule.metadataReplicate obj

end ReplicationRule

namespace ReplicationConfiguration

variable (sort : List (ReplicationRule S T) → List (ReplicationRule S T)) (testTags : T → String → Bool)
  (self : ReplicationConfiguration S T) (obj : ObjectOpts)

/-- The tests of `filter_actionable_rules`; `testTags` decodes the tags of the object. -/
def actionable (rule : ReplicationRule S T) : Bool :=
  let everything : Bool := obj.opType = .resync || obj.opType = .all
  (obj.name != "" || everything) && rule.status != "Disabled" &&
  (obj.targetArn == "" || rule.destination.bucket == obj.targetArn || self.role == obj.targetArn) &&
  (everything ||
    !(obj.existingObject && rule.existingObjectReplication == some "Disabled") &&
    rule.rulePrefix.toList.isPrefixOf obj.name.toList &&
    rule.filter.all (testTags ·.tags obj.userTags))

def filterActionableRules : List (ReplicationRule S T) :=
  sort (self.rules.filter (self.actionable testTags obj))

def replicateLoop : List (ReplicationRule S T) → Bool
  | [] => false
  | rule :: rest => if rule.status = "Disabled" then replicateLoop rest else rule.decide obj

def replicate : Bool := replicateLoop obj (self.filterActionableRules sort testTags obj)

/-- `sort_by` compares the priorities of rules with one destination and keeps the order of equals; it
promises nothing where the comparison is no order. -/
def SortsByPriority : Prop :=
  ∀ rules, (∀ a ∈ rules, ∀ b ∈ rules, a.destination = b.destination) →
    sort rules = rules.insertionSort (·.priority ≤ ·.priority)

variable {sort testTags self obj} {rule : ReplicationRule S T} {bs after : List (ReplicationRule S T)}

theorem filterActionableRules_eq (self : ReplicationConfiguration S T)
    (hsort : SortsByPriority sort)
    (hone : ∀ a ∈ self.rules, ∀ b ∈ self.rules, self.actionable testTags obj a = true →
      self.actionable testTags obj b = true → a.destination = b.destination) :
    self.filterActionableRules sort testTags obj =
      (self.rules.filter (self.actionable testTags obj)).insertionSort (·.priority ≤ ·.priority) := by
  refine hsort _ fun a ha b hb => ?_
  rw [mem_filter] at ha hb
  exact hone a ha.1 b hb.1 ha.2 hb.2

/-- The enabled rule of the lowest priority that matches decides, the first of equals; where the
priorities differ the order of the rules is irrelevant. -/
theorem replicate_lowest (hsort : SortsByPriority sort)
    (hone : ∀ a ∈ self.rules, ∀ b ∈ self.rules, self.actionable testTags obj a = true →
      self.actionable testTags obj b = true → a.destination = b.destination) :
    ((∀ r ∈ self.rules, self.actionable testTags obj r = false) →
      self.replicate sort testTags obj = false) ∧
    (∀ bs rule after, self.rules = bs ++ rule :: after →
      self.actionable testTags obj rule = true →
      (∀ r ∈ bs, self.actionable testTags obj r = true → rule.priority < r.priority) →
      (∀ r ∈ after, self.actionable testTags obj r = true → rule.priority ≤ r.priority) →
      self.replicate sort testTags obj = rule.decide obj) ∧
    ∀ rules, rules.Perm self.rules →
      (∀ a ∈ self.rules, ∀ b ∈ self.rules, self.actionable testTags obj a = true →
        self.actionable testTags obj b = true → a.priority = b.priority → a = b) →
      replicate sort testTags ⟨self.role, rules⟩ obj = self.replicate sort testTags obj := by
  rw [replicate, filterActionableRules_eq self hsort hone]
  refine ⟨fun hnone => ?_, fun bs rule after heq hact hbefore hafter => ?_, fun rules hperm hinj => ?_⟩
  · rw [filter_eq_nil_iff.mpr (by simpa using hnone)]
    rfl
  · obtain ⟨rest, hrest⟩ := insertionSort_first (r := (·.priority ≤ ·.priority))
      (fun r hr => (hbefore r (mem_filter.mp hr).1 (mem_filter.mp hr).2).not_ge)
      (fun r hr => .inr (hafter r (mem_filter.mp hr).1 (mem_filter.mp hr).2))
    have hstatus : rule.status ≠ "Disabled" := by
      simp only [actionable, Bool.and_eq_true, bne_iff_ne] at hact
      exact hact.1.1.2
    rw [heq, filter_append, filter_cons_of_pos hact, hrest, replicateLoop, if_neg hstatus]
  · have hone' := fun a ha b hb => hone a (hperm.mem_iff.mp ha) b (hperm.mem_iff.mp hb)
    have hsorted := fun rules : List (ReplicationRule S T) =>
      pairwise_insertionSort (·.priority ≤ ·.priority) (rules.filter (self.actionable testTags obj))
    rw [replicate, filterActionableRules_eq ⟨self.role, rules⟩ hsort hone']
    refine congrArg _ (Perm.eq_of_pairwise (fun a b ha hb hab hba => ?_) (hsorted rules) (hsorted self.rules) ?_)
    · rw [mem_insertionSort, mem_filter] at ha hb
      exact hinj a (hperm.mem_iff.mp ha.1) b hb.1 ha.2 hb.2 (le_antisymm hab hba)
    · exact (perm_insertionSort _ _).trans ((hperm.filter _).trans (perm_insertionSort _ _).symm)

/-- A rule that replicates no deletion, or every one of a version, to a storage class. -/
def versionRule (storageClass : String) (priority : ℤ) (deleteReplication : String) :
    ReplicationRule String Unit where
  status := "Enabled"
  destination := ⟨"arn", storageClass⟩
  priority := priority
  deleteReplication := some deleteReplication

def deletion : ObjectOpts := { name := "o", versionId := some 1, opType := .delete, targetArn := "arn" }

/-- Rules of different destinations stay as they are. -/
def byPriority (rules : List (ReplicationRule String Unit)) : List (ReplicationRule String Unit) :=
  if ∀ a ∈ rules, ∀ b ∈ rules, a.destination = b.destination then
    rules.insertionSort (·.priority ≤ ·.priority)
  else rules

theorem sortsByPriority_byPriority : SortsByPriority byPriority := fun _ hone => if_pos hone

theorem replicate_lowest_deletion :
    (⟨"", [versionRule "WARM" 2 "Disabled", versionRule "WARM" 1 "Enabled"]⟩ :
      ReplicationConfiguration String Unit).replicate byPriority (fun _ _ => true) deletion = true :=
  (replicate_lowest sortsByPriority_byPriority (by simp [versionRule])).2.1
    [versionRule "WARM" 2 "Disabled"] (versionRule "WARM" 1 "Enabled") [] rfl (by decide +kernel)
    (by decide +kernel) (by decide +kernel)

/-- The rule with the higher priority does not replicate the deletion, and yet it is replicated. If
the storage classes of the rules differ, the first one decides, here the one with the higher number. -/
theorem replicate_not_highest :
    (⟨"", [versionRule "WARM" 2 "Disabled", versionRule "WARM" 1 "Enabled"]⟩ :
        ReplicationConfiguration String Unit).replicate byPriority (fun _ _ => true) deletion = true ∧
      (versionRule "WARM" 2 "Disabled").decide deletion = false ∧
      (⟨"", [versionRule "COLD" 2 "Disabled", versionRule "WARM" 1 "Enabled"]⟩ :
        ReplicationConfiguration String Unit).replicate byPriority (fun _ _ => true) deletion = false ∧
      (versionRule "WARM" 1 "Enabled").decide deletion = true := by
  decide +kernel

end ReplicationConfiguration
end Rustfs.Replication
