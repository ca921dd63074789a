import Rustfs.Policy.Statement

/-! Policies of a bucket, which name the accounts they are about. -/
namespace Rustfs.Iam

open Trial Option

structure BucketPolicyArgs where
  account : String
  action : Action
  bucket : String
  conditions : Conditions
  isOwner : Bool
  object : String

structure Principal where
  aws : HashSet String

def Principal.isMatch (self : Principal) (principal : String) : Bool :=
  self.aws.toList.any fun pattern => isSimpleMatch pattern principal

structure BPStatement where
  effect : Effect
  principal : Principal
  actions : ActionSet
  notActions : ActionSet
  resources : ResourceSet
  notResources : ResourceSet
  conditions : Functions

namespace BPStatement

variable (self : BPStatement) (env : Env) (args : BucketPolicyArgs)

def outsideResources : Option Bool :=
  if self.resources.isEmpty then some false
  else (!·) <$> self.resources.isMatchWithResolver args.conditions none
    (resourceName args.bucket args.object)

def inNotResources : Option Bool :=
  if self.notResources.isEmpty then some false
  else self.notResources.isMatchWithResolver args.conditions none
    (resourceName args.bucket args.object)

/-- The statement is about the request. -/
def check : Option Bool :=
  if !self.principal.isMatch args.account then some false
  else if !self.actions.isMatch args.action && !self.actions.isEmpty ||
      self.notActions.isMatch args.action then some false
  else do
    if ← self.outsideResources args then pure false
    else if ← self.inNotResources args then pure false
    else self.conditions.evaluateWithResolver env args.conditions none

def isAllowed : Option Bool := self.effect.isAllowed <$> self.check env args

end BPStatement

structure BucketPolicy where
  statements : List BPStatement

namespace BucketPolicy

def denials (self : BucketPolicy) : List BPStatement := self.statements.filter (·.effect == .deny)

def grants (self : BucketPolicy) : List BPStatement := self.statements.filter (·.effect == .allow)

def isAllowed (self : BucketPolicy) (env : Env) (args : BucketPolicyArgs) : Option Bool := do
  if ← self.denials.allM (·.isAllowed env args) then
    if args.isOwner then pure true
    else self.grants.anyM (·.isAllowed env args)
  else pure false

variable {p : BucketPolicy} {env : Env} {a : BucketPolicyArgs}

/-- Some statement with the effect is about the request. -/
def Says (policy : BucketPolicy) (env : Env) (args : BucketPolicyArgs) (effect : Effect) : Prop :=
  ∃ st ∈ policy.statements, st.effect = effect ∧ st.check env args = some true

theorem says_withOwner {isOwner : Bool} {e : Effect} :
    p.Says env { a with isOwner := isOwner } e ↔ p.Says env a e := by
  have hcheck (st : BPStatement) : st.check env { a with isOwner := isOwner } = st.check env a :=
    rfl
  simp only [Says, hcheck]

/-- A policy that lets a request pass has no denial of it. -/
theorem not_says_deny (h : p.isAllowed env a = some true) : ¬p.Says env a .deny := by
  rintro ⟨st, hst, heffect, hcheck⟩
  obtain ⟨passed, hpassed, h⟩ := bind_eq_some_iff.mp h
  cases passed with
  | false => exact nomatch h
  | true =>
    have hmem : st ∈ p.denials := by simp [denials, hst, heffect]
    have hallowed := allM_eq_true_iff.mp hpassed st hmem
    rw [BPStatement.isAllowed, hcheck, heffect] at hallowed
    exact nomatch hallowed

/-- One that grants a request to someone who is not the owner has a statement that allows it. -/
theorem says_allow (h : p.isAllowed env a = some true) (howner : a.isOwner = false) :
    p.Says env a .allow := by
  obtain ⟨passed, hpassed, h⟩ := bind_eq_some_iff.mp h
  cases passed with
  | false => exact nomatch h
  | true =>
    rw [if_pos rfl, howner, if_neg Bool.false_ne_true] at h
    obtain ⟨st, hst, hallowed⟩ := exists_of_anyM h
    obtain ⟨hmem, heffect⟩ : st ∈ p.statements ∧ st.effect = .allow := by
      simpa [grants] using hst
    rw [BPStatement.isAllowed, heffect] at hallowed
    obtain ⟨b, hb, htrue⟩ := map_eq_some_iff.mp hallowed
    exact ⟨st, hmem, heffect, htrue ▸ hb⟩

/-- One that does not deny a request, and does not grant it either, has no such statement. -/
theorem not_says_allow (hpass : p.isAllowed env { a with isOwner := true } = some true)
    (h : p.isAllowed env a = some false) : ¬p.Says env a .allow := by
  rintro ⟨st, hst, heffect, hcheck⟩
  obtain ⟨passed, hpassed, h⟩ := bind_eq_some_iff.mp h
  obtain ⟨passed', hpassed', hpass⟩ := bind_eq_some_iff.mp hpass
  obtain rfl : passed = passed' := some.inj (hpassed.symm.trans hpassed')
  cases passed with
  | false => exact nomatch hpass
  | true =>
    rw [if_pos rfl] at h
    split at h
    · exact nomatch h
    · have hmem : st ∈ p.grants := by simp [grants, hst, heffect]
      have hfalse := anyM_eq_false_iff.mp h st hmem
      rw [BPStatement.isAllowed, hcheck, heffect] at hfalse
      exact nomatch hfalse

end BucketPolicy

end Rustfs.Iam
