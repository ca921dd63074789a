import Rustfs.Filemeta.Restore
import Rustfs.Lib.Tally
import Rustfs.Policy.Statement

/-! The accounts, groups and policies that the IAM cache and its store know. -/
namespace Rustfs.Iam

structure Credentials where
  accessKey : String
  secretKey : String
  sessionToken : String
  expiration : Option Time
  status : String
  parentUser : String
  groups : Option (List String)
  claims : Option Claims

namespace Credentials

variable (self : Credentials)

def isExpired (now : Time) : Bool :=
  match self.expiration with
  | none => false
  | some e => now > e

def isTemp (now : Time) : Bool :=
  self.sessionToken != "" && !self.isExpired now

/-- `IAM_POLICY_CLAIM_NAME_SA` -/
def iamPolicyClaimNameSa : String := "sa-policy"

def isServiceAccount : Bool :=
  match self.claims with
  | none => false
  | some claims => (claims.lookup iamPolicyClaimNameSa).isSome && self.parentUser != ""

def isValid (now : Time) : Bool :=
  self.status != "off" && 3 ≤ self.accessKey.utf8ByteSize && 8 ≤ self.secretKey.utf8ByteSize &&
    !self.isExpired now

end Credentials

/-- The names of policies with commas between them. -/
structure MappedPolicy where
  policies : String

def MappedPolicy.toSlice (self : MappedPolicy) : List String :=
  ((self.policies.toList.splitOn ',').filter fun v => !(trimMatches isWhiteSpace v).isEmpty).map
    String.ofList

inductive IamError where
  | invalidArgument
  | noSuchPolicy
  | noSuchUser (name : String)
  | other
  deriving DecidableEq

inductive UserType where
  | svc
  | sts
  | reg
  | none
  deriving DecidableEq

structure GroupInfo where
  status : String

/-- What is in memory. -/
structure Cache where
  policyDocs : StrMap Policy
  users : StrMap Credentials
  userPolicies : StrMap MappedPolicy
  stsAccounts : StrMap Credentials
  stsPolicies : StrMap MappedPolicy
  groups : StrMap GroupInfo
  userGroupMemberships : StrMap (List String)
  groupPolicies : StrMap MappedPolicy

/-- What the backend gives for what is not in memory. -/
structure Store where
  loadGroup : String → Except IamError GroupInfo
  loadMappedPolicy : String → UserType → Bool → Except IamError MappedPolicy
  loadPolicyDoc : String → Except IamError Policy

/-- With the orders in which a set of names and a map of loaded policies hand over their entries. -/
structure IamCache where
  cache : Cache
  api : Store
  nameOrder : IterOrder String
  docOrder : IterOrder (String × Policy)

namespace IamCache

variable (self : IamCache) (now : Time)

def getUser (accessKey : String) : Option Credentials :=
  (self.cache.users.lookup accessKey).or (self.cache.stsAccounts.lookup accessKey)

variable (name : String)

/-- A mapping that does not exist is no error. -/
def loadMapped (userType : UserType) (isGroup : Bool) : Except IamError (Option MappedPolicy) :=
  match self.api.loadMappedPolicy name userType isGroup with
  | .ok p => .ok (some p)
  | .error .noSuchPolicy => .ok none
  | .error e => .error e

def groupMapping (group : String) : Except IamError MappedPolicy :=
  match self.cache.groupPolicies.lookup group with
  | some p => .ok p
  | none => do
    let p ← self.loadMapped group .reg true
    pure (p.getD ⟨""⟩)

/-- The policies of an account as a regular user, or else as a temporary one. -/
def userMapping : Except IamError MappedPolicy :=
  match self.cache.userPolicies.lookup name with
  | some p => .ok p
  | none => do
    match ← self.loadMapped name .reg false with
    | some p => pure p
    | none =>
      match self.cache.stsPolicies.lookup name with
      | some p => pure p
      | none =>
        let p ← self.loadMapped name .sts false
        pure (p.getD ⟨""⟩)

def isDisabled (group : String) : Bool :=
  match self.cache.groups.lookup group with
  | some g => g.status == "disabled"
  | none => false

/-- The policies of groups, unless one of them is disabled. -/
def groupsPolicies : List String → Except IamError (Option (List String))
  | [] => .ok (some [])
  | group :: groups =>
    if self.isDisabled group then .ok none
    else do
      let mp ← self.groupMapping group
      let rest ← groupsPolicies groups
      pure (rest.map (mp.toSlice ++ ·))

/-- `policy_db_get_internal` of a user -/
def policyDbGetUser : Except IamError (List String) :=
  match self.cache.users.lookup name with
  | none => .ok []
  | some u =>
    if !u.isValid now then .ok []
    else do
      let mp ← self.userMapping name
      match ← self.groupsPolicies (u.groups.getD []) with
      | none => pure []
      | some own =>
        match ← self.groupsPolicies ((self.cache.userGroupMemberships.lookup name).getD []) with
        | none => pure []
        | some memberships => pure (self.nameOrder.run (mp.toSlice ++ own ++ memberships).eraseDups)

/-- `policy_db_get_internal` of a group: its mapping is loaded only if the user has no policy. -/
def policyDbGetGroup (policyPresent : Bool) : Except IamError (List String) := do
  let g ← match self.cache.groups.lookup name with
    | some g => pure g
    | none => self.api.loadGroup name
  if g.status = "disabled" then pure []
  else
    match self.cache.groupPolicies.lookup name with
    | some p => pure p.toSlice
    | none =>
      if policyPresent then pure []
      else
        let p ← self.loadMapped name .reg true
        pure (p.elim [] MappedPolicy.toSlice)

def policyDbGet (groups : Option (List String)) : Except IamError (List String) :=
  if name = "" then .error .invalidArgument
  else do
    let policies ← self.policyDbGetUser now name
    let ofGroups ← (groups.getD []).mapM fun group =>
      self.policyDbGetGroup group !policies.isEmpty
    pure (policies ++ ofGroups.flatten)

/-- The names of the policies that exist, and what they say together. Those that are not in memory
come last, and only once. -/
def mergePolicies : String × Policy :=
  let names := (MappedPolicy.mk name).toSlice
  let present := names.filterMap fun p => (self.cache.policyDocs.lookup p).map (p, ·)
  let missing := (names.filter fun p => (self.cache.policyDocs.lookup p).isNone).eraseDups
  let loaded := missing.filterMap fun p => (self.api.loadPolicyDoc p).toOption.map (p, ·)
  let all := present ++ self.docOrder.run loaded
  (String.intercalate "," (all.map Prod.fst), Policy.mergePolicies (all.map Prod.snd))

end IamCache

end Rustfs.Iam
