import Rustfs.Iam.Manager
import Rustfs.Policy.Statement

/-! The decision about a request by the account that signed it, and the policies of the server. -/
namespace Rustfs.Iam

/-- A grant without conditions. -/
def grantOf (actions : ActionSet) (resources : ResourceSet) : Statement where
  sid := ""
  effect := .allow
  actions := actions
  notActions := ⟨[], List.nodup_nil⟩
  resources := resources
  notResources := ⟨[], List.nodup_nil⟩
  conditions := Functions.empty

/-- Every bucket and object. -/
def everything : ResourceSet := ⟨[.s3 "*"], allResources_nodup⟩

def readwritePolicy : Policy :=
  ⟨"", defaultVersion,
    [grantOf ⟨[.s3Action .allActions], allActions_nodup⟩ everything]⟩

def readonlyPolicy : Policy :=
  ⟨"", defaultVersion,
    [grantOf ⟨[.s3Action .getBucketLocationAction, .s3Action .getObjectAction,
      .s3Action .getBucketQuotaAction], by decide⟩ everything]⟩

def writeonlyPolicy : Policy :=
  ⟨"", defaultVersion,
    [grantOf ⟨[.s3Action .putObjectAction], List.nodup_singleton _⟩ everything]⟩

def diagnosticsPolicy : Policy :=
  ⟨"", defaultVersion,
    [grantOf ⟨[.adminAction .profilingAdminAction, .adminAction .traceAdminAction,
      .adminAction .consoleLogAdminAction, .adminAction .serverInfoAdminAction,
      .adminAction .topLocksAdminAction, .adminAction .healthInfoAdminAction,
      .adminAction .prometheusAdminAction, .adminAction .bandwidthMonitorAction],
      by decide⟩ everything]⟩

def consoleAdminPolicy : Policy :=
  ⟨"", defaultVersion,
    [grantOf ⟨[.adminAction .allAdminActions], List.nodup_singleton _⟩ ⟨[], List.nodup_nil⟩,
     grantOf ⟨[.kmsAction .allActions], List.nodup_singleton _⟩ ⟨[], List.nodup_nil⟩,
     grantOf ⟨[.s3Action .allActions], allActions_nodup⟩ everything]⟩

/-- `writeonly` is in the list twice. -/
def defaultPolicies : List (String × Policy) :=
  [("readwrite", readwritePolicy), ("readonly", readonlyPolicy), ("writeonly", writeonlyPolicy),
   ("writeonly", writeonlyPolicy), ("diagnostics", diagnosticsPolicy),
   ("consoleAdmin", consoleAdminPolicy)]

end Rustfs.Iam

namespace Rustfs.Iam

/-- The parts of an `ARN` that are not fixed. -/
structure Arn where
  region : String
  resourceId : String
  deriving DecidableEq

def isResourceIdChar (c : Char) : Bool :=
  c.isAlphanum || c == '_' || c == '/' || c == '.' || c == '-'

def Arn.parse (arnStr : String) : Option Arn :=
  match arnStr.toList.splitOn ':' with
  | [arn, partition, service, region, account, resource] =>
    if arn ≠ "arn".toList ∨ partition ≠ "rustfs".toList ∨ service ≠ "iam".toList ∨ account ≠ [] then
      none
    else
      match splitFirst '/' resource with
      | (kind, some id) =>
        if kind ≠ "role".toList ∨ id = [] ∨ !id.all isResourceIdChar then none
        else some ⟨String.ofList region, String.ofList id⟩
      | (_, none) => none
  | _ => none

/-- `SESSION_POLICY_NAME_EXTRACTED` -/
def sessionPolicyNameExtracted : String := "sessionPolicy-extracted"

/-- `INHERITED_POLICY_TYPE` -/
def inheritedPolicyType : String := "inherited-policy"

structure IamSys where
  env : Env
  now : Time
  store : IamCache
  rolesMap : AList fun _ : Arn => String
  /-- The access key of the owner, once it is set. -/
  globalActionCred : Option String
  /-- A policy service that takes the decision, if one is configured. -/
  policyPluginClient : Option (Args → Bool)
  /-- `serde_json` with the derived deserializers of policies. -/
  deserializePolicy : String → Option Policy

/-- What stands behind an account: nothing, the owner, or policies taken together. -/
inductive Behind where
  | denied
  | owner
  | policy (combined : Policy)

def Behind.isAllowed (env : Env) (args : Args) : Behind → Option Bool
  | .denied => some false
  | .owner => some true
  | .policy combined => combined.isAllowed env args

namespace IamSys

variable (self : IamSys) (args : Args)

/-- `Policy::parse_config` -/
def parseConfig (data : String) : Option Policy := do
  let policy ← self.deserializePolicy data
  match policy.isValid with
  | .ok _ => some policy
  | .error _ => none

/-- Whether there is a session policy, and whether it allows the request. -/
def isAllowedBySessionPolicy : Option (Bool × Bool) :=
  match args.claims.lookup sessionPolicyNameExtracted with
  | none => some (false, false)
  | some policy =>
    match policy.asStr.bind self.parseConfig with
    | none => some (true, false)
    | some subPolicy =>
      if subPolicy.version = "" then some (true, false)
      else (true, ·) <$> subPolicy.isAllowed self.env { args with isOwner := false }

/-- For a service account an empty policy is none. -/
def isAllowedBySessionPolicyForServiceAccount : Option (Bool × Bool) :=
  match args.claims.lookup sessionPolicyNameExtracted with
  | none => some (false, false)
  | some policy =>
    match policy.asStr.bind self.parseConfig with
    | none => some (true, false)
    | some subPolicy =>
      if subPolicy.version = "" ∧ subPolicy.statements.isEmpty ∧ subPolicy.id = "" then
        some (false, false)
      else (true, ·) <$> subPolicy.isAllowed self.env { args with isOwner := false }

variable (parentUser : String)

def isOwner : Bool := self.globalActionCred == some parentUser

def getRoleArn : Option String := (args.claims.lookup "roleArn").bind Value.asStr

/-- The policies of a role. -/
def rolePolicies (arn : Arn) : List String :=
  (MappedPolicy.mk ((self.rolesMap.lookup arn).getD "")).toSlice

def effectiveGroups : Option (List String) :=
  match args.groups with
  | some (g :: gs) => some (g :: gs)
  | _ => (self.store.getUser parentUser).bind (·.groups)

def isSafeClaimPolicyName (policy : List Char) : Bool :=
  !policy.isEmpty && policy.all fun c => c.isAlphanum || c == '_' || c == '-'

/-- The default policies that the claim `policy` names. -/
def claimPolicies : List Policy :=
  match (args.claims.lookup "policy").bind Value.asStr with
  | none => []
  | some names =>
    ((names.toList.splitOn ',').map (trimMatches isWhiteSpace)).filterMap fun name =>
      if isSafeClaimPolicyName name then
        (defaultPolicies.find? fun p => p.1 == String.ofList name).map Prod.snd
      else none

/-- What a session policy leaves of a decision. -/
def restrict (session : Option (Bool × Bool)) (decision : Option Bool) : Option Bool := do
  let (hasSessionPolicy, isAllowedSp) ← session
  if hasSessionPolicy && !isAllowedSp then pure false else decision

/-- The names of the policies that stand behind a temporary account; an ARN may be no ARN. -/
def stsPolicies : Option (List String) :=
  match getRoleArn args with
  | some arnStr => (Arn.parse arnStr).map self.rolePolicies
  | none =>
    match self.store.policyDbGet self.now parentUser (self.effectiveGroups args parentUser) with
    | .ok policies => some policies
    | .error _ => some []

/-- None of the policies may exist. -/
def combine (policies : List String) : Behind :=
  let (names, combined) := self.store.mergePolicies (String.intercalate "," policies)
  if names = "" then .denied else .policy combined

/-- Where no policy is found, the default policies that the claims name take their place. -/
def stsBehind : Behind :=
  if self.isOwner parentUser then .owner
  else
    match self.stsPolicies args parentUser with
    | none => .denied
    | some [] =>
      match claimPolicies args with
      | [] => .denied
      | resolved => .policy (Policy.mergePolicies resolved)
    | some policies => self.combine policies

def isAllowedSts : Option Bool :=
  match self.stsBehind args parentUser with
  | .denied => some false
  | behind => restrict (self.isAllowedBySessionPolicy args) (behind.isAllowed self.env args)

/-- The names of the policies that stand behind a service account. -/
def svcPolicies : Option (List String) :=
  match getRoleArn args with
  | some arnStr => (Arn.parse arnStr).map self.rolePolicies
  | none =>
    match self.store.policyDbGet self.now parentUser args.groups with
    | .ok policies => some policies
    | .error _ => none

def svcBehind : Behind :=
  if self.isOwner parentUser then .owner
  else
    match self.svcPolicies args parentUser with
    | none | some [] => .denied
    | some policies => self.combine policies

/-- The policies are asked in the name of the parent. -/
def isAllowedServiceAccount : Option Bool :=
  if (args.claims.lookup "parent").bind Value.asStr ≠ some parentUser then some false
  else
    match self.svcBehind args parentUser with
    | .denied => some false
    | behind =>
      let decision := behind.isAllowed self.env { args with account := parentUser }
      match (args.claims.lookup Credentials.iamPolicyClaimNameSa).bind Value.asStr with
      | none => some false
      | some sa =>
        if sa = inheritedPolicyType then decision
        else restrict (self.isAllowedBySessionPolicyForServiceAccount args) decision

def isAllowed : Option Bool :=
  if args.isOwner then some true
  else
    match self.policyPluginClient with
    | some opa => some (opa args)
    | none =>
      match self.store.getUser args.account with
      | none => some false
      | some u =>
        if u.isTemp self.now then self.isAllowedSts args u.parentUser
        else if u.isServiceAccount then self.isAllowedServiceAccount args u.parentUser
        else
          match self.store.policyDbGet self.now args.account args.groups with
          | .error _ | .ok [] => some false
          | .ok policies =>
            (self.store.mergePolicies (String.intercalate "," policies)).2.isAllowed self.env args

end IamSys

end Rustfs.Iam
