import Rustfs.Iam.Sys
import Rustfs.Policy.BucketPolicy

/-! Who may do what: the policies of the caller and of the bucket, and access control lists. -/
namespace Rustfs.Iam

inductive S3Error where
  | accessDenied
  | internalError
  deriving DecidableEq

inductive AclTarget where
  | bucket
  | object
  deriving DecidableEq

inductive AclPermission where
  | read
  | write
  | readAcp
  | writeAcp
  deriving DecidableEq

def aclPermissionForAction : Action → Option (AclTarget × AclPermission)
  | .s3Action .listBucketAction => some (.bucket, .read)
  | .s3Action .putObjectAction => some (.bucket, .write)
  | .s3Action .getBucketAclAction => some (.bucket, .readAcp)
  | .s3Action .putBucketAclAction => some (.bucket, .writeAcp)
  | .s3Action .getObjectAction => some (.object, .read)
  | .s3Action .getObjectAclAction => some (.object, .readAcp)
  | .s3Action .putObjectAclAction => some (.object, .writeAcp)
  | _ => none

structure StoredGrant where
  granteeType : String
  id : Option String
  uri : Option String
  permission : String

abbrev StoredAcl : Type := List StoredGrant

def permissionMatches (grantPerm : String) (required : AclPermission) : Bool :=
  grantPerm == "FULL_CONTROL" ||
    match required with
    | .read => grantPerm == "READ"
    | .write => grantPerm == "WRITE"
    | .readAcp => grantPerm == "READ_ACP"
    | .writeAcp => grantPerm == "WRITE_ACP"

/-- `ACL_GROUP_ALL_USERS` -/
def aclGroupAllUsers : String := "http://acs.amazonaws.com/groups/global/AllUsers"

/-- `ACL_GROUP_AUTHENTICATED_USERS` -/
def aclGroupAuthenticatedUsers : String :=
  "http://acs.amazonaws.com/groups/global/AuthenticatedUsers"

def aclAllows (acl : StoredAcl) (userId : Option String) (required : AclPermission)
    (ignorePublicAcls : Bool) : Bool :=
  acl.any fun grant =>
    permissionMatches grant.permission required &&
      if grant.granteeType = "CanonicalUser" then userId.isSome && grant.id == userId
      else if grant.granteeType = "Group" then
        !ignorePublicAcls && (grant.uri == some aclGroupAllUsers ||
          grant.uri == some aclGroupAuthenticatedUsers && userId.isSome)
      else false

structure ReqInfo where
  cred : Option Credentials
  isOwner : Bool
  bucket : Option String
  object : Option String
  versionId : Option String

/-- What is stored for a bucket, and whether it can be loaded. -/
structure BucketConfig where
  policy : Option BucketPolicy
  readable : Bool
  ignorePublicAcls : Bool

/-- What the server knows when it decides. -/
structure Server where
  env : Env
  /-- The accounts, once they are loaded. -/
  iam : Option IamSys
  buckets : String → BucketConfig
  loadBucketAcl : String → Except S3Error StoredAcl
  loadObjectAcl : String → String → Option String → Except S3Error StoredAcl

namespace Server

variable (self : Server)

/-- `PolicySys::get`: there is nothing to load without a bucket. -/
def bucketPolicy (bucket : String) : Option BucketPolicy :=
  if bucket = "" ∨ (self.buckets bucket).readable = false then none
  else (self.buckets bucket).policy

/-- `PolicySys::is_allowed`: if there is no policy, or it cannot be loaded, the owner passes. -/
def policySysIsAllowed (args : BucketPolicyArgs) : Option Bool :=
  match self.bucketPolicy args.bucket with
  | some cfg => cfg.isAllowed self.env args
  | none => some args.isOwner

def checkAclAccess (reqInfo : ReqInfo) (action : Action) (policyAllowed : Bool) :
    Except S3Error Bool :=
  if reqInfo.isOwner || policyAllowed then .ok true
  else
    match aclPermissionForAction action with
    | none => .ok true
    | some (target, permission) =>
      let bucket := reqInfo.bucket.getD ""
      let object := reqInfo.object.getD ""
      if bucket = "" then .ok true
      else
        let userId := reqInfo.cred.map (·.accessKey)
        let config := self.buckets bucket
        let allows (acl : StoredAcl) : Bool :=
          aclAllows acl userId permission (config.readable && config.ignorePublicAcls)
        match target with
        | .bucket => allows <$> self.loadBucketAcl bucket
        | .object =>
          if object = "" then .ok true
          else allows <$> self.loadObjectAcl bucket object reqInfo.versionId

section

variable (reqInfo : ReqInfo) (conditions : Conditions)

def iamArgs (cred : Credentials) (action : Action) : Args where
  account := cred.accessKey
  groups := cred.groups
  action := action
  bucket := reqInfo.bucket.getD ""
  conditions := conditions
  isOwner := reqInfo.isOwner
  object := reqInfo.object.getD ""
  claims := cred.claims.getD ∅
  denyOnly := false

def policyArgs (account : String) (action : Action) (isOwner : Bool) : BucketPolicyArgs where
  account := account
  action := action
  bucket := reqInfo.bucket.getD ""
  conditions := conditions
  isOwner := isOwner
  object := reqInfo.object.getD ""

/-- The policy of the bucket is asked for denials only, as if the owner had come. -/
def deniedEarly (account : String) (action : Action) : Option Bool :=
  if reqInfo.bucket.getD "" = "" then some false
  else (!·) <$> self.policySysIsAllowed (policyArgs reqInfo conditions account action true)

variable (iam : IamSys) (cred : Credentials) (action : Action)

/-- To delete a version needs a second permission, of the caller or of the bucket. -/
def versionRefused : Option Bool :=
  if action = .s3Action .deleteObjectAction ∧ reqInfo.versionId.isSome then do
    if ← iam.isAllowed (iamArgs reqInfo conditions cred (.s3Action .deleteObjectVersionAction)) then
      pure false
    else
      let allowed ← self.policySysIsAllowed (policyArgs reqInfo conditions cred.accessKey
        (.s3Action .deleteObjectVersionAction) reqInfo.isOwner)
      pure !allowed
  else some false

/-- The caller's policies allow the action: the bucket's policy or its list must agree. -/
def checkAcl : Option (Except S3Error Unit) := do
  let policyAllowed ← if reqInfo.bucket.getD "" = "" then some false
    else self.policySysIsAllowed (policyArgs reqInfo conditions cred.accessKey action false)
  match self.checkAclAccess reqInfo action policyAllowed with
  | .ok true => pure (.ok ())
  | .ok false => pure (.error .accessDenied)
  | .error e => pure (.error e)

/-- Who may list a bucket may list its versions. -/
def listFallback : Option (Except S3Error Unit) :=
  if action = .s3Action .listBucketVersionsAction then do
    if ← iam.isAllowed (iamArgs reqInfo conditions cred (.s3Action .listBucketAction)) then
      pure (.ok ())
    else if ← self.policySysIsAllowed (policyArgs reqInfo conditions cred.accessKey
        (.s3Action .listBucketAction) reqInfo.isOwner) then pure (.ok ())
    else pure (.error .accessDenied)
  else some (.error .accessDenied)

def authorizeAccount : Option (Except S3Error Unit) := do
  if ← self.deniedEarly reqInfo conditions cred.accessKey action then
    pure (.error .accessDenied)
  else if ← self.versionRefused reqInfo conditions iam cred action then
    pure (.error .accessDenied)
  else if ← iam.isAllowed (iamArgs reqInfo conditions cred action) then
    self.checkAcl reqInfo conditions cred action
  else if ← self.policySysIsAllowed
      (policyArgs reqInfo conditions cred.accessKey action reqInfo.isOwner) then pure (.ok ())
  else self.listFallback reqInfo conditions iam cred action

/-- Without credentials the object of the request is left out when listing takes the place of
listing versions. -/
def anonymousFallback : Option Bool :=
  if action = .s3Action .listBucketVersionsAction then
    self.policySysIsAllowed
      { policyArgs reqInfo conditions "" (.s3Action .listBucketAction) false with object := "" }
  else some false

def anonymousAcl : Except S3Error Unit :=
  if (aclPermissionForAction action).isSome then
    match self.checkAclAccess reqInfo action false with
    | .ok true => .ok ()
    | .ok false => .error .accessDenied
    | .error e => .error e
  else .error .accessDenied

def authorizeAnonymous : Option (Except S3Error Unit) := do
  if ← self.deniedEarly reqInfo conditions "" action then pure (.error .accessDenied)
  else if action = .s3Action .listAllMyBucketsAction then pure (.error .accessDenied)
  else if ← self.policySysIsAllowed (policyArgs reqInfo conditions "" action false) then
    pure (.ok ())
  else if ← self.anonymousFallback reqInfo conditions action then pure (.ok ())
  else pure (self.anonymousAcl reqInfo action)

def authorizeRequest : Option (Except S3Error Unit) :=
  match reqInfo.cred with
  | some cred =>
    match self.iam with
    | none => some (.error .internalError)
    | some iam => self.authorizeAccount reqInfo conditions iam cred action
  | none => self.authorizeAnonymous reqInfo conditions action

end

end Server

end Rustfs.Iam
