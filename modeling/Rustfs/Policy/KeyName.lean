import Mathlib.Data.List.Basic

/-! The keys that conditions are about. -/
namespace Rustfs.Iam

inductive AwsKeyName where
  | awsReferer | awsSourceIP | awsUserAgent | awsSecureTransport | awsCurrentTime | awsEpochTime
  | awsPrincipalType | awsUserID | awsUsername | awsGroups
  deriving DecidableEq

def AwsKeyName.toStr : AwsKeyName → String
  | .awsReferer => "aws:Referer"
  | .awsSourceIP => "aws:SourceIp"
  | .awsUserAgent => "aws:UserAgent"
  | .awsSecureTransport => "aws:SecureTransport"
  | .awsCurrentTime => "aws:CurrentTime"
  | .awsEpochTime => "aws:EpochTime"
  | .awsPrincipalType => "aws:principaltype"
  | .awsUserID => "aws:userid"
  | .awsUsername => "aws:username"
  | .awsGroups => "aws:groups"

inductive JwtKeyName where
  | jwtSub | jwtIss | jwtAud | jwtJti | jwtName | jwtUpn | jwtGroups | jwtGivenName
  | jwtFamilyName | jwtMiddleName | jwtNickName | jwtPrefUsername | jwtProfile | jwtPicture
  | jwtWebsite | jwtEmail | jwtGender | jwtBirthdate | jwtPhoneNumber | jwtAddress | jwtScope
  | jwtClientID
  deriving DecidableEq

def JwtKeyName.toStr : JwtKeyName → String
  | .jwtSub => "jwt:sub"
  | .jwtIss => "jwt:iss"
  | .jwtAud => "jwt:aud"
  | .jwtJti => "jwt:jti"
  | .jwtName => "jwt:name"
  | .jwtUpn => "jwt:upn"
  | .jwtGroups => "jwt:groups"
  | .jwtGivenName => "jwt:given_name"
  | .jwtFamilyName => "jwt:family_name"
  | .jwtMiddleName => "jwt:middle_name"
  | .jwtNickName => "jwt:nickname"
  | .jwtPrefUsername => "jwt:preferred_username"
  | .jwtProfile => "jwt:profile"
  | .jwtPicture => "jwt:picture"
  | .jwtWebsite => "jwt:website"
  | .jwtEmail => "jwt:email"
  | .jwtGender => "jwt:gender"
  | .jwtBirthdate => "jwt:birthdate"
  | .jwtPhoneNumber => "jwt:phone_number"
  | .jwtAddress => "jwt:address"
  | .jwtScope => "jwt:scope"
  | .jwtClientID => "jwt:client_id"

inductive LdapKeyName where
  | user | username | groups
  deriving DecidableEq

def LdapKeyName.toStr : LdapKeyName → String
  | .user => "ldap:user"
  | .username => "ldap:username"
  | .groups => "ldap:groups"

inductive StsKeyName where
  | stsDurationSeconds
  deriving DecidableEq

def StsKeyName.toStr : StsKeyName → String
  | .stsDurationSeconds => "sts:DurationSeconds"

inductive SvcKeyName where
  | svcDurationSeconds
  deriving DecidableEq

def SvcKeyName.toStr : SvcKeyName → String
  | .svcDurationSeconds => "svc:DurationSeconds"

inductive S3KeyName where
  | s3XAmzCopySource | s3XAmzServerSideEncryption | s3XAmzServerSideEncryptionCustomerAlgorithm
  | s3SignatureVersion | s3AuthType | s3SignatureAge | s3XAmzContentSha256 | s3XAmzAcl
  | s3LocationConstraint | s3ObjectLockRetainUntilDate | s3MaxKeys | s3XAmzMetadataDirective
  | s3XAmzStorageClass | s3Prefix | s3Delimiter | s3ExistingObjectTag | s3RequestObjectTagKeys
  | s3RequestObjectTag
  deriving DecidableEq

def S3KeyName.toStr : S3KeyName → String
  | .s3XAmzCopySource => "s3:x-amz-copy-source"
  | .s3XAmzServerSideEncryption => "s3:x-amz-server-side-encryption"
  | .s3XAmzServerSideEncryptionCustomerAlgorithm => "s3:x-amz-server-side-encryption-customer-algorithm"
  | .s3SignatureVersion => "s3:signatureversion"
  | .s3AuthType => "s3:authType"
  | .s3SignatureAge => "s3:signatureAge"
  | .s3XAmzContentSha256 => "s3:x-amz-content-sha256"
  | .s3XAmzAcl => "s3:x-amz-acl"
  | .s3LocationConstraint => "s3:LocationConstraint"
  | .s3ObjectLockRetainUntilDate => "s3:object-lock-retain-until-date"
  | .s3MaxKeys => "s3:max-keys"
  | .s3XAmzMetadataDirective => "s3:x-amz-metadata-directive"
  | .s3XAmzStorageClass => "s3:x-amz-storage-class"
  | .s3Prefix => "s3:prefix"
  | .s3Delimiter => "s3:delimiter"
  | .s3ExistingObjectTag => "s3:ExistingObjectTag"
  | .s3RequestObjectTagKeys => "s3:RequestObjectTagKeys"
  | .s3RequestObjectTag => "s3:RequestObjectTag"

inductive KeyName where
  | aws (key : AwsKeyName)
  | jwt (key : JwtKeyName)
  | ldap (key : LdapKeyName)
  | sts (key : StsKeyName)
  | svc (key : SvcKeyName)
  | s3 (key : S3KeyName)
  deriving DecidableEq

def KeyName.toStr : KeyName → String
  | .aws s => s.toStr
  | .jwt s => s.toStr
  | .ldap s => s.toStr
  | .sts s => s.toStr
  | .svc s => s.toStr
  | .s3 s => s.toStr

/-- The keys that stand for a variable of their own. -/
def KeyName.commonKeys : List KeyName :=
  [.s3 .s3SignatureVersion, .s3 .s3AuthType, .s3 .s3SignatureAge, .s3 .s3XAmzContentSha256,
  .s3 .s3LocationConstraint, .aws .awsReferer, .aws .awsSourceIP, .aws .awsUserAgent,
  .aws .awsSecureTransport, .aws .awsCurrentTime, .aws .awsEpochTime, .aws .awsPrincipalType,
  .aws .awsUserID, .aws .awsUsername, .aws .awsGroups, .ldap .user, .ldap .username,
  .ldap .groups, .jwt .jwtSub, .jwt .jwtIss, .jwt .jwtAud, .jwt .jwtJti, .jwt .jwtName,
  .jwt .jwtUpn, .jwt .jwtGroups, .jwt .jwtGivenName, .jwt .jwtFamilyName, .jwt .jwtMiddleName,
  .jwt .jwtNickName, .jwt .jwtPrefUsername, .jwt .jwtProfile, .jwt .jwtPicture, .jwt .jwtWebsite,
  .jwt .jwtEmail, .jwt .jwtGender, .jwt .jwtBirthdate, .jwt .jwtPhoneNumber, .jwt .jwtAddress,
  .jwt .jwtScope, .jwt .jwtClientID]

def KeyName.prefixLen : KeyName → ℕ
  | .aws _ => "aws:".length
  | .jwt _ => "jwt:".length
  | .ldap _ => "ldap:".length
  | .sts _ => "sts:".length
  | .svc _ => "svc:".length
  | .s3 _ => "s3:".length

/-- The name without its namespace. -/
def KeyName.name (key : KeyName) : String := String.ofList (key.toStr.toList.drop key.prefixLen)

/-- The namespace is put before a name that has it already. -/
def KeyName.varName : KeyName → String
  | .aws s => "$\x7baws:" ++ s.toStr ++ "\x7d"
  | .jwt s => "$\x7bjwt:" ++ s.toStr ++ "\x7d"
  | .ldap s => "$\x7bldap:" ++ s.toStr ++ "\x7d"
  | .sts s => "$\x7bsts:" ++ s.toStr ++ "\x7d"
  | .svc s => "$\x7bsvc:" ++ s.toStr ++ "\x7d"
  | .s3 s => "$\x7bs3:" ++ s.toStr ++ "\x7d"

example : (KeyName.aws .awsUsername).varName = "$\x7baws:aws:username\x7d" := by decide +kernel

end Rustfs.Iam
