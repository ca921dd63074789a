import Rustfs.Lib.Trial
import Rustfs.Policy.Wildcard

/-! The actions a policy names, and when a set of them covers one. -/
namespace Rustfs.Iam

inductive S3Action where
  | allActions | abortMultipartUploadAction | createBucketAction | deleteBucketAction
  | forceDeleteBucketAction | deleteBucketPolicyAction | deleteBucketPublicAccessBlockAction
  | deleteBucketCorsAction | deleteObjectAction | getBucketLocationAction
  | getBucketNotificationAction | getBucketPolicyAction | getBucketPublicAccessBlockAction
  | getBucketCorsAction | getBucketAclAction | putBucketAclAction | getObjectAction
  | getObjectAclAction | getObjectAttributesAction | headBucketAction | listAllMyBucketsAction
  | listBucketAction | getBucketPolicyStatusAction | listBucketVersionsAction
  | listBucketMultipartUploadsAction | listenNotificationAction | listenBucketNotificationAction
  | listMultipartUploadPartsAction | putBucketLifecycleAction | getBucketLifecycleAction
  | putBucketNotificationAction | putBucketPolicyAction | putBucketPublicAccessBlockAction
  | putBucketCorsAction | putObjectAction | putObjectAclAction | deleteObjectVersionAction
  | deleteObjectVersionTaggingAction | getObjectVersionAction | getObjectVersionAttributesAction
  | getObjectVersionTaggingAction | putObjectVersionTaggingAction
  | bypassGovernanceRetentionAction | putObjectRetentionAction | getObjectRetentionAction
  | getObjectLegalHoldAction | putObjectLegalHoldAction | getBucketObjectLockConfigurationAction
  | putBucketObjectLockConfigurationAction | getBucketTaggingAction | putBucketTaggingAction
  | getObjectTaggingAction | putObjectTaggingAction | deleteObjectTaggingAction
  | putBucketEncryptionAction | getBucketEncryptionAction | putBucketVersioningAction
  | getBucketVersioningAction | getReplicationConfigurationAction
  | putReplicationConfigurationAction | replicateObjectAction | replicateDeleteAction
  | replicateTagsAction | getObjectVersionForReplicationAction | restoreObjectAction
  | resetBucketReplicationStateAction | putObjectFanOutAction | getBucketQuotaAction
  deriving DecidableEq

def S3Action.toStr : S3Action → String
  | .allActions => "s3:*"
  | .abortMultipartUploadAction => "s3:AbortMultipartUpload"
  | .createBucketAction => "s3:CreateBucket"
  | .deleteBucketAction => "s3:DeleteBucket"
  | .forceDeleteBucketAction => "s3:ForceDeleteBucket"
  | .deleteBucketPolicyAction => "s3:DeleteBucketPolicy"
  | .deleteBucketPublicAccessBlockAction => "s3:DeleteBucketPublicAccessBlock"
  | .deleteBucketCorsAction => "s3:DeleteBucketCors"
  | .deleteObjectAction => "s3:DeleteObject"
  | .getBucketLocationAction => "s3:GetBucketLocation"
  | .getBucketNotificationAction => "s3:GetBucketNotification"
  | .getBucketPolicyAction => "s3:GetBucketPolicy"
  | .getBucketPublicAccessBlockAction => "s3:GetBucketPublicAccessBlock"
  | .getBucketCorsAction => "s3:GetBucketCors"
  | .getBucketAclAction => "s3:GetBucketAcl"
  | .putBucketAclAction => "s3:PutBucketAcl"
  | .getObjectAction => "s3:GetObject"
  | .getObjectAclAction => "s3:GetObjectAcl"
  | .getObjectAttributesAction => "s3:GetObjectAttributes"
  | .headBucketAction => "s3:HeadBucket"
  | .listAllMyBucketsAction => "s3:ListAllMyBuckets"
  | .listBucketAction => "s3:ListBucket"
  | .getBucketPolicyStatusAction => "s3:GetBucketPolicyStatus"
  | .listBucketVersionsAction => "s3:ListBucketVersions"
  | .listBucketMultipartUploadsAction => "s3:ListBucketMultipartUploads"
  | .listenNotificationAction => "s3:ListenNotification"
  | .listenBucketNotificationAction => "s3:ListenBucketNotification"
  | .listMultipartUploadPartsAction => "s3:ListMultipartUploadParts"
  | .putBucketLifecycleAction => "s3:PutBucketLifecycle"
  | .getBucketLifecycleAction => "s3:GetBucketLifecycle"
  | .putBucketNotificationAction => "s3:PutBucketNotification"
  | .putBucketPolicyAction => "s3:PutBucketPolicy"
  | .putBucketPublicAccessBlockAction => "s3:PutBucketPublicAccessBlock"
  | .putBucketCorsAction => "s3:PutBucketCors"
  | .putObjectAction => "s3:PutObject"
  | .putObjectAclAction => "s3:PutObjectAcl"
  | .deleteObjectVersionAction => "s3:DeleteObjectVersion"
  | .deleteObjectVersionTaggingAction => "s3:DeleteObjectVersionTagging"
  | .getObjectVersionAction => "s3:GetObjectVersion"
  | .getObjectVersionAttributesAction => "s3:GetObjectVersionAttributes"
  | .getObjectVersionTaggingAction => "s3:GetObjectVersionTagging"
  | .putObjectVersionTaggingAction => "s3:PutObjectVersionTagging"
  | .bypassGovernanceRetentionAction => "s3:BypassGovernanceRetention"
  | .putObjectRetentionAction => "s3:PutObjectRetention"
  | .getObjectRetentionAction => "s3:GetObjectRetention"
  | .getObjectLegalHoldAction => "s3:GetObjectLegalHold"
  | .putObjectLegalHoldAction => "s3:PutObjectLegalHold"
  | .getBucketObjectLockConfigurationAction => "s3:GetBucketObjectLockConfiguration"
  | .putBucketObjectLockConfigurationAction => "s3:PutBucketObjectLockConfiguration"
  | .getBucketTaggingAction => "s3:GetBucketTagging"
  | .putBucketTaggingAction => "s3:PutBucketTagging"
  | .getObjectTaggingAction => "s3:GetObjectTagging"
  | .putObjectTaggingAction => "s3:PutObjectTagging"
  | .deleteObjectTaggingAction => "s3:DeleteObjectTagging"
  | .putBucketEncryptionAction => "s3:PutBucketEncryption"
  | .getBucketEncryptionAction => "s3:GetBucketEncryption"
  | .putBucketVersioningAction => "s3:PutBucketVersioning"
  | .getBucketVersioningAction => "s3:GetBucketVersioning"
  | .getReplicationConfigurationAction => "s3:GetReplicationConfiguration"
  | .putReplicationConfigurationAction => "s3:PutReplicationConfiguration"
  | .replicateObjectAction => "s3:ReplicateObject"
  | .replicateDeleteAction => "s3:ReplicateDelete"
  | .replicateTagsAction => "s3:ReplicateTags"
  | .getObjectVersionForReplicationAction => "s3:GetObjectVersionForReplication"
  | .restoreObjectAction => "s3:RestoreObject"
  | .resetBucketReplicationStateAction => "s3:ResetBucketReplicationState"
  | .putObjectFanOutAction => "s3:PutObjectFanOut"
  | .getBucketQuotaAction => "s3:GetBucketQuota"


inductive AdminAction where
  | healAdminAction | decommissionAdminAction | rebalanceAdminAction | storageInfoAdminAction
  | prometheusAdminAction | dataUsageInfoAdminAction | forceUnlockAdminAction
  | topLocksAdminAction | profilingAdminAction | traceAdminAction | consoleLogAdminAction
  | kmsCreateKeyAdminAction | kmsKeyStatusAdminAction | serverInfoAdminAction
  | healthInfoAdminAction | licenseInfoAdminAction | bandwidthMonitorAction | inspectDataAction
  | serverUpdateAdminAction | serviceRestartAdminAction | serviceStopAdminAction
  | serviceFreezeAdminAction | configUpdateAdminAction | createUserAdminAction
  | deleteUserAdminAction | listUsersAdminAction | enableUserAdminAction | disableUserAdminAction
  | getUserAdminAction | siteReplicationAddAction | siteReplicationDisableAction
  | siteReplicationRemoveAction | siteReplicationResyncAction | siteReplicationInfoAction
  | siteReplicationOperationAction | createServiceAccountAdminAction
  | updateServiceAccountAdminAction | removeServiceAccountAdminAction
  | listServiceAccountsAdminAction | listTemporaryAccountsAdminAction | addUserToGroupAdminAction
  | removeUserFromGroupAdminAction | getGroupAdminAction | listGroupsAdminAction
  | enableGroupAdminAction | disableGroupAdminAction | createPolicyAdminAction
  | deletePolicyAdminAction | getPolicyAdminAction | attachPolicyAdminAction
  | updatePolicyAssociationAction | listUserPoliciesAdminAction | setBucketQuotaAdminAction
  | setBucketTargetAction | getBucketTargetAction | replicationDiff | importBucketMetadataAction
  | exportBucketMetadataAction | setTierAction | listTierAction | exportIAMAction
  | importIAMAction | listBatchJobsAction | describeBatchJobAction | startBatchJobAction
  | cancelBatchJobAction | allAdminActions
  deriving DecidableEq

def AdminAction.toStr : AdminAction → String
  | .healAdminAction => "admin:Heal"
  | .decommissionAdminAction => "admin:Decommission"
  | .rebalanceAdminAction => "admin:Rebalance"
  | .storageInfoAdminAction => "admin:StorageInfo"
  | .prometheusAdminAction => "admin:Prometheus"
  | .dataUsageInfoAdminAction => "admin:DataUsageInfo"
  | .forceUnlockAdminAction => "admin:ForceUnlock"
  | .topLocksAdminAction => "admin:TopLocksInfo"
  | .profilingAdminAction => "admin:Profiling"
  | .traceAdminAction => "admin:ServerTrace"
  | .consoleLogAdminAction => "admin:ConsoleLog"
  | .kmsCreateKeyAdminAction => "admin:KMSCreateKey"
  | .kmsKeyStatusAdminAction => "admin:KMSKeyStatus"
  | .serverInfoAdminAction => "admin:ServerInfo"
  | .healthInfoAdminAction => "admin:OBDInfo"
  | .licenseInfoAdminAction => "admin:LicenseInfo"
  | .bandwidthMonitorAction => "admin:BandwidthMonitor"
  | .inspectDataAction => "admin:InspectData"
  | .serverUpdateAdminAction => "admin:ServerUpdate"
  | .serviceRestartAdminAction => "admin:ServiceRestart"
  | .serviceStopAdminAction => "admin:ServiceStop"
  | .serviceFreezeAdminAction => "admin:ServiceFreeze"
  | .configUpdateAdminAction => "admin:ConfigUpdate"
  | .createUserAdminAction => "admin:CreateUser"
  | .deleteUserAdminAction => "admin:DeleteUser"
  | .listUsersAdminAction => "admin:ListUsers"
  | .enableUserAdminAction => "admin:EnableUser"
  | .disableUserAdminAction => "admin:DisableUser"
  | .getUserAdminAction => "admin:GetUser"
  | .siteReplicationAddAction => "admin:SiteReplicationAdd"
  | .siteReplicationDisableAction => "admin:SiteReplicationDisable"
  | .siteReplicationRemoveAction => "admin:SiteReplicationRemove"
  | .siteReplicationResyncAction => "admin:SiteReplicationResync"
  | .siteReplicationInfoAction => "admin:SiteReplicationInfo"
  | .siteReplicationOperationAction => "admin:SiteReplicationOperation"
  | .createServiceAccountAdminAction => "admin:CreateServiceAccount"
  | .updateServiceAccountAdminAction => "admin:UpdateServiceAccount"
  | .removeServiceAccountAdminAction => "admin:RemoveServiceAccount"
  | .listServiceAccountsAdminAction => "admin:ListServiceAccounts"
  | .listTemporaryAccountsAdminAction => "admin:ListTemporaryAccounts"
  | .addUserToGroupAdminAction => "admin:AddUserToGroup"
  | .removeUserFromGroupAdminAction => "admin:RemoveUserFromGroup"
  | .getGroupAdminAction => "admin:GetGroup"
  | .listGroupsAdminAction => "admin:ListGroups"
  | .enableGroupAdminAction => "admin:EnableGroup"
  | .disableGroupAdminAction => "admin:DisableGroup"
  | .createPolicyAdminAction => "admin:CreatePolicy"
  | .deletePolicyAdminAction => "admin:DeletePolicy"
  | .getPolicyAdminAction => "admin:GetPolicy"
  | .attachPolicyAdminAction => "admin:AttachUserOrGroupPolicy"
  | .updatePolicyAssociationAction => "admin:UpdatePolicyAssociation"
  | .listUserPoliciesAdminAction => "admin:ListUserPolicies"
  | .setBucketQuotaAdminAction => "admin:SetBucketQuota"
  | .setBucketTargetAction => "admin:SetBucketTarget"
  | .getBucketTargetAction => "admin:GetBucketTarget"
  | .replicationDiff => "admin:ReplicationDiff"
  | .importBucketMetadataAction => "admin:ImportBucketMetadata"
  | .exportBucketMetadataAction => "admin:ExportBucketMetadata"
  | .setTierAction => "admin:SetTier"
  | .listTierAction => "admin:ListTier"
  | .exportIAMAction => "admin:ExportIAM"
  | .importIAMAction => "admin:ImportIAM"
  | .listBatchJobsAction => "admin:ListBatchJobs"
  | .describeBatchJobAction => "admin:DescribeBatchJob"
  | .startBatchJobAction => "admin:StartBatchJob"
  | .cancelBatchJobAction => "admin:CancelBatchJob"
  | .allAdminActions => "admin:*"


inductive KmsAction where
  | allActions
  deriving DecidableEq

def KmsAction.toStr : KmsAction → String
  | .allActions => "kms:*"

/-- No action of the token service has a name. -/
inductive StsAction where
  deriving DecidableEq

inductive Action where
  | s3Action (action : S3Action)
  | adminAction (action : AdminAction)
  | stsAction (action : StsAction)
  | kmsAction (action : KmsAction)
  | none
  deriving DecidableEq

def Action.toStr : Action → String
  | .s3Action s => s.toStr
  | .adminAction s => s.toStr
  | .stsAction s => nomatch s
  | .kmsAction s => s.toStr
  | .none => ""

def Action.isMatch (self action : Action) : Bool := Iam.isMatch self.toStr action.toStr

abbrev ActionSet : Type := HashSet Action

theorem allActions_nodup : [Action.s3Action .allActions].Nodup := List.nodup_singleton _

/-- Who may read a version may also read the object. -/
def ActionSet.isMatch (self : ActionSet) (action : Action) : Bool :=
  self.toList.any fun act => act.isMatch action ||
    act == .s3Action .getObjectVersionAction && action == .s3Action .getObjectAction

end Rustfs.Iam
