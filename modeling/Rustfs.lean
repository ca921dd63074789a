import Rustfs.ErasureCoding.Heal
import Rustfs.SetDisk.Read
import Rustfs.SetDisk.WriteUnique
import Rustfs.SetDisk.Put
import Rustfs.SetDisk.ConditionalWrite
import Rustfs.Store.HealFormat
import Rustfs.Store.SinglePool
import Rustfs.Store.MovedVersions
import Rustfs.Store.DecommissionMarks
import Rustfs.App.DeleteReports
import Rustfs.App.CacheFreshness
import Rustfs.App.GetObjectCached
import Rustfs.Heal.ResumeRuns
import Rustfs.App.ComplianceRetention
import Rustfs.Policy.Operators
import Rustfs.Storage.AccessSound
import Rustfs.Auth.IdentityKeys
import Rustfs.Bucket.LifecycleActions
import Rustfs.Bucket.EvaluatorLock
import Rustfs.Lock.Obtainable
import Rustfs.Lock.Quorum
import Rustfs.Rio.Checksum
import Rustfs.Rio.Authenticity
import Rustfs.Storage.SseNonces
import Rustfs.Storage.SseRange
import Rustfs.Filemeta.VersionHistory
import Rustfs.Filemeta.MergeAgreement
import Rustfs.CacheValue.ListDelivery
import Rustfs.Store.MergeEntryNames
import Rustfs.SetDisk.Dangling
import Rustfs.SetDisk.ListUploads
import Rustfs.ErasureCoding.ShardSize
import Rustfs.Policy.Substitution
import Rustfs.Filemeta.ReplicateDecision
import Rustfs.Policy.Glob
import Rustfs.Bucket.ReplicationRules
import Rustfs.Store.Rebalance
import Rustfs.Common.LastMinute
import Rustfs.Iam.PolicyDocs
