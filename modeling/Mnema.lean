import Mnema.Lib.Prog
import Mnema.Lib.Pool
import Mnema.Eligibility
import Mnema.DeletionGate
import Mnema.World
import Mnema.DeletionEvidence
import Mnema.DeletionEntry
import Mnema.VersionBinding
import Mnema.PolicyEntry
import Mnema.SealedUploads
import Mnema.Leases
import Mnema.LeaseLimits
import Mnema.CleanupApproval
import Mnema.ChangeConvergence
import Mnema.StagedCommit
import Mnema.SealIntegrity
import Mnema.InventoryRefresh
import Mnema.UnknownOutcome
import Mnema.DeviceCredentials
import Mnema.AuditTrail
import Mnema.UploadRelease
import Mnema.Config
import Mnema.Configure
import Mnema.SavedConfiguration
import Mnema.UploadAdmission
import Mnema.ContentRange
import Mnema.ColdObject
import Mnema.Lib.Double
import Mnema.S3
import Mnema.Lib.Trace
import Mnema.GlacierCopy
import Mnema.ColdUploads
import Mnema.Lib.Paging
import Mnema.FolderPages
import Mnema.Discovery
import Mnema.ManifestSelection
import Mnema.SafePaths
import Mnema.Lib.Links
import Mnema.Containment
import Mnema.ContainedCommit
import Mnema.PromotedNames
import Mnema.NameAgreement
import Mnema.TreeGrowth
import Mnema.InboxNames
import Mnema.Redaction
import Mnema.Lib.Base64
import Mnema.Lib.PythonJson
import Mnema.Cursors
import Mnema.SmartReport
import Mnema.RestoreTests
import Mnema.ColdRestore
import Mnema.LocalAdapters
import Mnema.CommittedNames
import Mnema.Lib.Effect
import Mnema.Appliance
import Mnema.Releases
import Mnema.Lib.Script
import Mnema.ConfigFiles
import Mnema.ConfigRestore
import Mnema.Lib.DocumentText
import Mnema.RuntimeEnvironment
import Mnema.ConfigSave
import Mnema.DeletionPause
import Mnema.TelegramBot
import Mnema.TelegramPolling
import Mnema.PhoneSession
import Mnema.Stages
import Mnema.Lib.PercentEncoding
import Mnema.PairingLink
