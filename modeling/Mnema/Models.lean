import Mnema.States
import Mnema.Lib.Table
import Mathlib.Data.Rat.Defs

/-! The rows of the database, the values the adapters exchange and the policy
and settings records. Instants are seconds on one clock: every stored time is
read back as UTC, so the time zone carries no information. -/

namespace Mnema

abbrev Time := Int
abbrev Digest := String
abbrev Bytes := List UInt8

/-- An absolute path as its segments. -/
abbrev Path := List String

def Path.child (p : Path) (name : String) : Path := p ++ [name]

/-- The seconds of `timedelta(days=n)`. -/
def days (n : Nat) : Time := n * 86400

/-- The seconds of `timedelta(hours=n)`. -/
def hours (n : Nat) : Time := n * 3600

/-! ### Source, backup and cold storage values -/

structure SourceCapabilities where
  canDelete : Bool
  supportsCursor : Bool
  stableVersions : Bool
deriving DecidableEq, Repr

structure SourceObject where
  sourceId : String
  relativePath : String
  size : Nat
  modifiedAt : Time
  version : String
deriving DecidableEq, Repr

structure DiscoveryPage where
  objects : List SourceObject
  nextCursor : Option String
deriving DecidableEq, Repr

structure DownloadReceipt where
  sourceId : String
  bytesWritten : Nat
  sha256 : Digest
  version : String
deriving DecidableEq, Repr

structure DeleteReceipt where
  sourceId : String
  expectedVersion : String
  confirmedAbsent : Bool
deriving DecidableEq, Repr

structure BackupReceipt where
  snapshotId : String
deriving DecidableEq, Repr

structure ColdReceipt where
  provider : String
  bucket : String
  objectIdentifier : String
  encryptionMode : String
  remoteSize : Nat
  remoteChecksum : Option String
deriving DecidableEq, Repr

/-! ### Rows -/

structure ArchiveItem where
  id : Nat
  sourceProvider : String
  sourceIdentifier : String
  originalPath : String
  originalSize : Nat
  originalModifiedAt : Time
  sourceVersion : String
  state : ArchiveState := .discovered
  plaintextSha256 : Option Digest := none
  nasPath : Option Path := none
  nasVerifiedAt : Option Time := none
  kopiaSnapshotId : Option String := none
  kopiaVerifiedAt : Option Time := none
  remoteProvider : Option String := none
  remoteBucket : Option String := none
  remoteObjectIdentifier : Option String := none
  encryptionMode : Option String := none
  remoteSize : Option Nat := none
  remoteChecksum : Option String := none
  uploadedAt : Option Time := none
  remoteVerifiedAt : Option Time := none
  remoteVerificationMethod : Option String := none
  coldArchivedAt : Option Time := none
  quarantineExpiresAt : Option Time := none
  deletionTimestamp : Option Time := none
deriving DecidableEq, Repr

structure AuditEvent where
  archiveItemId : Nat
  eventType : String
  fromState : ArchiveState
  toState : ArchiveState
  actor : String
deriving DecidableEq, Repr

inductive JobStatus where
  | pending | running | succeeded | retry | manualReview
deriving DecidableEq, Repr

/-- The payload of an `archive_upload` job. -/
structure JobPayload where
  archiveItemId : Nat
  fileProviderItemId : String
deriving DecidableEq, Repr

structure Job where
  id : Nat
  kind : String
  adapter : String
  payload : JobPayload
  idempotencyKey : String
  status : JobStatus := .pending
  attempts : Nat := 0
  maxAttempts : Nat := 5
  availableAt : Time
  leaseOwner : Option String := none
  leaseExpiresAt : Option Time := none
  heartbeatAt : Option Time := none
  lastError : Option String := none
deriving DecidableEq, Repr

inductive FileProviderItemKind where
  | file | folder
deriving DecidableEq, Repr

inductive FileProviderItemStatus where
  | ready | processing | failed
deriving DecidableEq, Repr

structure FileProviderItem where
  id : String
  parentId : Option String
  name : String
  kind : FileProviderItemKind
  status : FileProviderItemStatus := .ready
  archiveItemId : Option Nat := none
  size : Nat := 0
  contentType : String := "application/octet-stream"
  contentVersion : String := ""
  metadataVersion : Nat := 1
  errorMessage : Option String := none
  modifiedAt : Time
deriving DecidableEq, Repr

structure FileProviderChange where
  sequence : Nat
  itemId : String
  operation : String
deriving DecidableEq, Repr

inductive FileProviderUploadStatus where
  | openUpload | sealing | sealed | failed
deriving DecidableEq, Repr

structure FileProviderUpload where
  id : String
  itemId : String
  archiveItemId : Nat
  expectedSize : Nat
  receivedSize : Nat := 0
  expectedSha256 : Option Digest := none
  status : FileProviderUploadStatus := .openUpload
  expiresAt : Time
deriving DecidableEq, Repr

/-! ### Configuration -/

structure SourcePolicy where
  includedDirectories : List String := []
  excludedDirectories : List String := []
  includedGlobs : List String := ["**/*", "*"]
  excludedGlobs : List String := []
  minimumFileSize : Nat := 0
  maximumFileSize : Option Nat := none
  archiveAfterDays : Nat := 30
  stabilityWindowHours : Nat := 24
  quarantineDays : Nat := 7
  dryRun : Bool := true
  manualApproval : Bool := true
  deletionEnabled : Bool := false
deriving DecidableEq, Repr

structure DeletionLimits where
  maxFilesDeletedPerRun : Nat := 5
  maxBytesDeletedPerRun : Nat := 1000000000
  maxPercentageDeletedPerRun : ℚ := 1

/-- The settings that the File Provider service reads. -/
structure Settings where
  activeRoot : Path
  stagingRoot : Path
  fileProviderUploadRoot : Path
  fileProviderMaxFileSize : Nat := 53687091200
  fileProviderMinimumFreePercent : ℚ := 10

end Mnema
