import Mnema.DeletionGate
import Mnema.Lib.Prog
import Mathlib.Data.List.Sort

/-! The rows of iCloud capacity relief, and what is computed from them without
calling the client: the mapping of the inventory, eligibility and evidence. -/

namespace Mnema

structure ICloudQuota where
  usedBytes : Nat
  quotaBytes : Nat
deriving DecidableEq, Repr

structure ICloudRemoteAsset where
  appleAssetId : String
  assetRecordName : String
  changeTag : String
  createdAt : Time
  sizeBytes : Nat
  favorite : Bool
  expectedComponents : Nat
deriving DecidableEq, Repr

structure ICloudAsset where
  id : Nat
  appleAssetId : String
  assetRecordName : String
  changeTag : String
  createdAtRemote : Time
  originalSize : Nat
  favorite : Bool := false
  library : String := "PrimarySync"
  expectedComponents : Nat := 1
  lastSeenAt : Time
  remotelyDeletedAt : Option Time := none
deriving DecidableEq, Repr

structure ICloudAssetComponent where
  icloudAssetId : Nat
  archiveItemId : Nat
deriving DecidableEq, Repr

inductive ICloudCleanupStatus where
  | pendingApproval | executing | completed | partialRun | manualReview | expired
deriving DecidableEq, Repr

structure ICloudCleanupEntry where
  icloudAssetId : Nat
  position : Nat
  appleAssetId : String
  assetRecordName : String
  changeTag : String
  sizeBytes : Nat
  evidenceDigest : Digest
  completedAt : Option Time := none
deriving DecidableEq, Repr

/-- The entries are in the order of their positions. -/
structure ICloudCleanupManifest where
  id : Nat
  status : ICloudCleanupStatus := .pendingApproval
  digest : Digest
  usedBytes : Nat
  quotaBytes : Nat
  targetBytes : Nat
  plannedBytes : Nat
  expiresAt : Time
  approvedAt : Option Time := none
  completedAt : Option Time := none
  failureReason : Option String := none
  entries : List ICloudCleanupEntry := []
deriving DecidableEq, Repr

structure CleanupAudit where
  eventType : String
  archiveItemId : Option Nat
  manifestId : Nat
  detail : Option String := none
deriving DecidableEq, Repr

structure CleanupDb where
  items : Table ArchiveItem Nat ArchiveItem.id := .empty
  assets : Table ICloudAsset Nat ICloudAsset.id := .empty
  components : List ICloudAssetComponent := []
  manifests : Table ICloudCleanupManifest Nat ICloudCleanupManifest.id := .empty
  observations : List ICloudQuota := []
  runtime : List (String × String) := []
  audits : List CleanupAudit := []

/-- The settings that the cleanup reads. -/
structure ICloudSettings where
  capacityReliefEnabled : Bool := false
  deletionMilestoneApproved : Bool := false
  triggerPercent : ℚ := 90
  targetPercent : ℚ := 80
  quarantineDays : Nat := 7
  maxAssets : Nat := 1000
  maxQuotaPercent : ℚ := 10

/-- What a path answers to `is_symlink`, `is_file`, `stat().st_size` and `sha256_file`. -/
structure FileFacts where
  symlink : Bool
  regular : Bool
  size : Nat
  sha256 : Digest
  sha256_ne : sha256 ≠ ""

abbrev Files := Path → FileFacts

structure Evidence where
  archiveItemId : Nat
  plaintextSha256 : Option Digest
  kopiaSnapshotId : Option String
  remoteObjectIdentifier : Option String
  remoteChecksum : Option String
deriving DecidableEq, Repr

/-- The content of a manifest that its digest covers. -/
structure CanonicalManifest where
  createdAt : Time
  quota : ICloudQuota
  assets : List (String × String × String × Nat × Digest)
deriving DecidableEq, Repr

/-- `sha256(json.dumps(..))` of the two kinds of content. -/
structure CleanupHashes where
  evidence : List Evidence → Digest
  manifest : CanonicalManifest → Digest

inductive CleanupError where
  | blocked (text : String)
  | other (error : PyError)
deriving DecidableEq, Repr

/-! ### Tokens -/

/-- The alphabet of `b64encode`. -/
def base64Char (n : Nat) : Char :=
  "ABCDEFGHIJKLMNOPQRSTUVWXYZabcdefghijklmnopqrstuvwxyz0123456789+/".toList.getD n '='

/-- `b64encode(..).decode("ascii")`. -/
def base64 : List UInt8 → List Char
  | [] => []
  | [a] => [base64Char (a.toNat / 4), base64Char (a.toNat % 4 * 16), '=', '=']
  | [a, b] =>
    [base64Char (a.toNat / 4), base64Char (a.toNat % 4 * 16 + b.toNat / 16),
      base64Char (b.toNat % 16 * 4), '=']
  | a :: b :: c :: rest =>
    base64Char (a.toNat / 4) :: base64Char (a.toNat % 4 * 16 + b.toNat / 16) ::
      base64Char (b.toNat % 16 * 4 + c.toNat / 64) :: base64Char (c.toNat % 64) :: base64 rest

/-- `_asset_token`. -/
def assetToken (assetId : String) : List Char := (base64 assetId.toUTF8.toList).take 7

/-- `Path(..).name`. -/
def pathName (path : String) : List Char :=
  ((path.toList.splitOn '/').filter fun s => s ≠ [] ∧ s ≠ ['.']).getLastD []

/-- `_tokens`: the seven characters before the suffix, where an underscore precedes them. -/
def tokens (filename : List Char) : Option (List Char) :=
  let suffix := filename.reverse.takeWhile (· != '.')
  match filename.reverse.dropWhile (· != '.') with
  | [] => none
  | _ :: stem =>
    if suffix = [] then none
    else
      let stem := if (stem.take 5).map Char.toUpper = "CVEH_".toList then stem.drop 5 else stem
      let token := stem.take 7
      if token.length = 7 ∧ '_' ∉ token ∧ stem[7]? = some '_' then some token.reverse else none

namespace CleanupDb

def newAssetId (d : CleanupDb) : Nat := (d.assets.rows.map (·.id)).foldl max 0 + 1

def newManifestId (d : CleanupDb) : Nat := (d.manifests.rows.map (·.id)).foldl max 0 + 1

def assetOf (d : CleanupDb) (appleAssetId : String) : Option ICloudAsset :=
  d.assets.first fun a => a.appleAssetId == appleAssetId

def componentsOf (d : CleanupDb) (asset : ICloudAsset) : List ICloudAssetComponent :=
  d.components.filter fun c => c.icloudAssetId == asset.id

/-- The archive items of an asset; the foreign key guarantees each of them. -/
def itemsOf (d : CleanupDb) (asset : ICloudAsset) : List ArchiveItem :=
  (d.componentsOf asset).filterMap fun c => d.items.get c.archiveItemId

def putAsset (d : CleanupDb) (asset : ICloudAsset) : CleanupDb :=
  { d with assets := (d.assets.insert asset).put asset }

def putManifest (d : CleanupDb) (manifest : ICloudCleanupManifest) : CleanupDb :=
  { d with manifests := d.manifests.put manifest }

/-- `_audit`. -/
def audit (d : CleanupDb) (event : CleanupAudit) : CleanupDb :=
  { d with audits := d.audits ++ [event] }

/-- `_set_runtime`. -/
def setRuntime (d : CleanupDb) (key value : String) : CleanupDb :=
  if d.runtime.any (·.1 == key) then
    { d with runtime := d.runtime.map fun s => if s.1 == key then (key, value) else s }
  else { d with runtime := d.runtime ++ [(key, value)] }

def runtimeValue (d : CleanupDb) (key : String) : Option String :=
  (d.runtime.find? (·.1 == key)).map (·.2)

/-- `_expire_manifests`. -/
def expireManifests (d : CleanupDb) (now : Time) : CleanupDb :=
  { d with
    manifests := d.manifests.mapRows
      (fun m => if m.status = .pendingApproval ∧ m.expiresAt ≤ now then { m with status := .expired }
        else m)
      (fun m => by split <;> rfl) }

/-- The latest manifest that awaits approval. -/
def pending (d : CleanupDb) : Option ICloudCleanupManifest :=
  ((d.manifests.rows.filter (·.status == .pendingApproval)).insertionSort
    fun a b => b.id ≤ a.id).head?

end CleanupDb

/-! ### The inventory -/

/-- `_update_asset`. -/
def ICloudAsset.update (asset : ICloudAsset) (remote : ICloudRemoteAsset) (now : Time) :
    ICloudAsset :=
  { asset with
    assetRecordName := remote.assetRecordName
    changeTag := remote.changeTag
    createdAtRemote := remote.createdAt
    originalSize := remote.sizeBytes
    favorite := remote.favorite
    library := "PrimarySync"
    expectedComponents := remote.expectedComponents
    lastSeenAt := now }

/-- The row of an asset, which is new where the inventory shows it first. -/
def CleanupDb.seen (d : CleanupDb) (remote : ICloudRemoteAsset) (now : Time) : ICloudAsset :=
  match d.assetOf remote.appleAssetId with
  | some asset => asset.update remote now
  | none =>
    ICloudAsset.update
      { id := d.newAssetId, appleAssetId := remote.appleAssetId, assetRecordName := "",
        changeTag := "", createdAtRemote := 0, originalSize := 0, lastSeenAt := now } remote now

/-- `by_token`, looked up for one token. -/
def CleanupDb.byToken (d : CleanupDb) (token : List Char) : List ArchiveItem :=
  d.items.rows.filter fun item =>
    item.sourceProvider == "icloud_photos" && tokens (pathName item.sourceIdentifier) == some token

/-- The components that `refresh_inventory` finds for an asset. -/
def CleanupDb.matching (d : CleanupDb) (remotes : List ICloudRemoteAsset)
    (remote : ICloudRemoteAsset) : Option (List ArchiveItem) :=
  let token := assetToken remote.appleAssetId
  let candidates := d.byToken token
  if remotes.countP (fun r => assetToken r.appleAssetId == token) = 1 ∧
      candidates.length = remote.expectedComponents then some candidates
  else none

/-- One asset of the inventory. The new components are inserted before the old ones are
deleted, and an archive item is the component of one asset only. -/
def refreshAsset (remotes : List ICloudRemoteAsset) (now : Time) (d : CleanupDb)
    (remote : ICloudRemoteAsset) : Except CleanupError CleanupDb :=
  let asset := d.seen remote now
  let d := d.putAsset asset
  let others := d.components.filter fun c => c.icloudAssetId != asset.id
  match d.matching remotes remote with
  | none => .ok { d with components := others }
  | some candidates =>
    if candidates.any fun item => d.components.any (·.archiveItemId == item.id) then
      .error (.other (.integrity "icloud_asset_components.archive_item_id"))
    else .ok { d with components := others ++ candidates.map fun item => ⟨asset.id, item.id⟩ }

def refreshAssets (remotes : List ICloudRemoteAsset) (now : Time) :
    List ICloudRemoteAsset → CleanupDb → Except CleanupError CleanupDb
  | [], d => .ok d
  | remote :: rest, d =>
    match refreshAsset remotes now d remote with
    | .ok d => refreshAssets remotes now rest d
    | .error e => .error e

/-! ### Eligibility and evidence -/

/-- The checks of `_eligible` on one archive item. -/
def ArchiveItem.released (settings : ICloudSettings) (files : Files) (now : Time)
    (item : ArchiveItem) : Bool :=
  (item.state == .quarantined || item.state == .archived) && item.kopiaVerifiedAt.isSome &&
    item.kopiaSnapshotId.isSome && item.remoteVerifiedAt.isSome &&
    item.remoteProvider == some "scaleway-glacier" && item.remoteBucket.isSome &&
    item.remoteObjectIdentifier.isSome && item.encryptionMode.isSome && item.remoteSize.isSome &&
    item.quarantineExpiresAt.any (fun t => decide (t ≤ now)) &&
    item.coldArchivedAt.any (fun t => decide (t + days settings.quarantineDays ≤ now)) &&
    item.nasPath.any fun path =>
      !(files path).symlink && (files path).regular && (files path).size == item.originalSize &&
        item.plaintextSha256 == some (files path).sha256

/-- `_eligible`. -/
def CleanupDb.eligible (d : CleanupDb) (settings : ICloudSettings) (files : Files) (now : Time)
    (asset : ICloudAsset) : Bool :=
  !asset.favorite && asset.remotelyDeletedAt.isNone &&
    (d.componentsOf asset).length == asset.expectedComponents &&
    (d.componentsOf asset).all fun c => (d.items.get c.archiveItemId).any (·.released settings files now)

/-- `_deletion_facts`. -/
def CleanupDb.deletionFacts (d : CleanupDb) (settings : ICloudSettings) (files : Files) (now : Time)
    (gatesReady : Bool) (asset : ICloudAsset) : DeletionFacts :=
  let items := d.itemsOf asset
  let cold := items.filterMap (·.coldArchivedAt)
  let latest := match cold with
    | [] => now + days 3650
    | t :: rest => rest.foldl max t
  { localExists := items.all fun i => i.nasPath.any fun p => (files p).regular
    localSizeMatches := items.all fun i => i.nasPath.any fun p => (files p).size == i.originalSize
    localSha256Exists := items.all fun i => i.plaintextSha256.any (· ≠ "")
    localSha256Matches := items.all fun i =>
      i.nasPath.any fun p => (files p).regular && i.plaintextSha256 == some (files p).sha256
    kopiaVerified := items.all (·.kopiaVerifiedAt.isSome)
    remoteVerified := items.all (·.remoteVerifiedAt.isSome)
    quarantineExpiresAt := some (latest + days settings.quarantineDays)
    sourceExists := true
    sourceUnchanged := true
    sourceIdentityMatches := true
    activeDiskHealthy := gatesReady
    backupDiskHealthy := gatesReady
    storageDevicesDiffer := gatesReady
    sqliteIntegrityHealthy := gatesReady
    remoteAvailable := gatesReady
    globalDeletionEnabled := gatesReady
    sourceDeletionEnabled := settings.capacityReliefEnabled
    safetyLock := !gatesReady
    manualApprovalRequired := true
    manualApprovalGranted := true }

/-- `_evidence_digest`. -/
def CleanupDb.evidenceDigest (d : CleanupDb) (hashes : CleanupHashes) (asset : ICloudAsset) : Digest :=
  hashes.evidence (((d.itemsOf asset).insertionSort fun a b => a.id ≤ b.id).map fun item =>
    ⟨item.id, item.plaintextSha256, item.kopiaSnapshotId, item.remoteObjectIdentifier,
      item.remoteChecksum⟩)

end Mnema
