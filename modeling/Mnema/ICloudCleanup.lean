import Mnema.ICloud
import Mnema.Lib.Double
import Mnema.Lib.Transactions

/-! `ICloudCleanupService`: the creation of a manifest and its execution, over a
session of the database and a client that may answer anything. -/

namespace Mnema

/-- What a deletion request comes back with; `raised` names the type of the exception. -/
inductive DeleteOutcome where
  | answered (confirmed : Bool)
  | raised (type : String)
deriving DecidableEq, Repr

/-- `load` and `store` are the session's view of the database. -/
inductive CleanupOp where
  | load
  | store (d : CleanupDb)
  | commit
  | utcnow
  | files
  | quota
  | assets
  | deleteToRecentlyDeleted (appleAssetId assetRecordName changeTag : String)

@[reducible] def CleanupOp.Ans : CleanupOp → Type
  | load => CleanupDb
  | store _ => Unit
  | commit => Unit
  | utcnow => Time
  | files => Files
  | quota => Except CleanupError ICloudQuota
  | assets => Except CleanupError (List ICloudRemoteAsset)
  | deleteToRecentlyDeleted _ _ _ => DeleteOutcome

abbrev CleanupCode (α : Type) := Prog CleanupOp CleanupOp.Ans CleanupError α

namespace Cleanup

def op (o : CleanupOp) : CleanupCode o.Ans := .op o

def modify (f : CleanupDb → CleanupDb) : CleanupCode Unit := do
  let d ← op .load
  op (.store (f d))

def blockIf (condition : Bool) (text : String) : CleanupCode Unit :=
  if condition then throw (.blocked text) else pure ()

def clientQuota : CleanupCode ICloudQuota := do
  Prog.ofExcept (← op .quota)

def clientAssets : CleanupCode (List ICloudRemoteAsset) := do
  Prog.ofExcept (← op .assets)

end Cleanup

/-- `used_percent`; an account without a quota raises. -/
def ICloudQuota.usedPercent (quota : ICloudQuota) : Except CleanupError ℚ :=
  if quota.quotaBytes = 0 then .error (.other (.zeroDivision "division by zero"))
  else .ok (Double.ofRat (Double.ofRat (quota.usedBytes / quota.quotaBytes) * 100))

/-- `int(bytes * percent / 100)`, with each operation rounded to a double. -/
def share (bytes : Nat) (percent : ℚ) : Nat :=
  ⌊Double.ofRat (Double.ofRat (Double.ofRat bytes * percent) / 100)⌋.toNat

open Cleanup

def observeQuota : CleanupCode Unit := do
  let quota ← clientQuota
  modify fun d => { d with observations := d.observations ++ [quota] }

def refreshInventory : CleanupCode Unit := do
  let remoteAssets ← clientAssets
  let now ← op .utcnow
  let d ← op .load
  let d ← Prog.ofExcept (refreshAssets remoteAssets now remoteAssets d)
  op (.store d)

/-! ### Selection -/

/-- `order_by(ICloudAsset.created_at_remote, ICloudAsset.apple_asset_id)`. -/
def ICloudAsset.before (a b : ICloudAsset) : Prop :=
  a.createdAtRemote < b.createdAtRemote ∨
    (a.createdAtRemote = b.createdAtRemote ∧ a.appleAssetId ≤ b.appleAssetId)

instance : DecidableRel ICloudAsset.before := fun a b => by
  unfold ICloudAsset.before
  infer_instance

def CleanupDb.candidates (d : CleanupDb) (settings : ICloudSettings) (files : Files) (now : Time) :
    List ICloudAsset :=
  ((d.assets.rows.filter fun a =>
    !a.favorite && a.remotelyDeletedAt.isNone && a.library == "PrimarySync").insertionSort
      ICloudAsset.before).filter (d.eligible settings files now)

/-- The loop over the candidates; `selected` counts those taken and `planned` their bytes. -/
def selectAssets (maxAssets byteCap bytesNeeded : Nat) :
    Nat → Nat → List ICloudAsset → List ICloudAsset
  | _, _, [] => []
  | selected, planned, asset :: rest =>
    if maxAssets ≤ selected then []
    else if selected ≠ 0 ∧ byteCap < planned + asset.originalSize then []
    else if bytesNeeded ≤ planned + asset.originalSize then [asset]
    else asset ::
      selectAssets maxAssets byteCap bytesNeeded (selected + 1) (planned + asset.originalSize) rest

/-- The entries of a manifest, from a position on. -/
def CleanupDb.entriesOf (d : CleanupDb) (hashes : CleanupHashes) :
    Nat → List ICloudAsset → List ICloudCleanupEntry
  | _, [] => []
  | position, asset :: rest =>
    { icloudAssetId := asset.id, position := position, appleAssetId := asset.appleAssetId,
      assetRecordName := asset.assetRecordName, changeTag := asset.changeTag,
      sizeBytes := asset.originalSize, evidenceDigest := d.evidenceDigest hashes asset } ::
      d.entriesOf hashes (position + 1) rest

/-- The manifest of the assets that were selected. -/
def CleanupDb.manifestOf (d : CleanupDb) (hashes : CleanupHashes) (settings : ICloudSettings)
    (quota : ICloudQuota) (now : Time) (selected : List ICloudAsset) : ICloudCleanupManifest :=
  { id := d.newManifestId
    digest := hashes.manifest ⟨now, quota, selected.map fun a =>
      (a.appleAssetId, a.assetRecordName, a.changeTag, a.originalSize, d.evidenceDigest hashes a)⟩
    usedBytes := quota.usedBytes
    quotaBytes := quota.quotaBytes
    targetBytes := share quota.quotaBytes settings.targetPercent
    plannedBytes := (selected.map (·.originalSize)).sum
    expiresAt := now + hours 24
    entries := d.entriesOf hashes 0 selected }

/-- From the refreshed inventory on. -/
def buildManifest (settings : ICloudSettings) (hashes : CleanupHashes) (quota : ICloudQuota)
    (now : Time) : CleanupCode (Option ICloudCleanupManifest) := do
  let d ← op .load
  let files ← op .files
  let selected := selectAssets settings.maxAssets (share quota.quotaBytes settings.maxQuotaPercent)
    (quota.usedBytes - share quota.quotaBytes settings.targetPercent) 0 0
    (d.candidates settings files now)
  if selected = [] then return none
  let manifest := d.manifestOf hashes settings quota now selected
  match d.manifests.first fun m => m.digest == manifest.digest with
  | some existing => return some existing
  | none => do
    op (.store (CleanupDb.audit { d with manifests := d.manifests.insert manifest }
      ⟨"icloud_cleanup_manifest_created", none, manifest.id, none⟩))
    return some manifest

def createManifest (settings : ICloudSettings) (hashes : CleanupHashes) :
    CleanupCode (Option ICloudCleanupManifest) := do
  blockIf (!settings.capacityReliefEnabled) "iCloud capacity relief is disabled"
  let now ← op .utcnow
  modify (·.expireManifests now)
  let quota ← clientQuota
  modify fun d => { d with observations := d.observations ++ [quota] }
  let usedPercent ← Prog.ofExcept quota.usedPercent
  if usedPercent < settings.triggerPercent then return none
  let d ← op .load
  match d.pending with
  | some manifest => return some manifest
  | none => do
    refreshInventory
    buildManifest settings hashes quota now

/-! ### Execution -/

/-- `current.get(..)`: the last asset of the inventory with the identifier. -/
def currentAsset (remotes : List ICloudRemoteAsset) (appleAssetId : String) :
    Option ICloudRemoteAsset :=
  remotes.reverse.find? (·.appleAssetId == appleAssetId)

def entryLimits (settings : ICloudSettings) (manifest : ICloudCleanupManifest) : DeletionLimits :=
  { maxFilesDeletedPerRun := settings.maxAssets
    maxBytesDeletedPerRun := share manifest.quotaBytes settings.maxQuotaPercent
    maxPercentageDeletedPerRun := 100 }

/-- The checks of one entry, with the usage of the entries before it. -/
def checkEntry (settings : ICloudSettings) (hashes : CleanupHashes) (d : CleanupDb) (files : Files)
    (now : Time) (gatesReady : Bool) (remotes : List ICloudRemoteAsset)
    (manifest : ICloudCleanupManifest) (usage : DeletionRunUsage) (entry : ICloudCleanupEntry) :
    Except CleanupError Unit :=
  match currentAsset remotes entry.appleAssetId, d.assets.get entry.icloudAssetId with
  | none, _ => .error (.blocked "approved iCloud asset is missing or protected")
  | some _, none => .error (.other (.runtime "asset row is missing"))
  | some remote, some asset =>
    if remote.favorite then .error (.blocked "approved iCloud asset is missing or protected")
    else if remote.assetRecordName ≠ entry.assetRecordName ∨ remote.changeTag ≠ entry.changeTag then
      .error (.blocked "approved iCloud asset changed")
    else if !d.eligible settings files now asset then
      .error (.blocked "archival evidence changed after approval")
    else if d.evidenceDigest hashes asset ≠ entry.evidenceDigest then
      .error (.blocked "archival receipts changed after approval")
    else
      let decision := evaluateDeletionGate (d.deletionFacts settings files now gatesReady asset) usage
        (entryLimits settings manifest) entry.sizeBytes now
      if !decision.allowed then .error (.blocked ("; ".intercalate decision.blockers)) else .ok ()

def checkEntries (settings : ICloudSettings) (hashes : CleanupHashes) (d : CleanupDb) (files : Files)
    (now : Time) (gatesReady : Bool) (remotes : List ICloudRemoteAsset)
    (manifest : ICloudCleanupManifest) :
    DeletionRunUsage → List ICloudCleanupEntry → Except CleanupError Unit
  | _, [] => .ok ()
  | usage, entry :: rest =>
    match checkEntry settings hashes d files now gatesReady remotes manifest usage entry with
    | .error e => .error e
    | .ok () => checkEntries settings hashes d files now gatesReady remotes manifest
        ⟨usage.filesDeleted + 1, usage.bytesDeleted + entry.sizeBytes, usage.eligibleFiles⟩ rest

def CleanupDb.updateManifest (d : CleanupDb) (id : Nat)
    (f : ICloudCleanupManifest → ICloudCleanupManifest) : CleanupDb :=
  match d.manifests.get id with
  | some m => d.putManifest (f m)
  | none => d

/-- Everything before the manifest is taken to `EXECUTING`. -/
def approveManifest (settings : ICloudSettings) (hashes : CleanupHashes) (manifestId : Nat)
    (digest : Digest) (gatesReady : Bool) : CleanupCode (ICloudCleanupManifest × Time) := do
  blockIf (!settings.deletionMilestoneApproved)
    "iCloud deletion milestone awaits synthetic-account review"
  let d ← op .load
  match d.manifests.get manifestId with
  | none => throw (.blocked "cleanup manifest or digest is invalid")
  | some manifest => do
    blockIf (manifest.digest != digest) "cleanup manifest or digest is invalid"
    let now ← op .utcnow
    blockIf (manifest.status != .pendingApproval) "cleanup manifest is not pending approval"
    if manifest.expiresAt ≤ now then do
      modify (·.updateManifest manifestId fun m => { m with status := .expired })
      throw (.blocked "cleanup manifest expired")
    blockIf (!gatesReady) "global deletion safety gate is closed"
    let quota ← clientQuota
    let usedPercent ← Prog.ofExcept quota.usedPercent
    blockIf (decide (usedPercent < settings.triggerPercent)) "iCloud usage is below cleanup trigger"
    let remotes ← clientAssets
    let files ← op .files
    Prog.ofExcept (checkEntries settings hashes d files now gatesReady remotes manifest
      ⟨0, 0, manifest.entries.length⟩ manifest.entries)
    return (manifest, now)

/-- What a confirmed deletion records of its entry. -/
def ICloudCleanupManifest.complete (m : ICloudCleanupManifest) (position : Nat) (now : Time) :
    ICloudCleanupManifest :=
  { m with
    entries := m.entries.map fun (e : ICloudCleanupEntry) =>
      if e.position = position then { e with completedAt := some now } else e }

def CleanupDb.complete (d : CleanupDb) (manifestId : Nat) (entry : ICloudCleanupEntry) (now : Time) :
    CleanupDb :=
  let d := d.updateManifest manifestId fun m => m.complete entry.position now
  match d.assets.get entry.icloudAssetId with
  | some asset =>
    let moved : List CleanupAudit := (d.componentsOf asset).map fun c =>
      ⟨"icloud_asset_moved_to_recently_deleted", some c.archiveItemId, manifestId,
        some entry.appleAssetId⟩
    { d with
      assets := d.assets.put { asset with remotelyDeletedAt := some now }
      audits := d.audits ++ moved }
  | none => d

/-- `_manual_review`, its commit apart. -/
def CleanupDb.manualReview (d : CleanupDb) (manifestId : Nat) (reason : String) : CleanupDb :=
  let d := d.updateManifest manifestId fun m =>
    { m with
      status := if m.entries.any (·.completedAt.isSome) then .partialRun else .manualReview
      failureReason := some reason }
  ((d.setRuntime "global_deletion_enabled" "false").setRuntime "safety_lock" "true").audit
    ⟨"icloud_cleanup_manual_review", none, manifestId, some reason⟩

def reviewManifest (manifestId : Nat) (reason : String) : CleanupCode Unit := do
  modify (·.manualReview manifestId reason)
  op .commit
  throw (.blocked "iCloud deletion result requires manual review")

def deleteEntries (manifestId : Nat) : List ICloudCleanupEntry → CleanupCode Unit
  | [] => pure ()
  | entry :: rest => do
    match ← op (.deleteToRecentlyDeleted entry.appleAssetId entry.assetRecordName entry.changeTag)
    with
    | .raised type => reviewManifest manifestId type
    | .answered false => reviewManifest manifestId "absence_not_confirmed"
    | .answered true => do
      let now ← op .utcnow
      modify (·.complete manifestId entry now)
      op .commit
      deleteEntries manifestId rest

def execute (settings : ICloudSettings) (hashes : CleanupHashes) (manifestId : Nat)
    (digest : Digest) (gatesReady : Bool) : CleanupCode Unit := do
  let (manifest, now) ← approveManifest settings hashes manifestId digest gatesReady
  modify fun d => CleanupDb.audit
    (d.updateManifest manifestId fun m => { m with status := .executing, approvedAt := some now })
    ⟨"icloud_cleanup_approved", none, manifestId, none⟩
  op .commit
  deleteEntries manifestId manifest.entries
  let now ← op .utcnow
  modify fun d => CleanupDb.audit
    (d.updateManifest manifestId fun m => { m with status := .completed, completedAt := some now })
    ⟨"icloud_cleanup_completed", none, manifestId, none⟩

/-! ### Worlds -/

/-- A deletion request, its outcome, and the database that was durable at the time. -/
structure DeleteCall where
  appleAssetId : String
  assetRecordName : String
  changeTag : String
  outcome : DeleteOutcome
  committed : CleanupDb

structure CleanupWorld where
  db : CleanupDb
  txn : CleanupDb
  calls : List DeleteCall

namespace CleanupWorld

def commit (w : CleanupWorld) : CleanupWorld := { w with db := w.txn }

def rollback (w : CleanupWorld) : CleanupWorld := { w with txn := w.db }

/-- The client, the files and the clock answer anything; the database is a database. -/
def env : Prog.Env CleanupWorld CleanupOp CleanupOp.Ans
  | w, .load, a, w' => a = w.txn ∧ w' = w
  | w, .store d, _, w' => w' = { w with txn := d }
  | w, .commit, _, w' => w' = w.commit
  | w, .deleteToRecentlyDeleted i r t, a, w' =>
    w' = { w with calls := w.calls ++ [⟨i, r, t, a, w.db⟩] }
  | w, _, _, w' => w' = w

/-- Each call of the service has a session of its own. -/
def transactions : Transactions CleanupWorld CleanupOp CleanupOp.Ans where
  env := env
  commit := commit
  rollback := rollback

end CleanupWorld

/-- A client and files that do not change. -/
structure CleanupClient where
  quota : ICloudQuota
  remotes : List ICloudRemoteAsset
  files : Files
  outcome : String → DeleteOutcome

/-- What a call of the service that is made at `now` is answered. -/
def CleanupClient.answers (c : CleanupClient) (now : Time) :
    CleanupWorld → (o : CleanupOp) → o.Ans × CleanupWorld
  | w, .load => (w.txn, w)
  | w, .store d => ((), { w with txn := d })
  | w, .commit => ((), w.commit)
  | w, .utcnow => (now, w)
  | w, .files => (c.files, w)
  | w, .quota => (.ok c.quota, w)
  | w, .assets => (.ok c.remotes, w)
  | w, .deleteToRecentlyDeleted i r t =>
    (c.outcome i, { w with calls := w.calls ++ [⟨i, r, t, c.outcome i, w.db⟩] })

theorem CleanupClient.env_answers (c : CleanupClient) (now : Time) (w : CleanupWorld)
    (o : CleanupOp) :
    CleanupWorld.transactions.env w o (c.answers now w o).1 (c.answers now w o).2 := by
  cases o <;> first | rfl | exact ⟨rfl, rfl⟩

end Mnema
