import Mnema.World
import Mnema.DeletionGate

/-! `ArchiveWorkflow`: discovery, the archive pipeline with its checkpoints, the
deletion decision and the guarded test deletion. The in-memory item is passed
along; `transitionItem` and `db (.save _)` write it to the session. -/

namespace Mnema

/-- `safe_relative_path`, on the parts that `Path(value)` keeps. -/
def safeRelativePath (value : String) : Except PyError (List String) :=
  let parts := posixParts value
  if value.toList.head? == some '/' || parts.isEmpty then
    .error (.unsafePath "path must be non-empty and relative")
  else if parts.contains ".." then .error (.unsafePath "path contains unsafe segment")
  else .ok parts

/-- `transition_item`: the state change and its audit row reach the session together. -/
def transitionItem (item : ArchiveItem) (target : ArchiveState) (actor : String) :
    Flow ArchiveItem := do
  Prog.ofExcept (validateTransition item.state target)
  db (.flush { item with state := target }
    ⟨item.id, "state_transition", item.state, target, actor⟩)
  pure { item with state := target }

/-- The constructor arguments of `ArchiveWorkflow`, its adapters apart. -/
structure ArchiveWorkflow where
  activeRoot : Path
  stagingRoot : Path
  policy : SourcePolicy
  sourceProvider : String := "local_test"
  sourceIsActive : Bool := false

/-- `f"item-{item.id}"`. -/
def idempotencyKey (id : Nat) : String := "item-" ++ toString id

def partialPath (stagingRoot : Path) (archiveItemId : Nat) : Path :=
  stagingRoot.child (toString archiveItemId ++ ".partial")

/-- `partial_path` creates the staging root before it names the file. -/
def partialPathIn (stagingRoot : Path) (archiveItemId : Nat) : Flow Path := do
  ext (.mkdir stagingRoot)
  pure (partialPath stagingRoot archiveItemId)

def sourceMatches (item : ArchiveItem) (current : SourceObject) : Bool :=
  current.sourceId == item.sourceIdentifier && current.relativePath == item.originalPath &&
    current.size == item.originalSize && current.modifiedAt == item.originalModifiedAt &&
    current.version == item.sourceVersion

def sourceChanged (item : ArchiveItem) (current : SourceObject) : Bool :=
  !sourceMatches item current

def recordColdReceipt (item : ArchiveItem) (receipt : ColdReceipt) (now : Time) : ArchiveItem :=
  { item with
    remoteProvider := some receipt.provider
    remoteBucket := some receipt.bucket
    remoteObjectIdentifier := some receipt.objectIdentifier
    encryptionMode := some receipt.encryptionMode
    remoteSize := some receipt.remoteSize
    remoteChecksum := receipt.remoteChecksum
    uploadedAt := some now }

def coldReceipt (item : ArchiveItem) : Except PyError ColdReceipt :=
  match item.remoteProvider, item.remoteBucket, item.remoteObjectIdentifier,
      item.encryptionMode, item.remoteSize with
  | some p, some b, some o, some e, some n => .ok ⟨p, b, o, e, n, item.remoteChecksum⟩
  | _, _, _, _, _ => .error (.verificationFailure "remote receipt is incomplete")

def require (value : Option α) : Flow α :=
  match value with
  | some a => pure a
  | none => throw (.assertion "")

structure CommitReceipt where
  path : Path
  size : Nat
  sha256 : Digest
  transformedFrom : Option String
deriving DecidableEq, Repr

/-- `PurePath(name).stem` and `.suffix`: the last dot, unless it starts or ends the name. -/
def stemSuffix (name : String) : String × String :=
  let cs := name.toList
  match cs.reverse.span (· != '.') with
  | (ext, '.' :: stem) =>
    if ext.isEmpty || stem.isEmpty then (name, "")
    else (String.ofList stem.reverse, String.ofList ('.' :: ext.reverse))
  | _ => (name, "")

/-- `final.with_name(f"{final.stem}.mnema-{suffix}{final.suffix}")`. -/
def collisionPath (final : Path) (sha : Digest) : Path :=
  let (stem, suffix) := stemSuffix (final.getLastD "")
  Path.child final.dropLast
    (stem ++ ".mnema-" ++ String.ofList (sha.toList.take 12) ++ suffix)

def raiseIf (failed : Bool) (error : PyError) : Flow Unit :=
  if failed then throw error else pure ()

/-- `path.is_symlink() or not path.is_file()`. -/
def notRegular (path : Path) : Flow Bool := do
  if ← ext (.isSymlink path) then pure true else pure (!(← ext (.isFile path)))

/-- `path.stat().st_size == size and sha256_file(path) == sha`. -/
def sameContent (path : Path) (size : Nat) (sha : Digest) : Flow Bool := do
  if (← ext (.fileSize path)) = size then pure ((← ext (.sha256File path)) == sha) else pure false

/-- The end of `commit_staged`: the move, the timestamp, the directory sync. -/
def moveStaged (staged final : Path) (modifiedTimestamp : Option Time) : Flow Unit := do
  ext (.replace staged final)
  match modifiedTimestamp with
  | some t => ext (.utime final t)
  | none => pure ()
  ext (.fsyncDirectory final.dropLast)

def commitStaged (staged activeRoot : Path) (relativePath : String) (expectedSha256 : Digest)
    (expectedSize : Nat) (modifiedTimestamp : Option Time) : Flow CommitReceipt := do
  let _ ← Prog.ofExcept (safeRelativePath relativePath)
  raiseIf (← notRegular staged) (.value "staged object must be a regular non-symlink file")
  raiseIf ((← ext (.fileSize staged)) != expectedSize)
    (.value "staged size does not match source metadata")
  raiseIf ((← ext (.sha256File staged)) != expectedSha256)
    (.value "staged hash does not match download receipt")
  let unresolved ← ext (.resolveBeneath activeRoot relativePath false)
  ext (.mkdir unresolved.dropLast)
  let final ← ext (.resolveBeneath activeRoot relativePath false)
  if ← ext (.pathExists final) then
    raiseIf (← ext (.isSymlink final)) (.value "destination collision is a symlink")
    if ← sameContent final expectedSize expectedSha256 then
      ext (.unlink staged false)
      pure ⟨final, expectedSize, expectedSha256, none⟩
    else
      let renamed := collisionPath final expectedSha256
      raiseIf (!(← ext (.isBeneath renamed activeRoot)))
        (.value "collision path escapes active root")
      moveStaged staged renamed modifiedTimestamp
      pure ⟨renamed, expectedSize, expectedSha256, some relativePath⟩
  else
    moveStaged staged final modifiedTimestamp
    pure ⟨final, expectedSize, expectedSha256, none⟩

namespace ArchiveWorkflow

variable (wf : ArchiveWorkflow)

/-! ### `discover` -/

/-- `_new_item`; the identifier is assigned on insertion. -/
def newItem (source : SourceObject) : ArchiveItem where
  id := 0
  sourceProvider := wf.sourceProvider
  sourceIdentifier := source.sourceId
  originalPath := source.relativePath
  originalSize := source.size
  originalModifiedAt := source.modifiedAt
  sourceVersion := source.version
  state := .discovered

def withMetadata (item : ArchiveItem) (source : SourceObject) : ArchiveItem :=
  { item with
    originalPath := source.relativePath
    originalSize := source.size
    originalModifiedAt := source.modifiedAt
    sourceVersion := source.version }

/-- Judges an item by policy. -/
def judge (item : ArchiveItem) (source : SourceObject) : Flow ArchiveItem := do
  let decision ← ext (.evaluatePolicy source wf.policy)
  transitionItem item (if decision.eligible then .eligible else .ineligible) "scanner"

/-- One object of a page. -/
def discoverObject (source : SourceObject) : Flow ArchiveItem := do
  match ← db (.selectSource wf.sourceProvider source.sourceId) with
  | none =>
    let item ← db (.addItem (wf.newItem source))
    wf.judge item source
  | some item =>
    if sourceChanged item source then
      let item ← transitionItem item .sourceChanged "scanner"
      db (.save (withMetadata item source))
      pure (withMetadata item source)
    else if item.state = .ineligible then wf.judge item source
    else pure item

def discoverObjects : List SourceObject → Flow (List ArchiveItem)
  | [] => pure []
  | source :: rest => do
    let item ← wf.discoverObject source
    let found ← discoverObjects rest
    pure (item :: found)

/-- The page loop; running out of fuel stands for being stopped at that page. -/
def discoverPages : Nat → Option String → Flow (List ArchiveItem)
  | 0, _ => throw (.exit "stopped")
  | n + 1, cursor => do
    let page ← ext (.sourceDiscover wf.sourceProvider cursor)
    let found ← wf.discoverObjects page.objects
    match page.nextCursor with
    | none => pure found
    | some next => do
      let rest ← discoverPages n (some next)
      pure (found ++ rest)

def discover (fuel : Nat) : Flow (List ArchiveItem) := wf.discoverPages fuel none

/-! ### `archive` -/

def enterStage (item : ArchiveItem) : Flow ArchiveItem := do
  if item.state ∈ [.eligible, .sourceChanged, .failedRetryable, .manualReview] then
    transitionItem item .queued "worker"
  else pure item

def queueStage (item : ArchiveItem) : Flow ArchiveItem := do
  if item.state = .queued then
    let item ← transitionItem item .downloading "worker"
    db .commit
    pure item
  else pure item

/-- Staged bytes are discarded only when the source can supply them again. -/
def clearPartial (item : ArchiveItem) (staged : Path) : Flow Unit := do
  if ← ext (.pathExists staged) then
    let _ ← tryCatch (ext (.sourceStat wf.sourceProvider item.sourceIdentifier)) fun error =>
      match error with
      | .unsafePath _ | .fileNotFound _ | .permission _ | .os _ =>
        throw (.verificationFailure
          "staged partial cannot be re-downloaded from the source; refusing to discard it")
      | error => throw error
    ext (.unlink staged false)
  else pure ()

/-- `none` when the source changed during the transfer. -/
def download (item : ArchiveItem) (staged : Path) : Flow (Option DownloadReceipt) :=
  tryCatch (do pure (some (← ext (.sourceDownload wf.sourceProvider item.sourceIdentifier staged))))
    fun error => match error with
      | .sourceChanged _ => pure none
      | error => throw error

/-- The flag tells whether `archive` returns here. -/
def downloadStage (item : ArchiveItem) : Flow (ArchiveItem × Bool) := do
  if item.state = .downloading then
    let staged ← partialPathIn wf.stagingRoot item.id
    wf.clearPartial item staged
    match ← wf.download item staged with
    | none =>
      let item ← transitionItem item .sourceChanged "worker"
      db .commit
      pure (item, true)
    | some receipt =>
      let item ← transitionItem { item with plaintextSha256 := some receipt.sha256 }
        .localStaged "worker"
      db .commit
      pure (item, false)
  else pure (item, false)

def stagedStage (staged : Path) (item : ArchiveItem) : Flow ArchiveItem := do
  if item.state = .localStaged then
    raiseIf (some (← ext (.sha256File staged)) != item.plaintextSha256)
      (.verificationFailure "staged copy hash mismatch")
    let item ← transitionItem item .localVerified "worker"
    db .commit
    pure item
  else pure item

/-- An object that already lies in active storage is adopted where it is. -/
def adoptActive (staged : Path) (item : ArchiveItem) (sha : Digest) : Flow Path := do
  let active ← ext (.resolveBeneath wf.activeRoot item.originalPath true)
  raiseIf (← notRegular active)
    (.verificationFailure "active source must be a regular non-symlink file")
  raiseIf ((← ext (.fileSize active)) != item.originalSize)
    (.verificationFailure "active source size changed before adoption")
  raiseIf ((← ext (.sha256File active)) != sha)
    (.verificationFailure "active source hash changed before adoption")
  ext (.unlink staged false)
  pure active

def placeActive (staged : Path) (item : ArchiveItem) (sha : Digest) : Flow Path := do
  if wf.sourceIsActive then wf.adoptActive staged item sha
  else
    let commit ← commitStaged staged wf.activeRoot item.originalPath sha item.originalSize
      (some item.originalModifiedAt)
    pure commit.path

def verifiedStage (staged : Path) (item : ArchiveItem) : Flow ArchiveItem := do
  if item.state = .localVerified then
    let sha ← require item.plaintextSha256
    let path ← wf.placeActive staged item sha
    let now ← ext .utcnow
    let item ← transitionItem { item with nasPath := some path, nasVerifiedAt := some now }
      .localCommitted "worker"
    db .commit
    pure item
  else pure item

/-- The stages that only move on: a transition and its commit. -/
def advanceStage (current target : ArchiveState) (item : ArchiveItem) : Flow ArchiveItem := do
  if item.state = current then
    let item ← transitionItem item target "worker"
    db .commit
    pure item
  else pure item

def backupStage (item : ArchiveItem) : Flow ArchiveItem := do
  if item.state = .localBackupPending then
    let path ← require item.nasPath
    let sha ← require item.plaintextSha256
    let receipt ← ext (.backupSnapshot path (idempotencyKey item.id))
    raiseIf (!(← ext (.backupVerify receipt sha)))
      (.verificationFailure "independent local backup restore verification failed")
    let now ← ext .utcnow
    let item ← transitionItem
      { item with kopiaSnapshotId := some receipt.snapshotId, kopiaVerifiedAt := some now }
      .localBackupVerified "worker"
    db .commit
    pure item
  else pure item

def uploadStage (item : ArchiveItem) : Flow ArchiveItem := do
  if item.state = .coldUploadPending then
    let path ← require item.nasPath
    let _ ← require item.plaintextSha256
    let receipt ← ext (.coldUpload path item.originalPath (idempotencyKey item.id))
    let now ← ext .utcnow
    let item ← transitionItem (recordColdReceipt item receipt now) .coldUploaded "worker"
    db .commit
    pure item
  else pure item

def coldVerifyStage (item : ArchiveItem) : Flow ArchiveItem := do
  if item.state = .coldUploaded then
    let sha ← require item.plaintextSha256
    let receipt ← Prog.ofExcept (coldReceipt item)
    raiseIf (!(← ext (.coldVerify receipt sha)))
      (.verificationFailure "independent remote restore verification failed")
    let now ← ext .utcnow
    let item ← transitionItem
      { item with
        remoteVerifiedAt := some now
        remoteVerificationMethod := some "download-decrypt-sha256" }
      .coldVerified "worker"
    db .commit
    pure item
  else pure item

def coldArchiveStage (item : ArchiveItem) : Flow ArchiveItem := do
  if item.state = .coldArchivePending then
    let receipt ← Prog.ofExcept (coldReceipt item)
    ext (.coldArchiveVerified receipt)
    let now ← ext .utcnow
    let item ← transitionItem { item with coldArchivedAt := some now } .coldArchived "worker"
    db .commit
    pure item
  else pure item

def quarantineStage (item : ArchiveItem) : Flow ArchiveItem := do
  if item.state = .coldArchived then
    let now ← ext .utcnow
    let item ← transitionItem
      { item with quarantineExpiresAt := some (now + days wf.policy.quarantineDays) }
      .quarantined "worker"
    db .commit
    pure item
  else pure item

/-- The pipeline from `LOCAL_STAGED` on. -/
def finishStages (item : ArchiveItem) : Flow ArchiveItem := do
  let staged ← partialPathIn wf.stagingRoot item.id
  let item ← stagedStage staged item
  let item ← wf.verifiedStage staged item
  let item ← advanceStage .localCommitted .localBackupPending item
  let item ← backupStage item
  let item ← advanceStage .localBackupVerified .coldUploadPending item
  let item ← uploadStage item
  let item ← coldVerifyStage item
  let item ← advanceStage .coldVerified .coldArchivePending item
  let item ← coldArchiveStage item
  wf.quarantineStage item

def archive (item : ArchiveItem) : Flow ArchiveItem := do
  let item ← enterStage item
  let item ← queueStage item
  let (item, returned) ← wf.downloadStage item
  if returned then pure item else wf.finishStages item

/-! ### Deletion -/

/-- The keyword arguments of `deletion_decision` that describe the host and the operator. -/
structure DeletionContext where
  activeDiskHealthy : Bool
  backupDiskHealthy : Bool
  storageDevicesDiffer : Bool
  sqliteIntegrityHealthy : Bool
  globalDeletionEnabled : Bool
  safetyLock : Bool
  usage : DeletionRunUsage
  limits : DeletionLimits
  manualApprovalGranted : Bool := false
  now : Time

/-- `(source_exists, source_unchanged, identity_matches)`. -/
def sourceFacts (item : ArchiveItem) : Flow (Bool × Bool × Bool) :=
  tryCatch
    (do
      let current ← ext (.sourceStat wf.sourceProvider item.sourceIdentifier)
      pure (true, sourceMatches item current, current.sourceId == item.sourceIdentifier))
    fun error => match error with
      | .fileNotFound _ => pure (false, false, false)
      | error => throw error

/-- `(local_exists, local_size_matches, local_hash_matches)`. -/
def localFacts (item : ArchiveItem) : Flow (Bool × Bool × Bool) := do
  match item.nasPath with
  | none => pure (false, false, false)
  | some path =>
    if ← ext (.isFile path) then
      let size ← ext (.fileSize path)
      match item.plaintextSha256 with
      | none => pure (true, size == item.originalSize, false)
      | some sha =>
        let actual ← ext (.sha256File path)
        pure (true, size == item.originalSize, actual == sha)
    else pure (false, false, false)

def deletionDecision (item : ArchiveItem) (c : DeletionContext) : Flow GateDecision := do
  let (sourceExists, sourceUnchanged, identityMatches) ← wf.sourceFacts item
  let (localExists, localSizeMatches, localHashMatches) ← localFacts item
  let facts : DeletionFacts :=
    { localExists
      localSizeMatches
      localSha256Exists := item.plaintextSha256.isSome
      localSha256Matches := localHashMatches
      kopiaVerified := item.kopiaVerifiedAt.isSome
      remoteVerified := item.remoteVerifiedAt.isSome
      quarantineExpiresAt := item.quarantineExpiresAt
      sourceExists
      sourceUnchanged
      sourceIdentityMatches := identityMatches
      activeDiskHealthy := c.activeDiskHealthy
      backupDiskHealthy := c.backupDiskHealthy
      storageDevicesDiffer := c.storageDevicesDiffer
      sqliteIntegrityHealthy := c.sqliteIntegrityHealthy
      remoteAvailable := ← ext .coldAvailable
      globalDeletionEnabled := c.globalDeletionEnabled
      sourceDeletionEnabled := wf.policy.deletionEnabled
      safetyLock := c.safetyLock
      manualApprovalRequired := wf.policy.manualApproval
      manualApprovalGranted := c.manualApprovalGranted }
  pure (evaluateDeletionGate facts c.usage c.limits item.originalSize c.now)

/-- `some true` when the source confirmed the deletion, `some false` when its answer
leaves the outcome open, `none` when it reports a changed object. -/
def deleteSource (item : ArchiveItem) : Flow (Option Bool) :=
  tryCatch
    (do
      let receipt ← ext (.sourceDelete wf.sourceProvider item.sourceIdentifier item.sourceVersion)
      pure (some receipt.confirmedAbsent))
    fun error => match error with
      | .sourceChanged _ => pure none
      | .exit text => throw (.exit text)
      | _ => pure (some false)

def guardStep (current target : ArchiveState) (item : ArchiveItem) : Flow ArchiveItem :=
  if item.state = current then transitionItem item target "guard" else pure item

/-- The steps before the source is called, up to the `DELETING` checkpoint. -/
def prepareDeletion (item : ArchiveItem) : Flow ArchiveItem := do
  let item ← guardStep .quarantined .readyForRevalidation item
  let item ← guardStep .readyForRevalidation .readyForDeletion item
  let item ← transitionItem item .deleting "guard"
  db .commit
  pure item

def recordDeletion (item : ArchiveItem) : Option Bool → Flow Unit
  | none => do
    let _ ← transitionItem item .sourceChanged "guard"
  | some false => do
    let _ ← transitionItem item .manualReview "guard"
  | some true => do
    let now ← ext .utcnow
    let item ← transitionItem { item with deletionTimestamp := some now }
      .deletedFromSource "guard"
    let _ ← transitionItem item .archived "guard"

def deleteTestItem (item : ArchiveItem) (decision : GateDecision) : Flow Unit := do
  let capabilities ← ext (.sourceCapabilities wf.sourceProvider)
  raiseIf (!capabilities.canDelete)
    (.permission (wf.sourceProvider ++ " source deletion is unavailable"))
  raiseIf (!decision.allowed) (.permission ("; ".intercalate decision.blockers))
  let current ← ext (.sourceStat wf.sourceProvider item.sourceIdentifier)
  if sourceMatches item current then
    let item ← prepareDeletion item
    let outcome ← wf.deleteSource item
    recordDeletion item outcome
  else
    let _ ← transitionItem item .sourceChanged "guard"

end ArchiveWorkflow

end Mnema
