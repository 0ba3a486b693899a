import Mnema.Workflow
import Mnema.Lib.Double
import Mnema.Lib.PythonText

/-! The File Provider upload service: creation, appending, sealing, failure and
expiry of uploads, with the rows of the item tree and the change journal. -/

namespace Mnema

open PyText

def inboxId : String := "inbox"

/-- The folders `bootstrap_roots` creates: identifier, parent, name. -/
def roots : List (String × Option String × String) :=
  [("root", none, "Mnema"), ("inbox", some "root", "Inbox"), ("archive", some "root", "Archive"),
    ("archive-uploads", some "archive", "Uploads"),
    ("archive-icloud", some "archive", "iCloud Photos"),
    ("archive-local", some "archive", "Local Imports")]

/-- The provider name of items whose bytes arrive over HTTP. -/
def uploadProvider : String := "file_provider_upload"

def recordChange (itemId : String) : Flow Unit := do
  let sequence ← db (.addChange itemId "UPSERT")
  match ← db (.getFpItem itemId) with
  | some item => do
    let now ← ext .utcnow
    db (.saveFpItem { item with metadataVersion := sequence, modifiedAt := now })
  | none => pure ()

def bootstrapRoot (root : String × Option String × String) : Flow Unit := do
  match ← db (.getFpItem root.1) with
  | some _ => pure ()
  | none => do
    let now ← ext .utcnow
    db (.addFpItem
      { id := root.1, parentId := root.2.1, name := root.2.2, kind := .folder, status := .ready,
        modifiedAt := now })
    recordChange root.1

def bootstrapEach : List (String × Option String × String) → Flow Unit
  | [] => pure ()
  | root :: rest => do
    bootstrapRoot root
    bootstrapEach rest

/-- `_setting`. -/
def setting (key : String) : Flow String := do
  match ← db (.getSetting key) with
  | some value => pure value
  | none => do
    let value ← ext .uuid4
    db (.addSetting key value)
    pure value

def bootstrapRoots : Flow Unit := do
  bootstrapEach roots
  let _ ← setting "file_provider_generation"

def strip (s : String) : String := String.ofList (stripped isSpace s.toList)

def validateUploadName (name : String) : Except PyError String := do
  let candidate := strip name
  let parts ← safeRelativePath candidate
  if parts.getLastD "" ≠ candidate ∨ candidate = "." ∨ candidate = ".." then
    throw (.value "uploads must use one safe file name")
  if candidate.utf8ByteSize > 255 then throw (.value "upload name is too long")
  return candidate

/-- `upload_id.isascii() and upload_id.replace("-", "").isalnum()`. -/
def validUploadId (id : String) : Bool :=
  let cs := id.toList.filter (· != '-')
  !cs.isEmpty && cs.all (fun c => c.isAlphanum)

def uploadPath (settings : Settings) (uploadId : String) : Flow Path := do
  raiseIf (!validUploadId uploadId) (.value "invalid upload identifier")
  let root ← ext (.resolve settings.fileProviderUploadRoot)
  ext (.mkdir root)
  raiseIf (!(← ext (.isBeneath root settings.activeRoot)))
    (.value "upload path escapes active storage")
  pure (root.child (uploadId ++ ".upload"))

/-- Three copies of the upload must leave the configured share of the disk free; the quotient is
rounded to a double. -/
def lacksSpace (usage : DiskUsage) (size : Nat) (minimumPercent : ℚ) : Except PyError Bool :=
  let projected : Int := usage.free - size * 3
  if projected < 0 then .ok true
  else if usage.total = 0 then .error (.zeroDivision "division by zero")
  else .ok (decide (Double.ofRat (projected * 100 / usage.total) < minimumPercent))

theorem lacksSpace_eq_false_iff {usage : DiskUsage} {size : Nat} {minimumPercent : ℚ} :
    lacksSpace usage size minimumPercent = .ok false ↔ size * 3 ≤ usage.free ∧ usage.total ≠ 0 ∧
      minimumPercent ≤ Double.ofRat (((usage.free - size * 3 : Nat) : ℚ) * 100 / usage.total) := by
  unfold lacksSpace
  by_cases hneg : (usage.free : Int) - size * 3 < 0
  · have hnot : ¬size * 3 ≤ usage.free := by omega
    simp [hneg, hnot]
  · have hle : size * 3 ≤ usage.free := by omega
    have hcast : (((usage.free : Int) - size * 3 : Int) : ℚ) = ((usage.free - size * 3 : Nat) : ℚ) := by
      rw [Nat.cast_sub hle]
      push_cast
      ring
    by_cases hzero : usage.total = 0
    · simp [hneg, hzero]
    · simp [hneg, hzero, hle, hcast]

/-- The check of the free space passes. -/
def sparesSpace (usage : DiskUsage) (size : Nat) (minimumPercent : ℚ) : Bool :=
  match lacksSpace usage size minimumPercent with
  | .ok lacking => !lacking
  | .error _ => false

theorem sparesSpace_iff {usage : DiskUsage} {size : Nat} {minimumPercent : ℚ} :
    sparesSpace usage size minimumPercent = true ↔ lacksSpace usage size minimumPercent = .ok false := by
  unfold sparesSpace
  cases lacksSpace usage size minimumPercent with
  | error e => simp
  | ok lacking => simp

def validSha256 (sha : Digest) : Bool :=
  sha.toList.length == 64 && sha.toList.all (fun c => "0123456789abcdef".toList.contains c)

structure UploadRequest where
  name : String
  size : Nat
  contentType : String := "application/octet-stream"
  sha256 : Option Digest := none

def createUpload (settings : Settings) (request : UploadRequest) : Flow FileProviderUpload := do
  bootstrapRoots
  let name ← Prog.ofExcept (validateUploadName request.name)
  raiseIf (decide (settings.fileProviderMaxFileSize < request.size))
    (.value "upload size exceeds configured limit")
  let usage ← ext (.diskUsage settings.activeRoot)
  let lacking ← Prog.ofExcept
    (lacksSpace usage request.size settings.fileProviderMinimumFreePercent)
  raiseIf lacking (.os "active storage cannot hold this upload and its verification scratch")
  raiseIf (request.sha256.any (fun sha => !validSha256 sha))
    (.value "SHA-256 must use 64 lowercase hexadecimal characters")
  let uploadId ← ext .uuid4
  let fpId ← ext .uuid4
  let now ← ext .utcnow
  let archive ← db (.addItem
    { id := 0, sourceProvider := uploadProvider, sourceIdentifier := uploadId,
      originalPath := "Uploads/" ++ name, originalSize := request.size, originalModifiedAt := now,
      sourceVersion := uploadId })
  let archive ← transitionItem archive .eligible "file-provider"
  let archive ← transitionItem archive .queued "file-provider"
  let archive ← transitionItem archive .downloading "file-provider"
  let now ← ext .utcnow
  db (.addFpItem
    { id := fpId, parentId := some inboxId, name := name, kind := .file, status := .processing,
      archiveItemId := some archive.id, size := request.size,
      contentType := if request.contentType = "" then "application/octet-stream"
        else request.contentType,
      modifiedAt := now })
  let now ← ext .utcnow
  let upload : FileProviderUpload :=
    { id := uploadId, itemId := fpId, archiveItemId := archive.id, expectedSize := request.size,
      expectedSha256 := request.sha256, expiresAt := now + hours 24 }
  db (.addUpload upload)
  recordChange fpId
  pure upload

/-! ### Sealing -/

/-- The file the checksum is taken from: the upload, or what an earlier attempt staged. -/
def sealCandidate (source destination : Path) : Flow Path := do
  if ← ext (.isFile source) then pure source else pure destination

def createIfEmpty (source : Path) (expectedSize : Nat) : Flow Unit := do
  if expectedSize = 0 then
    if ← ext (.pathExists source) then pure () else ext (.createEmpty source)
  else pure ()

def incomplete (candidate : Path) (expectedSize : Nat) : Flow Bool := do
  if ← notRegular candidate then pure true
  else pure ((← ext (.fileSize candidate)) != expectedSize)

def stageUpload (source destination : Path) (expectedSize : Nat) : Flow Unit := do
  ext (.mkdir destination.dropLast)
  if ← ext (.pathExists destination) then
    raiseIf (← (do
      if ← ext (.isSymlink destination) then pure true
      else pure ((← ext (.fileSize destination)) != expectedSize)))
      (.runtime "staging collision requires manual review")
    ext (.unlink source true)
  else
    ext (.replace source destination)
    ext (.fsyncDirectory destination.dropLast)

/-- `DurableQueue().enqueue`, for the job that archives an upload. -/
def enqueueArchive (archiveItemId : Nat) (itemId uploadId : String) : Flow Unit := do
  match ← db (.jobByKey ("file-provider-upload:" ++ uploadId)) with
  | some _ => pure ()
  | none => do
    let now ← ext .utcnow
    let _ ← db (.addJob
      { id := 0, kind := "archive_upload", adapter := "file_provider",
        payload := ⟨archiveItemId, itemId⟩,
        idempotencyKey := "file-provider-upload:" ++ uploadId, availableAt := now })

def sealUpload (settings : Settings) (upload : FileProviderUpload) : Flow ArchiveItem := do
  let source ← uploadPath settings upload.id
  raiseIf (upload.status != .sealing) (.value "upload is not ready to seal")
  match ← db (.getItem upload.archiveItemId) with
  | none => throw (.runtime "upload archive item is missing")
  | some archive => do
    createIfEmpty source upload.expectedSize
    let destination := partialPath settings.stagingRoot archive.id
    let candidate ← sealCandidate source destination
    raiseIf (← incomplete candidate upload.expectedSize) (.value "upload file is incomplete")
    let checksum ← ext (.sha256File candidate)
    raiseIf (upload.expectedSha256.any (· != checksum)) (.value "upload SHA-256 does not match")
    stageUpload source destination upload.expectedSize
    let archive ← transitionItem { archive with plaintextSha256 := some checksum }
      .localStaged "file-provider"
    db (.setUploadStatus upload.id .sealed)
    match ← db (.getFpItem upload.itemId) with
    | none => throw (.runtime "File Provider item is missing")
    | some item => do
      db (.saveFpItem { item with contentVersion := checksum })
      enqueueArchive archive.id item.id upload.id
      recordChange item.id
      pure archive

/-! ### The HTTP transactions -/

/-- The first transaction of `complete_upload`; `true` sends it on to the second. -/
def completeBegin (uploadId : String) : Flow Bool := do
  match ← db (.getUpload uploadId) with
  | none => throw (.http 404 "upload not found")
  | some upload =>
    if upload.status = .sealed then pure false
    else do
      raiseIf (upload.status != .openUpload || upload.receivedSize != upload.expectedSize)
        (.http 409 "upload is incomplete")
      db (.setUploadStatus uploadId .sealing)
      pure true

/-- The second transaction of `complete_upload`. -/
def completeSeal (settings : Settings) (uploadId : String) : Flow Unit := do
  match ← db (.getUpload uploadId) with
  | none => throw (.runtime "upload disappeared while sealing")
  | some upload => do
    let _ ← sealUpload settings upload

/-- The chunks of a request body, each checked against the declared size. -/
def writeBody (expectedSize offset : Nat) : Nat → List Bytes → Flow Nat
  | written, [] => pure written
  | written, chunk :: rest => do
    raiseIf (decide (expectedSize < offset + written + chunk.length))
      (.http 413 "upload exceeds declared size")
    ext (.writeChunk chunk)
    writeBody expectedSize offset (written + chunk.length) rest

/-- The `with path.open(mode)` block; the file is closed on every way out. `broken` is
the exception that ends the request stream early, if one does. -/
def receiveBody (path : Path) (mode : FileMode) (expectedSize offset : Nat)
    (body : List Bytes) (broken : Option PyError) : Flow Nat := do
  ext (.openFile path mode)
  let written ← tryCatch
    (do
      let written ← writeBody expectedSize offset 0 body
      match broken with
      | some error => throw error
      | none => do
        ext .syncFile
        pure written)
    fun error => do
      ext .closeFile
      throw error
  ext .closeFile
  pure written

/-- `except Exception`: back to the offset the request started from. -/
def rollbackBody (path : Path) (offset : Nat) (error : PyError) : Flow Nat := do
  if error.isException then
    if ← ext (.pathExists path) then
      if ← ext (.isSymlink path) then throw error
      else
        ext (.truncate path offset)
        throw error
    else throw error
  else throw error

/-- `path.exists() and (path.is_symlink() or path.stat().st_size != upload_offset)`. -/
def stagingInconsistent (path : Path) (offset : Nat) : Flow Bool := do
  if ← ext (.pathExists path) then
    if ← ext (.isSymlink path) then pure true else pure ((← ext (.fileSize path)) != offset)
  else pure false

/-- A `PATCH` request: `append_upload`. The answer is the new offset. -/
def appendUpload (settings : Settings) (uploadId : String) (offset : Nat) (body : List Bytes)
    (broken : Option PyError) : Flow Nat := do
  match ← db (.getUpload uploadId) with
  | none => throw (.http 404 "upload not found")
  | some upload => do
    let now ← ext .utcnow
    raiseIf (upload.status != .openUpload || decide (upload.expiresAt ≤ now))
      (.http 409 "upload is closed or expired")
    raiseIf (upload.receivedSize != offset)
      (.http 409 ("expected offset " ++ toString upload.receivedSize))
    let path ← uploadPath settings upload.id
    raiseIf (← stagingInconsistent path offset) (.http 409 "upload staging state is inconsistent")
    let mode := if ← ext (.pathExists path) then FileMode.append else .exclusive
    let written ← tryCatch (receiveBody path mode upload.expectedSize offset body broken)
      (rollbackBody path offset)
    db (.setReceivedSize uploadId (upload.receivedSize + written))
    pure (upload.receivedSize + written)

/-! ### Failure and expiry -/

def markUploadFailed (itemId code : String) : Flow Unit := do
  match ← db (.getFpItem itemId) with
  | none => pure ()
  | some item => do
    db (.saveFpItem { item with
      status := .failed
      errorMessage := some (String.ofList (code.toList.take 120)) })
    recordChange item.id

/-- `if path.is_file() and not path.is_symlink(): path.unlink(missing_ok=True)`. -/
def removeUploadFile (path : Path) : Flow Unit := do
  if ← ext (.isFile path) then
    if ← ext (.isSymlink path) then pure () else ext (.unlink path true)
  else pure ()

/-- What `reap_expired_uploads` does to one upload it selected. -/
def reapUpload (settings : Settings) (now : Time) (upload : FileProviderUpload) : Flow Nat := do
  if now < upload.expiresAt then pure 0
  else
    let path ← uploadPath settings upload.id
    removeUploadFile path
    db (.setUploadStatus upload.id .failed)
    markUploadFailed upload.itemId "upload_expired"
    match ← db (.getItem upload.archiveItemId) with
    | some archive =>
      if archive.state = .manualReview then pure 1
      else do
        let _ ← transitionItem archive .manualReview "upload-reaper"
        pure 1
    | none => pure 1

def reapUploads (settings : Settings) (now : Time) : List FileProviderUpload → Flow Nat
  | [] => pure 0
  | upload :: rest => do
    let n ← reapUpload settings now upload
    let reaped ← reapUploads settings now rest
    pure (n + reaped)

def reapExpiredUploads (settings : Settings) : Flow Nat := do
  let now ← ext .utcnow
  let uploads ← db (.uploadsByStatus .openUpload)
  reapUploads settings now uploads

/-- The listing transaction of `reconcile_sealing_uploads`. -/
def listSealing : Flow (List String) := do
  let uploads ← db (.uploadsByStatus .sealing)
  pure (uploads.map (·.id))

/-- Its transaction for one listed upload. -/
def reconcileSealing (settings : Settings) (uploadId : String) : Flow Unit := do
  match ← db (.getUpload uploadId) with
  | none => pure ()
  | some upload => do
    let _ ← sealUpload settings upload

/-- The transaction that follows when the one before raised. -/
def failSealing (uploadId : String) : Flow Unit := do
  match ← db (.getUpload uploadId) with
  | none => pure ()
  | some upload => do
    db (.setUploadStatus upload.id .failed)
    markUploadFailed upload.itemId "seal_failed"

end Mnema
