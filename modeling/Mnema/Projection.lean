import Mnema.Uploads

/-! The item tree: names, the promotion of an upload, the projection of archived
items into the collections, and the removal of an upload of the end-to-end test. -/

namespace Mnema

def uploadsId : String := "archive-uploads"
def icloudId : String := "archive-icloud"
def localId : String := "archive-local"

/-- `COLLECTIONS`, by source provider. -/
def collectionOf (provider : String) : String :=
  if provider = uploadProvider then uploadsId
  else if provider = "icloud_photos" then icloudId
  else localId

/-- `READY_STATES`. -/
def ArchiveState.isReady (state : ArchiveState) : Bool :=
  [.quarantined, .readyForRevalidation, .readyForDeletion, .archived].contains state

/-- The archive item is published: `READY_STATES`, and archived in cold storage. -/
def ArchiveItem.isReady (archive : ArchiveItem) : Bool :=
  archive.state.isReady && archive.coldArchivedAt.isSome

/-- `_suffixed`. -/
def suffixed (name suffix : String) : String :=
  let (stem, extension) := stemSuffix ((posixParts name).getLastD "")
  stem ++ "-" ++ suffix ++ extension

def firstFree (parentId itemId : String) : List String → Flow String
  | [] => throw (.value "cannot derive a unique File Provider name")
  | candidate :: rest => do
    match ← db (.childNamed parentId candidate itemId) with
    | none => pure candidate
    | some _ => firstFree parentId itemId rest

def uniqueChildName (parentId desired itemId : String) : Flow String :=
  firstFree parentId itemId
    [desired, suffixed desired (String.ofList (itemId.toList.take 8)), suffixed desired itemId]

def promoteUpload (archive : ArchiveItem) (itemId : String) : Flow Unit := do
  if !archive.isReady then pure ()
  else
    match ← db (.getFpItem itemId) with
    | none => pure ()
    | some item =>
      if item.status = .ready then pure ()
      else do
        let numbered := toString archive.id ++ "-"
        let desired := if numbered.toList.isPrefixOf item.name.toList then item.name
          else numbered ++ item.name
        let name ← uniqueChildName uploadsId desired item.id
        db (.saveFpItem { item with
          name := name
          parentId := some uploadsId
          status := .ready
          errorMessage := none })
        recordChange item.id

/-! ### Projection -/

/-- One folder of an iCloud item's path; `cumulative` are the components down to it. -/
def projectFolder (uuid5 : String → String) (provider parentId : String)
    (cumulative : List String) (component : String) : Flow String := do
  let folderId := uuid5 ("mnema:collection:" ++ provider ++ ":" ++ "/".intercalate cumulative)
  match ← db (.getFpItem folderId) with
  | some folder => pure folder.id
  | none => do
    let displayName ← uniqueChildName parentId component folderId
    let now ← ext .utcnow
    db (.addFpItem
      { id := folderId, parentId := some parentId, name := displayName, kind := .folder,
        status := .ready, modifiedAt := now })
    recordChange folderId
    pure folderId

/-- The folders of a path; the result is the parent of what lies in the last. -/
def projectFolders (uuid5 : String → String) (provider : String) :
    String → List String → List String → Flow String
  | parentId, _, [] => pure parentId
  | parentId, done, component :: rest => do
    let cumulative := done ++ [component]
    let folderId ← projectFolder uuid5 provider parentId cumulative component
    projectFolders uuid5 provider folderId cumulative rest

/-- The parent and the name of an archived item. -/
def placeOf (uuid5 : String → String) (archive : ArchiveItem) (original : List String)
    (itemId : String) : Flow (String × String) := do
  let collectionId := collectionOf archive.sourceProvider
  if archive.sourceProvider = "icloud_photos" then do
    let parentId ← projectFolders uuid5 archive.sourceProvider collectionId [] original.dropLast
    let name ← uniqueChildName parentId (original.getLastD "") itemId
    pure (parentId, name)
  else do
    let name ← uniqueChildName collectionId
      (toString archive.id ++ "-" ++ original.getLastD "") itemId
    pure (collectionId, name)

/-- The body of the loop; `1` where an item was added or moved. -/
def projectArchive (uuid5 : String → String) (archive : ArchiveItem) : Flow Nat := do
  if !archive.isReady then pure 0
  else do
    let existing ← db (.fpItemOf archive.id)
    let original ← Prog.ofExcept (safeRelativePath archive.originalPath)
    let identifier := uuid5 ("mnema:archive:" ++ toString archive.id)
    let (parentId, name) ← placeOf uuid5 archive original ((existing.map (·.id)).getD identifier)
    match existing with
    | none => do
      db (.addFpItem
        { id := identifier, parentId := some parentId, name := name, kind := .file,
          status := .ready, archiveItemId := some archive.id, size := archive.originalSize,
          contentVersion := archive.plaintextSha256.getD "",
          modifiedAt := archive.originalModifiedAt })
      recordChange identifier
      pure 1
    | some item =>
      if item.parentId ≠ some parentId ∨ item.name ≠ name then do
        db (.saveFpItem { item with parentId := some parentId, name := name })
        recordChange item.id
        pure 1
      else pure 0

def projectEach (uuid5 : String → String) : List ArchiveItem → Flow Nat
  | [] => pure 0
  | archive :: rest => do
    let n ← projectArchive uuid5 archive
    let projected ← projectEach uuid5 rest
    pure (n + projected)

def projectVerifiedArchives (uuid5 : String → String) : Flow Nat := do
  bootstrapRoots
  let candidates ← db .itemsWithPath
  projectEach uuid5 candidates

/-! ### The end-to-end test -/

/-- `record_change` with an operation of its own. -/
def recordChangeOf (itemId operation : String) : Flow Unit := do
  let sequence ← db (.addChange itemId operation)
  match ← db (.getFpItem itemId) with
  | some item => do
    let now ← ext .utcnow
    db (.saveFpItem { item with metadataVersion := sequence, modifiedAt := now })
  | none => pure ()

theorem recordChangeOf_upsert (itemId : String) :
    recordChangeOf itemId "UPSERT" = recordChange itemId := rfl

/-- `cleanup_e2e_upload` up to the two rows it deletes last; `allowed` is the environment
variable. -/
def cleanupE2eUpload (settings : Settings) (allowed : Bool) (itemId : String) :
    Flow (Option (FileProviderItem × FileProviderUpload)) := do
  raiseIf (!allowed) (.permission "test deletion is disabled")
  match ← db (.getFpItem itemId) with
  | none => pure none
  | some item => do
    raiseIf (!"mnema-e2e-".toList.isPrefixOf item.name.toList)
      (.permission "only E2E-prefixed uploads may be cleaned")
    match ← db (.uploadOfItem item.id) with
    | none => throw (.permission "item is not a sealed File Provider upload")
    | some upload => do
      raiseIf (upload.status != .sealed)
        (.permission "item is not a sealed File Provider upload")
      match ← db (.getItem upload.archiveItemId) with
      | none => throw (.permission "upload is outside the E2E cleanup lifecycle")
      | some archive => do
        raiseIf (archive.sourceProvider != uploadProvider || archive.state != .localStaged)
          (.permission "upload is outside the E2E cleanup lifecycle")
        let root ← ext (.resolve settings.stagingRoot)
        let staged := partialPath settings.stagingRoot archive.id
        raiseIf (← ext (.isSymlink staged)) (.permission "E2E upload path is unsafe")
        raiseIf ((← ext (.resolve staged)).dropLast != root)
          (.permission "E2E upload path is unsafe")
        ext (.unlink staged true)
        raiseIf (← ext (.pathExists staged)) (.os "E2E upload cleanup could not be verified")
        let _ ← transitionItem archive .testCleaned "e2e-cleanup"
        recordChangeOf item.id "DELETE"
        pure (some (item, upload))

end Mnema
