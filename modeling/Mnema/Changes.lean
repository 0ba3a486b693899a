import Mnema.WorkerJobs
import Mnema.Lib.Journal
import Mnema.Lib.PythonText

/-! `GET /v1/changes` and the client that enumerates it. The endpoint reads the committed
rows with one query after the other, outside a transaction, so that commits may fall
between its queries. A cursor is taken as the pair that its text encodes. -/

namespace Mnema

open PyText

/-! ### The endpoint -/

/-- What a client receives of an item. -/
structure RemoteItem where
  id : String
  parentId : Option String
  name : String
  kind : FileProviderItemKind
  size : Nat
  contentType : String
  contentVersion : String
  metadataVersion : String
  modifiedAt : Time
  status : FileProviderItemStatus
  error : Option String
  capabilities : List String
deriving DecidableEq, Repr

/-- `_item_payload`; `allowTestDelete` is the environment variable. -/
def itemPayload (allowTestDelete : Bool) (item : FileProviderItem) : RemoteItem where
  id := item.id
  parentId := item.parentId
  name := item.name
  kind := item.kind
  size := item.size
  contentType := item.contentType
  contentVersion := item.contentVersion
  metadataVersion := toString item.metadataVersion
  modifiedAt := item.modifiedAt
  status := item.status
  error := item.errorMessage
  capabilities :=
    (if item.kind = .folder then ["read", "enumerate"] else ["read"]) ++
      (if item.id = "inbox" then ["addFile"] else []) ++
      (if allowTestDelete && "mnema-e2e-".toList.isPrefixOf item.name.toList then ["delete"] else [])

structure Cursor where
  generation : String
  sequence : Nat
deriving DecidableEq, Repr

structure PageChange where
  operation : String
  itemId : String
  item : Option RemoteItem
deriving DecidableEq, Repr

structure ChangesPage where
  changes : List PageChange
  nextCursor : Cursor
  resetRequired : Bool
  more : Bool
deriving DecidableEq, Repr

/-- The queries of the endpoint. -/
inductive ChangesOp where
  | generation
  | changesAfter (sequence limit : Nat)
  | item (id : String)

@[reducible] def ChangesOp.Ans : ChangesOp → Type
  | generation => Option String
  | changesAfter _ _ => List FileProviderChange
  | item _ => Option FileProviderItem

abbrev ChangesCode (α : Type) := Prog ChangesOp ChangesOp.Ans PyError α

def changesOp (o : ChangesOp) : ChangesCode o.Ans := .op o

namespace Db

/-- The row `file_provider_generation`. -/
def generation (d : Db) : Option String :=
  (d.settings.find? (·.1 == "file_provider_generation")).map (·.2)

def changesAfter (d : Db) (sequence limit : Nat) : List FileProviderChange :=
  ((d.changes.filter fun c => decide (sequence < c.sequence)).insertionSort
    fun a b => a.sequence ≤ b.sequence).take limit

def answer (d : Db) : (o : ChangesOp) → o.Ans
  | .generation => d.generation
  | .changesAfter sequence limit => d.changesAfter sequence limit
  | .item id => d.fpItems.get id

end Db

/-- `session.get` for a row of the page: the item of the row before it is still loaded. -/
def loadItem (loaded : Option FileProviderItem) (itemId : String) :
    ChangesCode (Option FileProviderItem) :=
  match loaded with
  | some item => if item.id = itemId then pure (some item) else changesOp (.item itemId)
  | none => changesOp (.item itemId)

def pagePayload (allowTestDelete : Bool) :
    Option FileProviderItem → List FileProviderChange → ChangesCode (List PageChange)
  | _, [] => pure []
  | loaded, row :: rest => do
    let changed ← loadItem loaded row.itemId
    let payload ← pagePayload allowTestDelete changed rest
    pure (⟨lower row.operation, row.itemId, changed.map (itemPayload allowTestDelete)⟩ :: payload)

/-- The rows after a sequence number. -/
def changesFrom (allowTestDelete : Bool) (generation : String) (sequence limit : Nat) :
    ChangesCode ChangesPage := do
  let rows ← changesOp (.changesAfter sequence (limit + 1))
  let more := decide (limit < rows.length)
  let rows := rows.take limit
  let payload ← pagePayload allowTestDelete none rows
  let last := (rows.getLast?.map (·.sequence)).getD sequence
  pure ⟨payload, ⟨generation, last⟩, false, more⟩

/-- `max(1, min(limit, 1000))`. -/
def pageLimit (limit : Int) : Nat := (max 1 (min limit 1000)).toNat

def changes (allowTestDelete : Bool) (cursor : Option Cursor) (limit : Int) :
    ChangesCode ChangesPage := do
  match ← changesOp .generation with
  | none => throw (.http 503 "File Provider generation is unavailable")
  | some generation =>
    match cursor with
    | some cursor =>
      if cursor.generation ≠ generation then pure ⟨[], ⟨generation, 0⟩, true, false⟩
      else changesFrom allowTestDelete generation cursor.sequence (pageLimit limit)
    | none => changesFrom allowTestDelete generation 0 (pageLimit limit)

/-! ### The client -/

/-- `NSFileProviderItemIdentifier`. The identifier of the root container is no item id. -/
inductive Identifier where
  | rootContainer
  | named (id : String)
deriving DecidableEq

/-- `FileProviderItem.itemIdentifier`. -/
def itemIdentifier (id : String) : Identifier := if id = "root" then .rootContainer else .named id

/-- The map of a client, with the changes it was sent and the `more` of its last page. -/
structure ChangesClient where
  items : Identifier → Option RemoteItem := fun _ => none
  cursor : Option Cursor := none
  delivered : List (String × String) := []
  more : Option Bool := none

/-- `enumerateChanges`, from the response on. -/
def ChangesClient.apply (client : ChangesClient) (page : ChangesPage) : ChangesClient :=
  if page.resetRequired then { client with cursor := none }
  else
    let deleted := ((page.changes.filter (·.operation == "delete")).map
      (Identifier.named ·.itemId)).filter (· != .rootContainer)
    let updated := (page.changes.filter (·.operation != "delete")).filterMap (·.item)
    { items := Replica.putAll (Replica.removeAll client.items deleted)
        (updated.map fun remote => (itemIdentifier remote.id, remote))
      cursor := some page.nextCursor
      delivered := client.delivered ++ page.changes.map fun c => (c.operation, c.itemId)
      more := some page.more }

/-! ### Server and client -/

/-- The transactions of the API and of the worker that change items. -/
inductive ItemTransaction (settings : Settings) (uuid5 : String → String) : Flow Unit → Prop where
  | bootstrapRoots : ItemTransaction settings uuid5 bootstrapRoots
  | createUpload (request : UploadRequest) :
      ItemTransaction settings uuid5 (createUpload settings request).void
  | completeSeal (uploadId : String) :
      ItemTransaction settings uuid5 (completeSeal settings uploadId)
  | reconcileSealing (uploadId : String) :
      ItemTransaction settings uuid5 (reconcileSealing settings uploadId)
  | failSealing (uploadId : String) : ItemTransaction settings uuid5 (failSealing uploadId)
  | reapExpiredUploads : ItemTransaction settings uuid5 (reapExpiredUploads settings).void
  | promoteUpload (archive : ArchiveItem) (itemId : String) :
      ItemTransaction settings uuid5 (promoteUpload archive itemId)
  | completeJob (workerId : String) (job : Job) :
      ItemTransaction settings uuid5 (completeJob uuid5 workerId job)
  | reportFailure (workerId : String) (job : Job) (message : String) :
      ItemTransaction settings uuid5 (reportFailure workerId job message)
  | markUploadFailed (itemId code : String) :
      ItemTransaction settings uuid5 (markUploadFailed itemId code)
  | projectVerifiedArchives :
      ItemTransaction settings uuid5 (projectVerifiedArchives uuid5).void

/-- The end of the transaction of `cleanup_e2e_upload`: the two rows that it deletes. -/
def Db.deleteRows (d : Db) :
    Option (Except PyError (Option (FileProviderItem × FileProviderUpload))) → Db
  | some (.ok (some (item, upload))) =>
    { d with uploads := d.uploads.erase upload.id, fpItems := d.fpItems.erase item.id }
  | _ => d

def World.deleteRows {σ : Type} (w : World σ)
    (r : Option (Except PyError (Option (FileProviderItem × FileProviderUpload)))) : World σ :=
  { w with db := w.db.deleteRows r, txn := w.txn.deleteRows r }

/-- `queried` is the database as it was when the rows of the last page were read, and `request`
what is left of a request that is under way. -/
structure Sync (σ : Type) where
  world : World σ
  client : ChangesClient := {}
  request : Option (ChangesCode ChangesPage) := none
  queried : Db := {}

/-- The database that the rows of a page come from, after one more query. -/
def ChangesOp.queried (now before : Db) : ChangesOp → Db
  | .changesAfter _ _ => now
  | _ => before

inductive SyncStep {σ : Type} (X : ExtEnv σ) (settings : Settings) (uuid5 : String → String)
    (allowTestDelete : Bool) : Sync σ → Sync σ → Prop where
  | transaction {s : Sync σ} {p : Flow Unit} {r : Option (Except PyError Unit)} {world : World σ}
      (hp : ItemTransaction settings uuid5 p) (he : (transactions X).Ends p s.world r world) :
      SyncStep X settings uuid5 allowTestDelete s { s with world := world }
  | cleanup {s : Sync σ} {itemId : String}
      {r : Option (Except PyError (Option (FileProviderItem × FileProviderUpload)))}
      {world : World σ}
      (he : (transactions X).Ends (cleanupE2eUpload settings allowTestDelete itemId) s.world r
        world) :
      SyncStep X settings uuid5 allowTestDelete s { s with world := world.deleteRows r }
  -- the rest of the program, which writes to other tables and to the uploads
  | elsewhere {s : Sync σ} {world : World σ} (hi : world.Idle)
      (hf : world.db.fpItems = s.world.db.fpItems) (hc : world.db.changes = s.world.db.changes)
      (hs : world.db.settings = s.world.db.settings)
      (hu : world.db.uploadKeys = s.world.db.uploadKeys) :
      SyncStep X settings uuid5 allowTestDelete s { s with world := world }
  | asked {s : Sync σ} (hr : s.request = none) (limit : Int) :
      SyncStep X settings uuid5 allowTestDelete s { s with
        request := some (changes allowTestDelete s.client.cursor limit)
        client := { s.client with more := none } }
  | query {s : Sync σ} {o : ChangesOp} {k : o.Ans → ChangesCode ChangesPage}
      (hr : s.request = some (.call o k)) :
      SyncStep X settings uuid5 allowTestDelete s { s with
        request := some (k (s.world.db.answer o))
        queried := o.queried s.world.db s.queried }
  | answered {s : Sync σ} {page : ChangesPage} (hr : s.request = some (.ret page)) :
      SyncStep X settings uuid5 allowTestDelete s { s with
        request := none
        client := s.client.apply page }
  -- an error is answered, the answer is lost, or the enumerator was invalidated
  | dropped {s : Sync σ} : SyncStep X settings uuid5 allowTestDelete s { s with request := none }

/-- Any order of the transactions and of the queries of a client that starts without a cursor. -/
abbrev SyncRun {σ : Type} (X : ExtEnv σ) (settings : Settings) (uuid5 : String → String)
    (allowTestDelete : Bool) :=
  Relation.ReflTransGen (SyncStep X settings uuid5 allowTestDelete)

end Mnema
