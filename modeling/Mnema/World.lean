import Mnema.Eligibility
import Mnema.Lib.Prog

/-! The operations the program performs on the database, the adapters, the
files and the clock, and what they do to a world. A session works on a copy of
the database that becomes durable at commit. Whatever lies outside the database
answers as a relation `X` allows, so that adapters may return anything or raise. -/

namespace Mnema

structure Db where
  items : Table ArchiveItem Nat ArchiveItem.id := .empty
  events : List AuditEvent := []
  uploads : Table FileProviderUpload String FileProviderUpload.id := .empty
  fpItems : Table FileProviderItem String FileProviderItem.id := .empty
  changes : List FileProviderChange := []
  jobs : Table Job Nat Job.id := .empty
  settings : List (String × String) := []

/-! ### Operations -/

inductive DbOp where
  | selectSource (provider sourceId : String)
  | getItem (id : Nat)
  | itemsInStates (states : List ArchiveState)
  | addItem (row : ArchiveItem)
  | flush (row : ArchiveItem) (event : AuditEvent)
  | save (row : ArchiveItem)
  | addEvent (event : AuditEvent)
  | commit
  | getUpload (id : String)
  | uploadOf (archiveItemId : Nat)
  | uploadsByStatus (status : FileProviderUploadStatus)
  | addUpload (row : FileProviderUpload)
  | setUploadStatus (id : String) (status : FileProviderUploadStatus)
  | setReceivedSize (id : String) (size : Nat)
  | getFpItem (id : String)
  | addFpItem (row : FileProviderItem)
  | saveFpItem (row : FileProviderItem)
  | addChange (itemId operation : String)
  | jobByKey (idempotencyKey : String)
  | addJob (row : Job)
  | getSetting (key : String)
  | addSetting (key value : String)
  | childNamed (parentId name itemId : String)
  | fpItemOf (archiveItemId : Nat)
  | itemsWithPath
  | getJob (id : Nat)
  | saveJob (row : Job)
  | uploadOfItem (itemId : String)
deriving DecidableEq

@[reducible] def DbOp.Res : DbOp → Type
  | selectSource _ _ => Option ArchiveItem
  | getItem _ => Option ArchiveItem
  | itemsInStates _ => List ArchiveItem
  | addItem _ => ArchiveItem
  | flush _ _ => Unit
  | save _ => Unit
  | addEvent _ => Unit
  | commit => Unit
  | getUpload _ => Option FileProviderUpload
  | uploadOf _ => Option FileProviderUpload
  | uploadsByStatus _ => List FileProviderUpload
  | addUpload _ => Unit
  | setUploadStatus _ _ => Unit
  | setReceivedSize _ _ => Unit
  | getFpItem _ => Option FileProviderItem
  | addFpItem _ => Unit
  | saveFpItem _ => Unit
  | addChange _ _ => Nat
  | jobByKey _ => Option Job
  | addJob _ => Job
  | getSetting _ => Option String
  | addSetting _ _ => Unit
  | childNamed _ _ _ => Option String
  | fpItemOf _ => Option FileProviderItem
  | itemsWithPath => List ArchiveItem
  | getJob _ => Option Job
  | saveJob _ => Unit
  | uploadOfItem _ => Option FileProviderUpload

/-- The two modes `append_upload` opens a file in: `ab` and `xb`. -/
inductive FileMode where
  | append | exclusive
deriving DecidableEq, Repr

inductive ExtOp where
  | utcnow
  | uuid4
  | evaluatePolicy (item : SourceObject) (policy : SourcePolicy)
  -- source adapter of one provider
  | sourceCapabilities (provider : String)
  | sourceDiscover (provider : String) (cursor : Option String)
  | sourceStat (provider sourceId : String)
  | sourceDownload (provider sourceId : String) (destination : Path)
  | sourceDelete (provider sourceId expectedVersion : String)
  -- backup and cold storage adapters
  | backupSnapshot (source : Path) (idempotencyKey : String)
  | backupVerify (receipt : BackupReceipt) (expectedSha256 : Digest)
  | coldUpload (source : Path) (objectIdentifier idempotencyKey : String)
  | coldVerify (receipt : ColdReceipt) (expectedSha256 : Digest)
  | coldArchiveVerified (receipt : ColdReceipt)
  | coldAvailable
  -- files
  | resolveBeneath (root : Path) (relative : String) (mustExist : Bool)
  | resolve (path : Path)
  | isBeneath (path root : Path)
  | mkdir (path : Path)
  | pathExists (path : Path)
  | isSymlink (path : Path)
  | isFile (path : Path)
  | fileSize (path : Path)
  | sha256File (path : Path)
  | unlink (path : Path) (missingOk : Bool)
  | replace (source target : Path)
  | utime (path : Path) (timestamp : Time)
  | fsyncDirectory (path : Path)
  | createEmpty (path : Path)
  | diskUsage (path : Path)
  | openFile (path : Path) (mode : FileMode)
  | writeChunk (chunk : Bytes)
  | syncFile
  | closeFile
  | truncate (path : Path) (size : Nat)
deriving DecidableEq

/-- Answers of `shutil.disk_usage`. -/
structure DiskUsage where
  total : Nat
  free : Nat

@[reducible] def ExtOp.Res : ExtOp → Type
  | utcnow => Time
  | uuid4 => String
  | evaluatePolicy _ _ => PolicyDecision
  | sourceCapabilities _ => SourceCapabilities
  | sourceDiscover _ _ => DiscoveryPage
  | sourceStat _ _ => SourceObject
  | sourceDownload _ _ _ => DownloadReceipt
  | sourceDelete _ _ _ => DeleteReceipt
  | backupSnapshot _ _ => BackupReceipt
  | backupVerify _ _ => Bool
  | coldUpload _ _ _ => ColdReceipt
  | coldVerify _ _ => Bool
  | coldArchiveVerified _ => Unit
  | coldAvailable => Bool
  | resolveBeneath _ _ _ => Path
  | resolve _ => Path
  | isBeneath _ _ => Bool
  | mkdir _ => Unit
  | pathExists _ => Bool
  | isSymlink _ => Bool
  | isFile _ => Bool
  | fileSize _ => Nat
  | sha256File _ => Digest
  | unlink _ _ => Unit
  | replace _ _ => Unit
  | utime _ _ => Unit
  | fsyncDirectory _ => Unit
  | createEmpty _ => Unit
  | diskUsage _ => DiskUsage
  | openFile _ _ => Unit
  | writeChunk _ => Unit
  | syncFile => Unit
  | closeFile => Unit
  | truncate _ _ => Unit

inductive Op where
  | db (o : DbOp)
  | ext (o : ExtOp)

@[reducible] def Op.Res : Op → Type
  | .db o => o.Res
  | .ext o => o.Res

/-- Any operation may raise. -/
abbrev Op.Ans (o : Op) : Type := Except PyError o.Res

abbrev Flow (α : Type) := Prog Op Op.Ans PyError α

def db (o : DbOp) : Flow o.Res := .call (.db o) Prog.ofExcept

def ext (o : ExtOp) : Flow o.Res := .call (.ext o) Prog.ofExcept

/-! ### What is observed of a run -/

/-- `committed` is a version of an item row made durable; the others are calls that
were answered, and `sourceDeleted` a delete call that was issued. -/
inductive Event where
  | committed (row : ArchiveItem)
  | judgedEligible (item : SourceObject)
  | downloaded (provider sourceId : String) (receipt : DownloadReceipt)
  | backupVerified (snapshotId : String) (sha : Digest)
  | coldVerified (receipt : ColdReceipt) (sha : Digest)
  | coldArchived (receipt : ColdReceipt)
  | sourceDeleted (provider sourceId expectedVersion : String)
deriving DecidableEq

def observe : (o : ExtOp) → Except PyError o.Res → List Event
  | .evaluatePolicy item _, .ok d => if d.eligible then [.judgedEligible item] else []
  | .sourceDownload p s _, .ok r => [.downloaded p s r]
  | .backupVerify r sha, .ok true => [.backupVerified r.snapshotId sha]
  | .coldVerify r sha, .ok true => [.coldVerified r sha]
  | .coldArchiveVerified r, .ok _ => [.coldArchived r]
  | .sourceDelete p s v, _ => [.sourceDeleted p s v]
  | _, _ => []

/-! ### Worlds -/

/-- `pend` holds the row versions written since the last commit, oldest first. -/
structure World (σ : Type) where
  db : Db
  txn : Db
  pend : List ArchiveItem
  log : List Event
  ext : σ

/-- What lies outside the database: the answers it may give, and how it changes. -/
abbrev ExtEnv (σ : Type) := σ → (o : ExtOp) → Except PyError o.Res → σ → Prop

namespace Db

def newItemId (d : Db) : Nat := (d.items.rows.map (·.id)).foldl max 0 + 1

def newJobId (d : Db) : Nat := (d.jobs.rows.map (·.id)).foldl max 0 + 1

def newSequence (d : Db) : Nat := (d.changes.map (·.sequence)).foldl max 0 + 1

/-- `ix_archive_source_identity`. -/
def sourceTaken (d : Db) (row : ArchiveItem) : Bool :=
  d.items.rows.any fun r =>
    r.sourceProvider == row.sourceProvider && r.sourceIdentifier == row.sourceIdentifier

/-- The unique indexes of `file_provider_items`; a null never clashes. -/
def fpTaken (d : Db) (row : FileProviderItem) : Bool :=
  d.fpItems.rows.any fun r => r.id != row.id &&
    ((r.parentId.isSome && r.parentId == row.parentId && r.name == row.name) ||
      (r.archiveItemId.isSome && r.archiveItemId == row.archiveItemId))

/-- The primary key and the unique columns of `file_provider_uploads`. -/
def uploadTaken (d : Db) (row : FileProviderUpload) : Bool :=
  d.uploads.rows.any fun r =>
    r.id == row.id || r.itemId == row.itemId || r.archiveItemId == row.archiveItemId

end Db

namespace World

variable {σ : Type}

def rollback (w : World σ) : World σ := { w with txn := w.db, pend := [] }

def commit (w : World σ) : World σ :=
  { w with db := w.txn, pend := [], log := w.log ++ w.pend.map .committed }

/-- Writes an item row in the open transaction. -/
def write (w : World σ) (row : ArchiveItem) : World σ :=
  { w with txn := { w.txn with items := w.txn.items.put row }, pend := w.pend ++ [row] }

def flush (w : World σ) (row : ArchiveItem) (event : AuditEvent) : World σ :=
  { w with
    txn := { w.txn with items := w.txn.items.put row, events := w.txn.events ++ [event] }
    pend := w.pend ++ [row] }

def addItem (w : World σ) (row : ArchiveItem) : World σ :=
  { w with
    txn := { w.txn with items := w.txn.items.insert { row with id := w.txn.newItemId } }
    pend := w.pend ++ [{ row with id := w.txn.newItemId }] }

/-- Replaces the open transaction's copy, its item rows and versions apart. -/
def setTxn (w : World σ) (d : Db) : World σ := { w with txn := d }

def setUpload (w : World σ) (id : String) (f : FileProviderUpload → FileProviderUpload) :
    World σ :=
  match w.txn.uploads.get id with
  | some u => w.setTxn { w.txn with uploads := w.txn.uploads.put (f u) }
  | none => w

def dbStep (w : World σ) : (o : DbOp) → Except PyError o.Res × World σ
  | .selectSource p s =>
    (.ok (w.txn.items.first fun r => r.sourceProvider == p && r.sourceIdentifier == s), w)
  | .getItem id => (.ok (w.txn.items.get id), w)
  | .itemsInStates states => (.ok (w.txn.items.rows.filter fun r => states.contains r.state), w)
  | .addItem row =>
    if w.txn.sourceTaken row then (.error (.integrity "archive_items.source_identity"), w)
    else (.ok { row with id := w.txn.newItemId }, w.addItem row)
  | .flush row event => (.ok (), w.flush row event)
  | .save row => (.ok (), w.write row)
  | .addEvent event => (.ok (), w.setTxn { w.txn with events := w.txn.events ++ [event] })
  | .commit => (.ok (), w.commit)
  | .getUpload id => (.ok (w.txn.uploads.get id), w)
  | .uploadOf archiveId => (.ok (w.txn.uploads.first fun u => u.archiveItemId == archiveId), w)
  | .uploadsByStatus st => (.ok (w.txn.uploads.rows.filter fun u => u.status == st), w)
  | .addUpload row =>
    if w.txn.uploadTaken row then (.error (.integrity "file_provider_uploads"), w)
    else (.ok (), w.setTxn { w.txn with uploads := w.txn.uploads.insert row })
  | .setUploadStatus id st => (.ok (), w.setUpload id fun u => { u with status := st })
  | .setReceivedSize id n => (.ok (), w.setUpload id fun u => { u with receivedSize := n })
  | .getFpItem id => (.ok (w.txn.fpItems.get id), w)
  | .addFpItem row =>
    if (w.txn.fpItems.get row.id).isSome || w.txn.fpTaken row then
      (.error (.integrity "file_provider_items"), w)
    else (.ok (), w.setTxn { w.txn with fpItems := w.txn.fpItems.insert row })
  | .saveFpItem row =>
    if w.txn.fpTaken row then (.error (.integrity "file_provider_items"), w)
    else (.ok (), w.setTxn { w.txn with fpItems := w.txn.fpItems.put row })
  | .addChange itemId operation =>
    (.ok w.txn.newSequence, w.setTxn { w.txn with
      changes := w.txn.changes ++ [⟨w.txn.newSequence, itemId, operation⟩] })
  | .jobByKey key => (.ok (w.txn.jobs.first fun j => j.idempotencyKey == key), w)
  | .addJob row =>
    (.ok { row with id := w.txn.newJobId }, w.setTxn { w.txn with
      jobs := w.txn.jobs.insert { row with id := w.txn.newJobId } })
  | .getSetting key => (.ok ((w.txn.settings.find? (·.1 == key)).map (·.2)), w)
  | .addSetting key value =>
    (.ok (), w.setTxn { w.txn with settings := w.txn.settings ++ [(key, value)] })
  | .childNamed parentId name itemId =>
    (.ok ((w.txn.fpItems.first fun r =>
      r.parentId == some parentId && r.name == name && r.id != itemId).map (·.id)), w)
  | .fpItemOf archiveId =>
    (.ok (w.txn.fpItems.first fun r => r.archiveItemId == some archiveId), w)
  | .itemsWithPath => (.ok (w.txn.items.rows.filter (·.nasPath.isSome)), w)
  | .getJob id => (.ok (w.txn.jobs.get id), w)
  | .saveJob row => (.ok (), w.setTxn { w.txn with jobs := w.txn.jobs.put row })
  | .uploadOfItem itemId => (.ok (w.txn.uploads.first fun u => u.itemId == itemId), w)

/-- The world after an answer from outside. -/
def answered (w : World σ) (o : ExtOp) (a : Except PyError o.Res) (x : σ) : World σ :=
  { w with ext := x, log := w.log ++ observe o a }

end World

/-- `evaluate_policy` reads the clock and is otherwise a function of its arguments. -/
def honest : (o : ExtOp) → Except PyError o.Res → Prop
  | .evaluatePolicy item policy, a => ∃ now, a = evaluatePolicy item policy now
  | _, _ => True

def World.env {σ : Type} (X : ExtEnv σ) : Prog.Env (World σ) Op Op.Ans
  | w, .db o, a, w' => (a, w') = w.dbStep o
  | w, .ext o, a, w' => ∃ x, X w.ext o a x ∧ honest o a ∧ w' = w.answered o a x

end Mnema
