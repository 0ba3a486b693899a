import Mnema.Runs
import Mnema.Lib.Store

/-! The machine the program runs on: its files, one source and the test adapters
for backup and cold storage, `FilesystemVersionedBackup` and
`LocalEncryptedColdStorage`. Files are named by resolved paths, and links are left out. -/

namespace Mnema

/-- What the stores rely on: a digest, and a cipher that takes a nonce. -/
structure Crypto where
  sha256 : Bytes → Digest
  encrypt : Nat → Bytes → Bytes
  decrypt : Bytes → Bytes
  decrypt_encrypt : ∀ n b, decrypt (encrypt n b) = b

structure Host where
  files : Store Path Bytes
  objects : List (SourceObject × Bytes)
  snapshots : Store String Bytes
  remote : Store String Bytes
  now : Time
  serial : Nat
  /-- The file that is open for writing. -/
  writing : Option Path

namespace Host

variable (c : Crypto) (h : Host)

def missing (α : Type) : Except PyError α := .error (.fileNotFound "")

def object (sourceId : String) : Option (SourceObject × Bytes) :=
  h.objects.find? fun o => o.1.sourceId == sourceId

/-- The bytes of a file, or the error of opening it. -/
def read (path : Path) : Except PyError Bytes :=
  match h.files path with
  | some b => .ok b
  | none => missing Bytes

/-! ### `LocalFilesystemSourceAdapter`, with deletion allowed -/

def sourceStat (sourceId : String) : Except PyError SourceObject :=
  match h.object sourceId with
  | some o => .ok o.1
  | none => missing SourceObject

/-- The destination is opened with `xb`; the object does not change during the transfer. -/
def sourceDownload (sourceId : String) (destination : Path) :
    Except PyError DownloadReceipt × Host :=
  match h.object sourceId with
  | none => (missing _, h)
  | some (o, b) =>
    if (h.files destination).isSome then (.error (.os "file exists"), h)
    else (.ok ⟨sourceId, b.length, c.sha256 b, o.version⟩,
      { h with files := h.files.put destination b })

def sourceDelete (sourceId expectedVersion : String) : Except PyError DeleteReceipt × Host :=
  match h.object sourceId with
  | none => (missing _, h)
  | some (o, _) =>
    if o.version != expectedVersion then
      (.error (.sourceChanged "source changed before deletion"), h)
    else (.ok ⟨sourceId, expectedVersion, true⟩,
      { h with objects := h.objects.filter fun o => o.1.sourceId != sourceId })

/-! ### `FilesystemVersionedBackup` -/

def snapshotName (idempotencyKey : String) : String := idempotencyKey ++ ".snapshot"

def backupSnapshot (source : Path) (idempotencyKey : String) : Except PyError BackupReceipt × Host :=
  if (h.snapshots (snapshotName idempotencyKey)).isSome then
    (.ok ⟨snapshotName idempotencyKey⟩, h)
  else match h.files source with
    | none => (missing _, h)
    | some b => (.ok ⟨snapshotName idempotencyKey⟩,
        { h with snapshots := h.snapshots.putNew (snapshotName idempotencyKey) b })

def backupRestore (snapshotId : String) : Option Bytes := h.snapshots snapshotId

def backupVerify (receipt : BackupReceipt) (expectedSha256 : Digest) : Except PyError Bool :=
  match h.backupRestore receipt.snapshotId with
  | some b => .ok (c.sha256 b == expectedSha256)
  | none => missing Bool

/-! ### `LocalEncryptedColdStorage` -/

def objectName (idempotencyKey : String) : String := idempotencyKey ++ ".mnema"

/-- The receipt of an object that is in the store. -/
def coldReceiptOf (idempotencyKey : String) (cipher : Bytes) : ColdReceipt where
  provider := "local-test"
  bucket := "mnema-test"
  objectIdentifier := objectName idempotencyKey
  encryptionMode := "AES-256-GCM"
  remoteSize := cipher.length
  remoteChecksum := some (c.sha256 cipher)

def coldUpload (source : Path) (idempotencyKey : String) : Except PyError ColdReceipt × Host :=
  match h.remote (objectName idempotencyKey) with
  | some cipher => (.ok (coldReceiptOf c idempotencyKey cipher), h)
  | none => match h.files source with
    | none => (missing _, h)
    | some b => (.ok (coldReceiptOf c idempotencyKey (c.encrypt h.serial b)),
        { h with
          remote := h.remote.putNew (objectName idempotencyKey) (c.encrypt h.serial b)
          serial := h.serial + 1 })

def coldRestore (receipt : ColdReceipt) : Option Bytes :=
  (h.remote receipt.objectIdentifier).map c.decrypt

def coldVerify (receipt : ColdReceipt) (expectedSha256 : Digest) : Except PyError Bool :=
  match h.coldRestore c receipt with
  | some b => .ok (c.sha256 b == expectedSha256)
  | none => missing Bool

/-! ### Files -/

def resolveBeneath (root : Path) (relative : String) (mustExist : Bool) : Except PyError Path :=
  match safeRelativePath relative with
  | .error e => .error e
  | .ok parts =>
    if mustExist && (h.files (root ++ parts)).isNone then missing Path else .ok (root ++ parts)

def unlink (path : Path) (missingOk : Bool) : Except PyError Unit × Host :=
  if (h.files path).isSome then (.ok (), { h with files := h.files.erase path })
  else if missingOk then (.ok (), h) else (missing Unit, h)

def replace (source target : Path) : Except PyError Unit × Host :=
  match h.files source with
  | none => (missing Unit, h)
  | some b => (.ok (), { h with files := (h.files.erase source).put target b })

def openFile (path : Path) (mode : FileMode) : Except PyError Unit × Host :=
  match h.files path, mode with
  | some _, .exclusive => (.error (.os "file exists"), h)
  | some _, .append => (.ok (), { h with writing := some path })
  | none, _ => (.ok (), { h with files := h.files.put path [], writing := some path })

def writeChunk (chunk : Bytes) : Except PyError Unit × Host :=
  match h.writing with
  | none => (.error (.value "write to closed file"), h)
  | some path => (.ok (), { h with files := h.files.put path ((h.files path).getD [] ++ chunk) })

def truncate (path : Path) (size : Nat) : Except PyError Unit × Host :=
  match h.files path with
  | none => (missing Unit, h)
  | some b => (.ok (), { h with files := h.files.put path (b.take size) })

def answer (h : Host) : (o : ExtOp) → Except PyError o.Res × Host
  | .utcnow => (.ok h.now, h)
  | .uuid4 => (.ok (toString h.serial), { h with serial := h.serial + 1 })
  | .evaluatePolicy item policy => (Mnema.evaluatePolicy item policy h.now, h)
  | .sourceCapabilities _ => (.ok ⟨true, true, true⟩, h)
  | .sourceDiscover _ _ => (.ok ⟨h.objects.map (·.1), none⟩, h)
  | .sourceStat _ sourceId => (h.sourceStat sourceId, h)
  | .sourceDownload _ sourceId destination => h.sourceDownload c sourceId destination
  | .sourceDelete _ sourceId expectedVersion => h.sourceDelete sourceId expectedVersion
  | .backupSnapshot source key => h.backupSnapshot source key
  | .backupVerify receipt sha => (h.backupVerify c receipt sha, h)
  | .coldUpload source _ key => h.coldUpload c source key
  | .coldVerify receipt sha => (h.coldVerify c receipt sha, h)
  | .coldArchiveVerified _ => (.ok (), h)
  | .coldAvailable => (.ok true, h)
  | .resolveBeneath root relative mustExist => (h.resolveBeneath root relative mustExist, h)
  | .resolve path => (.ok path, h)
  | .isBeneath path root => (.ok (root.isPrefixOf path), h)
  | .mkdir _ => (.ok (), h)
  | .pathExists path => (.ok (h.files path).isSome, h)
  | .isSymlink _ => (.ok false, h)
  | .isFile path => (.ok (h.files path).isSome, h)
  | .fileSize path => ((h.read path).map List.length, h)
  | .sha256File path => ((h.read path).map c.sha256, h)
  | .unlink path missingOk => h.unlink path missingOk
  | .replace source target => h.replace source target
  | .utime _ _ => (.ok (), h)
  | .fsyncDirectory _ => (.ok (), h)
  | .createEmpty path => (.ok (), { h with files := h.files.put path [] })
  | .diskUsage _ => (.ok ⟨1000000000000, 900000000000⟩, h)
  | .openFile path mode => h.openFile path mode
  | .writeChunk chunk => h.writeChunk chunk
  | .syncFile => (.ok (), h)
  | .closeFile => (.ok (), { h with writing := none })
  | .truncate path size => h.truncate path size

/-- Between two calls anything may happen to the source and the clock, and to nothing else. -/
structure Drift (h h' : Host) : Prop where
  files : h'.files = h.files
  snapshots : h'.snapshots = h.snapshots
  remote : h'.remote = h.remote
  serial : h'.serial = h.serial
  writing : h'.writing = h.writing

theorem Drift.refl (h : Host) : h.Drift h := ⟨rfl, rfl, rfl, rfl, rfl⟩

/-- The host as what lies outside the database. -/
def env : ExtEnv Host := fun h o a h'' => ∃ h', h.Drift h' ∧ (a, h'') = h'.answer c o

/-- The same where the host drifts within `A`. -/
def envWithin (A : Host → Prop) : ExtEnv Host := fun h o a h'' =>
  ∃ h', h.Drift h' ∧ A h' ∧ (a, h'') = h'.answer c o

theorem honest_answer (o : ExtOp) : honest o (h.answer c o).1 := by
  cases o <;> first | trivial | exact ⟨h.now, rfl⟩

end Host

/-! ### Runs on the host -/

section Runs

variable {c : Crypto} {X : ExtEnv Host} {start : World Host → Flow Unit → Prop}
  {G : World Host → Op → Prop} {w w₀ : World Host} {f : Host → Host}

/-- Operations on the host, which `f` changes before every call. -/
def World.onHost (c : Crypto) (f : Host → Host) : World Host → (o : Op) → o.Ans × World Host :=
  World.handler fun h => (f h).answer c

/-- The world after `p` ran on the host. -/
def World.after (c : Crypto) (f : Host → Host) (w : World Host) (p : Flow Unit) : World Host :=
  (p.exec (World.onHost c f) w).2

/-- What the host does, changed by `f`, is a behaviour of `X`. -/
def OnHost (c : Crypto) (f : Host → Host) (X : ExtEnv Host) : Prop :=
  ∀ (w : World Host) (o : Op), World.env X w o (w.onHost c f o).1 (w.onHost c f o).2

theorem onHost_envWithin {A : Host → Prop} (hf : ∀ h : Host, h.Drift (f h)) (hA : ∀ h, A (f h)) :
    OnHost c f (Host.envWithin c A) :=
  World.handler_env (fun h _ => ⟨f h, hf h, hA h, rfl⟩) (fun _ _ => Host.honest_answer c _ _)

theorem onHost_env (hf : ∀ h : Host, h.Drift (f h)) : OnHost c f (Host.env c) :=
  World.handler_env (fun h _ => ⟨f h, hf h, rfl⟩) (fun _ _ => Host.honest_answer c _ _)

theorem onHost_id : OnHost c id (Host.env c) := onHost_env Host.Drift.refl

theorem reachable_after {p : Flow Unit} (hr : (runs X start anyOp).Reachable w₀ (w, none))
    (hp : start w p) (hf : OnHost c f X) :
    (runs X start anyOp).Reachable w₀ (w.after c f p, none) :=
  hr.exec hp fun w o => ⟨trivial, hf w o⟩

/-- A run whose operations the permission `G` allows, as checked along the way. -/
theorem reachable_after_of_respects {p : Flow Unit} {ok : World Host → Op → Bool}
    (hr : (runs X start G).Reachable w₀ (w, none)) (hp : start w p)
    (hf : OnHost c f X) (hG : ∀ w o, ok w o = true → G w o)
    (hok : p.respects ok (World.onHost c f) w = true) :
    (runs X start G).Reachable w₀ (w.after c f p, none) :=
  hr.exec_of_respects hp (fun w o ho => ⟨hG w o ho, hf w o⟩) hok

/-- A call on the row that the session has under `id`. -/
theorem reachable_after_onItem {p : ArchiveItem → Flow Unit} {id : Nat}
    (hr : (runs X start anyOp).Reachable w₀ (w, none))
    (hp : ∀ item, w.txn.items.get item.id = some item → start w (p item)) (hf : OnHost c f X) :
    (runs X start anyOp).Reachable w₀ (w.after c f (onItem w id p), none) := by
  unfold onItem
  cases hi : w.txn.items.get id with
  | none => exact hr
  | some item => exact reachable_after hr (hp item ((Table.key_of_get hi).symm ▸ hi)) hf

theorem reachable_after_onItem_of_respects {p : ArchiveItem → Flow Unit} {id : Nat}
    {ok : World Host → Op → Bool} (hr : (runs X start G).Reachable w₀ (w, none))
    (hp : ∀ item, w.txn.items.get item.id = some item → start w (p item))
    (hf : OnHost c f X) (hG : ∀ w o, ok w o = true → G w o)
    (hok : (onItem w id p).respects ok (World.onHost c f) w = true) :
    (runs X start G).Reachable w₀ (w.after c f (onItem w id p), none) := by
  unfold onItem at hok ⊢
  cases hi : w.txn.items.get id with
  | none => exact hr
  | some item =>
    rw [hi] at hok
    exact reachable_after_of_respects hr (hp item ((Table.key_of_get hi).symm ▸ hi)) hf hG hok

end Runs

/-- A cipher and a digest that change nothing. -/
def Crypto.plain : Crypto where
  sha256 b := String.ofList (b.map fun x => Char.ofNat x.toNat)
  encrypt _ b := b
  decrypt b := b
  decrypt_encrypt _ _ := rfl

/-- A host that holds nothing but the objects of its source. -/
def Host.start (objects : List (SourceObject × Bytes)) : Host :=
  ⟨.empty, objects, .empty, .empty, 0, 0, none⟩

/-- The object of the worked examples, and a second version of it. -/
def first : SourceObject := ⟨"a", "a", 1, 0, "v1"⟩

def second : SourceObject := ⟨"a", "a", 1, 5, "v2"⟩

/-- The source holds `source` from now on. -/
def Host.holding (source : SourceObject) (content : Bytes) (h : Host) : Host :=
  { h with objects := [(source, content)] }

theorem Host.drift_holding (source : SourceObject) (content : Bytes) (h : Host) :
    h.Drift (h.holding source content) := ⟨rfl, rfl, rfl, rfl, rfl⟩

/-- The workflow of the worked examples: everything is eligible at once. -/
def plainWorkflow : ArchiveWorkflow where
  activeRoot := ["active"]
  stagingRoot := ["staging"]
  policy := { archiveAfterDays := 0, stabilityWindowHours := 0, includedGlobs := [] }

def deletingWorkflow : ArchiveWorkflow :=
  { plainWorkflow with
    policy := { plainWorkflow.policy with deletionEnabled := true, manualApproval := false } }

/-- One object, scanned and archived. -/
def archivedOnce : World Host :=
  let w := (World.fresh (Host.start [(first, [1])])).after .plain id
    (plainWorkflow.discover 1).void
  w.after .plain id (onItem w 1 fun item => (plainWorkflow.archive item).void)

theorem reachable_archivedOnce :
    (runs (Host.env .plain) (Call anyItem) anyOp).Reachable
      (World.fresh (Host.start [(first, [1])])) (archivedOnce, none) :=
  reachable_after_onItem (reachable_after .refl (.discover plainWorkflow 1) onHost_id)
    (fun _ hi => .archive plainWorkflow hi) onHost_id

end Mnema
