import Mnema.Workflow

/-! Restore tests: what the endpoint that restores a copy leaves in the database, whatever the
adapter answers. -/

namespace Mnema.RestoreTests

/-! ### Rows -/

/-- The columns of an item that the endpoint reads and writes. -/
structure ItemRow where
  item : ArchiveItem
  restoreTestStatus : Option String

inductive Details where
  | restored (copy : String) (verified : Bool) (destination : String)
  | requested (copy : String) (pending : Bool) (requestStarted : Bool)

structure AuditRow where
  event : AuditEvent
  details : Details

structure Rows where
  items : ℕ → Option ItemRow
  audit : List AuditRow

def Rows.setStatus (rows : Rows) (id : ℕ) (status : String) : Rows :=
  { rows with items := fun n =>
      if n = id then (rows.items n).map fun row => { row with restoreTestStatus := some status }
      else rows.items n }

def Rows.add (rows : Rows) (entry : AuditRow) : Rows := { rows with audit := rows.audit ++ [entry] }

/-! ### The endpoint -/

/-- What comes of `backup.restore` or `cold.restore`: the hash of the restored file, a retrieval
that is still pending, or an exception. -/
inductive Answer where
  | restored (sha256 : Digest)
  | pending (requested : Bool)
  | raised (e : PyError)

inductive RestoreError where
  | pending (requested : Bool)
  | raised (e : PyError)

def Answer.matches (answer : Answer) (plaintextSha256 : Digest) : Except RestoreError Bool :=
  match answer with
  | .restored sha256 => .ok (sha256 == plaintextSha256)
  | .pending requested => .error (.pending requested)
  | .raised e => .error (.raised e)

def restoreLocal (item : ArchiveItem) (answer : Answer) : Except RestoreError Bool :=
  match item.kopiaSnapshotId, item.plaintextSha256 with
  | some _, some plaintextSha256 => answer.matches plaintextSha256
  | _, _ => .ok false

def restoreRemote (item : ArchiveItem) (answer : Answer) : Except RestoreError Bool :=
  match item.plaintextSha256 with
  | none => .ok false
  | some plaintextSha256 =>
    match coldReceipt item with
    | .error e => .error (.raised e)
    | .ok _ => answer.matches plaintextSha256

/-- One request: the item, the copy, what the clock shows and where the file goes. -/
structure Request where
  itemId : ℕ
  copyName : String
  now : String
  destination : String

structure Redirect where
  location : String

/-- `Database.session`: what the body did is committed if it returns, and rolled back if it raises. -/
def session {ε α : Type} (body : Rows → Except ε α × Rows) (rows : Rows) : Except ε α × Rows :=
  match body rows with
  | (.ok a, working) => (.ok a, working)
  | (.error e, _) => (.error e, rows)

def auditRow (request : Request) (item : ArchiveItem) (eventType : String) (details : Details) : AuditRow :=
  ⟨⟨request.itemId, eventType, item.state, item.state, "administrator"⟩, details⟩

/-- What is recorded of a retrieval that is pending. -/
def recordPending (request : Request) (item : ArchiveItem) (requested : Bool) (rows : Rows) : Rows :=
  (rows.setStatus request.itemId ("remote:pending:" ++ request.now)).add
    (auditRow request item "restore_requested" (.requested "remote" true requested))

/-- What is recorded of a copy that was restored. -/
def recordResult (request : Request) (item : ArchiveItem) (verified : Bool) (rows : Rows) : Rows :=
  (rows.setStatus request.itemId
    (request.copyName ++ (if verified then ":verified:" else ":failed:") ++ request.now)).add
    (auditRow request item "restore_test" (.restored request.copyName verified request.destination))

/-- The body of the session. -/
def attempt (request : Request) (answer : Answer) (rows : Rows) : Except RestoreError Redirect × Rows :=
  match rows.items request.itemId with
  | none => (.error (.raised (.http 404 "archive item not found")), rows)
  | some row =>
    match (if request.copyName = "local" then restoreLocal row.item answer
        else restoreRemote row.item answer) with
    | .error (.raised e) => (.error (.raised e), rows)
    | .error (.pending requested) =>
      if request.copyName = "local" then (.error (.pending requested), rows)
      else (.ok ⟨"/restores?pending=1"⟩, recordPending request row.item requested rows)
    | .ok verified =>
      if verified then (.ok ⟨"/restores?verified=1"⟩, recordResult request row.item verified rows)
      else (.error (.raised (.http 409 "restore hash verification failed")),
        recordResult request row.item verified rows)

/-- `test_restore`, once the administrator is known. -/
def testRestore (request : Request) (answer : Answer) (rows : Rows) : Except RestoreError Redirect × Rows :=
  if request.copyName ≠ "local" ∧ request.copyName ≠ "remote" then
    (.error (.raised (.http 404 "unknown restore copy")), rows)
  else session (attempt request answer) rows

/-! ### Outcomes -/

inductive Verdict where
  | verified
  | mismatch
  | pending (requested : Bool)
deriving DecidableEq

/-- The outcomes that are no exception of the adapter. -/
inductive Reports (item : ArchiveItem) : String → Answer → Verdict → Prop
  | localVerified {snapshot : String} {sha256 : Digest} (hs : item.kopiaSnapshotId = some snapshot)
    (hd : item.plaintextSha256 = some sha256) : Reports item "local" (.restored sha256) .verified
  | localMismatch {snapshot : String} {sha256 plaintextSha256 : Digest}
    (hs : item.kopiaSnapshotId = some snapshot) (hd : item.plaintextSha256 = some plaintextSha256)
    (hne : sha256 ≠ plaintextSha256) : Reports item "local" (.restored sha256) .mismatch
  | localUnknown {answer : Answer} (h : item.kopiaSnapshotId = none ∨ item.plaintextSha256 = none) :
    Reports item "local" answer .mismatch
  | remoteVerified {receipt : ColdReceipt} {sha256 : Digest} (hr : coldReceipt item = .ok receipt)
    (hd : item.plaintextSha256 = some sha256) : Reports item "remote" (.restored sha256) .verified
  | remoteMismatch {receipt : ColdReceipt} {sha256 plaintextSha256 : Digest}
    (hr : coldReceipt item = .ok receipt) (hd : item.plaintextSha256 = some plaintextSha256)
    (hne : sha256 ≠ plaintextSha256) : Reports item "remote" (.restored sha256) .mismatch
  | remoteUnknown {answer : Answer} (h : item.plaintextSha256 = none) : Reports item "remote" answer .mismatch
  | remotePending {receipt : ColdReceipt} {plaintextSha256 : Digest} {requested : Bool}
    (hr : coldReceipt item = .ok receipt) (hd : item.plaintextSha256 = some plaintextSha256) :
    Reports item "remote" (.pending requested) (.pending requested)

/-- The rows with the status and the one event that match the outcome. -/
def recorded (request : Request) (item : ArchiveItem) (rows : Rows) : Verdict → Rows
  | .verified => recordResult request item true rows
  | .mismatch => recordResult request item false rows
  | .pending requested => recordPending request item requested rows

/-- What the workflow returns or raises for an outcome. -/
def Verdict.result : Verdict → Except RestoreError Bool
  | .verified => .ok true
  | .mismatch => .ok false
  | .pending requested => .error (.pending requested)

/-- How the request is answered. -/
def Verdict.reply : Verdict → Except RestoreError Redirect
  | .verified => .ok ⟨"/restores?verified=1"⟩
  | .mismatch => .error (.raised (.http 409 "restore hash verification failed"))
  | .pending _ => .ok ⟨"/restores?pending=1"⟩

variable {request : Request} {answer : Answer} {rows : Rows} {row : ItemRow} {verdict : Verdict}

theorem audit_recorded (request : Request) (row : ItemRow) (rows : Rows) (verdict : Verdict) :
    (recorded request row.item rows verdict).audit.length = rows.audit.length + 1 := by
  cases verdict <;> exact List.length_append

/-- A session that raises leaves the rows as they were. -/
theorem session_of_error {ε α : Type} {body : Rows → Except ε α × Rows} {e : ε}
    (h : (body rows).1 = .error e) : (session body rows).2 = rows := by
  unfold session
  generalize body rows = ended at h
  obtain ⟨result, working⟩ := ended
  cases h
  rfl

theorem session_of_ok {ε α : Type} {body : Rows → Except ε α × Rows} {a : α}
    (h : (body rows).1 = .ok a) : (session body rows).2 = (body rows).2 := by
  unfold session
  generalize body rows = ended at h
  obtain ⟨result, working⟩ := ended
  cases h
  rfl

theorem copyName_of_reports {copyName : String} (h : Reports row.item copyName answer verdict) :
    copyName = "local" ∨ copyName = "remote" := by
  cases h with
  | localVerified => exact .inl rfl
  | localMismatch => exact .inl rfl
  | localUnknown => exact .inl rfl
  | remoteVerified => exact .inr rfl
  | remoteMismatch => exact .inr rfl
  | remoteUnknown => exact .inr rfl
  | remotePending => exact .inr rfl

theorem testRestore_eq (h : Reports row.item request.copyName answer verdict) :
    testRestore request answer rows = session (attempt request answer) rows := by
  have hcopy := copyName_of_reports h
  rw [testRestore, if_neg]
  rintro ⟨hlocal, hremote⟩
  exact hcopy.elim hlocal hremote

/-- What the workflow makes of each outcome. -/
theorem restore_of_reports {copyName : String} (h : Reports row.item copyName answer verdict) :
    (if copyName = "local" then restoreLocal row.item answer else restoreRemote row.item answer) =
      verdict.result := by
  cases h with
  | localVerified hs hd => simp [restoreLocal, hs, hd, Answer.matches, Verdict.result]
  | localMismatch hs hd hne => simp [restoreLocal, hs, hd, Answer.matches, hne, Verdict.result]
  | localUnknown h =>
    rw [if_pos rfl]
    unfold restoreLocal
    rcases h with hs | hd
    · rw [hs]
      rfl
    · rw [hd]
      cases row.item.kopiaSnapshotId <;> rfl
  | remoteVerified hr hd => simp [restoreRemote, hr, hd, Answer.matches, Verdict.result]
  | remoteMismatch hr hd hne => simp [restoreRemote, hr, hd, Answer.matches, hne, Verdict.result]
  | remoteUnknown h => simp [restoreRemote, h, Verdict.result]
  | remotePending hr hd => simp [restoreRemote, hr, hd, Answer.matches, Verdict.result]

theorem remote_of_pending {copyName : String} {requested : Bool}
    (h : Reports row.item copyName answer (.pending requested)) : ¬copyName = "local" := by
  cases h with
  | remotePending => decide

theorem attempt_of_reports (hrow : rows.items request.itemId = some row)
    (h : Reports row.item request.copyName answer verdict) :
    attempt request answer rows = (verdict.reply, recorded request row.item rows verdict) := by
  unfold attempt
  simp only [hrow, restore_of_reports h]
  cases verdict with
  | verified => rfl
  | mismatch => rfl
  | pending requested =>
    simp only [Verdict.result, if_neg (remote_of_pending h)]
    rfl

end RestoreTests

open RestoreTests

def archivedItem : ArchiveItem where
  id := 1
  sourceProvider := "test"
  sourceIdentifier := "photo.jpg"
  originalPath := "photo.jpg"
  originalSize := 3
  originalModifiedAt := 0
  sourceVersion := "v1"
  state := .archived
  plaintextSha256 := some "a1"
  kopiaSnapshotId := some "item-1.snapshot"

def archivedRow : ItemRow := ⟨archivedItem, none⟩

def archivedRows : Rows := ⟨fun n => if n = 1 then some archivedRow else none, []⟩

def localRequest : Request := ⟨1, "local", "2026-07-28T10:00:00+00:00", "/srv/mnema-backup/mnema-restore-tests/item-1"⟩

end Mnema
