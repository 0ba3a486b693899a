import Mnema.Rules

/-! What each function may do to an item row, and the discipline its writes keep:
a row of the pipeline is overwritten only once it is durable. -/

namespace Mnema

/-! ### The discipline of writes -/

/-- States that are made durable as soon as they are written. -/
def checkpointed : List ArchiveState :=
  [.localVerified, .localCommitted, .localBackupPending, .localBackupVerified,
    .coldUploadPending, .coldUploaded, .coldVerified, .coldArchivePending, .coldArchived,
    .quarantined, .readyForRevalidation, .readyForDeletion, .deleting]

/-- The part of them that `archive` writes. -/
def inPipeline : List ArchiveState :=
  [.localVerified, .localCommitted, .localBackupPending, .localBackupVerified,
    .coldUploadPending, .coldUploaded, .coldVerified, .coldArchivePending, .coldArchived,
    .quarantined]

theorem checkpointed_of_inPipeline {s : ArchiveState} (h : s ∈ inPipeline) : s ∈ checkpointed := by
  revert s; decide

namespace World

variable {σ : Type} {w w' : World σ} {item row : ArchiveItem} {event : AuditEvent}

/-- The durable row of the item, with no other version of it on its way. -/
def Durable (w : World σ) (item : ArchiveItem) : Prop :=
  w.db.items.get item.id = some item ∧ ∀ r ∈ w.pend, r.id ≠ item.id

/-- Nothing checkpointed awaits its commit. -/
def Settled (w : World σ) : Prop := ∀ r ∈ w.pend, r.state ∉ checkpointed

/-- A row of the open transaction is its latest pending version, or the durable row. -/
def Linked (w : World σ) : Prop :=
  ∀ item, w.txn.items.get item.id = some item → item ∈ w.pend ∨ w.Durable item

structure Ready (w : World σ) : Prop where
  settled : w.Settled
  linked : w.Linked

/-- The session's own view of `item` is `item`. -/
structure Loaded (w : World σ) (item : ArchiveItem) : Prop where
  get : w.txn.items.get item.id = some item
  ready : w.Ready

theorem Loaded.durable (h : w.Loaded item) (hs : item.state ∈ checkpointed) : w.Durable item :=
  (h.ready.linked item h.get).resolve_left fun hm => h.ready.settled item hm hs

theorem Ready.of_same (h : w.Ready) (hs : w.SameRows w') : w'.Ready := by
  refine ⟨fun r hr => h.settled r (hs.pend ▸ hr), fun i hi => ?_⟩
  rw [hs.txn] at hi
  unfold Durable
  rw [hs.pend, hs.db]
  exact h.linked i hi

theorem Loaded.of_same (h : w.Loaded item) (hs : w.SameRows w') : w'.Loaded item :=
  ⟨hs.txn ▸ h.get, h.ready.of_same hs⟩

theorem Linked.write (h : w.Linked) (row : ArchiveItem) : (w.write row).Linked := by
  intro i hi
  rw [items_write] at hi
  by_cases hid : i.id = row.id
  · rw [Table.get_put, if_pos hid] at hi
    obtain ⟨_, _, rfl⟩ := Option.map_eq_some_iff.mp hi
    exact .inl (List.mem_append_right _ (List.mem_singleton_self _))
  · rw [Table.get_put_of_ne hid] at hi
    rcases h i hi with hm | ⟨hd, hp⟩
    · exact .inl (List.mem_append_left _ hm)
    · refine .inr ⟨hd, fun r hr => ?_⟩
      rcases List.mem_append.mp hr with hr | hr
      · exact hp r hr
      · exact fun he => hid (he ▸ List.mem_singleton.mp hr ▸ rfl)

theorem Linked.flush (h : w.Linked) (row : ArchiveItem) (event : AuditEvent) :
    (w.flush row event).Linked :=
  h.write row

theorem ready_commit : w.commit.Ready :=
  ⟨fun _ hr => absurd hr List.not_mem_nil,
    fun _ hi => .inr ⟨hi, fun _ hr => absurd hr List.not_mem_nil⟩⟩

theorem ready_rollback : w.rollback.Ready :=
  ⟨fun _ hr => absurd hr List.not_mem_nil,
    fun _ hi => .inr ⟨hi, fun _ hr => absurd hr List.not_mem_nil⟩⟩

theorem Loaded.flushed (h : w.txn.items.get row.id = some item) :
    (w.flush row event).txn.items.get row.id = some row :=
  Table.get_put_self h

theorem Ready.write (h : w.Ready) (hs : row.state ∉ checkpointed) : (w.write row).Ready := by
  refine ⟨fun r hr => ?_, h.linked.write row⟩
  rcases List.mem_append.mp hr with hr | hr
  · exact h.settled r hr
  · exact List.mem_singleton.mp hr ▸ hs

theorem Ready.flush (h : w.Ready) (hs : row.state ∉ checkpointed) : (w.flush row event).Ready :=
  ⟨(h.write hs).settled, h.linked.flush row event⟩

theorem newItemId_not_mem (d : Db) : d.newItemId ∉ d.items.rows.map (·.id) := by
  intro hm
  have hle := le_foldl_max hm
  simp only [Db.newItemId] at hle
  omega

theorem get_newItemId (d : Db) : d.items.get d.newItemId = none :=
  Table.get_eq_none_iff.mpr (newItemId_not_mem d)

theorem Linked.addItem (h : w.Linked) (row : ArchiveItem) : (w.addItem row).Linked := by
  intro i hi
  rw [items_addItem] at hi
  by_cases hid : i.id = w.txn.newItemId
  · have hg := Table.get_insert_self (r := { row with id := w.txn.newItemId })
      (get_newItemId w.txn)
    rw [hid, hg] at hi
    exact .inl (List.mem_append_right _ (List.mem_singleton.mpr (Option.some.inj hi).symm))
  · rw [Table.get_insert_of_ne (t := w.txn.items) hid] at hi
    rcases h i hi with hm | ⟨hd, hp⟩
    · exact .inl (List.mem_append_left _ hm)
    · refine .inr ⟨hd, fun r hr => ?_⟩
      rcases List.mem_append.mp hr with hr | hr
      · exact hp r hr
      · exact fun he => hid (he ▸ List.mem_singleton.mp hr ▸ rfl)

theorem Loaded.added (h : w.Ready) (hs : row.state ∉ checkpointed) :
    (w.addItem row).Loaded { row with id := w.txn.newItemId } := by
  refine ⟨Table.get_insert_self (get_newItemId w.txn), fun r hr => ?_, h.linked.addItem row⟩
  rcases List.mem_append.mp hr with hr | hr
  · exact h.settled r hr
  · exact List.mem_singleton.mp hr ▸ hs

end World

/-! ### Moves -/

/-- What `discover` may do to a row. -/
inductive ScanMove (log : List Event) (old : ArchiveItem) : ArchiveItem → Prop where
  | accepted {source : SourceObject} (hs : old.state = .discovered ∨ old.state = .ineligible)
      (hm : sourceMatches old source = true)
      (hl : log.getLast? = some (.judgedEligible source)) :
      ScanMove log old { old with state := .eligible }
  | rejected (hs : old.state = .discovered ∨ old.state = .ineligible) :
      ScanMove log old { old with state := .ineligible }
  | changed : ScanMove log old { old with state := .sourceChanged }
  | metadata (source : SourceObject) (hs : old.state = .sourceChanged) :
      ScanMove log old (ArchiveWorkflow.withMetadata old source)

/-- The transitions of `archive` that change the state alone. -/
def archiveSteps : List (ArchiveState × ArchiveState) :=
  [(.eligible, .queued), (.sourceChanged, .queued), (.failedRetryable, .queued),
    (.manualReview, .queued), (.queued, .downloading), (.downloading, .sourceChanged),
    (.localStaged, .localVerified), (.localCommitted, .localBackupPending),
    (.localBackupVerified, .coldUploadPending), (.coldVerified, .coldArchivePending)]

/-- What `archive` may do to a row, for a workflow of the source `provider`. -/
inductive ArchiveMove (provider : String) (log : List Event) (old : ArchiveItem) :
    ArchiveItem → Prop where
  | step {target : ArchiveState} (hs : (old.state, target) ∈ archiveSteps) :
      ArchiveMove provider log old { old with state := target }
  | staged {r : DownloadReceipt} (hs : old.state = .downloading)
      (hl : log.getLast? = some (.downloaded provider old.sourceIdentifier r)) :
      ArchiveMove provider log old
        { old with plaintextSha256 := some r.sha256, state := .localStaged }
  | placed (path : Path) (now : Time) (hs : old.state = .localVerified) :
      ArchiveMove provider log old
        { old with nasPath := some path, nasVerifiedAt := some now, state := .localCommitted }
  | backedUp {snapshotId : String} {sha : Digest} (now : Time)
      (hs : old.state = .localBackupPending) (hsha : old.plaintextSha256 = some sha)
      (hl : log.getLast? = some (.backupVerified snapshotId sha)) :
      ArchiveMove provider log old
        { old with
          kopiaSnapshotId := some snapshotId, kopiaVerifiedAt := some now
          state := .localBackupVerified }
  | uploaded (r : ColdReceipt) (now : Time) (hs : old.state = .coldUploadPending) :
      ArchiveMove provider log old { recordColdReceipt old r now with state := .coldUploaded }
  | verified {r : ColdReceipt} {sha : Digest} (now : Time) (hs : old.state = .coldUploaded)
      (hr : coldReceipt old = .ok r) (hsha : old.plaintextSha256 = some sha)
      (hl : log.getLast? = some (.coldVerified r sha)) :
      ArchiveMove provider log old
        { old with
          remoteVerifiedAt := some now
          remoteVerificationMethod := some "download-decrypt-sha256"
          state := .coldVerified }
  | archived {r : ColdReceipt} (now : Time) (hs : old.state = .coldArchivePending)
      (hr : coldReceipt old = .ok r) (hl : log.getLast? = some (.coldArchived r)) :
      ArchiveMove provider log old { old with coldArchivedAt := some now, state := .coldArchived }
  | quarantined (expires : Time) (hs : old.state = .coldArchived) :
      ArchiveMove provider log old
        { old with quarantineExpiresAt := some expires, state := .quarantined }

/-- The states from which the deletion of an item may be entered. -/
def deletable : List ArchiveState := [.quarantined, .readyForRevalidation, .readyForDeletion]

/-- The transitions of `delete_test_item` that change the state alone. -/
def deletionSteps : List (ArchiveState × ArchiveState) :=
  [(.quarantined, .readyForRevalidation), (.readyForRevalidation, .readyForDeletion),
    (.readyForDeletion, .deleting), (.deleting, .deleting), (.deleting, .manualReview),
    (.deletedFromSource, .archived)]

/-- What `delete_test_item` may do to a row. -/
inductive DeletionMove (old : ArchiveItem) : ArchiveItem → Prop where
  | step {target : ArchiveState} (hs : (old.state, target) ∈ deletionSteps) :
      DeletionMove old { old with state := target }
  | changed : DeletionMove old { old with state := .sourceChanged }
  | deleted (now : Time) (hs : old.state = .deleting) :
      DeletionMove old { old with deletionTimestamp := some now, state := .deletedFromSource }

/-- What the upload service may do to a row. -/
inductive UploadMove (old : ArchiveItem) : ArchiveItem → Prop where
  | accepted (hs : old.state = .discovered) : UploadMove old { old with state := .eligible }
  | queued (hs : old.state = .eligible) : UploadMove old { old with state := .queued }
  | receiving (hs : old.state = .queued) : UploadMove old { old with state := .downloading }
  | sealed (sha : Digest) (hs : old.state = .downloading ∨ old.state = .localStaged) :
      UploadMove old { old with plaintextSha256 := some sha, state := .localStaged }
  | expired : UploadMove old { old with state := .manualReview }

/-- What startup reconciliation may do to a row. -/
inductive RecoveryMove (old : ArchiveItem) : ArchiveItem → Prop where
  | review (hs : old.state = .deleting) : RecoveryMove old { old with state := .manualReview }
  | retry (hs : old.state = .downloading ∨ old.state = .restoring) :
      RecoveryMove old { old with state := .failedRetryable }

/-- What any call but a deletion may do. -/
inductive ServiceMove (log : List Event) (old new : ArchiveItem) : Prop where
  | scan (h : ScanMove log old new)
  | archive {provider : String} (h : ArchiveMove provider log old new)
  | upload (h : UploadMove old new)
  | recovery (h : RecoveryMove old new)

/-- What any call may do. -/
inductive Move (log : List Event) (old new : ArchiveItem) : Prop where
  | service (h : ServiceMove log old new)
  | deletion (h : DeletionMove old new)

/-- Moves by their actor, the events before them and the two versions. -/
abbrev Moves := String → List Event → ArchiveItem → ArchiveItem → Prop

/-- The moves of a scan, which signs them. -/
def scannerMove : Moves := fun actor log old new => actor = "scanner" ∧ ScanMove log old new

/-- The moves of the deletion of one item. -/
def deletionOf (id : Nat) : Moves := fun _ _ old new => old.id = id ∧ DeletionMove old new

/-- An operation of a call whose writes to item rows are the moves `M`. -/
def Conforms {σ : Type} (M : Moves) (w : World σ) : Op → Prop
  | .db (.flush row event) =>
    ∃ old, w.txn.items.get row.id = some old ∧ M event.actor w.log old row ∧
      (old.state ∈ inPipeline → w.Durable old)
  | .db (.save row) =>
    ∃ old, w.txn.items.get row.id = some old ∧ (∃ actor, M actor w.log old row) ∧
      (old.state ∈ inPipeline → w.Durable old)
  | .db (.addItem row) => row.state = .discovered
  | .ext (.sourceDelete _ sourceId version) =>
    w.pend = [] ∧ ∃ item, w.db.items.get item.id = some item ∧ item.state = .deleting ∧
      item.sourceIdentifier = sourceId ∧ item.sourceVersion = version
  | _ => True

end Mnema
