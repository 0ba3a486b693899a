/-! The archive states, the transition graph and the exceptions the program raises. -/

namespace Mnema

/-- Exceptions by class, with their text. `exit` stands for a `BaseException`
that is not an `Exception`: cancellation, `SystemExit`. -/
inductive PyError where
  | sourceChanged (text : String)
  | verificationFailure (text : String)
  | runtime (text : String)
  | unsafePath (text : String)
  | invalidTransition (text : String)
  | value (text : String)
  | fileNotFound (text : String)
  | permission (text : String)
  | os (text : String)
  | index (text : String)
  | assertion (text : String)
  | integrity (text : String)
  | zeroDivision (text : String)
  | http (status : Nat) (detail : String)
  | exit (text : String)
deriving DecidableEq, Repr

namespace PyError

def isOSError : PyError → Bool
  | .fileNotFound _ | .permission _ | .os _ => true
  | _ => false

def isValueError : PyError → Bool
  | .value _ | .unsafePath _ | .invalidTransition _ => true
  | _ => false

def isRuntimeError : PyError → Bool
  | .runtime _ | .sourceChanged _ | .verificationFailure _ => true
  | _ => false

def isException : PyError → Bool
  | .exit _ => false
  | _ => true

end PyError

inductive ArchiveState where
  | discovered
  | ineligible
  | eligible
  | queued
  | downloading
  | localStaged
  | localVerified
  | localCommitted
  | localBackupPending
  | localBackupVerified
  | coldUploadPending
  | coldUploaded
  | coldVerified
  | coldArchivePending
  | coldArchived
  | quarantined
  | readyForRevalidation
  | readyForDeletion
  | deleting
  | deletedFromSource
  | archived
  | restoreRequested
  | restoring
  | restored
  | sourceChanged
  | failedRetryable
  | manualReview
  | testCleaned
deriving DecidableEq, Repr

def ArchiveState.value : ArchiveState → String
  | .discovered => "DISCOVERED"
  | .ineligible => "INELIGIBLE"
  | .eligible => "ELIGIBLE"
  | .queued => "QUEUED"
  | .downloading => "DOWNLOADING"
  | .localStaged => "LOCAL_STAGED"
  | .localVerified => "LOCAL_VERIFIED"
  | .localCommitted => "LOCAL_COMMITTED"
  | .localBackupPending => "LOCAL_BACKUP_PENDING"
  | .localBackupVerified => "LOCAL_BACKUP_VERIFIED"
  | .coldUploadPending => "COLD_UPLOAD_PENDING"
  | .coldUploaded => "COLD_UPLOADED"
  | .coldVerified => "COLD_VERIFIED"
  | .coldArchivePending => "COLD_ARCHIVE_PENDING"
  | .coldArchived => "COLD_ARCHIVED"
  | .quarantined => "QUARANTINED"
  | .readyForRevalidation => "READY_FOR_REVALIDATION"
  | .readyForDeletion => "READY_FOR_DELETION"
  | .deleting => "DELETING"
  | .deletedFromSource => "DELETED_FROM_SOURCE"
  | .archived => "ARCHIVED"
  | .restoreRequested => "RESTORE_REQUESTED"
  | .restoring => "RESTORING"
  | .restored => "RESTORED"
  | .sourceChanged => "SOURCE_CHANGED"
  | .failedRetryable => "FAILED_RETRYABLE"
  | .manualReview => "MANUAL_REVIEW"
  | .testCleaned => "TEST_CLEANED"

namespace ArchiveState

def all : List ArchiveState :=
  [.discovered, .ineligible, .eligible, .queued, .downloading, .localStaged, .localVerified,
    .localCommitted, .localBackupPending, .localBackupVerified, .coldUploadPending,
    .coldUploaded, .coldVerified, .coldArchivePending, .coldArchived, .quarantined,
    .readyForRevalidation, .readyForDeletion, .deleting, .deletedFromSource, .archived,
    .restoreRequested, .restoring, .restored, .sourceChanged, .failedRetryable, .manualReview,
    .testCleaned]

theorem mem_all (s : ArchiveState) : s ∈ all := by cases s <;> decide

instance (p : ArchiveState → Prop) [DecidablePred p] : Decidable (∀ s, p s) :=
  decidable_of_iff (∀ s ∈ all, p s) ⟨fun h s => h s (mem_all s), fun h s _ => h s⟩

end ArchiveState

/-- `_LINEAR`. -/
def linear : List ArchiveState :=
  [.discovered, .eligible, .queued, .downloading, .localStaged, .localVerified, .localCommitted,
    .localBackupPending, .localBackupVerified, .coldUploadPending, .coldUploaded, .coldVerified,
    .coldArchivePending, .coldArchived, .quarantined, .readyForRevalidation, .readyForDeletion,
    .deleting, .deletedFromSource, .archived]

/-- The single successor in `_LINEAR`, for the states the second table does not replace. -/
def linearNext (s : ArchiveState) : List ArchiveState :=
  ((linear.zip linear.tail).filter (fun e => e.1 == s)).map (·.2)

/-- `ALLOWED_TRANSITIONS`; a state that is no key has no successor. -/
def allowedTransitions : ArchiveState → List ArchiveState
  | .discovered => [.eligible, .ineligible]
  | .ineligible => [.eligible, .ineligible]
  | .sourceChanged => [.queued]
  | .failedRetryable => [.queued, .manualReview]
  | .manualReview => [.queued]
  | .localStaged => [.localVerified, .testCleaned]
  | .archived => [.restoreRequested]
  | .restoreRequested => [.restoring]
  | .restoring => [.restored, .failedRetryable]
  | .restored => [.archived]
  | s => linearNext s

/-- `_FAILURE_TARGETS`. -/
def failureTargets : List ArchiveState := [.failedRetryable, .manualReview, .sourceChanged]

def validTransition (current target : ArchiveState) : Bool :=
  target == current || (allowedTransitions current ++ failureTargets).contains target

def validateTransition (current target : ArchiveState) : Except PyError Unit :=
  if validTransition current target then .ok ()
  else .error (.invalidTransition
    ("invalid archive transition: " ++ current.value ++ " -> " ++ target.value))

theorem validateTransition_ok_iff (current target : ArchiveState) :
    validateTransition current target = .ok () ↔ validTransition current target = true := by
  unfold validateTransition
  cases validTransition current target <;> simp

/-- `DELETING` is entered from `READY_FOR_DELETION` alone, or from itself. -/
theorem validTransition_deleting (s : ArchiveState) :
    validTransition s .deleting = true ↔ s = .readyForDeletion ∨ s = .deleting := by
  revert s; decide

/-- Staged bytes are recorded for a download in progress, or again for themselves. -/
theorem validTransition_localStaged (s : ArchiveState) :
    validTransition s .localStaged = true ↔ s = .downloading ∨ s = .localStaged := by
  revert s; decide

end Mnema
