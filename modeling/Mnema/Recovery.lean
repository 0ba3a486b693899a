import Mnema.Uploads

/-! Startup reconciliation: what a restart does to items whose last step was cut off. -/

namespace Mnema

def retryAfterRestart : List ArchiveState := [.downloading, .restoring]

def resumeInPlace : List ArchiveState :=
  [.localBackupPending, .coldUploadPending, .coldArchivePending]

def liveUploadStates : List FileProviderUploadStatus := [.openUpload, .sealing]

def awaitingClientUpload (item : ArchiveItem) : Flow Bool := do
  if item.sourceProvider = uploadProvider then
    match ← db (.uploadOf item.id) with
    | some upload => pure (liveUploadStates.contains upload.status)
    | none => pure false
  else pure false

/-- What reconciliation does to one selected item; the count tells whether it did anything. -/
def reconcileItem (item : ArchiveItem) : Flow Nat := do
  if item.state = .deleting then
    let _ ← transitionItem item .manualReview "startup-recovery"
    pure 1
  else if item.state ∈ resumeInPlace then
    db (.addEvent
      ⟨item.id, "interrupted_step_resumed", item.state, item.state, "startup-recovery"⟩)
    pure 1
  else if ← awaitingClientUpload item then pure 0
  else
    let _ ← transitionItem item .failedRetryable "startup-recovery"
    pure 1

def reconcileItems : List ArchiveItem → Flow Nat
  | [] => pure 0
  | item :: rest => do
    let n ← reconcileItem item
    let reconciled ← reconcileItems rest
    pure (n + reconciled)

def reconcileInterruptedItems (onlyDeletions : Bool) : Flow Nat := do
  let items ← db (.itemsInStates
    (if onlyDeletions then [.deleting] else .deleting :: (retryAfterRestart ++ resumeInPlace)))
  reconcileItems items

end Mnema
