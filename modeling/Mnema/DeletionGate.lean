import Mnema.Models
import Mnema.Lib.Double

/-! `evaluate_deletion_gate`: the prerequisites of a source deletion. -/

namespace Mnema

structure DeletionFacts where
  localExists : Bool
  localSizeMatches : Bool
  localSha256Exists : Bool
  localSha256Matches : Bool
  kopiaVerified : Bool
  remoteVerified : Bool
  quarantineExpiresAt : Option Time
  sourceExists : Bool
  sourceUnchanged : Bool
  sourceIdentityMatches : Bool
  activeDiskHealthy : Bool
  backupDiskHealthy : Bool
  storageDevicesDiffer : Bool
  sqliteIntegrityHealthy : Bool
  remoteAvailable : Bool
  globalDeletionEnabled : Bool
  sourceDeletionEnabled : Bool
  safetyLock : Bool
  manualApprovalRequired : Bool := false
  manualApprovalGranted : Bool := false
deriving DecidableEq, Repr

structure DeletionRunUsage where
  filesDeleted : Nat
  bytesDeleted : Nat
  eligibleFiles : Nat
deriving DecidableEq, Repr

structure GateDecision where
  allowed : Bool
  blockers : List String
deriving DecidableEq, Repr

/-- `checks`, in the order the blockers are reported. -/
def DeletionFacts.checks (facts : DeletionFacts) : List (String × Bool) :=
  [("local file missing", facts.localExists),
    ("local size mismatch", facts.localSizeMatches),
    ("local SHA-256 missing", facts.localSha256Exists),
    ("local SHA-256 mismatch", facts.localSha256Matches),
    ("local Kopia backup not verified", facts.kopiaVerified),
    ("remote copy not verified", facts.remoteVerified),
    ("quarantine not configured", facts.quarantineExpiresAt.isSome),
    ("source item missing", facts.sourceExists),
    ("source changed", facts.sourceUnchanged),
    ("source identity mismatch", facts.sourceIdentityMatches),
    ("active disk unhealthy", facts.activeDiskHealthy),
    ("backup disk unhealthy", facts.backupDiskHealthy),
    ("active and backup storage share a device", facts.storageDevicesDiffer),
    ("SQLite integrity failed", facts.sqliteIntegrityHealthy),
    ("remote storage unavailable", facts.remoteAvailable),
    ("global deletion disabled", facts.globalDeletionEnabled),
    ("source deletion disabled", facts.sourceDeletionEnabled),
    ("safety lock active", !facts.safetyLock),
    ("manual approval missing", !facts.manualApprovalRequired || facts.manualApprovalGranted)]

def quarantineBlockers (expires : Option Time) (now : Time) : List String :=
  match expires with
  | some t => if now < t then ["quarantine has not elapsed"] else []
  | none => []

/-- `files / eligible * 100`, with each operation rounded to a double. -/
def deletedPercent (files eligible : Nat) : ℚ := Double.ofRat (Double.ofRat (files / eligible) * 100)

/-- The per-run caps. -/
def limitBlockers (usage : DeletionRunUsage) (limits : DeletionLimits) (itemSize : Nat) :
    List String :=
  (if limits.maxFilesDeletedPerRun < usage.filesDeleted + 1
    then ["per-run file deletion limit exceeded"] else []) ++
  (if limits.maxBytesDeletedPerRun < usage.bytesDeleted + itemSize
    then ["per-run byte deletion limit exceeded"] else []) ++
  (if usage.eligibleFiles = 0 then ["eligible file count is invalid"]
    else if limits.maxPercentageDeletedPerRun < deletedPercent (usage.filesDeleted + 1) usage.eligibleFiles
      then ["per-run percentage deletion limit exceeded"] else [])

/-- Files out of at least as many are a hundred percent at most, also when rounded. -/
theorem deletedPercent_le {files eligible : Nat} (h : files ≤ eligible) :
    deletedPercent files eligible ≤ 100 := by
  have hquotient : (0 : ℚ) ≤ files / eligible := div_nonneg (Nat.cast_nonneg _) (Nat.cast_nonneg _)
  have hone : (files : ℚ) / eligible ≤ (1 : ℤ) := by
    rw [Int.cast_one]
    refine div_le_one_of_le₀ ?_ (Nat.cast_nonneg _)
    exact_mod_cast h
  have hshare := Double.ofRat_le_int hquotient (by decide) (by decide) hone
  have hpercent : Double.ofRat ((files : ℚ) / eligible) * 100 ≤ (100 : ℤ) := by
    push_cast at hshare ⊢
    linarith
  have hnonneg : 0 ≤ Double.ofRat ((files : ℚ) / eligible) * 100 :=
    mul_nonneg (Double.ofRat_nonneg hquotient) (by decide)
  exact_mod_cast Double.ofRat_le_int hnonneg (by decide) (by decide) hpercent

def evaluateDeletionGate (facts : DeletionFacts) (usage : DeletionRunUsage)
    (limits : DeletionLimits) (itemSize : Nat) (now : Time) : GateDecision :=
  let blockers := (facts.checks.filter (fun c => !c.2)).map (·.1) ++
    quarantineBlockers facts.quarantineExpiresAt now ++ limitBlockers usage limits itemSize
  ⟨blockers.isEmpty, blockers⟩

/-- What an allowed decision passed. -/
theorem allowed_iff {facts : DeletionFacts} {usage : DeletionRunUsage} {limits : DeletionLimits}
    {itemSize : Nat} {now : Time} :
    (evaluateDeletionGate facts usage limits itemSize now).allowed = true ↔
      (∀ c ∈ facts.checks, c.2 = true) ∧ quarantineBlockers facts.quarantineExpiresAt now = [] ∧
        limitBlockers usage limits itemSize = [] := by
  simp only [evaluateDeletionGate, List.isEmpty_iff, List.append_eq_nil_iff, List.map_eq_nil_iff,
    List.filter_eq_nil_iff, Bool.not_eq_true', Bool.not_eq_false, and_assoc]

/-- An allowed decision passed every check of the table. -/
theorem checks_of_allowed {facts : DeletionFacts} {usage : DeletionRunUsage}
    {limits : DeletionLimits} {itemSize : Nat} {now : Time}
    (h : (evaluateDeletionGate facts usage limits itemSize now).allowed = true) :
    ∀ c ∈ facts.checks, c.2 = true :=
  (allowed_iff.mp h).1

/-- An allowed decision needs a quarantine that has elapsed. -/
theorem expired_of_allowed {facts : DeletionFacts} {usage : DeletionRunUsage}
    {limits : DeletionLimits} {itemSize : Nat} {now : Time}
    (h : (evaluateDeletionGate facts usage limits itemSize now).allowed = true) :
    ∃ t, facts.quarantineExpiresAt = some t ∧ t ≤ now := by
  have hc := checks_of_allowed h ("quarantine not configured", facts.quarantineExpiresAt.isSome)
    (by simp [DeletionFacts.checks])
  obtain ⟨t, ht⟩ := Option.isSome_iff_exists.mp hc
  refine ⟨t, ht, ?_⟩
  have hq := (allowed_iff.mp h).2.1
  simp only [ht, quarantineBlockers, ite_eq_right_iff, reduceCtorEq, imp_false] at hq
  exact Int.not_lt.mp hq

end Mnema
