import Mnema.ReceiptChain

/-! What an allowed deletion decision rests on. The decision reads stored timestamps,
and these outlive the digest and the receipts they were recorded with. -/

namespace Mnema

open ArchiveWorkflow

/-- The verifications of the item's snapshot and remote receipt against its digest, and
then the quarantine expiry it carries. -/
def EvidenceCurrent (log : List Event) (item : ArchiveItem) : Prop :=
  ∃ sha snapshot receipt expires quarantined,
    item.plaintextSha256 = some sha ∧ item.kopiaSnapshotId = some snapshot ∧
    coldReceipt item = .ok receipt ∧ item.quarantineExpiresAt = some expires ∧
    quarantined.id = item.id ∧ quarantined.state = .quarantined ∧
    quarantined.quarantineExpiresAt = some expires ∧
    [.backupVerified snapshot sha, .coldVerified receipt sha, .committed quarantined].Sublist log

/-- What the item carries is what it was quarantined with. -/
def AsQuarantined (log : List Event) (item : ArchiveItem) : Prop :=
  ∃ q, .committed q ∈ log ∧ q.id = item.id ∧ q.state = .quarantined ∧
    q.quarantineExpiresAt = item.quarantineExpiresAt ∧
    q.plaintextSha256 = item.plaintextSha256 ∧ q.kopiaSnapshotId = item.kopiaSnapshotId ∧
    coldReceipt q = coldReceipt item

/-- The verifications precede the version that was quarantined. -/
theorem sublist_of_chain {log before after : List Event} {q : ArchiveItem}
    (hl : log = before ++ .committed q :: after) (hq : q.state = .quarantined)
    (hc : Chain (before ++ [.committed q]) q) :
    ∃ sha snapshot receipt, q.plaintextSha256 = some sha ∧ q.kopiaSnapshotId = some snapshot ∧
      coldReceipt q = .ok receipt ∧
      [.backupVerified snapshot sha, .coldVerified receipt sha, .committed q].Sublist log := by
  obtain ⟨front, staged, back, hs, hst, es, hes, hsub⟩ := hc 3 (by rw [hq]; rfl)
  cases hes with
  | @archived snapshot sha receipt h₁ h₂ h₃ =>
    refine ⟨sha, snapshot, receipt, h₂, h₁, h₃, ?_⟩
    have hall : [.backupVerified snapshot sha, .coldVerified receipt sha, .coldArchived receipt].Sublist
        (before ++ [.committed q]) := by
      rw [hs]
      exact hsub.trans ((List.sublist_cons_self _ _).trans (List.sublist_append_right _ _))
    obtain ⟨l₁, l₂, he, hl₁, hl₂⟩ := List.sublist_append_iff.mp hall
    have hnil : l₂ = [] := by
      rcases List.sublist_singleton.mp hl₂ with h | rfl
      · exact h
      · simpa using congrArg List.getLast? he
    have hbefore : [.backupVerified snapshot sha, .coldVerified receipt sha].Sublist before := by
      rw [hnil, List.append_nil] at he
      have hb : [.backupVerified snapshot sha, .coldVerified receipt sha, .coldArchived receipt].Sublist
          before := he ▸ hl₁
      exact (List.sublist_append_left [_, _] [_]).trans hb
    rw [hl]
    exact hbefore.append ((List.nil_sublist after).cons_cons (.committed q))

/-- An allowed decision read a quarantine expiry, and it had elapsed. -/
theorem expiry_of_allowed {σ : Type} {X : ExtEnv σ} {w w' : World σ} {wf : ArchiveWorkflow}
    {item : ArchiveItem} {c : DeletionContext} {decision : GateDecision}
    (hrun : Prog.Steps (World.env X) (w, wf.deletionDecision item c) (w', .ret decision))
    (ha : decision.allowed = true) :
    ∃ expires, item.quarantineExpiresAt = some expires ∧ expires ≤ c.now := by
  have hq : Quiet (fun d => d.allowed = true →
      ∃ expires, item.quarantineExpiresAt = some expires ∧ expires ≤ c.now)
      (wf.deletionDecision item c) := by
    simp only [deletionDecision, Prog.calls_bind]
    refine (outside_sourceFacts wf).quiet.mono (fun _ _ => ?_) fun _ _ => trivial
    refine outside_localFacts.quiet.mono (fun _ _ => ?_) fun _ _ => trivial
    exact Prog.Calls.mono (silent_ext rfl).quiet (fun _ _ h => expired_of_allowed h) fun _ _ => trivial
  exact hq.steps hrun ha

/-- In every run, an allowed decision on an item that still carries what it was quarantined
with rests on verifications of its snapshot and its remote receipt against its digest, and on
an expiry recorded after them. -/
theorem evidence_of_asQuarantined {σ : Type} {X : ExtEnv σ} {x : σ} {w w' : World σ}
    (hr : (runs X (Call anyItem) anyOp).Reachable (World.fresh x) (w, none)) {wf : ArchiveWorkflow}
    {item : ArchiveItem} {c : DeletionContext} {decision : GateDecision}
    (hrun : Prog.Steps (World.env X) (w, wf.deletionDecision item c) (w', .ret decision))
    (ha : decision.allowed = true) (hq : AsQuarantined w.log item) :
    EvidenceCurrent w.log item := by
  obtain ⟨q, hmem, hid, hs, he, hsha, hsnap, hrec⟩ := hq
  obtain ⟨expires, hexp, -⟩ := expiry_of_allowed hrun ha
  have hh := ((chain_invariant X anyOp).reachable (fun _ _ hr hp => call_sound hr hp) hr).history
  obtain ⟨before, after, hl⟩ := List.append_of_mem hmem
  obtain ⟨sha, snapshot, receipt, h₁, h₂, h₃, hsub⟩ :=
    sublist_of_chain hl hs (RowInvariant.History.of_append hh before q after hl)
  exact ⟨sha, snapshot, receipt, expires, q, hsha ▸ h₁, hsnap ▸ h₂, hrec ▸ h₃, hexp, hid, hs,
    he.trans hexp, hsub⟩

/-- The context of a decision to which nothing but the item itself can be an obstacle. -/
def favourable (now : Time) : DeletionContext where
  activeDiskHealthy := true
  backupDiskHealthy := true
  storageDevicesDiffer := true
  sqliteIntegrityHealthy := true
  globalDeletionEnabled := true
  safetyLock := false
  usage := ⟨0, 0, 100⟩
  limits := {}
  manualApprovalGranted := true
  now := now

/-- Whether the decision of the host on `item` allows its deletion. -/
def allows (w : World Host) (item : ArchiveItem) (now : Time) : Bool :=
  match (deletingWorkflow.deletionDecision item (favourable now)).exec (World.onHost .plain id) w with
  | (.ok decision, _) => decision.allowed
  | (.error _, _) => false

theorem steps_of_allows {w : World Host} {item : ArchiveItem} {now : Time}
    (h : allows w item now = true) :
    ∃ w' decision, Prog.Steps (World.env (Host.env .plain))
      (w, deletingWorkflow.deletionDecision item (favourable now)) (w', .ret decision) ∧
      decision.allowed = true := by
  have hs := Prog.exec_steps (onHost_id (c := .plain))
    (deletingWorkflow.deletionDecision item (favourable now)) w
  unfold allows at h
  split at h
  case h_1 decision w' he => exact ⟨w', decision, by rw [he] at hs; exact hs, h⟩
  case h_2 => simp at h

theorem evidence_of_asQuarantined_archivedOnce :
    ∃ item ∈ archivedOnce.txn.items.rows, EvidenceCurrent archivedOnce.log item := by
  obtain ⟨item, hi, hq, hs, ha⟩ : ∃ item ∈ archivedOnce.txn.items.rows,
      .committed item ∈ archivedOnce.log ∧ item.state = .quarantined ∧
      allows archivedOnce item 604800 = true := by decide +kernel
  obtain ⟨w', decision, hrun, hd⟩ := steps_of_allows ha
  exact ⟨item, hi, evidence_of_asQuarantined reachable_archivedOnce hrun hd
    ⟨item, hq, rfl, hs, rfl, rfl, rfl, rfl⟩⟩

/-- The object of `archivedOnce` gets new bytes, and is scanned and archived again: the
pipeline stops where the snapshot of the old bytes fails its verification. -/
def restaged : World Host :=
  let changed := Host.holding second [2]
  let w := (archivedOnce.commit.after .plain changed (plainWorkflow.discover 1).void).commit
  (w.after .plain changed (onItem w 1 fun item => (plainWorkflow.archive item).void)).rollback

theorem reachable_restaged :
    (runs (Host.env .plain) (Call anyItem) anyOp).Reachable
      (World.fresh (Host.start [(first, [1])])) (restaged, none) := by
  have hf : OnHost .plain (Host.holding second [2]) (Host.env .plain) :=
    onHost_env (Host.drift_holding second [2])
  exact .abort (reachable_after_onItem (.close (reachable_after reachable_archivedOnce.close
    (.discover plainWorkflow 1) hf)) (fun _ hi => .archive plainWorkflow hi) hf)

/-- The digest a backup verification was made against. -/
def Event.backupDigest : Event → Option Digest
  | .backupVerified _ sha => some sha
  | _ => none

/-- The deletion of the new bytes is allowed on the verifications of the old ones. -/
theorem stale_evidence_allows : ∃ (w w' : World Host) (item : ArchiveItem)
    (decision : GateDecision),
    (runs (Host.env .plain) (Call anyItem) anyOp).Reachable
      (World.fresh (Host.start [(first, [1])])) (w, none) ∧
    w.db.items.get item.id = some item ∧
    Prog.Steps (World.env (Host.env .plain))
      (w, deletingWorkflow.deletionDecision item (favourable 604800)) (w', .ret decision) ∧
    decision.allowed = true ∧ ¬ EvidenceCurrent w.log item := by
  obtain ⟨item, hi, hn, ha⟩ : ∃ item ∈ restaged.db.items.rows,
      (∀ e ∈ restaged.log, e.backupDigest = item.plaintextSha256 → False) ∧
      allows restaged item 604800 = true := by decide +kernel
  obtain ⟨w', decision, hrun, hd⟩ := steps_of_allows ha
  refine ⟨restaged, w', item, decision, reachable_restaged, Table.get_of_mem hi, hrun, hd, ?_⟩
  rintro ⟨sha, snapshot, receipt, expires, q, hsha, -, -, -, -, -, -, hsub⟩
  exact hn _ (hsub.subset List.mem_cons_self) hsha.symm

end Mnema
