import Mnema.Host

/-! The receipts an item's state stands for: what has been verified of the staged
bytes since their digest was recorded. -/

namespace Mnema

/-- How many of the three receipts a state stands for; `none` where it stands for nothing. -/
def ArchiveState.receipts : ArchiveState → Option Nat
  | .localStaged | .localVerified | .localCommitted | .localBackupPending => some 0
  | .localBackupVerified | .coldUploadPending | .coldUploaded => some 1
  | .coldVerified | .coldArchivePending => some 2
  | .coldArchived | .quarantined | .readyForRevalidation | .readyForDeletion | .deleting
  | .deletedFromSource | .archived => some 3
  | _ => none

/-- The first `n` receipts of the item, in the order they were obtained. -/
inductive Receipts (item : ArchiveItem) : Nat → List Event → Prop where
  | staged : Receipts item 0 []
  | backedUp {snapshot : String} {sha : Digest} (hs : item.kopiaSnapshotId = some snapshot)
      (hd : item.plaintextSha256 = some sha) :
      Receipts item 1 [.backupVerified snapshot sha]
  | verified {snapshot : String} {sha : Digest} {r : ColdReceipt}
      (hs : item.kopiaSnapshotId = some snapshot) (hd : item.plaintextSha256 = some sha)
      (hr : coldReceipt item = .ok r) :
      Receipts item 2 [.backupVerified snapshot sha, .coldVerified r sha]
  | archived {snapshot : String} {sha : Digest} {r : ColdReceipt}
      (hs : item.kopiaSnapshotId = some snapshot) (hd : item.plaintextSha256 = some sha)
      (hr : coldReceipt item = .ok r) :
      Receipts item 3 [.backupVerified snapshot sha, .coldVerified r sha, .coldArchived r]

/-- `staged` recorded the digest of `item`, and it is recorded still in every version
of the item among `after`. -/
structure StagedBefore (item staged : ArchiveItem) (after : List Event) : Prop where
  id : staged.id = item.id
  state : staged.state = .localStaged
  sha : staged.plaintextSha256 = item.plaintextSha256
  since : ∀ r, .committed r ∈ after → r.id = item.id →
    r.state ≠ .localStaged ∧ r.plaintextSha256 = item.plaintextSha256

/-- The receipts that the item's state stands for were obtained since its digest was recorded. -/
def Chain (log : List Event) (item : ArchiveItem) : Prop :=
  ∀ n, item.state.receipts = some n → ∃ before staged after, log = before ++ .committed staged :: after ∧
    StagedBefore item staged after ∧ ∃ es, Receipts item n es ∧ es.Sublist after

theorem Event.ne_committed {e : Event} (h : e.isCommitted = false) (row : ArchiveItem) :
    e ≠ .committed row := by
  rintro rfl
  simp [Event.isCommitted] at h

section Lists

variable {log front back es : List Event} {e : Event}

theorem sublist_snoc_of_getLast (h : es.Sublist log) (hl : log.getLast? = some e) (hn : e ∉ es) :
    (es ++ [e]).Sublist log := by
  obtain ⟨init, rfl⟩ := List.getLast?_eq_some_iff.mp hl
  obtain ⟨l₁, l₂, rfl, h₁, h₂⟩ := List.sublist_append_iff.mp h
  have : l₂ = [] := by
    rcases List.sublist_singleton.mp h₂ with h | h
    · exact h
    · simp [h] at hn
  subst this
  simpa using h₁.append_right [e]

theorem getLast_after {c : Event} (h : (front ++ c :: back).getLast? = some e) (hc : c ≠ e) :
    back.getLast? = some e := by
  cases back with
  | nil => simp [hc] at h
  | cons b back => simpa [List.getLast?_append, List.getLast?_cons_cons] using h

end Lists

/-! ### The chain is carried on -/

section Chain

variable {log before after : List Event} {item old new row : ArchiveItem} {e : Event}

theorem chain_observed (he : e.isCommitted = false) (h : Chain (before ++ after) item) :
    Chain (before ++ e :: after) item := by
  intro n hn
  obtain ⟨front, staged, back, hl, hst, es, hes, hsub⟩ := h n hn
  rcases List.append_eq_append_iff.mp hl with ⟨gap, rfl, rfl⟩ | ⟨gap, rfl, hg⟩
  · exact ⟨before ++ e :: gap, staged, back, by simp, hst, es, hes, hsub⟩
  · cases gap with
    | nil =>
      obtain rfl : .committed staged :: back = after := hg
      exact ⟨front ++ [e], staged, back, by simp, hst, es, hes, hsub⟩
    | cons g gap =>
      obtain ⟨rfl, rfl⟩ := List.cons.inj hg
      refine ⟨front, staged, gap ++ e :: after, by simp, ⟨hst.id, hst.state, hst.sha, ?_⟩, es, hes,
        hsub.trans ((List.Sublist.refl gap).append ((List.Sublist.refl after).cons e))⟩
      intro r hr
      rcases List.mem_append.mp hr with hr | hr
      · exact hst.since r (List.mem_append_left _ hr)
      · rcases List.mem_cons.mp hr with hr | hr
        · exact absurd hr.symm (e.ne_committed he r)
        · exact hst.since r (List.mem_append_right _ hr)

theorem chain_other (hid : item.id ≠ new.id) (h : Chain log item) :
    Chain (log ++ [.committed new]) item := by
  intro n hn
  obtain ⟨front, staged, back, rfl, hst, es, hes, hsub⟩ := h n hn
  refine ⟨front, staged, back ++ [.committed new], by simp, ⟨hst.id, hst.state, hst.sha, ?_⟩, es,
    hes, hsub.trans (List.sublist_append_left _ _)⟩
  intro r hr hri
  rcases List.mem_append.mp hr with hr | hr
  · exact hst.since r hr hri
  · obtain rfl := Event.committed.inj (List.mem_singleton.mp hr)
    exact absurd hri.symm hid

/-- A digest recorded anew stands for nothing yet. -/
theorem chain_staged (hs : new.state = .localStaged) : Chain (log ++ [.committed new]) new := by
  intro n hn
  simp only [hs, ArchiveState.receipts, Option.some.injEq] at hn
  subst hn
  exact ⟨log, new, [], rfl, ⟨rfl, hs, rfl, fun _ hr => absurd hr List.not_mem_nil⟩, [], .staged,
    .slnil⟩

/-- A move that keeps the digest and the receipts its states stand for. -/
theorem chain_kept (h : Chain log old) (hid : old.id = new.id)
    (hst : new.state.receipts = none ∨
      new.state.receipts = old.state.receipts ∧ new.state ≠ .localStaged)
    (hsha : new.plaintextSha256 = old.plaintextSha256)
    (hr : ∀ n es, old.state.receipts = some n → Receipts old n es → Receipts new n es) :
    Chain (log ++ [.committed new]) new := by
  intro n hn
  rcases hst with hst | ⟨hst, hne⟩
  · simp [hst] at hn
  · rw [hst] at hn
    obtain ⟨front, staged, back, rfl, hs, es, hes, hsub⟩ := h n hn
    refine ⟨front, staged, back ++ [.committed new], by simp,
      ⟨hs.id.trans hid, hs.state, hs.sha.trans hsha.symm, ?_⟩, es, hr n es hn hes,
      hsub.trans (List.sublist_append_left _ _)⟩
    intro r hmem hri
    rcases List.mem_append.mp hmem with hmem | hmem
    · exact hsha ▸ hs.since r hmem (hri.trans hid.symm)
    · obtain rfl := Event.committed.inj (List.mem_singleton.mp hmem)
      exact ⟨hne, rfl⟩

/-- A move that adds the receipt observed last; `pend` are versions of other items. -/
theorem chain_advance {pend : List ArchiveItem} {n : Nat} (h : Chain log old) (hid : old.id = new.id)
    (hold : old.state.receipts = some n) (hnew : new.state.receipts = some (n + 1))
    (hne : new.state ≠ .localStaged) (hsha : new.plaintextSha256 = old.plaintextSha256)
    (hl : log.getLast? = some e) (he : e.isCommitted = false)
    (hr : ∀ es, Receipts old n es → e ∉ es ∧ Receipts new (n + 1) (es ++ [e]))
    (hp : ∀ r ∈ pend, r.id ≠ old.id) :
    Chain (log ++ pend.map .committed ++ [.committed new]) new := by
  intro m hm
  obtain rfl : n + 1 = m := Option.some.inj (hnew.symm.trans hm)
  obtain ⟨front, staged, back, rfl, hs, es, hes, hsub⟩ := h n hold
  have hlast := getLast_after hl fun hc => e.ne_committed he staged hc.symm
  refine ⟨front, staged, back ++ pend.map .committed ++ [.committed new], by simp,
    ⟨hs.id.trans hid, hs.state, hs.sha.trans hsha.symm, ?_⟩, es ++ [e], (hr es hes).2, ?_⟩
  · intro r hmem hri
    rcases List.mem_append.mp hmem with hmem | hmem
    · rcases List.mem_append.mp hmem with hmem | hmem
      · exact hsha ▸ hs.since r hmem (hri.trans hid.symm)
      · obtain ⟨r', hr', he'⟩ := List.mem_map.mp hmem
        obtain rfl := Event.committed.inj he'
        exact absurd (hri.trans hid.symm) (hp r' hr')
    · obtain rfl := Event.committed.inj (List.mem_singleton.mp hmem)
      exact ⟨hne, rfl⟩
  · rw [List.append_assoc]
    exact (sublist_snoc_of_getLast hsub hlast (hr es hes).1).trans (List.sublist_append_left _ _)

end Chain

theorem receipts_archiveSteps : ∀ s ∈ archiveSteps, s.2.receipts = none ∨
    s.2.receipts = s.1.receipts ∧ s.2 ≠ .localStaged := by decide

theorem receipts_deletionSteps : ∀ s ∈ deletionSteps, s.2.receipts = none ∨
    s.2.receipts = s.1.receipts ∧ s.2 ≠ .localStaged := by decide

/-- Changing what no receipt mentions. -/
theorem Receipts.of_eq {old new : ArchiveItem} {n : Nat} {es : List Event} (h : Receipts old n es)
    (hk : new.kopiaSnapshotId = old.kopiaSnapshotId)
    (hd : new.plaintextSha256 = old.plaintextSha256) (hc : coldReceipt new = coldReceipt old) :
    Receipts new n es := by
  cases h with
  | staged => exact .staged
  | backedUp h₁ h₂ => exact .backedUp (hk.trans h₁) (hd.trans h₂)
  | verified h₁ h₂ h₃ => exact .verified (hk.trans h₁) (hd.trans h₂) (hc.trans h₃)
  | archived h₁ h₂ h₃ => exact .archived (hk.trans h₁) (hd.trans h₂) (hc.trans h₃)

theorem chain_archive {σ : Type} {w : World σ} {provider : String} {old new : ArchiveItem}
    (hM : ArchiveMove provider w.log old new) (h : Chain w.versions old)
    (hd : old.state ∈ inPipeline → w.Durable old ∧ Chain w.log old) :
    Chain (w.versions ++ [.committed new]) new := by
  cases hM with
  | step hs =>
    exact chain_kept h rfl (receipts_archiveSteps _ hs) rfl fun _ _ _ hr => hr.of_eq rfl rfl rfl
  | staged hs hl => exact chain_staged rfl
  | placed path now hs =>
    exact chain_kept h rfl (.inr (by simp [hs, ArchiveState.receipts])) rfl
      fun _ _ _ hr => hr.of_eq rfl rfl rfl
  | backedUp now hs hsha hl =>
    obtain ⟨hdur, hc⟩ := hd (by simp [hs, inPipeline])
    refine chain_advance hc rfl (n := 0) (by simp [hs, ArchiveState.receipts]) rfl (by simp) rfl hl
      rfl (fun es hes => ?_) hdur.2
    cases hes
    exact ⟨by simp, .backedUp rfl hsha⟩
  | uploaded r now hs =>
    refine chain_kept h rfl (.inr (by simp [hs, ArchiveState.receipts])) rfl fun n es hn hr => ?_
    simp only [hs, ArchiveState.receipts, Option.some.injEq] at hn
    subst hn
    cases hr with
    | backedUp h₁ h₂ => exact .backedUp h₁ h₂
  | verified now hs hr hsha hl =>
    obtain ⟨hdur, hc⟩ := hd (by simp [hs, inPipeline])
    refine chain_advance hc rfl (n := 1) (by simp [hs, ArchiveState.receipts]) rfl (by simp) rfl hl
      rfl (fun es hes => ?_) hdur.2
    cases hes with
    | backedUp h₁ h₂ =>
      obtain rfl := Option.some.inj (hsha.symm.trans h₂)
      exact ⟨by simp, .verified h₁ h₂ hr⟩
  | archived now hs hr hl =>
    obtain ⟨hdur, hc⟩ := hd (by simp [hs, inPipeline])
    refine chain_advance hc rfl (n := 2) (by simp [hs, ArchiveState.receipts]) rfl (by simp) rfl hl
      rfl (fun es hes => ?_) hdur.2
    cases hes with
    | verified h₁ h₂ h₃ =>
      obtain rfl := Except.ok.inj (hr.symm.trans h₃)
      exact ⟨by simp, .archived h₁ h₂ h₃⟩
  | quarantined expires hs =>
    exact chain_kept h rfl (.inr (by simp [hs, ArchiveState.receipts])) rfl
      fun _ _ _ hr => hr.of_eq rfl rfl rfl

/-- Every move of the program carries the chain on. -/
theorem chain_moved {σ : Type} {w : World σ} {old new : ArchiveItem} (hM : Move w.log old new)
    (h : Chain w.versions old) (hd : old.state ∈ inPipeline → w.Durable old ∧ Chain w.log old) :
    Chain (w.versions ++ [.committed new]) new := by
  have hnone : new.state.receipts = none → Chain (w.versions ++ [.committed new]) new :=
    fun hn n hn' => by simp [hn] at hn'
  rcases hM with (hM | hM | hM | hM) | hM
  · cases hM with
    | metadata source hs =>
      exact hnone (by simp [ArchiveWorkflow.withMetadata, hs, ArchiveState.receipts])
    | _ => exact hnone rfl
  · exact chain_archive hM h hd
  · cases hM with
    | sealed sha hs => exact chain_staged rfl
    | _ => exact hnone rfl
  · cases hM <;> exact hnone rfl
  · cases hM with
    | step hs =>
      exact chain_kept h rfl (receipts_deletionSteps _ hs) rfl fun _ _ _ hr => hr.of_eq rfl rfl rfl
    | changed => exact hnone rfl
    | deleted now hs =>
      exact chain_kept h rfl (.inr (by simp [hs, ArchiveState.receipts])) rfl
        fun _ _ _ hr => hr.of_eq rfl rfl rfl

theorem chain_invariant {σ : Type} (X : ExtEnv σ) (G : World σ → Op → Prop) :
    RowInvariant (fun _ => Move) X G (fun _ => True) Chain where
  events _ _ _ _ _ _ _ _ := trivial
  committed _ := trivial
  observed _ _ _ _ := chain_observed
  added _ row hs n hn := by simp [hs, ArchiveState.receipts] at hn
  other _ _ _ := chain_other
  moved _ _ _ _ _ _ _ _ _ := chain_moved

/-- The states that stand for all three receipts, `COLD_ARCHIVED` apart. -/
def receiptStates : List ArchiveState :=
  [.quarantined, .readyForRevalidation, .readyForDeletion, .deleting, .deletedFromSource, .archived]

/-- In every run of calls and sessions that do not overlap, with adapters that may answer
anything or raise and with aborts at any point: an item that is durably quarantined, on its
way to deletion or archived had its snapshot verified against its digest, then its remote
receipt, then that receipt's archival, all since the digest was recorded. -/
theorem receipts_of_durable {σ : Type} {X : ExtEnv σ} {x : σ}
    {c : (runs X (Call anyItem) anyOp).Config} (hr : (runs X (Call anyItem) anyOp).Reachable (World.fresh x) c)
    {item : ArchiveItem} (hi : item ∈ c.1.db.items.rows) (hs : item.state ∈ receiptStates) :
    ∃ sha snapshot receipt before staged after,
      item.plaintextSha256 = some sha ∧ item.kopiaSnapshotId = some snapshot ∧
      coldReceipt item = .ok receipt ∧
      c.1.log = before ++ .committed staged :: after ∧
      staged.id = item.id ∧ staged.state = .localStaged ∧ staged.plaintextSha256 = some sha ∧
      (∀ r, .committed r ∈ after → r.id = item.id →
        r.state ≠ .localStaged ∧ r.plaintextSha256 = some sha) ∧
      [.backupVerified snapshot sha, .coldVerified receipt sha, .coldArchived receipt].Sublist
        after := by
  have hc := ((chain_invariant X anyOp).reachable (fun _ _ hr hp => call_sound hr hp) hr).db item hi
  have hn : item.state.receipts = some 3 := by
    revert hs
    generalize item.state = s
    revert s
    decide
  obtain ⟨before, staged, after, hl, hst, es, hes, hsub⟩ := hc 3 hn
  cases hes with
  | @archived snapshot sha receipt h₁ h₂ h₃ =>
    exact ⟨sha, snapshot, receipt, before, staged, after, h₂, h₁, h₃, hl, hst.id, hst.state,
      hst.sha.trans h₂, fun r hr hid => h₂ ▸ hst.since r hr hid, hsub⟩

theorem receipts_of_durable_archivedOnce :
    ∃ item ∈ archivedOnce.db.items.rows, item.state = .quarantined ∧
      ∃ sha snapshot receipt before staged after,
        item.plaintextSha256 = some sha ∧ item.kopiaSnapshotId = some snapshot ∧
        coldReceipt item = .ok receipt ∧
        archivedOnce.log = before ++ .committed staged :: after ∧
        staged.id = item.id ∧ staged.state = .localStaged ∧ staged.plaintextSha256 = some sha ∧
        (∀ r, .committed r ∈ after → r.id = item.id →
          r.state ≠ .localStaged ∧ r.plaintextSha256 = some sha) ∧
        [.backupVerified snapshot sha, .coldVerified receipt sha, .coldArchived receipt].Sublist
          after := by
  obtain ⟨item, hi, hs⟩ : ∃ item ∈ archivedOnce.db.items.rows, item.state = .quarantined := by
    decide
  exact ⟨item, hi, hs, receipts_of_durable reachable_archivedOnce hi (by rw [hs]; decide)⟩

end Mnema
