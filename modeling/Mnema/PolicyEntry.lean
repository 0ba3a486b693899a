import Mnema.Host

/-! Which items reach `DOWNLOADING`. A scan judges an object when it first sees it, and an
ineligible one again, but not the new metadata of an object that changed. -/

namespace Mnema

open ArchiveWorkflow

/-- The states from which the iCloud sync archives. -/
def syncStates : List ArchiveState :=
  [.eligible, .queued, .downloading, .localStaged, .localVerified, .localCommitted,
    .localBackupPending, .localBackupVerified, .coldUploadPending, .coldUploaded, .coldVerified,
    .coldArchivePending, .coldArchived, .sourceChanged, .failedRetryable]

/-- The calls of iCloud syncs, and the reconciliation at a restart. Every scan may have a
policy of its own. -/
inductive ICloudCall {σ : Type} (w : World σ) : Flow Unit → Prop where
  | discover (wf : ArchiveWorkflow) (fuel : Nat) : ICloudCall w (wf.discover fuel).void
  | archive (wf : ArchiveWorkflow) {item : ArchiveItem}
      (h : w.txn.items.get item.id = some item) (hs : item.state ∈ syncStates) :
      ICloudCall w (wf.archive item).void
  | reconcileInterruptedItems (onlyDeletions : Bool) :
      ICloudCall w (reconcileInterruptedItems onlyDeletions).void

/-- The metadata on record was judged eligible. -/
def Judged (log : List Event) (row : ArchiveItem) : Prop :=
  ∃ source, .judgedEligible source ∈ log ∧ sourceMatches row source = true

/-- Past the policy only with metadata that was judged eligible. -/
def Selected (log : List Event) (row : ArchiveItem) : Prop :=
  row.state ∉ [ArchiveState.discovered, .ineligible] → Judged log row

/-- New metadata is recorded only when it was judged eligible before. -/
def recordsJudged {σ : Type} (w : World σ) : Op → Bool
  | .db (.save row) => w.log.any fun e => match e with
    | .judgedEligible source => sourceMatches row source
    | _ => false
  | _ => true

/-- The moves that keep a selected row selected. -/
def selectMove : Moves := fun _ log old new => Selected log old → Selected log new

/-- Every row of the session is selected. -/
def AllSelected {σ : Type} (w : World σ) : Prop := ∀ row ∈ w.txn.items.rows, Selected w.log row

/-- A row enters `DOWNLOADING` only when judged, and only selected rows are committed. -/
def EntersJudged {σ : Type} (w : World σ) : Op → Prop
  | .db (.flush row _) => row.state = .downloading → Judged w.log row
  | .db .commit => AllSelected w
  | _ => True

theorem Judged.append {log : List Event} {row : ArchiveItem} (h : Judged log row)
    (es : List Event) : Judged (log ++ es) row :=
  h.imp fun _ hs => ⟨List.mem_append_left _ hs.1, hs.2⟩

theorem Selected.append {log : List Event} {row : ArchiveItem} (h : Selected log row)
    (es : List Event) : Selected (log ++ es) row := fun hs => (h hs).append es

/-- `archive` leaves the metadata alone and starts past the policy. -/
theorem selectMove_of_archive {provider actor : String} {log : List Event} {old new : ArchiveItem}
    (h : ArchiveMove provider log old new) : selectMove actor log old new := by
  have hsteps : ∀ s t, (s, t) ∈ archiveSteps → s ∉ [ArchiveState.discovered, .ineligible] := by
    decide
  intro hold _
  cases h with
  | step hs => exact hold (hsteps _ _ hs)
  | staged hs | placed _ _ hs | backedUp _ hs | uploaded _ _ hs | verified _ hs | archived _ hs
  | quarantined _ hs => exact hold (by simp [hs])

theorem selectMove_of_recovery {actor : String} {log : List Event} {old new : ArchiveItem}
    (h : RecoveryMove old new) : selectMove actor log old new := by
  intro hold _
  cases h with
  | review hs => exact hold (by simp [hs])
  | retry hs => exact hold (by rcases hs with hs | hs <;> simp [hs])

section Selection

variable {σ : Type} {X : ExtEnv σ} {w w' : World σ}

theorem AllSelected.of_same (h : AllSelected w) (hs : w.SameRows w') {es : List Event}
    (hl : w'.log = w.log ++ es) : AllSelected w' := fun row hr =>
  hl ▸ (h row (hs.txn ▸ hr)).append es

theorem AllSelected.put (h : AllSelected w) {row : ArchiveItem} (hrow : Selected w.log row)
    (htxn : w'.txn.items = w.txn.items.put row) (hlog : w'.log = w.log) : AllSelected w' := by
  intro r hr
  rw [hlog]
  rcases Table.mem_put (htxn ▸ hr) with rfl | ⟨hr, -⟩
  · exact hrow
  · exact h r hr

theorem AllSelected.addItem (h : AllSelected w) {row : ArchiveItem}
    (hs : row.state = .discovered) : AllSelected (w.addItem row) := by
  intro r hr
  rcases Table.mem_insert hr with hr | rfl
  · exact h r hr
  · exact fun hn => absurd hn (by simp [hs])

theorem allSelected_step {o : Op} {a : o.Ans} (hc : Conforms selectMove w o) (h : AllSelected w)
    (he : World.env X w o a w') : AllSelected w' := by
  cases o with
  | ext o =>
    obtain ⟨x, _, _, rfl⟩ := he
    exact h.of_same World.sameRows_answered rfl
  | db o =>
    obtain ⟨-, rfl⟩ := World.env_db.mp he
    cases hq : o.writesItem with
    | false =>
      obtain ⟨hs, hl⟩ := World.sameRows_dbStep (w := w) hq
      exact h.of_same hs (hl.trans (List.append_nil _).symm)
    | true =>
      cases o with
      | flush row event =>
        obtain ⟨old, hget, hM, -⟩ := hc
        exact h.put (hM (h old (Table.mem_of_get hget))) rfl rfl
      | save row =>
        obtain ⟨old, hget, ⟨_, hM⟩, -⟩ := hc
        exact h.put (hM (h old (Table.mem_of_get hget))) rfl rfl
      | addItem row =>
        simp only [World.dbStep]
        split
        · exact h
        · exact h.addItem hc
      | commit => exact fun row hr => (h row hr).append _
      | _ => simp [DbOp.writesItem] at hq

theorem entersJudged_of_conforms {o : Op} (hc : Conforms selectMove w o) (h : AllSelected w) :
    EntersJudged w o := by
  cases o with
  | ext o => trivial
  | db o =>
    cases o with
    | flush row event =>
      obtain ⟨old, hget, hM, -⟩ := hc
      exact fun hs => hM (h old (Table.mem_of_get hget)) (by simp [hs])
    | commit => exact h
    | _ => trivial

/-- A call whose moves keep rows selected enters `DOWNLOADING` with judged metadata alone. -/
theorem judged_of_sound {α : Type} {p : Flow α} {Q : α → World σ → Prop}
    (hs : Sound selectMove X Q p w) (h : AllSelected w) (hQ : ∀ a w, Q a w → w.Ready) :
    p.wp EntersJudged (World.env X) (fun _ w => w.Ready ∧ AllSelected w)
      (fun _ w => w.Ready ∧ AllSelected w) w :=
  (hs.frame (fun _ _ _ _ hc hI he => allSelected_step hc hI he) h).mono
    (fun _ _ ho => entersJudged_of_conforms ho.1 ho.2) (fun _ _ hq => ⟨hQ _ _ hq.1, hq.2⟩)
    fun _ _ hq => hq

/-- Runs in which a scan records only metadata that was judged eligible before. -/
def policyRuns (X : ExtEnv σ) : Sessions (World σ) Op Op.Ans PyError :=
  runs X ICloudCall fun w o => recordsJudged w o = true

theorem judged_of_recordsJudged {row : ArchiveItem}
    (h : recordsJudged w (.db (.save row)) = true) : Judged w.log row := by
  obtain ⟨e, he, hm⟩ := List.any_eq_true.mp h
  cases e with
  | judgedEligible source => exact ⟨source, he, hm⟩
  | _ => simp at hm

theorem selectMove_of_judged {log : List Event} {old : ArchiveItem} {source : SourceObject}
    (hm : sourceMatches old source = true) (hl : log.getLast? = some (.judgedEligible source)) :
    selectMove "scanner" log old { old with state := .eligible } := fun _ _ =>
  ⟨source, List.mem_of_getLast? hl, hm⟩

theorem selectMove_of_rejected (log : List Event) (old : ArchiveItem) :
    selectMove "scanner" log old { old with state := .ineligible } := fun _ hs =>
  absurd hs (by simp)

/-- The new metadata of a changed item takes the place of the old at once. -/
theorem AllSelected.changed (h : AllSelected w) {item new : ArchiveItem} {event : AuditEvent}
    (hid : new.id = item.id) (hnew : Judged w.log new) :
    AllSelected ((w.flush item event).write new) := by
  intro r hr
  rcases Table.mem_put hr with rfl | ⟨hr, hne⟩
  · exact fun _ => hnew
  · rcases Table.mem_put hr with rfl | ⟨hr, -⟩
    · exact absurd hid.symm hne
    · exact h r hr

theorem discoverObject_judged (wf : ArchiveWorkflow) (h : w.Ready ∧ AllSelected w)
    (source : SourceObject) :
    (wf.discoverObject source).wp EntersJudged (policyRuns X).env
      (fun _ w => w.Ready ∧ AllSelected w) (fun _ w => w.Ready ∧ AllSelected w) w := by
  have henv : ∀ w o a w', (policyRuns X).env w o a w' → World.env X w o a w' :=
    fun _ _ _ _ he => he.2
  refine (Prog.wp_bind _ _).mpr (Prog.wp.restrict ((wp_db_ok rfl).mpr ⟨trivial, ?_⟩) henv)
  split
  case h_1 =>
    refine (judged_of_sound ((Prog.wp_bind _ _).mpr (sound_addItem h.1 rfl fun hl => ?_)) h.2
      fun _ _ hr => hr).restrict henv
    exact judge_sound wf hl (fun _ => selectMove_of_judged (sourceMatches_newItem wf source _))
      fun _ => selectMove_of_rejected _ _
  case h_2 item hi =>
    have hl : w.Loaded item := ⟨Table.get_of_first hi, h.1⟩
    by_cases hc : sourceChanged item source = true
    · rw [if_pos hc]
      refine (Prog.wp_bind _ _).mpr (Prog.wp.restrict (wp_transitionItem.mpr
        ⟨fun _ => ⟨fun hs => by simp at hs, ?_⟩, fun _ => h⟩) henv)
      refine (Prog.wp_bind _ _).mpr (wp_runs_save.mpr ⟨trivial, fun hG => ?_⟩)
      exact ⟨(h.1.flush (by simp [checkpointed])).write (by simp [withMetadata, checkpointed]),
        h.2.changed rfl (judged_of_recordsJudged hG)⟩
    · rw [if_neg hc]
      split
      case isTrue hs =>
        refine (judged_of_sound (judge_sound wf hl (fun _ => selectMove_of_judged ?_)
          fun _ => selectMove_of_rejected _ _) h.2 fun _ _ hr => hr).restrict henv
        simpa [sourceChanged] using hc
      case isFalse => exact h

theorem iCloudCall_judged {p : Flow Unit} (h : w.Ready ∧ AllSelected w) (hp : ICloudCall w p) :
    p.wp EntersJudged (policyRuns X).env (fun _ w => w.Ready ∧ AllSelected w)
      (fun _ w => w.Ready ∧ AllSelected w) w := by
  have henv : ∀ w o a w', (policyRuns X).env w o a w' → World.env X w o a w' :=
    fun _ _ _ _ he => he.2
  cases hp with
  | discover wf fuel =>
    refine (Prog.wp_void _).mpr (discover_rule wf (fun w cursor h => ?_)
      (fun _ source h => discoverObject_judged wf h source) fuel h)
    have hpage : Sound selectMove X (fun _ w => w.Ready)
        (ext (.sourceDiscover wf.sourceProvider cursor)) w :=
      sound_ext trivial h.1 fun _ _ _ => h.1.answered
    exact (judged_of_sound hpage h.2 fun _ _ hr => hr).restrict henv
  | archive wf hg hs =>
    refine (Prog.wp_void _).mpr ((judged_of_sound (sound_mono (archive_sound wf ⟨hg, h.1⟩) ?_) h.2
      fun _ _ hl => hl.ready).restrict henv)
    exact fun _ _ _ _ => selectMove_of_archive
  | reconcileInterruptedItems onlyDeletions =>
    refine (Prog.wp_void _).mpr ((judged_of_sound (sound_mono
      (reconcileInterruptedItems_sound h.1 onlyDeletions) ?_) h.2 fun _ _ hr => hr).restrict henv)
    exact fun _ _ _ _ => selectMove_of_recovery

/-- The durable rows are selected too. -/
theorem selected_invariant (X : ExtEnv σ) :
    (policyRuns X).Invariant EntersJudged (fun w => w.Ready ∧ AllSelected w)
      (fun w => ∀ row ∈ w.db.items.rows, Selected w.log row) where
  calls _ _ _ h hp := iCloudCall_judged h hp
  step w o a w' hc h he := by
    cases o with
    | ext o =>
      obtain ⟨-, x, -, -, rfl⟩ := he
      exact fun row hr => (h row hr).append _
    | db o =>
      obtain ⟨-, rfl⟩ := World.env_db.mp he.2
      cases hq : o.writesItem with
      | false =>
        obtain ⟨hs, hl⟩ := World.sameRows_dbStep (w := w) hq
        rw [hs.db, hl]
        exact h
      | true =>
        cases o with
        | commit => exact fun row hr => (hc row hr).append _
        | addItem row =>
          simp only [World.dbStep]
          split <;> exact h
        | flush _ _ | save _ => exact h
        | _ => simp [DbOp.writesItem] at hq
  commit w _ h :=
    have hall : AllSelected w.commit := fun row hr => (h.2 row hr).append _
    ⟨hall, World.ready_commit, hall⟩
  rollback w h := ⟨h, World.ready_rollback, h⟩

/-- In every run of scans, archiving and restarts in which a scan records new metadata of a
changed object only when that metadata was judged eligible before, whatever the policies, the
clock and the source do: a row enters `DOWNLOADING` only with metadata that was judged eligible. -/
theorem judged_of_entering {x : σ} {row : ArchiveItem} {event : AuditEvent}
    {k : Except PyError Unit → Flow Unit}
    (hr : (policyRuns X).Reachable (World.fresh x) (w, some (.call (.db (.flush row event)) k)))
    (hs : row.state = .downloading) : Judged w.log row := by
  have hh := (selected_invariant X).reachable (fun _ hr => absurd hr List.not_mem_nil)
    ⟨World.ready_fresh x, fun _ hr => absurd hr List.not_mem_nil⟩ hr
  exact hh.2.pre_of_call hs

end Selection

/-! ### On the host -/

/-- The row a program is about to move, if that is its next operation. -/
def nextFlush : Flow Unit → Option ArchiveItem
  | .call (.db (.flush row _)) _ => some row
  | _ => none

theorem call_of_nextFlush {d : World Host × Flow Unit} {row : ArchiveItem}
    (h : nextFlush d.2 = some row) : ∃ event k, d = (d.1, .call (.db (.flush row event)) k) := by
  obtain ⟨w, p⟩ := d
  simp only [nextFlush] at h
  split at h
  · obtain rfl := Option.some.inj h
    exact ⟨_, _, rfl⟩
  · simp at h

/-- The archiving of an item, cut off after its first operation. -/
def startOf (wf : ArchiveWorkflow) (w : World Host) (item : ArchiveItem) :
    World Host × Flow Unit :=
  (wf.archive item).void.execFor (World.onHost .plain id) 1 w

/-- One object, scanned. -/
def scannedOnce : World Host :=
  (World.fresh (Host.start [(first, [1])])).after .plain id (plainWorkflow.discover 1).void

theorem judged_of_entering_scannedOnce :
    ∃ item ∈ scannedOnce.txn.items.rows, ∃ row, nextFlush (startOf plainWorkflow scannedOnce item).2 = some row ∧
      row.state = .downloading ∧ Judged (startOf plainWorkflow scannedOnce item).1.log row := by
  obtain ⟨item, hi, ht, hs, hok, row, hn, hrow⟩ : ∃ item ∈ scannedOnce.txn.items.rows,
      scannedOnce.txn.items.get item.id = some item ∧ item.state ∈ syncStates ∧
      (plainWorkflow.archive item).void.respects recordsJudged (World.onHost .plain id)
        scannedOnce = true ∧
      ∃ row ∈ nextFlush (startOf plainWorkflow scannedOnce item).2, row.state = .downloading := by decide
  obtain ⟨event, k, hk⟩ := call_of_nextFlush hn
  have hscan : (policyRuns (Host.env .plain)).Reachable (World.fresh (Host.start [(first, [1])]))
      (scannedOnce, none) :=
    reachable_after_of_respects .refl (.discover plainWorkflow 1) onHost_id (fun _ _ ho => ho)
      (by decide)
  have hr : (policyRuns (Host.env .plain)).Reachable (World.fresh (Host.start [(first, [1])]))
      ((startOf plainWorkflow scannedOnce item).1, some (startOf plainWorkflow scannedOnce item).2) :=
    hscan.steps (.archive plainWorkflow ht hs) (Prog.execFor_steps_of_respects
      (fun w o ho => ⟨ho, onHost_id w o⟩) 1 _ _ hok)
  rw [hk] at hr
  exact ⟨item, hi, row, hn, hrow, judged_of_entering hr hrow⟩

/-- A policy that selects nothing this small. -/
def strictWorkflow : ArchiveWorkflow :=
  { plainWorkflow with policy := { plainWorkflow.policy with minimumFileSize := 2 } }

/-- One object, rejected by the policy, and scanned again after it was modified. -/
def rescanned : World Host :=
  let w := (World.fresh (Host.start [(first, [1])])).after .plain id (strictWorkflow.discover 1).void
  w.after .plain (Host.holding second [2]) (strictWorkflow.discover 1).void

/-- The modified object is downloaded, although nothing was ever judged eligible. -/
theorem unjudged_entering : ∃ (w : World Host) (row : ArchiveItem) (event : AuditEvent)
    (k : Except PyError Unit → Flow Unit),
    (runs (Host.env .plain) ICloudCall anyOp).Reachable (World.fresh (Host.start [(first, [1])]))
      (w, some (.call (.db (.flush row event)) k)) ∧
    row.state = .downloading ∧ ¬ Judged w.log row := by
  obtain ⟨item, hi, ht, hs, hlog, row, hn, hrow⟩ : ∃ item ∈ rescanned.txn.items.rows,
      rescanned.txn.items.get item.id = some item ∧ item.state ∈ syncStates ∧
      (startOf strictWorkflow rescanned item).1.log = [] ∧
      ∃ row ∈ nextFlush (startOf strictWorkflow rescanned item).2, row.state = .downloading := by decide
  obtain ⟨event, k, hk⟩ := call_of_nextFlush hn
  have hscans : (runs (Host.env .plain) ICloudCall anyOp).Reachable
      (World.fresh (Host.start [(first, [1])])) (rescanned, none) :=
    reachable_after (reachable_after .refl (.discover strictWorkflow 1) onHost_id)
      (.discover strictWorkflow 1) (onHost_env (Host.drift_holding second [2]))
  have hr : (runs (Host.env .plain) ICloudCall anyOp).Reachable
      (World.fresh (Host.start [(first, [1])]))
      ((startOf strictWorkflow rescanned item).1, some (startOf strictWorkflow rescanned item).2) :=
    hscans.cut (.archive strictWorkflow ht hs) (fun w o => ⟨trivial, onHost_id w o⟩) 1
  rw [hk] at hr
  refine ⟨(startOf strictWorkflow rescanned item).1, row, event, k, hr, hrow, ?_⟩
  rintro ⟨source, hj, -⟩
  simp [hlog] at hj

end Mnema
