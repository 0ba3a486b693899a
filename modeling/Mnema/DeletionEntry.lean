import Mnema.ReceiptChain

/-! When the source is asked to delete: the durable states before and during the call,
and what becomes of an item whose deletion was cut off. -/

namespace Mnema

open ArchiveWorkflow

/-- Any operation but a call of `source.delete`. -/
def Op.keepsSource : Op → Bool
  | .ext (.sourceDelete _ _ _) => false
  | _ => true

/-- At a call of `source.delete` in the deletion of `item` that began in `w`: the durable
row before was `item`, in a state that a deletion may start from, and it is `DELETING` now. -/
def Entered {σ : Type} (w : World σ) (item : ArchiveItem) (w' : World σ) : Op → Prop
  | .ext (.sourceDelete _ sourceId version) =>
    sourceId = item.sourceIdentifier ∧ version = item.sourceVersion ∧
      w.db.items.get item.id = some item ∧ (item.state ∈ deletable ∨ item.state = .deleting) ∧
      ∃ row, w'.db.items.get item.id = some row ∧ row.state = .deleting
  | _ => True

section Entry

variable {σ : Type} {X : ExtEnv σ} {w w' : World σ} {item : ArchiveItem}

theorem entered_of_keepsSource {o : Op} (h : o.keepsSource = true) : Entered w item w' o := by
  cases o with
  | db o => exact trivial
  | ext o => cases o <;> first | exact trivial | simp [Op.keepsSource] at h

theorem prepareDeletion_keepsSource :
    (prepareDeletion item).Calls (fun o => o.keepsSource = true) (fun _ => True)
      (fun _ => True) := by
  simp [prepareDeletion, guardStep, transitionItem, db, Op.keepsSource]

theorem recordDeletion_keepsSource (outcome : Option Bool) :
    (recordDeletion item outcome).Calls (fun o => o.keepsSource = true) (fun _ => True)
      (fun _ => True) := by
  match outcome with
  | none => simp [recordDeletion, transitionItem, db, Op.keepsSource]
  | some false => simp [recordDeletion, transitionItem, db, Op.keepsSource]
  | some true => simp [recordDeletion, transitionItem, db, ext, Op.keepsSource]

/-- The source is asked to delete only an item that was durable in a state a deletion may
start from, or durable as `DELETING` already. -/
theorem deleteTestItem_entered (wf : ArchiveWorkflow) (h : w.Loaded item)
    (decision : GateDecision) :
    (wf.deleteTestItem item decision).wp (Entered w item) (World.env X) (fun _ _ => True)
      (fun _ _ => True) w := by
  simp only [deleteTestItem, Prog.wp_bind]
  refine wp_ext.mpr ⟨trivial, fun capabilities x _ _ => ?_, fun _ _ _ _ => trivial⟩
  refine wp_raiseIf.mpr ⟨fun _ => wp_raiseIf.mpr ⟨fun _ => ?_, fun _ => trivial⟩, fun _ => trivial⟩
  refine wp_ext.mpr ⟨trivial, fun current x _ _ => ?_, fun _ _ _ _ => trivial⟩
  split
  case isTrue =>
    simp only [Prog.wp_bind]
    refine ((prepareDeletion_sound h.answered.answered).and_calls
      prepareDeletion_keepsSource).mono (fun _ _ hc => entered_of_keepsSource hc.2) ?_
      fun _ _ _ => trivial
    rintro _ w₁ ⟨hd, rfl, hs⟩
    have hdur : w.db.items.get item.id = some item := by
      refine (h.durable ?_).1
      rcases hs with hs | hs
      · revert hs
        generalize item.state = s
        revert s
        decide
      · rw [hs]
        decide
    have hrecord : ∀ outcome w₂, (recordDeletion { item with state := .deleting } outcome).wp
        (Entered w item) (World.env X) (fun _ _ => True) (fun _ _ => True) w₂ := fun outcome w₂ =>
      ((recordDeletion_keepsSource outcome).wp (I := fun _ => True)
        (fun _ _ ho _ => entered_of_keepsSource ho) (fun _ _ _ _ _ _ _ => trivial) trivial).mono
        (fun _ _ hp => hp) (fun _ _ _ => trivial) fun _ _ _ => trivial
    simp only [deleteSource, Prog.wp_tryCatch, Prog.wp_bind, Prog.wp_pure]
    refine wp_ext.mpr ⟨⟨rfl, rfl, hdur, hs, _, hd.durable, rfl⟩, fun _ _ _ _ => hrecord _ _,
      fun e x _ _ => ?_⟩
    split
    · exact hrecord _ _
    · exact trivial
    · exact hrecord _ _
  case isFalse =>
    simp only [Prog.wp_bind, Prog.wp_pure]
    exact wp_transitionItem.mpr ⟨fun _ => ⟨trivial, trivial⟩, fun _ => trivial⟩

end Entry

/-! ### An item whose deletion was cut off -/

/-- The durable row of the item is not `DELETING`. -/
def OutcomeKnown {σ : Type} (w : World σ) (item : ArchiveItem) : Prop :=
  ∀ row, w.db.items.get item.id = some row → row.state ≠ .deleting

/-- No scan writes over a row that is `DELETING`. -/
def scanSparesDeleting {σ : Type} (w : World σ) : Op → Bool
  | .db (.flush row event) =>
    !(event.actor == "scanner" && row.state == .sourceChanged &&
      ((w.txn.items.get row.id).any fun old => old.state == .deleting))
  | .db (.save row) =>
    !(row.state == .sourceChanged &&
      ((w.txn.items.get row.id).any fun old => old.state == .deleting))
  | _ => true

/-- A version of the item in manual review was made durable after the first `n` events. -/
def Reviewed (id n : Nat) (log : List Event) : Prop :=
  ∃ r, .committed r ∈ log.drop n ∧ r.id = id ∧ r.state = .manualReview

theorem Reviewed.append {id n : Nat} {log : List Event} (h : Reviewed id n log)
    (es : List Event) : Reviewed id n (log ++ es) := by
  obtain ⟨r, hr, hid, hs⟩ := h
  refine ⟨r, ?_, hid, hs⟩
  rw [List.drop_append]
  exact List.mem_append_left _ hr

/-- The moves of a run in which the deletion of `id` is not taken up before a review. -/
def reviewMove (id n : Nat) : Moves := fun actor log old new =>
  serviceMove actor log old new ∨ (DeletionMove old new ∧ (old.id = id → Reviewed id n log))

/-- The item is still `DELETING`, or has been reviewed since. -/
structure OpenSince {σ : Type} (id n : Nat) (w : World σ) : Prop where
  length : n ≤ w.log.length
  db : ∃ row, w.db.items.get id = some row ∧ (row.state = .deleting ∨ Reviewed id n w.log)
  txn : ∃ row, w.txn.items.get id = some row ∧ (row.state = .deleting ∨ Reviewed id n w.log ∨
    ∃ r ∈ w.pend, r.id = id ∧ r.state = .manualReview)

section Review

variable {σ : Type} {X : ExtEnv σ} {w w' : World σ} {id n : Nat}

/-- The only ways out of `DELETING`, outside a deletion. -/
theorem serviceMove_of_deleting {actor : String} {log : List Event} {old new : ArchiveItem}
    (h : serviceMove actor log old new) (hs : old.state = .deleting) :
    new.state = .manualReview ∨ (new.state = .sourceChanged ∧ actor = "scanner") := by
  have hsteps : ∀ target, (ArchiveState.deleting, target) ∉ archiveSteps := by decide
  obtain ⟨hM | hM | hM | hM, hactor⟩ := h
  · cases hM with
    | accepted ho | rejected ho => simp [hs] at ho
    | changed => exact .inr ⟨rfl, hactor rfl hs⟩
    | metadata source ho => simp [hs] at ho
  · cases hM with
    | step ho => exact absurd (hs ▸ ho) (hsteps _)
    | staged ho | placed _ _ ho | backedUp _ ho | uploaded _ _ ho | verified _ ho | archived _ ho
    | quarantined _ ho => simp [hs] at ho
  · cases hM with
    | accepted ho | queued ho | receiving ho | sealed _ ho => simp [hs] at ho
    | expired => exact .inl rfl
  · cases hM with
    | review => exact .inl rfl
    | retry ho => simp [hs] at ho

theorem openSince_of_same (h : OpenSince id n w) (hs : w.SameRows w') {es : List Event}
    (hl : w'.log = w.log ++ es) : OpenSince id n w' := by
  refine ⟨by rw [hl, List.length_append]; exact h.length.trans (Nat.le_add_right _ _), ?_, ?_⟩
  · rw [hs.db, hl]
    exact h.db.imp fun _ hr => ⟨hr.1, hr.2.imp_right fun hr => hr.append es⟩
  · rw [hs.txn, hl, hs.pend]
    exact h.txn.imp fun _ hr => ⟨hr.1, hr.2.imp_right fun hr => hr.imp_left fun hr => hr.append es⟩

/-- Writing a version of this item, or of another. -/
theorem openSince_written {row old : ArchiveItem} {actor : String} (h : OpenSince id n w)
    (hget : w.txn.items.get row.id = some old) (hM : reviewMove id n actor w.log old row)
    (hG : ¬(actor = "scanner" ∧ row.state = .sourceChanged ∧ old.state = .deleting))
    (hdb : w'.db = w.db) (htxn : w'.txn.items = w.txn.items.put row)
    (hpend : w'.pend = w.pend ++ [row]) (hlog : w'.log = w.log) : OpenSince id n w' := by
  have hpending : (∃ r ∈ w.pend, r.id = id ∧ r.state = .manualReview) →
      ∃ r ∈ w'.pend, r.id = id ∧ r.state = .manualReview := fun ⟨r, hr, hs⟩ =>
    ⟨r, hpend ▸ List.mem_append_left _ hr, hs⟩
  refine ⟨hlog ▸ h.length, by rw [hdb, hlog]; exact h.db, ?_⟩
  rw [htxn, hlog]
  obtain ⟨cur, hcur, hs⟩ := h.txn
  by_cases hid : row.id = id
  · subst hid
    obtain rfl : old = cur := Option.some.inj (hget.symm.trans hcur)
    refine ⟨row, Table.get_put_self hget, ?_⟩
    rcases hs with hs | hs | hs
    · rcases hM with hM | ⟨_, hM⟩
      · rcases serviceMove_of_deleting hM hs with hn | ⟨hn, ha⟩
        · exact .inr (.inr ⟨row, hpend ▸ List.mem_append_right _ List.mem_cons_self, rfl, hn⟩)
        · exact absurd ⟨ha, hn, hs⟩ hG
      · exact .inr (.inl (hM (Table.key_of_get hget)))
    · exact .inr (.inl hs)
    · exact .inr (.inr (hpending hs))
  · refine ⟨cur, (Table.get_put_of_ne fun he => hid he.symm).trans hcur, ?_⟩
    exact hs.imp_right fun hs => hs.imp_right hpending

theorem openSince_commit (h : OpenSince id n w) : OpenSince id n w.commit := by
  have hrow : ∃ row, w.txn.items.get id = some row ∧
      (row.state = .deleting ∨ Reviewed id n w.commit.log) := by
    obtain ⟨row, hg, hs⟩ := h.txn
    refine ⟨row, hg, hs.imp_right fun hs => ?_⟩
    rcases hs with hs | ⟨r, hr, hid, hst⟩
    · exact hs.append _
    · refine ⟨r, ?_, hid, hst⟩
      rw [World.log_commit, List.drop_append_of_le_length h.length]
      exact List.mem_append_right _ (List.mem_map_of_mem hr)
  refine ⟨?_, hrow, hrow.imp fun _ hr => ⟨hr.1, hr.2.imp_right .inl⟩⟩
  rw [World.log_commit, List.length_append]
  exact h.length.trans (Nat.le_add_right _ _)

theorem openSince_step {o : Op} {a : o.Ans} (hc : Conforms (reviewMove id n) w o)
    (h : OpenSince id n w) (hG : scanSparesDeleting w o = true)
    (he : World.env X w o a w') : OpenSince id n w' := by
  cases o with
  | ext o =>
    obtain ⟨x, _, _, rfl⟩ := he
    exact openSince_of_same h World.sameRows_answered rfl
  | db o =>
    obtain ⟨-, rfl⟩ := World.env_db.mp he
    cases hq : o.writesItem with
    | false =>
      obtain ⟨hs, hl⟩ := World.sameRows_dbStep (w := w) hq
      exact openSince_of_same h hs (hl.trans (List.append_nil _).symm)
    | true =>
      cases o with
      | flush row event =>
        obtain ⟨old, hget, hM, -⟩ := hc
        refine openSince_written h hget hM ?_ rfl rfl rfl rfl
        rintro ⟨ha, hs, ho⟩
        simp [scanSparesDeleting, hget, ha, hs, ho] at hG
      | save row =>
        obtain ⟨old, hget, ⟨actor, hM⟩, -⟩ := hc
        refine openSince_written h hget hM ?_ rfl rfl rfl rfl
        rintro ⟨-, hs, ho⟩
        simp [scanSparesDeleting, hget, hs, ho] at hG
      | addItem row =>
        simp only [World.dbStep]
        split
        · exact h
        · obtain ⟨cur, hcur, hs⟩ := h.txn
          have hne : id ≠ w.txn.newItemId := fun he => by
            simp [he, World.get_newItemId] at hcur
          refine ⟨h.length, h.db, cur, ?_, hs.imp_right fun hs => hs.imp_right ?_⟩
          · exact (Table.get_insert_of_ne (t := w.txn.items) hne).trans hcur
          · rintro ⟨r, hr, hs⟩
            exact ⟨r, List.mem_append_left _ hr, hs⟩
      | commit => exact openSince_commit h
      | _ => simp [DbOp.writesItem] at hq

/-- Runs in which no deletion starts on a row that is `DELETING` and no scan writes over one. -/
def carefulRuns (X : ExtEnv σ) : Sessions (World σ) Op Op.Ans PyError :=
  runs X (Call OutcomeKnown) fun w o => scanSparesDeleting w o = true

theorem openSince_invariant (X : ExtEnv σ) (id n : Nat) :
    (carefulRuns X).Invariant (Conforms (reviewMove id n)) World.Ready (OpenSince id n) where
  calls w p hI hr hp := by
    have henv : ∀ w o a w', (carefulRuns X).env w o a w' → World.env X w o a w' :=
      fun _ _ _ _ he => he.2
    refine Prog.wp.restrict ?_ henv
    rcases call_sound_cases hr hp with hs | ⟨item, hl, hd, hs⟩
    · exact sound_mono hs fun _ _ _ _ hm => .inl hm
    · by_cases hid : item.id = id
      · obtain ⟨row, hrow, hst⟩ := hI.db
        have hrev : Reviewed id n w.log := hst.resolve_left (hd row (hid ▸ hrow))
        refine (hs.frame (I := fun w' => Reviewed id n w'.log) (fun w₁ o a w₂ _ hr he => ?_)
          hrev).mono (fun w₁ o hc => ?_) (fun _ _ hq => hq.1) fun _ _ hq => hq.1
        · obtain ⟨es, hl⟩ := World.log_grows he
          exact hl ▸ hr.append es
        · obtain ⟨hc, hrev⟩ := hc
          cases o with
          | ext o => cases o <;> exact hc
          | db o =>
            cases o with
            | flush row event =>
              exact hc.imp fun _ ho => ⟨ho.1, .inr ⟨ho.2.1.2, fun _ => hrev⟩, ho.2.2⟩
            | save row =>
              exact hc.imp fun _ ho =>
                ⟨ho.1, ho.2.1.imp fun _ hm => .inr ⟨hm.2, fun _ => hrev⟩, ho.2.2⟩
            | _ => exact hc
      · exact sound_mono hs fun _ _ _ _ hm => .inr ⟨hm.2, fun ho => absurd (hm.1.symm.trans ho) hid⟩
  step w o a w' hc hI he := openSince_step hc hI he.1 he.2
  commit w hI _ := ⟨openSince_commit hI, World.ready_commit⟩
  rollback w hI := ⟨⟨hI.length, hI.db, hI.db.imp fun _ hr => ⟨hr.1, hr.2.imp_right .inl⟩⟩,
    World.ready_rollback⟩

/-- In every run in which no deletion starts on an item that is durably `DELETING` and no
scan marks such an item `SOURCE_CHANGED`: the source is asked to delete only an item that was
durable in a state a deletion may start from and is durable as `DELETING` by then; and if a
crash ever left it `DELETING`, a manual review was made durable in between. -/
theorem deletion_entry_of_careful {x : σ} (hr : (carefulRuns X).Reachable (World.fresh x) (w, none))
    {wf : ArchiveWorkflow} {item : ArchiveItem} {decision : GateDecision}
    (hget : w.txn.items.get item.id = some item) (hd : OutcomeKnown w item)
    {provider sourceId version : String}
    {k : Except PyError DeleteReceipt → Flow Unit}
    (hrun : Prog.Steps (carefulRuns X).env (w, wf.deleteTestItem item decision)
      (w', .call (.ext (.sourceDelete provider sourceId version)) k)) :
    w.db.items.get item.id = some item ∧ item.state ∈ deletable ∧
      sourceId = item.sourceIdentifier ∧ version = item.sourceVersion ∧
      (∃ row, w'.db.items.get item.id = some row ∧ row.state = .deleting) ∧
      ∀ (c : (carefulRuns X).Config) (row : ArchiveItem),
        c.1.db.items.get item.id = some row → row.state = .deleting →
        (carefulRuns X).Reachable c.1.rollback (w, none) →
        Reviewed item.id c.1.log.length w.log := by
  have henv : ∀ w o a w', (carefulRuns X).env w o a w' → World.env X w o a w' :=
    fun _ _ _ _ he => he.2
  have hspec := (deleteTestItem_entered (X := X) wf ⟨hget, ready_of_reachable hr⟩ decision).restrict
    henv
  obtain ⟨hs, hv, hdb, hst, hrow⟩ := (hspec.steps hrun).pre_of_call
  refine ⟨hdb, hst.resolve_right (hd item hdb), hs, hv, hrow, fun c row hc hdel hafter => ?_⟩
  have hopen : OpenSince item.id c.1.log.length c.1.rollback :=
    ⟨le_rfl, ⟨row, hc, .inl hdel⟩, ⟨row, hc, .inl hdel⟩⟩
  obtain ⟨row', hrow', hrev⟩ :=
    ((openSince_invariant X item.id c.1.log.length).holds hopen World.ready_rollback hafter).db
  exact hrev.resolve_left (hd row' hrow')

end Review

/-! ### On the host -/

/-- What a program is about to ask the source to delete, if that is its next operation. -/
def nextDelete : Flow Unit → Option (String × String × String)
  | .call (.ext (.sourceDelete provider sourceId version)) _ => some (provider, sourceId, version)
  | _ => none

theorem call_of_nextDelete {d : World Host × Flow Unit} {provider sourceId version : String}
    (h : nextDelete d.2 = some (provider, sourceId, version)) :
    ∃ k, d = (d.1, .call (.ext (.sourceDelete provider sourceId version)) k) := by
  obtain ⟨w, p⟩ := d
  simp only [nextDelete] at h
  split at h
  · obtain ⟨rfl, rfl, rfl⟩ := Option.some.inj h
    exact ⟨_, rfl⟩
  · simp at h

/-- An allowed deletion of an item, cut off after `n` operations. -/
def deletionFor (n : Nat) (w : World Host) (item : ArchiveItem) : World Host × Flow Unit :=
  (deletingWorkflow.deleteTestItem item ⟨true, []⟩).execFor (World.onHost .plain id) n w

/-- An item in one of the states that `archive` leaves is deleted as it should be. -/
theorem deletion_entry_of_careful_archivedOnce :
    ∃ item ∈ archivedOnce.db.items.rows, item.state ∈ deletable ∧
      ∃ row, (deletionFor 6 archivedOnce item).1.db.items.get item.id = some row ∧
        row.state = .deleting := by
  obtain ⟨item, hi, hs, ht, hok, hn⟩ : ∃ item ∈ archivedOnce.db.items.rows,
      (∀ row ∈ archivedOnce.db.items.rows, row.state ≠ .deleting) ∧
      archivedOnce.txn.items.get item.id = some item ∧
      (deletingWorkflow.deleteTestItem item ⟨true, []⟩).respects scanSparesDeleting
        (World.onHost .plain id) archivedOnce = true ∧
      nextDelete (deletionFor 6 archivedOnce item).2 = some ("local_test", "a", "v1") := by decide
  have hr : (carefulRuns (Host.env .plain)).Reachable
      (World.fresh (Host.start [(first, [1])])) (archivedOnce, none) :=
    reachable_after_onItem_of_respects
      (reachable_after_of_respects .refl (.discover plainWorkflow 1) onHost_id
        (fun _ _ ho => ho) (by decide))
      (fun _ hi => .archive plainWorkflow hi) onHost_id (fun _ _ ho => ho) (by decide)
  obtain ⟨k, hk⟩ := call_of_nextDelete hn
  have hrun : Prog.Steps (carefulRuns (Host.env .plain)).env
      (archivedOnce, deletingWorkflow.deleteTestItem item ⟨true, []⟩)
      (deletionFor 6 archivedOnce item) :=
    Prog.execFor_steps_of_respects
      (fun w o (ho : scanSparesDeleting w o = true) => ⟨ho, onHost_id w o⟩) 6 _ _ hok
  rw [hk] at hrun
  obtain ⟨-, hstate, -, -, hrow, -⟩ := deletion_entry_of_careful hr ht
    (fun row hg => hs row (Table.mem_of_get hg)) hrun
  exact ⟨item, hi, hstate, hrow⟩

/-- Whether the event made a version in manual review durable. -/
def Event.reviews : Event → Bool
  | .committed row => row.state == .manualReview
  | _ => false

/-- A deletion cut off when the source was about to be asked, and the item deleted again:
the source is called for an item that was durably `DELETING` and never reviewed. -/
theorem unknown_outcome_deleted_again : ∃ (w w' : World Host) (item : ArchiveItem)
    (provider sourceId version : String) (k : Except PyError DeleteReceipt → Flow Unit),
    (runs (Host.env .plain) (Call anyItem) anyOp).Reachable
      (World.fresh (Host.start [(first, [1])])) (w, none) ∧
    w.db.items.get item.id = some item ∧ item.state = .deleting ∧
    Prog.Steps (World.env (Host.env .plain))
      (w, deletingWorkflow.deleteTestItem item ⟨true, []⟩)
      (w', .call (.ext (.sourceDelete provider sourceId version)) k) ∧
    ¬ Reviewed item.id 0 w.log := by
  obtain ⟨item, hi, ht, hcut⟩ : ∃ item ∈ archivedOnce.txn.items.rows,
      archivedOnce.txn.items.get item.id = some item ∧
      ∃ again ∈ (deletionFor 6 archivedOnce item).1.rollback.db.items.rows,
        again.state = .deleting ∧
        (∀ e ∈ (deletionFor 6 archivedOnce item).1.rollback.log, e.reviews = false) ∧
        nextDelete (deletionFor 4 (deletionFor 6 archivedOnce item).1.rollback again).2 =
          some ("local_test", "a", "v1") := by decide
  obtain ⟨again, ha, hs, hlog, hn⟩ := hcut
  have hrun : Prog.Steps (World.env (Host.env .plain))
      ((deletionFor 6 archivedOnce item).1.rollback,
        deletingWorkflow.deleteTestItem again ⟨true, []⟩)
      (deletionFor 4 (deletionFor 6 archivedOnce item).1.rollback again) :=
    Prog.execFor_steps onHost_id 4 _ _
  obtain ⟨k, hk⟩ := call_of_nextDelete hn
  rw [hk] at hrun
  refine ⟨(deletionFor 6 archivedOnce item).1.rollback, _, again, "local_test", "a", "v1", k, ?_,
    Table.get_of_mem ha, hs, hrun, ?_⟩
  · exact (reachable_archivedOnce.cut (.deleteTestItem deletingWorkflow ⟨true, []⟩ ht trivial)
      (fun w o => ⟨trivial, onHost_id w o⟩) 6).abort
  · rintro ⟨r, hr, -, hrs⟩
    simpa [Event.reviews, hrs] using hlog _ (List.mem_of_mem_drop hr)

end Mnema
