import Mnema.Host

/-! The audit rows of an item, in the order of their ids, lead from `DISCOVERED` to the state
that the item has. -/

namespace Mnema

/-- The events lead from one state to the other, each by a valid transition. -/
def Trail : ArchiveState → List AuditEvent → ArchiveState → Prop
  | s, [], t => s = t
  | s, e :: rest, t => e.fromState = s ∧ validTransition s e.toState = true ∧ Trail e.toState rest t

theorem Trail.snoc {s t u : ArchiveState} {events : List AuditEvent} {e : AuditEvent}
    (h : Trail s events t) (hfrom : e.fromState = t) (hto : e.toState = u)
    (hv : validTransition t u = true) : Trail s (events ++ [e]) u := by
  induction events generalizing s with
  | nil =>
    obtain rfl : s = t := h
    exact ⟨hfrom, hto ▸ hv, hto⟩
  | cons x rest ih => exact ⟨h.1, h.2.1, ih h.2.2⟩

namespace Db

/-- The rows of the audit trail that record a transition of the item. -/
def transitions (d : Db) (id : Nat) : List AuditEvent :=
  d.events.filter fun e => e.archiveItemId == id && e.eventType == "state_transition"

/-- Every item has its trail, and no row is about an item that is not there. -/
structure Audited (d : Db) : Prop where
  trail : ∀ row ∈ d.items.rows, Trail .discovered (d.transitions row.id) row.state
  known : ∀ e ∈ d.events, e.eventType = "state_transition" → e.archiveItemId ∈ d.items.rows.map (·.id)

variable {d d' : Db} {row old : ArchiveItem} {event : AuditEvent}

theorem ids_put (d : Db) (row : ArchiveItem) :
    (d.items.put row).rows.map (·.id) = d.items.rows.map (·.id) := by
  simp only [Table.put, List.map_map]
  refine List.map_congr_left fun x _ => ?_
  by_cases hx : x.id = row.id <;> simp [hx]

theorem audited_of_same (h : d.Audited) (hi : d'.items = d.items) (he : d'.events = d.events) :
    d'.Audited := by
  have ht : ∀ id, d'.transitions id = d.transitions id := by
    intro id
    unfold transitions
    rw [he]
  refine ⟨fun row hrow => ?_, fun e hmem htype => ?_⟩
  · rw [ht]
    exact h.trail row (hi ▸ hrow)
  · rw [hi]
    exact h.known e (he ▸ hmem) htype

/-- A transition of one item, with its row. -/
theorem Audited.flush (h : d.Audited) (hold : d.items.get row.id = some old)
    (hid : event.archiveItemId = row.id) (htype : event.eventType = "state_transition")
    (hfrom : event.fromState = old.state) (hto : event.toState = row.state)
    (hv : validTransition old.state row.state = true)
    (hi : d'.items = d.items.put row) (he : d'.events = d.events ++ [event]) : d'.Audited := by
  have hmem := Table.mem_of_get hold
  have holdId := Table.key_of_get hold
  have ht : ∀ id, d'.transitions id = d.transitions id ++ if row.id = id then [event] else [] := by
    intro id
    unfold transitions
    rw [he, List.filter_append]
    by_cases hr : row.id = id
    · simp [hid, htype, hr]
    · simp [hid, hr]
  refine ⟨fun r hr => ?_, fun e hmem' htype' => ?_⟩
  · rw [hi] at hr
    rw [ht]
    rcases Table.mem_put hr with rfl | ⟨hr, hne⟩
    · rw [if_pos rfl]
      have htrail := h.trail old hmem
      rw [holdId] at htrail
      exact htrail.snoc hfrom hto hv
    · rw [if_neg fun heq => hne heq.symm, List.append_nil]
      exact h.trail r hr
  · rw [hi, ids_put]
    rw [he] at hmem'
    rcases List.mem_append.mp hmem' with hmem' | hmem'
    · exact h.known e hmem' htype'
    · obtain rfl := List.mem_singleton.mp hmem'
      rw [hid]
      exact List.mem_map.mpr ⟨old, hmem, holdId⟩

/-- A change of an item that leaves its state. -/
theorem Audited.save (h : d.Audited) (hold : d.items.get row.id = some old)
    (hstate : row.state = old.state) : Audited { d with items := d.items.put row } := by
  refine ⟨fun r hr => ?_, fun e hmem htype => ?_⟩
  · rcases Table.mem_put hr with rfl | ⟨hr, _⟩
    · have htrail := h.trail old (Table.mem_of_get hold)
      rw [Table.key_of_get hold, ← hstate] at htrail
      exact htrail
    · exact h.trail r hr
  · rw [ids_put]
    exact h.known e hmem htype

/-- A new item has no rows yet. -/
theorem Audited.addItem (h : d.Audited) (hstate : row.state = .discovered) :
    Audited { d with items := d.items.insert { row with id := d.newItemId } } := by
  refine ⟨fun r hr => ?_, fun e hmem htype => ?_⟩
  · rcases Table.mem_insert hr with hr | rfl
    · exact h.trail r hr
    · have hnone : d.transitions d.newItemId = [] := by
        refine List.filter_eq_nil_iff.mpr fun e he hc => ?_
        simp only [Bool.and_eq_true, beq_iff_eq] at hc
        exact World.newItemId_not_mem d (hc.1 ▸ h.known e he hc.2)
      show Trail _ (d.transitions d.newItemId) _
      rw [hnone]
      exact hstate.symm
  · obtain ⟨r, hr, hid⟩ := List.mem_map.mp (h.known e hmem htype)
    have hget := Table.get_insert_of_get (r := { row with id := d.newItemId }) (Table.get_of_mem hr)
    exact List.mem_map.mpr ⟨r, Table.mem_of_get hget, hid⟩

/-- A row that records no transition. -/
theorem Audited.addEvent (h : d.Audited) (htype : event.eventType ≠ "state_transition") :
    Audited { d with events := d.events ++ [event] } := by
  refine ⟨fun r hr => ?_, fun e hmem htype' => ?_⟩
  · have ht : Db.transitions { d with events := d.events ++ [event] } r.id = d.transitions r.id := by
      have hne : (event.eventType == "state_transition") = false := by simpa using htype
      unfold transitions
      rw [List.filter_append, List.filter_singleton, hne, Bool.and_false]
      exact List.append_nil _
    rw [ht]
    exact h.trail r hr
  · rcases List.mem_append.mp hmem with hmem | hmem
    · exact h.known e hmem htype'
    · exact absurd (List.mem_singleton.mp hmem ▸ htype') htype

end Db

/-! ### The operations -/

/-- A write of an item goes with the audit row that it needs. -/
def Audits {σ : Type} (w : World σ) : Op → Prop
  | .db (.flush row event) => ∃ old, w.txn.items.get row.id = some old ∧
      event.archiveItemId = row.id ∧ event.eventType = "state_transition" ∧
      event.fromState = old.state ∧ event.toState = row.state ∧
      validTransition old.state row.state = true
  | .db (.save row) => ∃ old, w.txn.items.get row.id = some old ∧ row.state = old.state
  | .db (.addItem row) => row.state = .discovered
  | .db (.addEvent event) => event.eventType ≠ "state_transition"
  | _ => True

section Operations

variable {σ α : Type} {X : ExtEnv σ} {w w' : World σ} {item : ArchiveItem} {event : AuditEvent}

theorem audits_of_silent {o : Op} (h : o.silent = true) : Audits w o := by
  cases o with
  | db o => cases o <;> trivial
  | ext o => cases o <;> trivial

theorem World.sameEvents_dbStep {o : DbOp} (h : (Op.db o).silent = true) :
    (w.dbStep o).2.txn.events = w.txn.events ∧ (w.dbStep o).2.db = w.db := by
  have hupload : ∀ id f, (w.setUpload id f).txn.events = w.txn.events ∧ (w.setUpload id f).db = w.db := by
    intro id f
    unfold World.setUpload
    split <;> exact ⟨rfl, rfl⟩
  cases o with
  | addItem _ | flush _ _ | save _ | commit | addEvent _ => cases h
  | setUploadStatus id st => exact hupload _ _
  | setReceivedSize id n => exact hupload _ _
  | addUpload _ | addFpItem _ | saveFpItem _ =>
    simp only [World.dbStep]
    split <;> exact ⟨rfl, rfl⟩
  | _ => exact ⟨rfl, rfl⟩

/-- Both copies of the database have their trails. -/
structure World.Audited (w : World σ) : Prop where
  db : w.db.Audited
  txn : w.txn.Audited

theorem World.Audited.step (h : w.Audited) {o : Op} {a : o.Ans} (ha : Audits w o)
    (he : World.env X w o a w') : w'.Audited := by
  cases o with
  | ext o =>
    obtain ⟨x, _, _, rfl⟩ := he
    exact ⟨h.db, h.txn⟩
  | db o =>
    obtain ⟨-, rfl⟩ := World.env_db.mp he
    cases hq : (Op.db o).silent with
    | true =>
      obtain ⟨hevents, hdb⟩ := World.sameEvents_dbStep (w := w) hq
      have hquiet : o.writesItem = false := by
        simpa [Op.quiet] using Op.quiet_of_silent hq
      have hitems := (World.sameRows_dbStep (w := w) hquiet).1.txn
      exact ⟨hdb ▸ h.db, Db.audited_of_same h.txn hitems hevents⟩
    | false =>
      cases o with
      | flush row event =>
        obtain ⟨old, hold, hid, htype, hfrom, hto, hv⟩ := ha
        exact ⟨h.db, h.txn.flush hold hid htype hfrom hto hv rfl rfl⟩
      | save row =>
        obtain ⟨old, hold, hstate⟩ := ha
        exact ⟨h.db, h.txn.save hold hstate⟩
      | addItem row =>
        simp only [World.dbStep]
        split
        · exact h
        · exact ⟨h.db, h.txn.addItem ha⟩
      | addEvent event => exact ⟨h.db, h.txn.addEvent ha⟩
      | commit => exact ⟨h.txn, h.txn⟩
      | _ => simp [Op.silent, Op.quiet, DbOp.writesItem] at hq

/-! ### The calls -/

/-- `p` writes items with their audit rows. -/
abbrev Signed (X : ExtEnv σ) (Q : α → World σ → Prop) (p : Flow α) (w : World σ) : Prop :=
  p.wp Audits (World.env X) Q (fun _ _ => True) w

/-- The session's row of the item is in its state. -/
def World.Shows (w : World σ) (item : ArchiveItem) : Prop :=
  ∃ row, w.txn.items.get item.id = some row ∧ row.state = item.state

theorem World.Shows.of_same (h : w.Shows item) (hs : w.SameRows w') : w'.Shows item := by
  obtain ⟨row, hrow, hstate⟩ := h
  exact ⟨row, hs.txn ▸ hrow, hstate⟩

theorem World.Shows.answered (h : w.Shows item) (o : ExtOp) (r : Except PyError o.Res) (x : σ) :
    (w.answered o r x).Shows item := h

theorem World.Shows.commit (h : w.Shows item) : w.commit.Shows item := h

theorem World.Shows.of_get (h : w.txn.items.get item.id = some item) : w.Shows item := ⟨item, h, rfl⟩

theorem signed_ext {o : ExtOp} {Q : o.Res → World σ → Prop}
    (hQ : ∀ a x, Q a (w.answered o (.ok a) x)) : Signed X Q (ext o) w := by
  refine wp_ext.mpr ⟨?_, fun a x _ _ => hQ a x, fun _ _ _ _ => trivial⟩
  cases o <;> trivial

theorem signed_silent {p : Flow α} {Q : α → World σ → Prop} (hp : Silent (fun _ => True) p)
    (hQ : ∀ a w', w.SameRows w' → Q a w') : Signed X Q p w := by
  have hw : p.wp Audits (World.env X) (fun _ w' => True ∧ w.SameRows w')
      (fun _ w' => True ∧ w.SameRows w') w :=
    hp.wp (fun _ _ ho _ => audits_of_silent ho)
      (fun _ _ _ _ ho hs he => hs.trans (World.sameRows_of_quiet (Op.quiet_of_silent ho) he)) (.refl w)
  exact hw.mono (fun _ _ ha => ha) (fun a w' hr => hQ a w' hr.2) fun _ _ _ => trivial

/-- The one way in which a state is written. -/
theorem signed_flush {target : ArchiveState} {actor : String} {Q : ArchiveItem → World σ → Prop}
    (h : w.Shows item)
    (hQ : ∀ event, Q { item with state := target } (w.flush { item with state := target } event)) :
    Signed X Q (transitionItem item target actor) w := by
  obtain ⟨row, hrow, hstate⟩ := h
  exact wp_transitionItem.mpr ⟨fun hv => ⟨⟨row, hrow, rfl, rfl, hstate.symm, rfl, hstate ▸ hv⟩, hQ _⟩,
    fun _ => trivial⟩

theorem signed_transition {target : ArchiveState} {actor : String} {Q : ArchiveItem → World σ → Prop}
    (h : w.Shows item)
    (hQ : ∀ w' : World σ, w'.Shows { item with state := target } → Q { item with state := target } w') :
    Signed X Q (transitionItem item target actor) w := by
  have ⟨row, hrow, _⟩ := h
  exact signed_flush h fun event => hQ _ (.of_get (World.Loaded.flushed hrow))

theorem signed_commit {Q : Unit → World σ → Prop} (hQ : Q () w.commit) :
    Signed X Q (db .commit) w :=
  wp_commit.mpr ⟨trivial, hQ⟩

theorem signed_checkpoint {target : ArchiveState} {actor : String} (h : w.Shows item) :
    Signed X (fun i w => w.Shows i)
      (do
        let i ← transitionItem item target actor
        db .commit
        pure i) w := by
  refine (Prog.wp_bind _ _).mpr (signed_transition h fun w' h' => ?_)
  exact (Prog.wp_bind _ _).mpr (signed_commit h')

end Operations

open ArchiveWorkflow

section Archive

variable {σ : Type} {X : ExtEnv σ} {w : World σ} {item : ArchiveItem} (wf : ArchiveWorkflow)

theorem enterStage_signed (h : w.Shows item) :
    Signed X (fun i w => w.Shows i) (enterStage item) w := by
  unfold enterStage
  split
  · exact signed_transition h fun _ h' => h'
  · exact h

theorem queueStage_signed (h : w.Shows item) :
    Signed X (fun i w => w.Shows i) (queueStage item) w := by
  unfold queueStage
  split
  · exact signed_checkpoint h
  · exact h

theorem download_signed (h : w.Shows item) (staged : Path) :
    Signed X (fun _ w => w.Shows item) (wf.download item staged) w := by
  simp only [download, Prog.wp_tryCatch, Prog.wp_bind]
  refine wp_ext.mpr ⟨trivial, fun a x _ _ => h, fun e x _ _ => ?_⟩
  split
  · exact h
  · trivial

theorem downloadStage_signed (h : w.Shows item) :
    Signed X (fun i w => w.Shows i.1) (wf.downloadStage item) w := by
  unfold downloadStage
  split
  case isFalse => exact h
  case isTrue =>
    simp only [partialPathIn, Prog.wp_bind, Prog.wp_pure]
    refine signed_ext fun _ x => ?_
    refine signed_silent (outside_clearPartial wf _).silent fun _ w' hw => ?_
    refine (download_signed wf ((h.answered _ _ x).of_same hw) _).post ?_
    rintro (_ | receipt) w'' h''
    · simp only [Prog.wp_bind, Prog.wp_pure]
      exact signed_transition h'' fun _ h' => signed_commit h'
    · simp only [Prog.wp_bind, Prog.wp_pure]
      exact signed_transition h'' fun _ h' => signed_commit h'

theorem stagedStage_signed (h : w.Shows item) (staged : Path) :
    Signed X (fun i w => w.Shows i) (stagedStage staged item) w := by
  unfold stagedStage
  split
  case isFalse => exact h
  case isTrue =>
    simp only [Prog.wp_bind, Prog.wp_pure]
    refine signed_ext fun actual x => wp_raiseIf.mpr ⟨fun _ => ?_, fun _ => trivial⟩
    exact signed_transition h fun _ h' => signed_commit h'

theorem verifiedStage_signed (h : w.Shows item) (staged : Path) :
    Signed X (fun i w => w.Shows i) (wf.verifiedStage staged item) w := by
  unfold verifiedStage
  split
  case isFalse => exact h
  case isTrue =>
    simp only [Prog.wp_bind, Prog.wp_pure]
    refine wp_require.mpr ⟨fun sha _ => ?_, fun _ => trivial⟩
    refine signed_silent (outside_placeActive wf staged sha).silent fun path w' hw => ?_
    refine signed_ext fun now x => ?_
    exact signed_transition ((h.of_same hw).answered _ _ x) fun _ h' => signed_commit h'

theorem advanceStage_signed {current target : ArchiveState} (h : w.Shows item) :
    Signed X (fun i w => w.Shows i) (advanceStage current target item) w := by
  unfold advanceStage
  split
  · exact signed_checkpoint h
  · exact h

theorem backupStage_signed (h : w.Shows item) :
    Signed X (fun i w => w.Shows i) (backupStage item) w := by
  unfold backupStage
  split
  case isFalse => exact h
  case isTrue =>
    simp only [Prog.wp_bind, Prog.wp_pure]
    refine wp_require.mpr ⟨fun path _ => wp_require.mpr ⟨fun sha _ => ?_, fun _ => trivial⟩,
      fun _ => trivial⟩
    refine signed_ext fun receipt x => signed_ext fun ok x => ?_
    refine wp_raiseIf.mpr ⟨fun _ => signed_ext fun now x => ?_, fun _ => trivial⟩
    exact signed_transition h fun _ h' => signed_commit h'

theorem uploadStage_signed (h : w.Shows item) :
    Signed X (fun i w => w.Shows i) (uploadStage item) w := by
  unfold uploadStage
  split
  case isFalse => exact h
  case isTrue =>
    simp only [Prog.wp_bind, Prog.wp_pure]
    refine wp_require.mpr ⟨fun path _ => wp_require.mpr ⟨fun sha _ => ?_, fun _ => trivial⟩,
      fun _ => trivial⟩
    refine signed_ext fun receipt x => signed_ext fun now x => ?_
    exact signed_transition h fun _ h' => signed_commit h'

theorem coldVerifyStage_signed (h : w.Shows item) :
    Signed X (fun i w => w.Shows i) (coldVerifyStage item) w := by
  unfold coldVerifyStage
  split
  case isFalse => exact h
  case isTrue =>
    simp only [Prog.wp_bind, Prog.wp_pure]
    refine wp_require.mpr ⟨fun sha _ => ?_, fun _ => trivial⟩
    refine (Prog.wp_ofExcept _).mpr ⟨fun receipt _ => signed_ext fun ok x => ?_, fun _ _ => trivial⟩
    refine wp_raiseIf.mpr ⟨fun _ => signed_ext fun now x => ?_, fun _ => trivial⟩
    exact signed_transition h fun _ h' => signed_commit h'

theorem coldArchiveStage_signed (h : w.Shows item) :
    Signed X (fun i w => w.Shows i) (coldArchiveStage item) w := by
  unfold coldArchiveStage
  split
  case isFalse => exact h
  case isTrue =>
    simp only [Prog.wp_bind, Prog.wp_pure]
    refine (Prog.wp_ofExcept _).mpr ⟨fun receipt _ => signed_ext fun _ x => ?_, fun _ _ => trivial⟩
    refine signed_ext fun now x => ?_
    exact signed_transition h fun _ h' => signed_commit h'

theorem quarantineStage_signed (h : w.Shows item) :
    Signed X (fun i w => w.Shows i) (wf.quarantineStage item) w := by
  unfold quarantineStage
  split
  case isFalse => exact h
  case isTrue =>
    simp only [Prog.wp_bind, Prog.wp_pure]
    refine signed_ext fun now x => ?_
    exact signed_transition h fun _ h' => signed_commit h'

theorem finishStages_signed (h : w.Shows item) :
    Signed X (fun i w => w.Shows i) (wf.finishStages item) w := by
  simp only [finishStages, partialPathIn, Prog.wp_bind, Prog.wp_pure]
  refine signed_ext fun _ x => (stagedStage_signed (h.answered _ _ x) _).post fun i w h => ?_
  refine (verifiedStage_signed wf h _).post fun i w h => ?_
  refine (advanceStage_signed h).post fun i w h => (backupStage_signed h).post fun i w h => ?_
  refine (advanceStage_signed h).post fun i w h => (uploadStage_signed h).post fun i w h => ?_
  refine (coldVerifyStage_signed h).post fun i w h => (advanceStage_signed h).post fun i w h => ?_
  exact (coldArchiveStage_signed h).post fun i w h => quarantineStage_signed wf h

theorem archive_signed (h : w.Shows item) :
    Signed X (fun _ _ => True) (wf.archive item) w := by
  unfold archive
  simp only [Prog.wp_bind]
  refine (enterStage_signed h).post fun i w h => (queueStage_signed h).post fun i w h => ?_
  refine (downloadStage_signed wf h).post fun p w h => ?_
  obtain ⟨i, returned⟩ := p
  cases returned with
  | true => trivial
  | false =>
    exact (finishStages_signed wf h).post fun _ _ _ => trivial

theorem judge_signed {source : SourceObject} (h : w.Shows item) :
    Signed X (fun _ _ => True) (wf.judge item source) w := by
  simp only [judge, Prog.wp_bind]
  exact signed_ext fun decision x => signed_transition h fun _ _ => trivial

theorem discoverObject_signed (source : SourceObject) :
    Signed X (fun _ _ => True) (wf.discoverObject source) w := by
  simp only [discoverObject, Prog.wp_bind]
  refine (wp_db_ok rfl).mpr ⟨trivial, ?_⟩
  split
  case h_1 =>
    simp only [Prog.wp_bind]
    refine wp_db.mpr ⟨rfl, fun item hi => ?_, fun _ _ => trivial⟩
    by_cases ht : w.txn.sourceTaken (wf.newItem source) = true
    · simp [World.dbStep, ht] at hi
    · simp only [World.dbStep, ht, Bool.false_eq_true, if_false, Except.ok.injEq] at hi ⊢
      subst hi
      exact judge_signed wf (.of_get (Table.get_insert_self (World.get_newItemId w.txn)))
  case h_2 item hi =>
    have hs : w.Shows item := .of_get (Table.get_of_first hi)
    split
    · simp only [Prog.wp_bind, Prog.wp_pure]
      refine signed_transition hs fun w' h' => ?_
      exact wp_save.mpr ⟨h'.imp fun _ hr => ⟨hr.1, hr.2.symm⟩, trivial⟩
    · split
      · exact judge_signed wf hs
      · trivial

theorem discover_signed (fuel : Nat) : Signed X (fun _ _ => True) (wf.discover fuel) w :=
  (discover_rule wf (K := fun _ => True) (fun _ _ _ => signed_ext fun _ _ => trivial)
    (fun _ source _ => discoverObject_signed wf source) fuel trivial)

/-! ### Deletion -/

theorem guardStep_signed {current target : ArchiveState} (h : w.Shows item) :
    Signed X (fun i w => w.Shows i) (guardStep current target item) w := by
  unfold guardStep
  split
  · exact signed_transition h fun _ h' => h'
  · exact h

theorem recordDeletion_signed (h : w.Shows item) (outcome : Option Bool) :
    Signed X (fun _ _ => True) (recordDeletion item outcome) w := by
  match outcome with
  | none =>
    simp only [recordDeletion, Prog.wp_bind, Prog.wp_pure]
    exact signed_transition h fun _ _ => trivial
  | some false =>
    simp only [recordDeletion, Prog.wp_bind, Prog.wp_pure]
    exact signed_transition h fun _ _ => trivial
  | some true =>
    simp only [recordDeletion, Prog.wp_bind, Prog.wp_pure]
    refine signed_ext fun now x => signed_transition (by exact h) fun _ h' => ?_
    exact signed_transition h' fun _ _ => trivial

theorem deleteTestItem_signed (h : w.Shows item) (decision : GateDecision) :
    Signed X (fun _ _ => True) (wf.deleteTestItem item decision) w := by
  simp only [deleteTestItem, Prog.wp_bind]
  refine signed_ext fun capabilities x => wp_raiseIf.mpr ⟨fun _ => ?_, fun _ => trivial⟩
  refine wp_raiseIf.mpr ⟨fun _ => signed_ext fun current x => ?_, fun _ => trivial⟩
  split
  case isTrue =>
    simp only [prepareDeletion, Prog.wp_bind, Prog.wp_pure]
    refine (guardStep_signed (by exact h)).post fun i w h => (guardStep_signed h).post fun i w h => ?_
    refine signed_transition h fun w h => signed_commit ?_
    simp only [deleteSource, Prog.wp_tryCatch, Prog.wp_bind, Prog.wp_pure]
    refine wp_ext.mpr ⟨trivial, fun _ x _ _ => recordDeletion_signed (h.commit.answered _ _ x) _,
      fun e x _ _ => ?_⟩
    split
    · exact recordDeletion_signed (h.commit.answered _ _ x) _
    · trivial
    · exact recordDeletion_signed (h.commit.answered _ _ x) _
  case isFalse =>
    simp only [Prog.wp_bind, Prog.wp_pure]
    exact signed_transition h fun _ _ => trivial

end Archive

section Uploads

variable {σ : Type} {X : ExtEnv σ} {w : World σ} (settings : Settings)

theorem createUpload_signed (request : UploadRequest) :
    Signed X (fun _ _ => True) (createUpload settings request) w := by
  simp only [createUpload, Prog.wp_bind, Prog.wp_pure]
  refine signed_silent journals_bootstrapRoots.silent fun _ w₁ _ => ?_
  refine (Prog.wp_ofExcept _).mpr ⟨fun name _ => ?_, fun _ _ => trivial⟩
  refine wp_raiseIf.mpr ⟨fun _ => signed_ext fun usage x => ?_, fun _ => trivial⟩
  refine (Prog.wp_ofExcept _).mpr ⟨fun lacking _ => ?_, fun _ _ => trivial⟩
  refine wp_raiseIf.mpr ⟨fun _ => ?_, fun _ => trivial⟩
  refine wp_raiseIf.mpr ⟨fun _ => signed_ext fun uploadId x => ?_, fun _ => trivial⟩
  refine signed_ext fun fpId x => signed_ext fun now x => ?_
  refine wp_db.mpr ⟨rfl, fun item hi => ?_, fun _ _ => trivial⟩
  simp only [World.dbStep] at hi ⊢
  split at hi
  · cases hi
  · rename_i ht
    rw [if_neg ht]
    cases hi
    refine signed_transition (.of_get (Table.get_insert_self (World.get_newItemId _))) fun _ h => ?_
    refine signed_transition h fun _ h => signed_transition h fun _ _ => ?_
    refine signed_ext fun now x => signed_silent (silent_db rfl) fun _ w₂ _ => ?_
    refine signed_ext fun now x => signed_silent (silent_db rfl) fun _ w₃ _ => ?_
    exact signed_silent (journals_recordChange _).silent fun _ _ _ => trivial

theorem sealUpload_signed (upload : FileProviderUpload) :
    Signed X (fun _ _ => True) (sealUpload settings upload) w := by
  simp only [sealUpload, Prog.wp_bind]
  refine signed_silent (outside_uploadPath _ _).silent fun source w₁ _ => ?_
  refine wp_raiseIf.mpr ⟨fun _ => (wp_db_ok rfl).mpr ⟨trivial, ?_⟩, fun _ => trivial⟩
  split
  case h_1 => trivial
  case h_2 item hi =>
    have h : w₁.Shows item := .of_get ((Table.key_of_get hi).symm ▸ hi)
    simp only [Prog.wp_bind]
    refine signed_silent (outside_createIfEmpty _ _).silent fun _ w₂ hw => ?_
    replace h := h.of_same hw
    refine signed_silent (outside_sealCandidate _ _).silent fun _ w₃ hw => ?_
    replace h := h.of_same hw
    refine signed_silent (outside_incomplete _ _).silent fun _ w₄ hw => ?_
    replace h := h.of_same hw
    refine wp_raiseIf.mpr ⟨fun _ => signed_ext fun checksum x => ?_, fun _ => trivial⟩
    refine wp_raiseIf.mpr ⟨fun _ => ?_, fun _ => trivial⟩
    refine signed_silent (outside_stageUpload _ _ _).silent fun _ w₅ hw => ?_
    refine signed_transition ((h.answered _ _ x).of_same hw) fun _ _ => ?_
    refine signed_silent (silent_db rfl) fun _ w₆ _ => (wp_db_ok rfl).mpr ⟨trivial, ?_⟩
    split
    case h_1 => trivial
    case h_2 fp _ =>
      exact signed_silent (silent_bind (silent_db rfl) fun _ => silent_bind (journals_enqueueArchive _ _ _).silent
        fun _ => silent_bind (journals_recordChange _).silent fun _ => trivial) fun _ _ _ => trivial

theorem completeSeal_signed (uploadId : String) :
    Signed X (fun _ _ => True) (completeSeal settings uploadId) w := by
  simp only [completeSeal, Prog.wp_bind]
  refine (wp_db_ok rfl).mpr ⟨trivial, ?_⟩
  split
  · trivial
  · exact (Prog.wp_bind _ _).mpr ((sealUpload_signed settings _).post fun _ _ _ => trivial)

theorem reconcileSealing_signed (uploadId : String) :
    Signed X (fun _ _ => True) (reconcileSealing settings uploadId) w := by
  simp only [reconcileSealing, Prog.wp_bind]
  refine (wp_db_ok rfl).mpr ⟨trivial, ?_⟩
  split
  · trivial
  · exact (Prog.wp_bind _ _).mpr ((sealUpload_signed settings _).post fun _ _ _ => trivial)

theorem reapUpload_signed (now : Time) (upload : FileProviderUpload) :
    Signed X (fun _ _ => True) (reapUpload settings now upload) w := by
  unfold reapUpload
  split
  case isTrue => trivial
  case isFalse =>
    simp only [Prog.wp_bind]
    refine signed_silent (outside_uploadPath _ _).silent fun path w₁ _ => ?_
    refine signed_silent (outside_removeUploadFile _).silent fun _ w₂ _ => ?_
    refine signed_silent (silent_db rfl) fun _ w₃ _ => ?_
    refine signed_silent (journals_markUploadFailed _ _).silent fun _ w₄ _ => ?_
    refine (wp_db_ok rfl).mpr ⟨trivial, ?_⟩
    split
    case h_1 item hi =>
      have h : w₄.Shows item := .of_get ((Table.key_of_get hi).symm ▸ hi)
      split
      · trivial
      · exact (Prog.wp_bind _ _).mpr (signed_transition h fun _ _ => trivial)
    case h_2 => trivial

theorem reapExpiredUploads_signed : Signed X (fun _ _ => True) (reapExpiredUploads settings) w := by
  have hall : ∀ (now : Time) (uploads : List FileProviderUpload) (w : World σ),
      Signed X (fun _ _ => True) (reapUploads settings now uploads) w := by
    intro now uploads
    induction uploads with
    | nil => exact fun _ => trivial
    | cons upload rest ih =>
      intro w
      simp only [reapUploads, Prog.wp_bind]
      exact (reapUpload_signed settings now upload).post fun _ w _ => (ih w).post fun _ _ _ => trivial
  simp only [reapExpiredUploads, Prog.wp_bind]
  exact signed_ext fun now x => signed_silent (silent_db rfl) fun uploads w₁ _ => hall now uploads w₁

end Uploads

section Recovery

variable {σ : Type} {X : ExtEnv σ} {w : World σ} {item : ArchiveItem}

theorem reconcileItem_signed {rest : List ArchiveItem} (hs : w.Selected (item :: rest)) :
    Signed X (fun _ w => w.Selected rest) (reconcileItem item) w := by
  have h : w.Shows item := .of_get (hs.2 item List.mem_cons_self)
  obtain ⟨hnot, hnodup⟩ := List.nodup_cons.mp hs.1
  have hrest : w.Selected rest := ⟨hnodup, fun r hr => hs.2 r (List.mem_cons_of_mem _ hr)⟩
  unfold reconcileItem
  split
  case isTrue =>
    simp only [Prog.wp_bind, Prog.wp_pure]
    exact signed_flush h fun event => hrest.flush hnot
  case isFalse =>
    split
    case isTrue =>
      simp only [Prog.wp_bind, Prog.wp_pure]
      have hevent : "interrupted_step_resumed" ≠ "state_transition" := by decide
      exact wp_db.mpr ⟨hevent, fun _ _ => hrest, fun _ _ => trivial⟩
    case isFalse =>
      simp only [Prog.wp_bind]
      refine signed_silent silent_awaitingClientUpload fun awaiting w₁ hw => ?_
      split
      case isTrue => exact hrest.of_same hw
      case isFalse =>
        simp only [Prog.wp_bind, Prog.wp_pure]
        exact signed_flush (h.of_same hw) fun event => (hrest.of_same hw).flush hnot

theorem reconcileItems_signed (items : List ArchiveItem) (hs : w.Selected items) :
    Signed X (fun _ _ => True) (reconcileItems items) w := by
  induction items generalizing w with
  | nil => trivial
  | cons item rest ih =>
    simp only [reconcileItems, Prog.wp_bind]
    exact (reconcileItem_signed hs).post fun _ w hs => (ih hs).post fun _ _ _ => trivial

theorem reconcileInterruptedItems_signed (onlyDeletions : Bool) :
    Signed X (fun _ _ => True) (reconcileInterruptedItems onlyDeletions) w := by
  simp only [reconcileInterruptedItems, Prog.wp_bind]
  refine (wp_db_ok rfl).mpr ⟨trivial, reconcileItems_signed _ ⟨?_, fun item hi => ?_⟩⟩
  · exact w.txn.items.nodup.sublist (List.filter_sublist.map _)
  · exact Table.get_of_mem (List.mem_filter.mp hi).1

end Recovery

/-! ### Runs -/

section Runs

variable {σ : Type} {X : ExtEnv σ} {w : World σ} {p : Flow Unit}

theorem call_signed {D : World σ → ArchiveItem → Prop} (h : Call D w p) :
    Signed X (fun _ _ => True) p w := by
  have void : ∀ {α : Type} {q : Flow α}, Signed X (fun _ _ => True) q w →
      Signed X (fun _ _ => True) q.void w := fun hq => (Prog.wp_void _).mpr hq
  have silent : ∀ {α : Type} {q : Flow α}, Silent (fun _ => True) q →
      Signed X (fun _ _ => True) q w := fun hq => signed_silent hq fun _ _ _ => trivial
  cases h with
  | discover wf fuel => exact void (discover_signed wf fuel)
  | archive wf h => exact void (archive_signed wf (.of_get h))
  | deletionDecision wf c => exact void (silent (outside_deletionDecision wf c).silent)
  | deleteTestItem wf decision h => exact deleteTestItem_signed wf (.of_get h) decision
  | createUpload settings request => exact void (createUpload_signed settings request)
  | appendUpload settings => exact void (silent (silent_appendUpload settings _ _ _ _))
  | completeBegin => exact void (silent (silent_completeBegin _))
  | completeSeal settings uploadId => exact completeSeal_signed settings uploadId
  | listSealing => exact void (silent silent_listSealing)
  | reconcileSealing settings uploadId => exact reconcileSealing_signed settings uploadId
  | failSealing => exact silent (silent_failSealing _)
  | reapExpiredUploads settings => exact void (reapExpiredUploads_signed settings)
  | reconcileInterruptedItems onlyDeletions =>
    exact void (reconcileInterruptedItems_signed onlyDeletions)

theorem audited_of_reachable {D : World σ → ArchiveItem → Prop} {G : World σ → Op → Prop} {x : σ}
    {c : (runs X (Call D) G).Config} (h : (runs X (Call D) G).Reachable (World.fresh x) c) :
    c.1.Audited := by
  have hinv : (runs X (Call D) G).Invariant Audits (fun _ => True) World.Audited :=
    { calls := fun _ _ _ _ hp => (call_signed hp).restrict fun _ _ _ _ he => he.2
      step := fun _ _ _ _ ha hI he => hI.step ha he.2
      commit := fun _ hI _ => ⟨⟨hI.txn, hI.txn⟩, trivial⟩
      rollback := fun _ hI => ⟨⟨hI.db, hI.db⟩, trivial⟩ }
  have hfresh : Db.Audited {} := ⟨fun _ h => absurd h List.not_mem_nil, fun _ h => absurd h List.not_mem_nil⟩
  exact hinv.holds ⟨hfresh, hfresh⟩ trivial h

/-- In every run of the calls over whatever the outside answers, cut off and rolled back
anywhere: the committed transitions of each item, in the order of their ids, lead from
`DISCOVERED` to the item's committed state. -/
theorem audit_trail {x : σ} {c : (runs X (Call anyItem) anyOp).Config}
    (h : (runs X (Call anyItem) anyOp).Reachable (World.fresh x) c) :
    ∀ row ∈ c.1.db.items.rows, Trail .discovered (c.1.db.transitions row.id) row.state :=
  (audited_of_reachable h).db.trail

end Runs

theorem audit_trail_archivedOnce : ∃ row ∈ archivedOnce.db.items.rows,
    archivedOnce.db.transitions row.id ≠ [] ∧
      Trail .discovered (archivedOnce.db.transitions row.id) row.state := by
  have hrow : ∃ row ∈ archivedOnce.db.items.rows, archivedOnce.db.transitions row.id ≠ [] := by decide
  obtain ⟨row, hrow, hevents⟩ := hrow
  exact ⟨row, hrow, hevents, audit_trail reachable_archivedOnce row hrow⟩

end Mnema
