import Mnema.UploadConformance

/-! Whole runs of the program, and the rule by which a fact about single row
versions is carried through all of them. -/

namespace Mnema

/-! ### Calls -/

/-- What a caller may run in the open session. An item is passed as the session has it, and
`D` tells for which items a deletion may be started. -/
inductive Call {σ : Type} (D : World σ → ArchiveItem → Prop) (w : World σ) : Flow Unit → Prop where
  | discover (wf : ArchiveWorkflow) (fuel : Nat) : Call D w (wf.discover fuel).void
  | archive (wf : ArchiveWorkflow) {item : ArchiveItem}
      (h : w.txn.items.get item.id = some item) : Call D w (wf.archive item).void
  | deletionDecision (wf : ArchiveWorkflow) {item : ArchiveItem}
      (c : ArchiveWorkflow.DeletionContext)
      (h : w.txn.items.get item.id = some item) : Call D w (wf.deletionDecision item c).void
  | deleteTestItem (wf : ArchiveWorkflow) {item : ArchiveItem} (decision : GateDecision)
      (h : w.txn.items.get item.id = some item) (hd : D w item) : Call D w (wf.deleteTestItem item decision)
  | createUpload (settings : Settings) (request : UploadRequest) :
      Call D w (createUpload settings request).void
  | appendUpload (settings : Settings) (uploadId : String) (offset : Nat) (body : List Bytes)
      (broken : Option PyError) :
      Call D w (appendUpload settings uploadId offset body broken).void
  | completeBegin (uploadId : String) : Call D w (completeBegin uploadId).void
  | completeSeal (settings : Settings) (uploadId : String) : Call D w (completeSeal settings uploadId)
  | listSealing : Call D w listSealing.void
  | reconcileSealing (settings : Settings) (uploadId : String) :
      Call D w (reconcileSealing settings uploadId)
  | failSealing (uploadId : String) : Call D w (failSealing uploadId)
  | reapExpiredUploads (settings : Settings) : Call D w (reapExpiredUploads settings).void
  | reconcileInterruptedItems (onlyDeletions : Bool) :
      Call D w (reconcileInterruptedItems onlyDeletions).void

/-- The calls of a library scan and its archiving, over the adapter of one provider. -/
inductive SyncCall {σ : Type} (provider : String) (w : World σ) : Flow Unit → Prop where
  | discover (wf : ArchiveWorkflow) (hp : wf.sourceProvider = provider) (fuel : Nat) :
      SyncCall provider w (wf.discover fuel).void
  | archive (wf : ArchiveWorkflow) {item : ArchiveItem} (hp : wf.sourceProvider = provider)
      (h : w.txn.items.get item.id = some item) : SyncCall provider w (wf.archive item).void

/-- Sessions that do not overlap: calls that `start` allows, over any outside `X`, with
only the operations that `G` permits. -/
def runs {σ : Type} (X : ExtEnv σ) (start : World σ → Flow Unit → Prop)
    (G : World σ → Op → Prop) : Sessions (World σ) Op Op.Ans PyError where
  env := fun w o a w' => G w o ∧ World.env X w o a w'
  start := start
  commit := World.commit
  rollback := World.rollback

/-- A write that `G` has to permit. -/
theorem wp_runs_save {σ : Type} {X : ExtEnv σ} {start : World σ → Flow Unit → Prop}
    {G pre : World σ → Op → Prop} {Q : Unit → World σ → Prop} {E : PyError → World σ → Prop}
    {w : World σ} {row : ArchiveItem} :
    (db (.save row)).wp pre (runs X start G).env Q E w ↔
      pre w (.db (.save row)) ∧ (G w (.db (.save row)) → Q () (w.write row)) := by
  refine and_congr_right fun _ => ⟨fun h hG => h _ _ ⟨hG, rfl⟩, fun h a w' he => ?_⟩
  obtain ⟨rfl, rfl⟩ := World.env_db.mp he.2
  exact h he.1

/-- Any item may be deleted. -/
def anyItem {σ : Type} (_ : World σ) (_ : ArchiveItem) : Prop := True

/-- Every operation is permitted. -/
def anyOp {σ : Type} (_ : World σ) (_ : Op) : Prop := True

/-- A new installation: no row, no session, nothing observed. -/
def World.fresh {σ : Type} (x : σ) : World σ := ⟨{}, {}, [], [], x⟩

theorem World.ready_fresh {σ : Type} (x : σ) : (World.fresh x).Ready :=
  ⟨fun _ hr => absurd hr List.not_mem_nil, fun _ hi => by simp [World.fresh] at hi⟩

section Calls

variable {σ : Type} {X : ExtEnv σ} {w : World σ} {p : Flow Unit}

theorem World.Loaded.of_get {item : ArchiveItem} (hr : w.Ready)
    (h : w.txn.items.get item.id = some item) : w.Loaded item :=
  ⟨h, hr⟩

theorem Conforms.mono {M M' : Moves}
    (hM : ∀ actor log old new, M actor log old new → M' actor log old new) {o : Op}
    (h : Conforms M w o) : Conforms M' w o := by
  cases o with
  | db o =>
    cases o with
    | flush row event => exact h.imp fun _ ho => ⟨ho.1, hM _ _ _ _ ho.2.1, ho.2.2⟩
    | save row => exact h.imp fun _ ho => ⟨ho.1, ho.2.1.imp fun _ => hM _ _ _ _, ho.2.2⟩
    | _ => exact h
  | ext o => cases o <;> exact h

theorem sound_mono {α : Type} {M M' : Moves} {Q : α → World σ → Prop} {p : Flow α}
    (h : Sound M X Q p w) (hM : ∀ actor log old new, M actor log old new → M' actor log old new) :
    Sound M' X Q p w :=
  h.mono (fun _ _ hc => hc.mono hM) (fun _ _ hq => hq) fun _ _ he => he

/-- The moves of every call but a deletion; only a scan signs as the scanner. -/
def serviceMove : Moves := fun actor log old new =>
  ServiceMove log old new ∧ (new.state = .sourceChanged → old.state = .deleting → actor = "scanner")

theorem serviceMove_of_scan {actor : String} {log : List Event} {old new : ArchiveItem}
    (h : scannerMove actor log old new) : serviceMove actor log old new :=
  ⟨.scan h.2, fun _ _ => h.1⟩

theorem serviceMove_of_archive {provider actor : String} {log : List Event}
    {old new : ArchiveItem} (h : ArchiveMove provider log old new) :
    serviceMove actor log old new := by
  have hsteps : ∀ target, (ArchiveState.deleting, target) ∉ archiveSteps := by decide
  refine ⟨.archive h, fun hn hd => ?_⟩
  cases h with
  | step hs => exact absurd (hd ▸ hs) (hsteps _)
  | _ => exact absurd hn (by simp)

theorem serviceMove_of_upload {actor : String} {log : List Event} {old new : ArchiveItem}
    (h : UploadMove old new) : serviceMove actor log old new :=
  ⟨.upload h, fun hn _ => by cases h <;> exact absurd hn (by simp)⟩

theorem serviceMove_of_recovery {actor : String} {log : List Event} {old new : ArchiveItem}
    (h : RecoveryMove old new) : serviceMove actor log old new :=
  ⟨.recovery h, fun hn _ => by cases h <;> exact absurd hn (by simp)⟩

/-- A call is a deletion, which keeps to its item, or makes no move of a deletion. -/
theorem call_sound_cases {D : World σ → ArchiveItem → Prop} (hr : w.Ready) (h : Call D w p) :
    Sound serviceMove X (fun _ w => w.Ready) p w ∨
      ∃ item, w.Loaded item ∧ D w item ∧ Sound (deletionOf item.id) X (fun _ w => w.Ready) p w := by
  have quiet : ∀ {α : Type} {q : Flow α}, Quiet (fun _ => True) q →
      Sound serviceMove X (fun _ w => w.Ready) q w :=
    fun hq => sound_quiet hq hr fun _ _ hw => hr.of_same hw
  have void : ∀ {α : Type} {q : Flow α} {M : Moves},
      Sound M X (fun _ w => w.Ready) q w → Sound M X (fun _ w => w.Ready) q.void w :=
    fun hq => (Prog.wp_void _).mpr hq
  cases h with
  | discover wf fuel =>
    exact .inl (void (sound_mono (discover_sound wf fuel hr) fun _ _ _ _ => serviceMove_of_scan))
  | archive wf h =>
    refine .inl (void ((sound_mono (archive_sound wf ⟨h, hr⟩) ?_).post fun _ _ hl => hl.ready))
    exact fun _ _ _ _ => serviceMove_of_archive
  | deletionDecision wf c h => exact .inl (void (quiet (outside_deletionDecision wf c).quiet))
  | deleteTestItem wf decision h hd =>
    exact .inr ⟨_, ⟨h, hr⟩, hd, deleteTestItem_sound wf ⟨h, hr⟩ decision⟩
  | createUpload settings request =>
    refine .inl (void (sound_mono (createUpload_sound settings hr request) ?_))
    exact fun _ _ _ _ => serviceMove_of_upload
  | appendUpload settings => exact .inl (void (quiet (silent_appendUpload settings _ _ _ _).quiet))
  | completeBegin => exact .inl (void (quiet (silent_completeBegin _).quiet))
  | completeSeal settings uploadId =>
    refine .inl (sound_mono (completeSeal_sound settings hr uploadId) ?_)
    exact fun _ _ _ _ => serviceMove_of_upload
  | listSealing => exact .inl (void (quiet silent_listSealing.quiet))
  | reconcileSealing settings uploadId =>
    refine .inl (sound_mono (reconcileSealing_sound settings hr uploadId) ?_)
    exact fun _ _ _ _ => serviceMove_of_upload
  | failSealing => exact .inl (quiet (silent_failSealing _).quiet)
  | reapExpiredUploads settings =>
    refine .inl (void (sound_mono (reapExpiredUploads_sound settings hr) ?_))
    exact fun _ _ _ _ => serviceMove_of_upload
  | reconcileInterruptedItems onlyDeletions =>
    refine .inl (void (sound_mono (reconcileInterruptedItems_sound hr onlyDeletions) ?_))
    exact fun _ _ _ _ => serviceMove_of_recovery

/-- Every call makes moves of the program alone. -/
theorem call_sound {D : World σ → ArchiveItem → Prop} (hr : w.Ready) (h : Call D w p) :
    Sound (fun _ => Move) X (fun _ w => w.Ready) p w := by
  rcases call_sound_cases hr h with hs | ⟨item, _, _, hs⟩
  · exact sound_mono hs fun _ _ _ _ hm => .service hm.1
  · exact sound_mono hs fun _ _ _ _ hm => .deletion hm.2

/-- What the calls of a scan and its archiving may do to a row. -/
inductive SyncMove (provider : String) (log : List Event) (old new : ArchiveItem) : Prop where
  | scan (h : ScanMove log old new)
  | archive (h : ArchiveMove provider log old new)

theorem syncCall_sound {provider : String} (hr : w.Ready) (h : SyncCall provider w p) :
    Sound (fun _ => SyncMove provider) X (fun _ w => w.Ready) p w := by
  cases h with
  | discover _ hp fuel =>
    exact (Prog.wp_void _).mpr (sound_mono (discover_sound _ fuel hr)
      fun _ _ _ _ hm => .scan hm.2)
  | archive _ hp h =>
    subst hp
    refine (Prog.wp_void _).mpr ((sound_mono (archive_sound _ ⟨h, hr⟩) ?_).post ?_)
    · exact fun _ _ _ _ => .archive
    · exact fun _ _ hl => hl.ready

/-- Between two calls nothing checkpointed awaits its commit. -/
theorem ready_of_reachable {D : World σ → ArchiveItem → Prop} {G : World σ → Op → Prop} {x : σ}
    (h : (runs X (Call D) G).Reachable (World.fresh x) (w, none)) : w.Ready := by
  have hinv : (runs X (Call D) G).Invariant (Conforms fun _ => Move) World.Ready fun _ => True :=
    { calls := fun _ _ _ hr hp => (call_sound hr hp).restrict fun _ _ _ _ he => he.2
      step := fun _ _ _ _ _ _ _ => trivial
      commit := fun _ _ _ => ⟨trivial, World.ready_commit⟩
      rollback := fun _ _ => ⟨trivial, World.ready_rollback⟩ }
  exact hinv.between trivial (World.ready_fresh x) h

end Calls

/-! ### Runs against fixed answers -/

section Execution

variable {σ : Type} {X : ExtEnv σ} {start : World σ → Flow Unit → Prop} {w w₀ : World σ}

/-- One operation, with `f` answering for what lies outside. -/
def World.handler (f : σ → (o : ExtOp) → Except PyError o.Res × σ) (w : World σ) :
    (o : Op) → o.Ans × World σ
  | .db o => w.dbStep o
  | .ext o => ((f w.ext o).1, w.answered o (f w.ext o).1 (f w.ext o).2)

theorem World.handler_env {f : σ → (o : ExtOp) → Except PyError o.Res × σ}
    (hX : ∀ x o, X x o (f x o).1 (f x o).2) (hh : ∀ x o, honest o (f x o).1) (w : World σ)
    (o : Op) : World.env X w o (w.handler f o).1 (w.handler f o).2 := by
  cases o with
  | db o => rfl
  | ext o => exact ⟨_, hX _ _, hh _ _, rfl⟩

/-- A call on the row that the session has under `id`, if it has one. -/
def onItem (w : World σ) (id : Nat) (p : ArchiveItem → Flow Unit) : Flow Unit :=
  match w.txn.items.get id with
  | some item => p item
  | none => .ret ()

end Execution

/-! ### Facts about row versions -/

/-- Whether the event is a row version made durable. -/
def Event.isCommitted : Event → Bool
  | .committed _ => true
  | _ => false

theorem not_committed_of_observe {o : ExtOp} {a : Except PyError o.Res} {e : Event}
    (h : e ∈ observe o a) : e.isCommitted = false := by
  unfold observe at h
  split at h
  case h_1 =>
    split at h
    · exact (List.mem_singleton.mp h) ▸ rfl
    · exact absurd h List.not_mem_nil
  case h_7 => exact absurd h List.not_mem_nil
  all_goals exact (List.mem_singleton.mp h) ▸ rfl

namespace World

variable {σ : Type} {w : World σ}

/-- Every version written so far: the durable ones, then those awaiting their commit. -/
def versions (w : World σ) : List Event := w.log ++ w.pend.map .committed

end World

/-- The row an operation writes over an earlier version. -/
def Op.written : Op → Option ArchiveItem
  | .db (.flush row _) | .db (.save row) => some row
  | _ => none

/-- A fact `P` about a row version, in the light of the events before it, that the
moves `M` carry on. `L` holds of every event. -/
structure RowInvariant {σ : Type} (M : Moves) (X : ExtEnv σ) (G : World σ → Op → Prop) (L : Event → Prop)
    (P : List Event → ArchiveItem → Prop) : Prop where
  events : ∀ x o a x', X x o a x' → honest o a → ∀ e ∈ observe o a, L e
  committed : ∀ row, L (.committed row)
  observed : ∀ before after e row, e.isCommitted = false → P (before ++ after) row →
    P (before ++ e :: after) row
  added : ∀ log row, row.state = .discovered → P log row
  other : ∀ log row new, row.id ≠ new.id → P log row → P (log ++ [.committed new]) row
  moved : ∀ (w : World σ) o actor old new, G w o → o.written = some new → (∀ e ∈ w.log, L e) →
    old.id = new.id → M actor w.log old new → P w.versions old →
    (old.state ∈ inPipeline → w.Durable old ∧ P w.log old) → P (w.versions ++ [.committed new]) new

/-- Every version in the list satisfied `P` when it was written. -/
def History (P : List Event → ArchiveItem → Prop) (l : List Event) : Prop :=
  ∀ before row after, l = before ++ .committed row :: after → P (before ++ [.committed row]) row

namespace RowInvariant

variable {σ : Type} {M : Moves} {X : ExtEnv σ}
  {G : World σ → Op → Prop} {L : Event → Prop} {P : List Event → ArchiveItem → Prop}
  {w w' : World σ}

structure Holds (L : Event → Prop) (P : List Event → ArchiveItem → Prop) (w : World σ) : Prop where
  events : ∀ e ∈ w.log, L e
  db : ∀ row ∈ w.db.items.rows, P w.log row
  txn : ∀ row ∈ w.txn.items.rows, P w.versions row
  history : History P w.versions

theorem holds_of_same (h : Holds L P w) (hs : w.SameRows w') (hl : w'.log = w.log) :
    Holds L P w' := by
  have hv : w'.versions = w.versions := by simp [World.versions, hl, hs.pend]
  exact ⟨hl ▸ h.events, by rw [hs.db, hl]; exact h.db, by rw [hs.txn, hv]; exact h.txn,
    hv ▸ h.history⟩

theorem observed_list (h : RowInvariant M X G L P) {before after es : List Event}
    {row : ArchiveItem} (hes : ∀ e ∈ es, e.isCommitted = false) (hp : P (before ++ after) row) :
    P (before ++ (es ++ after)) row := by
  induction es with
  | nil => exact hp
  | cons e es ih =>
    exact h.observed _ _ e _ (hes e List.mem_cons_self)
      (ih fun e he => hes e (List.mem_cons_of_mem _ he))

theorem history_insert (h : RowInvariant M X G L P) {before after : List Event} {e : Event}
    (he : e.isCommitted = false) (hh : History P (before ++ after)) :
    History P (before ++ e :: after) := by
  intro front row back hs
  rcases List.append_eq_append_iff.mp hs with ⟨gap, rfl, hg⟩ | ⟨gap, rfl, hg⟩
  · cases gap with
    | nil => simp [(List.cons.inj hg).1, Event.isCommitted] at he
    | cons g gap =>
      obtain ⟨rfl, rfl⟩ := List.cons.inj hg
      have hp := hh (before ++ gap) row back (by simp)
      simpa using h.observed before (gap ++ [.committed row]) e row he (by simpa using hp)
  · cases gap with
    | nil => simp [← (List.cons.inj hg).1, Event.isCommitted] at he
    | cons g gap =>
      obtain ⟨rfl, rfl⟩ := List.cons.inj hg
      exact hh front row (gap ++ after) (by simp)

theorem history_insert_list (h : RowInvariant M X G L P) {before after es : List Event}
    (hes : ∀ e ∈ es, e.isCommitted = false) (hh : History P (before ++ after)) :
    History P (before ++ (es ++ after)) := by
  induction es with
  | nil => exact hh
  | cons e es ih =>
    exact h.history_insert (hes e List.mem_cons_self)
      (ih fun e he => hes e (List.mem_cons_of_mem _ he))

theorem history_snoc {l : List Event} {row : ArchiveItem} (hh : History P l)
    (hp : P (l ++ [.committed row]) row) : History P (l ++ [.committed row]) := by
  intro front r back hs
  rcases List.append_eq_append_iff.mp hs with ⟨gap, rfl, hg⟩ | ⟨gap, rfl, hg⟩
  · cases gap with
    | nil =>
      obtain ⟨he, -⟩ := List.cons.inj hg
      obtain rfl := Event.committed.inj he
      simpa using hp
    | cons g gap => simp at hg
  · cases gap with
    | nil =>
      obtain ⟨he, -⟩ := List.cons.inj hg
      obtain rfl := Event.committed.inj he
      simpa using hp
    | cons g gap =>
      obtain ⟨rfl, -⟩ := List.cons.inj hg
      exact hh front r gap rfl

theorem History.of_append {l l' : List Event} (hh : History P (l ++ l')) : History P l :=
  fun front row back hs => hh front row (back ++ l') (by simp [hs])

/-- Observing something between the durable versions and the pending ones. -/
theorem holds_answered (h : RowInvariant M X G L P) (hw : Holds L P w) {o : ExtOp}
    {a : Except PyError o.Res} {x : σ} (hx : X w.ext o a x) (hh : honest o a) :
    Holds L P (w.answered o a x) := by
  have hes := fun e => not_committed_of_observe (o := o) (a := a) (e := e)
  have hv : (w.answered o a x).versions = w.log ++ (observe o a ++ w.pend.map .committed) := by
    simp [World.versions]
  refine ⟨fun e he => ?_, fun row hr => ?_, fun row hr => hv ▸ h.observed_list hes (hw.txn row hr),
    hv ▸ h.history_insert_list hes hw.history⟩
  · rcases List.mem_append.mp he with he | he
    · exact hw.events e he
    · exact h.events _ _ _ _ hx hh e he
  · have hp : P (w.log ++ []) row := (List.append_nil w.log).symm ▸ hw.db row hr
    simpa using h.observed_list hes hp

/-- Writing a version over an earlier one. -/
theorem holds_written (h : RowInvariant M X G L P) (hw : Holds L P w) {o : Op}
    {actor : String} {old row : ArchiveItem} (hg : G w o) (ho : o.written = some row)
    (hget : w.txn.items.get row.id = some old) (hM : M actor w.log old row)
    (hd : old.state ∈ inPipeline → w.Durable old) (hdb : w'.db = w.db)
    (htxn : w'.txn.items = w.txn.items.put row) (hpend : w'.pend = w.pend ++ [row])
    (hlog : w'.log = w.log) : Holds L P w' := by
  have hv : w'.versions = w.versions ++ [.committed row] := by
    simp [World.versions, hlog, hpend]
  have hp : P w'.versions row := by
    rw [hv]
    refine h.moved w o actor old row hg ho hw.events (Table.key_of_get hget) hM
      (hw.txn old (Table.mem_of_get hget)) fun hs => ⟨hd hs, ?_⟩
    exact hw.db old (Table.mem_of_get (hd hs).1)
  refine ⟨hlog ▸ hw.events, by rw [hdb, hlog]; exact hw.db, fun r hr => ?_, ?_⟩
  · rw [htxn] at hr
    rcases Table.mem_put hr with rfl | ⟨hr, hne⟩
    · exact hp
    · exact hv ▸ h.other _ _ _ hne (hw.txn r hr)
  · exact hv ▸ history_snoc hw.history (hv ▸ hp)

theorem holds_added (h : RowInvariant M X G L P) (hw : Holds L P w) {row : ArchiveItem}
    (hs : row.state = .discovered) : Holds L P (w.addItem row) := by
  have hv : (w.addItem row).versions =
      w.versions ++ [.committed { row with id := w.txn.newItemId }] := by
    simp [World.versions]
  refine ⟨hw.events, hw.db, fun r hr => ?_, ?_⟩
  · rw [hv]
    rcases Table.mem_insert hr with hr | rfl
    · refine h.other _ _ _ (fun he => ?_) (hw.txn r hr)
      exact World.newItemId_not_mem w.txn (List.mem_map.mpr ⟨r, hr, he⟩)
    · exact h.added _ _ hs
  · exact hv ▸ history_snoc hw.history (h.added _ _ hs)

theorem holds_commit (hw : Holds L P w) (hc : ∀ row, L (.committed row)) :
    Holds L P w.commit := by
  have hv : w.commit.versions = w.versions := by simp [World.versions]
  refine ⟨fun e he => ?_, hw.txn, by rw [hv]; exact hw.txn, hv ▸ hw.history⟩
  rcases List.mem_append.mp he with he | he
  · exact hw.events e he
  · obtain ⟨row, _, rfl⟩ := List.mem_map.mp he
    exact hc row

theorem holds_rollback (hw : Holds L P w) : Holds L P w.rollback := by
  have hv : w.rollback.versions = w.log := by simp [World.versions]
  exact ⟨hw.events, hw.db, by rw [hv]; exact hw.db, hv ▸ History.of_append hw.history⟩

/-- One operation of a conforming call. -/
theorem step (h : RowInvariant M X G L P) {o : Op} {a : o.Ans} (hc : Conforms M w o)
    (hw : Holds L P w) (he : G w o ∧ World.env X w o a w') : Holds L P w' := by
  obtain ⟨hg, he⟩ := he
  cases o with
  | ext o =>
    obtain ⟨x, hx, hh, rfl⟩ := he
    exact h.holds_answered hw hx hh
  | db o =>
    obtain ⟨-, rfl⟩ := World.env_db.mp he
    cases hq : o.writesItem with
    | false =>
      obtain ⟨hs, hl⟩ := World.sameRows_dbStep (w := w) hq
      exact holds_of_same hw hs hl
    | true =>
      cases o with
      | flush row event =>
        obtain ⟨old, hget, hM, hd⟩ := hc
        exact h.holds_written hw hg rfl hget hM hd rfl rfl rfl rfl
      | save row =>
        obtain ⟨old, hget, ⟨_, hM⟩, hd⟩ := hc
        exact h.holds_written hw hg rfl hget hM hd rfl rfl rfl rfl
      | addItem row =>
        simp only [World.dbStep]
        split
        · exact hw
        · exact h.holds_added hw hc
      | commit => exact holds_commit hw h.committed
      | _ => simp [DbOp.writesItem] at hq

/-- Runs whose calls conform carry the fact through. -/
theorem invariant (h : RowInvariant M X G L P) {start : World σ → Flow Unit → Prop}
    (hs : ∀ w p, w.Ready → start w p → Sound M X (fun _ w => w.Ready) p w) :
    (runs X start G).Invariant (Conforms M) World.Ready (Holds L P) where
  calls w p _ hr hp := (hs w p hr hp).restrict fun _ _ _ _ he => he.2
  step _ _ _ _ hc hw he := h.step hc hw he
  commit _ hw _ := ⟨holds_commit hw h.committed, World.ready_commit⟩
  rollback _ hw := ⟨holds_rollback hw, World.ready_rollback⟩

/-- The rule: in every reachable world the fact holds of every durable row, of every row
of the open session and of every version in the history. -/
theorem reachable (h : RowInvariant M X G L P) {start : World σ → Flow Unit → Prop}
    (hs : ∀ w p, w.Ready → start w p → Sound M X (fun _ w => w.Ready) p w) {x : σ}
    {c : (runs X start G).Config} (hr : (runs X start G).Reachable (World.fresh x) c) :
    Holds L P c.1 :=
  (h.invariant hs).holds
    ⟨fun _ he => absurd he List.not_mem_nil, fun _ he => absurd he List.not_mem_nil,
      fun _ he => absurd he List.not_mem_nil, fun front row back hl => by
        simp [World.versions, World.fresh] at hl⟩
    (World.ready_fresh x) hr

end RowInvariant

end Mnema
