import Mnema.Conformance

/-! The upload service and startup reconciliation write item rows by their own moves alone. -/

namespace Mnema

/-! ### Calls that touch no item row -/

section Silent

variable {α : Type} (settings : Settings)

/-- Operations on the item tree, its journal, the jobs and the settings. -/
def Op.journals : Op → Bool
  | .ext .utcnow | .ext .uuid4 => true
  | .db (.getFpItem _) | .db (.addFpItem _) | .db (.saveFpItem _) | .db (.addChange _ _) => true
  | .db (.jobByKey _) | .db (.addJob _) | .db (.getSetting _) | .db (.addSetting _ _) => true
  | _ => false

theorem Op.silent_of_journals {o : Op} (h : o.journals = true) : o.silent = true := by
  cases o with
  | db o => cases o <;> first | rfl | cases h
  | ext o => cases o <;> first | rfl | cases h

/-- A program that keeps to the item tree, its journal, the jobs and the settings. -/
abbrev Journals (p : Flow α) : Prop :=
  p.Calls (fun o => o.journals = true) (fun _ => True) (fun _ => True)

theorem Journals.silent {p : Flow α} (h : Journals p) : Silent (fun _ => True) p :=
  h.imp fun _ => Op.silent_of_journals

theorem journals_db {o : DbOp} (h : (Op.db o).journals = true) : Journals (db o) :=
  ⟨h, fun a => (Prog.calls_ofExcept a).mpr ⟨fun _ _ => trivial, fun _ _ => trivial⟩⟩

theorem journals_ext {o : ExtOp} (h : (Op.ext o).journals = true) : Journals (ext o) :=
  ⟨h, fun a => (Prog.calls_ofExcept a).mpr ⟨fun _ _ => trivial, fun _ _ => trivial⟩⟩

theorem journals_recordChange (itemId : String) : Journals (recordChange itemId) := by
  refine .seq (journals_db rfl) fun _ => .seq (journals_db rfl) fun item => ?_
  cases item with
  | none => trivial
  | some item => exact .seq (journals_ext rfl) fun _ => journals_db rfl

theorem journals_bootstrapRoots : Journals bootstrapRoots := by
  have hroot : ∀ root, Journals (bootstrapRoot root) := fun root => by
    refine .seq (journals_db rfl) fun item => ?_
    cases item with
    | some item => trivial
    | none => exact .seq (journals_ext rfl) fun _ => .seq (journals_db rfl) fun _ => journals_recordChange _
  have heach : ∀ l, Journals (bootstrapEach l) := fun l => by
    induction l with
    | nil => trivial
    | cons root rest ih => exact .seq (hroot root) fun _ => ih
  refine .seq (heach roots) fun _ => .seq (.seq (journals_db rfl) fun value => ?_) fun _ => trivial
  cases value with
  | some value => trivial
  | none => exact .seq (journals_ext rfl) fun _ => .seq (journals_db rfl) fun _ => trivial

theorem journals_enqueueArchive (archiveItemId : Nat) (itemId uploadId : String) :
    Journals (enqueueArchive archiveItemId itemId uploadId) := by
  refine .seq (journals_db rfl) fun job => ?_
  cases job with
  | some job => trivial
  | none => exact .seq (journals_ext rfl) fun _ => .seq (journals_db rfl) fun _ => trivial

theorem journals_markUploadFailed (itemId code : String) : Journals (markUploadFailed itemId code) := by
  refine .seq (journals_db rfl) fun item => ?_
  cases item with
  | none => trivial
  | some item => exact .seq (journals_db rfl) fun _ => journals_recordChange _

theorem outside_uploadPath (id : String) : Outside (fun _ => True) (uploadPath settings id) :=
  outside_bind (outside_raiseIf _ _) fun _ => outside_bind (outside_ext rfl) fun _ =>
    outside_bind (outside_ext rfl) fun _ => outside_bind (outside_ext rfl) fun _ =>
      outside_bind (outside_raiseIf _ _) fun _ => trivial

theorem outside_stageUpload (source destination : Path) (size : Nat) :
    Outside (fun _ => True) (stageUpload source destination size) := by
  simp [stageUpload, ext, Op.outside]

theorem outside_sealCandidate (source destination : Path) :
    Outside (fun _ => True) (sealCandidate source destination) := by
  simp [sealCandidate, ext, Op.outside]

theorem outside_createIfEmpty (source : Path) (size : Nat) :
    Outside (fun _ => True) (createIfEmpty source size) := by
  simp [createIfEmpty, ext, Op.outside]

theorem outside_incomplete (candidate : Path) (size : Nat) :
    Outside (fun _ => True) (incomplete candidate size) := by
  simp [incomplete, notRegular, ext, Op.outside]

theorem outside_removeUploadFile (path : Path) : Outside (fun _ => True) (removeUploadFile path) := by
  simp [removeUploadFile, ext, Op.outside]

theorem silent_completeBegin (uploadId : String) :
    Silent (fun _ => True) (completeBegin uploadId) := by
  refine silent_bind (silent_db rfl) fun upload => ?_
  cases upload with
  | none => trivial
  | some upload =>
    refine (Prog.calls_ite _ _).mpr ⟨fun _ => trivial, fun _ => ?_⟩
    exact silent_bind (silent_raiseIf _ _) fun _ => silent_bind (silent_db rfl) fun _ => trivial

theorem silent_listSealing : Silent (fun _ => True) listSealing :=
  silent_bind (silent_db rfl) fun _ => trivial

theorem silent_failSealing (uploadId : String) : Silent (fun _ => True) (failSealing uploadId) := by
  refine silent_bind (silent_db rfl) fun upload => ?_
  cases upload with
  | none => trivial
  | some upload => exact silent_bind (silent_db rfl) fun _ => (journals_markUploadFailed _ _).silent

theorem outside_writeBody (expected offset : Nat) (body : List Bytes) (written : Nat) :
    Outside (fun _ => True) (writeBody expected offset written body) := by
  induction body generalizing written with
  | nil => trivial
  | cons chunk rest ih =>
    exact outside_bind (outside_raiseIf _ _) fun _ => outside_bind (outside_ext rfl) fun _ => ih _

theorem outside_receiveBody (path : Path) (mode : FileMode) (expected offset : Nat)
    (body : List Bytes) (broken : Option PyError) :
    Outside (fun _ => True) (receiveBody path mode expected offset body broken) := by
  refine outside_bind (outside_ext rfl) fun _ => outside_bind ?_ fun _ => outside_bind (outside_ext rfl) fun _ => trivial
  refine (Prog.calls_tryCatch _ _).mpr ((outside_bind (outside_writeBody _ _ _ _) fun _ => ?_).mono
    (fun _ h => h) fun _ _ => outside_bind (outside_ext rfl) fun _ => trivial)
  cases broken with
  | some error => trivial
  | none => exact outside_bind (outside_ext rfl) fun _ => trivial

theorem outside_rollbackBody (path : Path) (offset : Nat) (error : PyError) :
    Outside (fun _ => True) (rollbackBody path offset error) := by
  simp [rollbackBody, ext, Op.outside]

theorem outside_stagingInconsistent (path : Path) (offset : Nat) :
    Outside (fun _ => True) (stagingInconsistent path offset) := by
  simp [stagingInconsistent, ext, Op.outside]

/-- An appending request reads the row and updates its size; all else is outside the database. -/
theorem appendUpload_calls {P : Op → Prop} (hout : ∀ o, o.outside = true → P o)
    (hget : ∀ id, P (.db (.getUpload id))) (hset : ∀ id n, P (.db (.setReceivedSize id n)))
    (uploadId : String) (offset : Nat) (body : List Bytes) (broken : Option PyError) :
    (appendUpload settings uploadId offset body broken).Calls P (fun _ => True)
      (fun _ => True) := by
  have hdb : ∀ {o : DbOp}, P (.db o) → (db o).Calls P (fun _ => True) (fun _ => True) :=
    fun h => ⟨h, fun a => (Prog.calls_ofExcept a).mpr ⟨fun _ _ => trivial, fun _ _ => trivial⟩⟩
  have hext : ∀ {o : ExtOp}, (Op.ext o).outside = true →
      (ext o).Calls P (fun _ => True) (fun _ => True) :=
    fun h => (outside_ext h).imp hout
  refine .seq (hdb (hget _)) fun upload => ?_
  cases upload with
  | none => trivial
  | some upload =>
    refine .seq (hext rfl) fun _ => .seq ((outside_raiseIf _ _).imp hout) fun _ => ?_
    refine .seq ((outside_raiseIf _ _).imp hout) fun _ => ?_
    refine .seq ((outside_uploadPath _ _).imp hout) fun path => ?_
    refine .seq ((outside_stagingInconsistent _ _).imp hout) fun _ => ?_
    refine .seq ((outside_raiseIf _ _).imp hout) fun _ => .seq (hext rfl) fun _ => ?_
    refine .seq ?_ fun _ => .seq (hdb (hset _ _)) fun _ => trivial
    exact (Prog.calls_tryCatch _ _).mpr (((outside_receiveBody _ _ _ _ _ _).imp hout).mono
      (fun _ h => h) fun _ _ => (outside_rollbackBody _ _ _).imp hout)

theorem silent_appendUpload (uploadId : String) (offset : Nat) (body : List Bytes)
    (broken : Option PyError) :
    Silent (fun _ => True) (appendUpload settings uploadId offset body broken) :=
  appendUpload_calls settings (fun _ => Op.silent_of_outside) (fun _ => rfl) (fun _ _ => rfl) _ _ _ _

end Silent

/-! ### The upload service -/

section Uploads

variable {σ : Type} {X : ExtEnv σ} {w : World σ} {item : ArchiveItem} (settings : Settings)

theorem createUpload_sound (h : w.Ready) (request : UploadRequest) :
    Sound (fun _ _ => UploadMove) X (fun _ w => w.Ready) (createUpload settings request) w := by
  simp only [createUpload, Prog.wp_bind, Prog.wp_pure]
  refine sound_quiet journals_bootstrapRoots.silent.quiet h fun _ w₁ hw => ?_
  replace h := h.of_same hw
  refine (Prog.wp_ofExcept _).mpr ⟨fun name _ => ?_, fun _ _ => h⟩
  refine wp_raiseIf.mpr ⟨fun _ => sound_ext trivial h fun usage x _ => ?_, fun _ => h⟩
  refine (Prog.wp_ofExcept _).mpr ⟨fun lacking _ => ?_, fun _ _ => h.answered⟩
  refine wp_raiseIf.mpr ⟨fun _ => ?_, fun _ => h.answered⟩
  refine wp_raiseIf.mpr ⟨fun _ => sound_ext trivial h.answered fun uploadId x _ => ?_, fun _ => h.answered⟩
  refine sound_ext trivial h.answered.answered fun fpId x _ => ?_
  refine sound_ext trivial h.answered.answered.answered fun now x _ => ?_
  refine sound_addItem h.answered.answered.answered.answered rfl fun hl => ?_
  refine sound_move hl rfl (fun _ => .accepted rfl) (by decide) fun _ hl => ?_
  refine sound_move hl rfl (fun _ => .queued rfl) (by decide) fun _ hl => ?_
  refine sound_move hl rfl (fun _ => .receiving rfl) (by decide) fun _ hl => ?_
  replace h := hl.ready
  refine sound_ext trivial h fun now x _ => sound_quiet (silent_db rfl).quiet h.answered fun _ w₂ hw => ?_
  replace h := h.answered.of_same hw
  refine sound_ext trivial h fun now x _ => sound_quiet (silent_db rfl).quiet h.answered fun _ w₃ hw => ?_
  exact sound_quiet (journals_recordChange _).silent.quiet (h.answered.of_same hw) fun _ w₄ hw' =>
    (h.answered.of_same hw).of_same hw'

theorem sealUpload_sound (h : w.Ready) (upload : FileProviderUpload) :
    Sound (fun _ _ => UploadMove) X (fun _ w => w.Ready) (sealUpload settings upload) w := by
  simp only [sealUpload, Prog.wp_bind]
  refine sound_quiet (outside_uploadPath _ _).quiet h fun source w₁ hw => ?_
  replace h := h.of_same hw
  refine wp_raiseIf.mpr ⟨fun _ => (wp_db_ok rfl).mpr ⟨trivial, ?_⟩, fun _ => h⟩
  split
  case h_1 => exact h
  case h_2 item hi =>
    have hl : w₁.Loaded item := ⟨(Table.key_of_get hi).symm ▸ hi, h⟩
    simp only [Prog.wp_bind]
    refine sound_quiet (outside_createIfEmpty _ _).quiet h fun _ w₂ hw => ?_
    replace hl := hl.of_same hw
    refine sound_quiet (outside_sealCandidate _ _).quiet hl.ready fun _ w₃ hw => ?_
    replace hl := hl.of_same hw
    refine sound_quiet (outside_incomplete _ _).quiet hl.ready fun _ w₄ hw => ?_
    replace hl := hl.of_same hw
    refine wp_raiseIf.mpr ⟨fun _ => sound_ext trivial hl.ready fun checksum x _ => ?_, fun _ => hl.ready⟩
    refine wp_raiseIf.mpr ⟨fun _ => ?_, fun _ => hl.answered.ready⟩
    refine sound_quiet (outside_stageUpload _ _ _).quiet hl.answered.ready fun _ w₅ hw => ?_
    replace hl := hl.answered.of_same hw
    refine sound_move hl rfl (fun hv => .sealed checksum ((validTransition_localStaged _).mp hv))
      (by decide) fun _ hl => ?_
    replace h := hl.ready
    refine sound_quiet (silent_db rfl).quiet h fun _ w₆ hw => ?_
    replace h := h.of_same hw
    refine (wp_db_ok rfl).mpr ⟨trivial, ?_⟩
    split
    case h_1 => exact h
    case h_2 fp _ =>
      refine sound_quiet (Silent.quiet (silent_bind (silent_db rfl) fun _ =>
        silent_bind (journals_enqueueArchive _ _ _).silent fun _ =>
          silent_bind (journals_recordChange _).silent fun _ => trivial)) h fun _ w₇ hw => ?_
      exact h.of_same hw

theorem completeSeal_sound (h : w.Ready) (uploadId : String) :
    Sound (fun _ _ => UploadMove) X (fun _ w => w.Ready) (completeSeal settings uploadId) w := by
  simp only [completeSeal, Prog.wp_bind]
  refine (wp_db_ok rfl).mpr ⟨trivial, ?_⟩
  split
  · exact h
  · exact (Prog.wp_bind _ _).mpr ((sealUpload_sound settings h _).post fun _ _ h => h)

theorem reconcileSealing_sound (h : w.Ready) (uploadId : String) :
    Sound (fun _ _ => UploadMove) X (fun _ w => w.Ready) (reconcileSealing settings uploadId) w := by
  simp only [reconcileSealing, Prog.wp_bind]
  refine (wp_db_ok rfl).mpr ⟨trivial, ?_⟩
  split
  · exact h
  · exact (Prog.wp_bind _ _).mpr ((sealUpload_sound settings h _).post fun _ _ h => h)

theorem reapUpload_sound (h : w.Ready) (now : Time) (upload : FileProviderUpload) :
    Sound (fun _ _ => UploadMove) X (fun _ w => w.Ready) (reapUpload settings now upload) w := by
  unfold reapUpload
  split
  case isTrue => exact h
  case isFalse =>
    simp only [Prog.wp_bind]
    refine sound_quiet (outside_uploadPath _ _).quiet h fun path w₁ hw => ?_
    replace h := h.of_same hw
    refine sound_quiet (outside_removeUploadFile _).quiet h fun _ w₂ hw => ?_
    replace h := h.of_same hw
    refine sound_quiet (silent_db rfl).quiet h fun _ w₃ hw => ?_
    replace h := h.of_same hw
    refine sound_quiet (journals_markUploadFailed _ _).silent.quiet h fun _ w₄ hw => ?_
    replace h := h.of_same hw
    refine (wp_db_ok rfl).mpr ⟨trivial, ?_⟩
    split
    case h_1 item hi =>
      have hl : w₄.Loaded item := ⟨(Table.key_of_get hi).symm ▸ hi, h⟩
      split
      case isTrue => exact h
      case isFalse =>
        refine (Prog.wp_bind _ _).mpr (sound_move hl rfl (fun _ => .expired) (by decide) ?_)
        exact fun _ hl => hl.ready
    case h_2 => exact h

theorem reapUploads_sound (now : Time) (uploads : List FileProviderUpload) (h : w.Ready) :
    Sound (fun _ _ => UploadMove) X (fun _ w => w.Ready) (reapUploads settings now uploads) w := by
  induction uploads generalizing w with
  | nil => exact h
  | cons upload rest ih =>
    simp only [reapUploads, Prog.wp_bind]
    exact (reapUpload_sound settings h now upload).post fun _ w h => (ih h).post fun _ _ h => h

theorem reapExpiredUploads_sound (h : w.Ready) :
    Sound (fun _ _ => UploadMove) X (fun _ w => w.Ready) (reapExpiredUploads settings) w := by
  simp only [reapExpiredUploads, Prog.wp_bind]
  refine sound_ext trivial h fun now x _ => sound_quiet (silent_db rfl).quiet h.answered fun uploads w₁ hw => ?_
  exact reapUploads_sound settings now uploads (h.answered.of_same hw)

end Uploads

/-! ### Startup reconciliation -/

section Recovery

variable {σ : Type} {X : ExtEnv σ} {w : World σ} {item : ArchiveItem}

theorem silent_awaitingClientUpload : Silent (fun _ => True) (awaitingClientUpload item) := by
  unfold awaitingClientUpload
  refine (Prog.calls_ite _ _).mpr ⟨fun _ => silent_bind (silent_db rfl) fun upload => ?_, fun _ => trivial⟩
  cases upload <;> trivial

/-- The rows of `items` still to be looked at are as they were selected. -/
def World.Selected (w : World σ) (items : List ArchiveItem) : Prop :=
  (items.map (·.id)).Nodup ∧ ∀ item ∈ items, w.txn.items.get item.id = some item

theorem World.Selected.of_same {w' : World σ} {items : List ArchiveItem} (h : w.Selected items)
    (hs : w.SameRows w') : w'.Selected items :=
  ⟨h.1, fun item hi => hs.txn ▸ h.2 item hi⟩

theorem World.Selected.flush {items : List ArchiveItem} {row : ArchiveItem} {event : AuditEvent}
    (h : w.Selected items) (hn : row.id ∉ items.map (·.id)) : (w.flush row event).Selected items :=
  ⟨h.1, fun r hr => (Table.get_put_of_ne fun he => hn (List.mem_map.mpr ⟨r, hr, he⟩)).trans
    (h.2 r hr)⟩

/-- The states that reconciliation selects. -/
def interrupted : List ArchiveState := .deleting :: (retryAfterRestart ++ resumeInPlace)

theorem reconcileItem_sound {rest : List ArchiveItem} (h : w.Ready)
    (hs : w.Selected (item :: rest)) (hi : item.state ∈ interrupted) :
    Sound (fun _ _ => RecoveryMove) X (fun _ w => w.Ready ∧ w.Selected rest)
      (reconcileItem item) w := by
  have hl : w.Loaded item := ⟨hs.2 item List.mem_cons_self, h⟩
  obtain ⟨hnot, hnodup⟩ := List.nodup_cons.mp hs.1
  have hrest : w.Selected rest := ⟨hnodup, fun r hr => hs.2 r (List.mem_cons_of_mem _ hr)⟩
  unfold reconcileItem
  split
  case isTrue hd =>
    simp only [Prog.wp_bind, Prog.wp_pure]
    refine sound_transition hl rfl (fun _ => .review hd) fun event => ?_
    exact ⟨h.flush (by simp [checkpointed]), hrest.flush hnot⟩
  case isFalse hd =>
    split
    case isTrue =>
      simp only [Prog.wp_bind, Prog.wp_pure]
      exact sound_quiet (quiet_db rfl) h fun _ w₁ hw => ⟨h.of_same hw, hrest.of_same hw⟩
    case isFalse hp =>
      simp only [Prog.wp_bind]
      refine sound_quiet silent_awaitingClientUpload.quiet h fun awaiting w₁ hw => ?_
      split
      case isTrue => exact ⟨h.of_same hw, hrest.of_same hw⟩
      case isFalse =>
        simp only [Prog.wp_bind, Prog.wp_pure]
        refine sound_transition (hl.of_same hw) rfl (fun _ => .retry ?_) fun event => ?_
        · revert hi hd hp
          generalize item.state = s
          revert s
          decide
        · exact ⟨(h.of_same hw).flush (by simp [checkpointed]), (hrest.of_same hw).flush hnot⟩

theorem reconcileItems_sound (items : List ArchiveItem) (h : w.Ready) (hs : w.Selected items)
    (hi : ∀ item ∈ items, item.state ∈ interrupted) :
    Sound (fun _ _ => RecoveryMove) X (fun _ w => w.Ready) (reconcileItems items) w := by
  induction items generalizing w with
  | nil => exact h
  | cons item rest ih =>
    simp only [reconcileItems, Prog.wp_bind]
    refine (reconcileItem_sound h hs (hi item List.mem_cons_self)).post fun _ w h => ?_
    exact (ih h.1 h.2 fun r hr => hi r (List.mem_cons_of_mem _ hr)).post fun _ _ h => h

theorem reconcileInterruptedItems_sound (h : w.Ready) (onlyDeletions : Bool) :
    Sound (fun _ _ => RecoveryMove) X (fun _ w => w.Ready)
      (reconcileInterruptedItems onlyDeletions) w := by
  simp only [reconcileInterruptedItems, Prog.wp_bind]
  refine (wp_db_ok rfl).mpr ⟨trivial, reconcileItems_sound _ h ⟨?_, fun item hi => ?_⟩
    fun item hi => ?_⟩
  · exact (w.txn.items.nodup).sublist (List.filter_sublist.map _)
  · exact Table.get_of_mem (List.mem_filter.mp hi).1
  · have hs := (List.mem_filter.mp hi).2
    cases onlyDeletions
    · simpa [interrupted] using hs
    · simp only [if_true, List.contains_cons, List.contains_nil, Bool.or_false, beq_iff_eq] at hs
      simp [interrupted, hs]

end Recovery

end Mnema
