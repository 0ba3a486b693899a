import Mnema.Moves

/-! Every call writes item rows by its own moves alone, and returns or raises with
nothing checkpointed left uncommitted. -/

namespace Mnema

open ArchiveWorkflow

section Soundness

variable {σ α : Type} {X : ExtEnv σ} {M : Moves}
  {w : World σ} {item row : ArchiveItem} {provider : String}

/-- From `w`, `p` writes by the moves `M`, returns under `Q` and raises in a ready world. -/
abbrev Sound (M : Moves) (X : ExtEnv σ)
    (Q : α → World σ → Prop) (p : Flow α) (w : World σ) : Prop :=
  p.wp (Conforms M) (World.env X) Q (fun _ w => w.Ready) w

theorem World.Loaded.answered {o : ExtOp} {a : Except PyError o.Res} {x : σ}
    (h : w.Loaded item) : (w.answered o a x).Loaded item :=
  h.of_same World.sameRows_answered

theorem World.Ready.answered {o : ExtOp} {a : Except PyError o.Res} {x : σ} (h : w.Ready) :
    (w.answered o a x).Ready :=
  h.of_same World.sameRows_answered

theorem sound_ext {o : ExtOp} {Q : o.Res → World σ → Prop} (hc : Conforms M w (.ext o))
    (h : w.Ready) (hQ : ∀ a x, honest o (.ok a) → Q a (w.answered o (.ok a) x)) :
    Sound M X Q (ext o) w :=
  wp_ext.mpr ⟨hc, fun a x _ hh => hQ a x hh, fun _ _ _ _ => h.answered⟩

theorem sound_transition {target : ArchiveState} {actor : String}
    {Q : ArchiveItem → World σ → Prop} (h : w.Loaded item) (hid : row.id = item.id)
    (hM : validTransition row.state target = true → M actor w.log item { row with state := target })
    (hQ : ∀ event, Q { row with state := target }
      (w.flush { row with state := target } event)) :
    Sound M X Q (transitionItem row target actor) w := by
  refine wp_transitionItem.mpr ⟨fun hv => ⟨⟨item, ?_, hM hv, fun hs => ?_⟩, hQ _⟩, fun _ => h.ready⟩
  · exact hid ▸ h.get
  · exact h.durable (checkpointed_of_inPipeline hs)

theorem flushed_loaded {event : AuditEvent} (h : w.Loaded item) (hid : row.id = item.id)
    (hs : row.state ∉ checkpointed) : (w.flush row event).Loaded row :=
  ⟨World.Loaded.flushed (hid ▸ h.get), h.ready.flush hs⟩

/-- A transition to a state that may await its commit. -/
theorem sound_move {target : ArchiveState} {actor : String} {Q : ArchiveItem → World σ → Prop}
    (h : w.Loaded item) (hid : row.id = item.id)
    (hM : validTransition row.state target = true → M actor w.log item { row with state := target })
    (hs : target ∉ checkpointed)
    (hQ : ∀ w', w'.Loaded { row with state := target } → Q { row with state := target } w') :
    Sound M X Q (transitionItem row target actor) w :=
  sound_transition h hid hM fun _ => hQ _ (flushed_loaded h hid hs)

theorem committed_loaded {event : AuditEvent} (h : w.txn.items.get row.id = some item) :
    (w.flush row event).commit.Loaded row :=
  ⟨World.Loaded.flushed h, World.ready_commit⟩

/-- A transition and its commit. -/
theorem sound_checkpoint {target : ArchiveState} {actor : String} (h : w.Loaded item)
    (hid : row.id = item.id)
    (hM : validTransition row.state target = true → M actor w.log item { row with state := target }) :
    Sound M X (fun i w => w.Loaded i)
      (do
        let i ← transitionItem row target actor
        db .commit
        pure i) w := by
  refine (Prog.wp_bind _ _).mpr (sound_transition h hid hM fun event => ?_)
  exact (Prog.wp_bind _ _).mpr (wp_commit.mpr ⟨trivial, committed_loaded (hid ▸ h.get)⟩)

/-! ### Calls that touch no item row -/

/-- Operations that neither write an item row, nor commit, nor delete at the source. -/
def Op.quiet : Op → Bool
  | .db o => !o.writesItem
  | .ext (.sourceDelete _ _ _) => false
  | .ext _ => true

theorem Op.conforms_of_quiet {o : Op} (h : o.quiet = true) : Conforms M w o := by
  cases o with
  | db o => cases o <;> first | exact trivial | simp [Op.quiet, DbOp.writesItem] at h
  | ext o => cases o <;> first | exact trivial | simp [Op.quiet] at h

theorem World.sameRows_of_quiet {w' : World σ} {o : Op} {a : o.Ans} (h : o.quiet = true)
    (he : World.env X w o a w') : w.SameRows w' := by
  cases o with
  | db o =>
    rw [(World.env_db.mp he).2]
    exact (World.sameRows_dbStep (by simpa [Op.quiet] using h)).1
  | ext o =>
    obtain ⟨x, _, _, rfl⟩ := he
    exact World.sameRows_answered

/-- A program of quiet calls alone. -/
abbrev Quiet (Q : α → Prop) (p : Flow α) : Prop := p.Calls (fun o => o.quiet = true) Q (fun _ => True)

/-- Operations outside the database, but for a deletion at the source. -/
def Op.outside : Op → Bool
  | .db _ => false
  | .ext (.sourceDelete _ _ _) => false
  | .ext _ => true

theorem Op.quiet_of_outside {o : Op} (h : o.outside = true) : o.quiet = true := by
  cases o with
  | db o => simp [Op.outside] at h
  | ext o => cases o <;> first | rfl | simp [Op.outside] at h

/-- A program that leaves the database alone. -/
abbrev Outside (Q : α → Prop) (p : Flow α) : Prop :=
  p.Calls (fun o => o.outside = true) Q (fun _ => True)

theorem Outside.quiet {Q : α → Prop} {p : Flow α} (h : Outside Q p) : Quiet Q p :=
  h.imp fun _ => Op.quiet_of_outside

/-- Quiet operations that write no audit row either. -/
def Op.silent : Op → Bool
  | .db (.addEvent _) => false
  | o => o.quiet

theorem Op.quiet_of_silent {o : Op} (h : o.silent = true) : o.quiet = true := by
  cases o with
  | db o => cases o <;> first | exact h | cases h
  | ext o => exact h

theorem Op.silent_of_outside {o : Op} (h : o.outside = true) : o.silent = true := by
  cases o with
  | db o => cases h
  | ext o => exact Op.quiet_of_outside h

abbrev Silent (Q : α → Prop) (p : Flow α) : Prop :=
  p.Calls (fun o => o.silent = true) Q (fun _ => True)

theorem Silent.quiet {Q : α → Prop} {p : Flow α} (h : Silent Q p) : Quiet Q p :=
  h.imp fun _ => Op.quiet_of_silent

theorem Outside.silent {Q : α → Prop} {p : Flow α} (h : Outside Q p) : Silent Q p :=
  h.imp fun _ => Op.silent_of_outside

theorem outside_ext {o : ExtOp} (h : (Op.ext o).outside = true) :
    Outside (fun _ => True) (ext o) :=
  ⟨h, fun a => (Prog.calls_ofExcept a).mpr ⟨fun _ _ => trivial, fun _ _ => trivial⟩⟩

theorem outside_raiseIf (failed : Bool) (error : PyError) :
    Outside (fun _ => True) (raiseIf failed error) := by
  cases failed <;> trivial

theorem outside_bind {β : Type} {p : Flow α} {f : α → Flow β} {Q : β → Prop}
    (hp : Outside (fun _ => True) p) (hf : ∀ a, Outside Q (f a)) : Outside Q (p >>= f) :=
  .seq hp hf

theorem quiet_db {o : DbOp} (h : o.writesItem = false) :
    Quiet (fun _ => True) (db o) := by
  refine ⟨?_, fun a => (Prog.calls_ofExcept a).mpr ⟨fun _ _ => trivial, fun _ _ => trivial⟩⟩
  simp [Op.quiet, h]

theorem silent_db {o : DbOp} (h : (Op.db o).silent = true) : Silent (fun _ => True) (db o) :=
  ⟨h, fun a => (Prog.calls_ofExcept a).mpr ⟨fun _ _ => trivial, fun _ _ => trivial⟩⟩

theorem silent_ext {o : ExtOp} (h : (Op.ext o).silent = true) : Silent (fun _ => True) (ext o) :=
  ⟨h, fun a => (Prog.calls_ofExcept a).mpr ⟨fun _ _ => trivial, fun _ _ => trivial⟩⟩

theorem silent_raiseIf (failed : Bool) (error : PyError) :
    Silent (fun _ => True) (raiseIf failed error) := by
  cases failed <;> trivial

theorem silent_bind {β : Type} {p : Flow α} {f : α → Flow β} {Q : β → Prop}
    (hp : Silent (fun _ => True) p) (hf : ∀ a, Silent Q (f a)) : Silent Q (p >>= f) :=
  .seq hp hf

theorem sound_quiet {p : Flow α} {Q : α → World σ → Prop} (hp : Quiet (fun _ => True) p)
    (h : w.Ready) (hQ : ∀ a w', w.SameRows w' → Q a w') : Sound M X Q p w := by
  have hw : p.wp (Conforms M) (World.env X) (fun _ w' => True ∧ w.SameRows w')
      (fun _ w' => True ∧ w.SameRows w') w :=
    hp.wp (fun _ _ ho _ => Op.conforms_of_quiet ho)
      (fun _ _ _ _ ho hs he => hs.trans (World.sameRows_of_quiet ho he)) (.refl w)
  exact hw.mono (fun _ _ hc => hc) (fun a w' hr => hQ a w' hr.2) fun _ _ hr => h.of_same hr.2

/-- Inserting a fresh row. -/
theorem sound_addItem {Q : ArchiveItem → World σ → Prop} (h : w.Ready)
    (hs : row.state = .discovered)
    (hQ : (w.addItem row).Loaded { row with id := w.txn.newItemId } →
      Q { row with id := w.txn.newItemId } (w.addItem row)) :
    Sound M X Q (db (.addItem row)) w := by
  refine wp_db.mpr ⟨hs, fun item hi => ?_, fun e he => ?_⟩
  · by_cases ht : w.txn.sourceTaken row = true
    · simp [World.dbStep, ht] at hi
    · simp only [World.dbStep, ht, Bool.false_eq_true, if_false, Except.ok.injEq] at hi ⊢
      subst hi
      exact hQ (World.Loaded.added h (by simp [hs, checkpointed]))
  · by_cases ht : w.txn.sourceTaken row = true
    · simpa [World.dbStep, ht] using h
    · simp [World.dbStep, ht] at he

end Soundness

/-! ### `archive` -/

section Archive

variable {σ : Type} {X : ExtEnv σ} {w : World σ} {item : ArchiveItem} {provider : String}
  (wf : ArchiveWorkflow)

theorem enterStage_sound (h : w.Loaded item) :
    Sound (fun _ => ArchiveMove provider) X (fun i w => w.Loaded i) (enterStage item) w := by
  unfold enterStage
  split
  case isFalse => exact h
  case isTrue hs =>
    refine sound_move h rfl (fun _ => .step ?_) (by decide) fun _ hl => hl
    simp only [List.mem_cons, List.not_mem_nil, or_false] at hs
    rcases hs with hs | hs | hs | hs <;> rw [hs] <;> decide

theorem queueStage_sound (h : w.Loaded item) :
    Sound (fun _ => ArchiveMove provider) X (fun i w => w.Loaded i) (queueStage item) w := by
  unfold queueStage
  split
  case isFalse => exact h
  case isTrue hs => exact sound_checkpoint h rfl fun _ => .step (by rw [hs]; decide)

theorem outside_clearPartial (staged : Path) :
    Outside (fun _ => True) (wf.clearPartial item staged) := by
  simp only [clearPartial, ext, Prog.calls_bind, Prog.calls_call, Prog.calls_ofExcept,
    Prog.calls_ite, Prog.calls_tryCatch, Prog.calls_pure, Op.outside, implies_true, and_true,
    true_and]
  intro _ _ _ _ _ e _
  split <;> trivial

theorem outside_commitStaged (staged activeRoot : Path) (relativePath : String) (sha : Digest)
    (size : Nat) (t : Option Time) :
    Outside (fun _ => True) (commitStaged staged activeRoot relativePath sha size t) := by
  cases t <;> simp [commitStaged, notRegular, sameContent, moveStaged, ext, Op.outside]

theorem outside_placeActive (staged : Path) (sha : Digest) :
    Outside (fun _ => True) (wf.placeActive staged item sha) := by
  unfold placeActive
  split
  case isTrue => simp [adoptActive, notRegular, ext, Op.outside]
  case isFalse =>
    refine (Prog.calls_bind _ _).mpr ?_
    exact (outside_commitStaged _ _ _ _ _ _).mono (fun _ _ => trivial) fun _ _ => trivial

theorem download_sound (h : w.Loaded item) (staged : Path) :
    Sound (fun _ => ArchiveMove wf.sourceProvider) X
      (fun r w => w.Loaded item ∧ ∀ receipt, r = some receipt →
        w.log.getLast? = some (.downloaded wf.sourceProvider item.sourceIdentifier receipt))
      (wf.download item staged) w := by
  simp only [download, Prog.wp_tryCatch, Prog.wp_bind]
  refine wp_ext.mpr ⟨trivial, fun a x _ _ => ⟨h.answered, ?_⟩, fun e x _ _ => ?_⟩
  · rintro _ ⟨⟩
    simp [observe]
  · split
    · exact ⟨h.answered, fun _ hr => by cases hr⟩
    · exact h.answered.ready

theorem downloadStage_sound (h : w.Loaded item) :
    Sound (fun _ => ArchiveMove wf.sourceProvider) X (fun i w => w.Loaded i.1) (wf.downloadStage item) w := by
  unfold downloadStage
  split
  case isFalse => exact h
  case isTrue hs =>
    simp only [partialPathIn, Prog.wp_bind, Prog.wp_pure]
    refine sound_ext trivial h.ready fun _ x _ => ?_
    refine sound_quiet (outside_clearPartial wf _).quiet h.answered.ready fun _ w' hw' => ?_
    refine (download_sound wf (h.answered.of_same hw') _).post ?_
    rintro (_ | receipt) w'' ⟨h'', hl⟩
    · simp only [Prog.wp_bind, Prog.wp_pure]
      refine (sound_transition h'' rfl (fun _ => .step ?_) fun event => ?_)
      · rw [hs]; decide
      · exact wp_commit.mpr ⟨trivial, committed_loaded h''.get⟩
    · simp only [Prog.wp_bind, Prog.wp_pure]
      refine (sound_transition h'' rfl (fun _ => .staged hs (hl receipt rfl)) fun event => ?_)
      exact wp_commit.mpr ⟨trivial, committed_loaded h''.get⟩

theorem stagedStage_sound (h : w.Loaded item) (staged : Path) :
    Sound (fun _ => ArchiveMove provider) X (fun i w => w.Loaded i) (stagedStage staged item) w := by
  unfold stagedStage
  split
  case isFalse => exact h
  case isTrue hs =>
    simp only [Prog.wp_bind, Prog.wp_pure]
    refine sound_ext trivial h.ready fun actual x _ => wp_raiseIf.mpr ⟨fun _ => ?_, fun _ => h.answered.ready⟩
    refine sound_transition h.answered rfl (fun _ => .step ?_) fun event => ?_
    · rw [hs]; decide
    · exact wp_commit.mpr ⟨trivial, committed_loaded h.get⟩

theorem verifiedStage_sound (h : w.Loaded item) (staged : Path) :
    Sound (fun _ => ArchiveMove provider) X (fun i w => w.Loaded i) (wf.verifiedStage staged item) w := by
  unfold verifiedStage
  split
  case isFalse => exact h
  case isTrue hs =>
    simp only [Prog.wp_bind, Prog.wp_pure]
    refine wp_require.mpr ⟨fun sha _ => ?_, fun _ => h.ready⟩
    refine sound_quiet (outside_placeActive wf staged sha).quiet h.ready fun path w' hw' => ?_
    have h' := h.of_same hw'
    refine sound_ext trivial h'.ready fun now x _ => ?_
    refine sound_transition h'.answered rfl (fun _ => .placed path now hs) fun event => ?_
    exact wp_commit.mpr ⟨trivial, committed_loaded h'.get⟩

theorem advanceStage_sound {current target : ArchiveState} (h : w.Loaded item)
    (hst : (current, target) ∈ archiveSteps) :
    Sound (fun _ => ArchiveMove provider) X (fun i w => w.Loaded i) (advanceStage current target item) w := by
  unfold advanceStage
  split
  case isFalse => exact h
  case isTrue hs => exact sound_checkpoint h rfl fun _ => .step (hs ▸ hst)

theorem backupStage_sound (h : w.Loaded item) :
    Sound (fun _ => ArchiveMove provider) X (fun i w => w.Loaded i) (backupStage item) w := by
  unfold backupStage
  split
  case isFalse => exact h
  case isTrue hs =>
    simp only [Prog.wp_bind, Prog.wp_pure]
    refine wp_require.mpr ⟨fun path _ => wp_require.mpr ⟨fun sha hsha => ?_, fun _ => h.ready⟩,
      fun _ => h.ready⟩
    refine sound_ext trivial h.ready fun receipt x _ => sound_ext trivial h.answered.ready fun ok x _ => ?_
    refine wp_raiseIf.mpr ⟨fun hok => ?_, fun _ => h.answered.answered.ready⟩
    refine sound_ext trivial h.answered.answered.ready fun now x _ => ?_
    refine sound_transition h.answered.answered.answered rfl
      (fun _ => .backedUp now hs hsha ?_) fun event => ?_
    · simp only [Bool.not_eq_false'] at hok
      simp [observe, hok]
    · exact wp_commit.mpr ⟨trivial, committed_loaded h.get⟩

theorem uploadStage_sound (h : w.Loaded item) :
    Sound (fun _ => ArchiveMove provider) X (fun i w => w.Loaded i) (uploadStage item) w := by
  unfold uploadStage
  split
  case isFalse => exact h
  case isTrue hs =>
    simp only [Prog.wp_bind, Prog.wp_pure]
    refine wp_require.mpr ⟨fun path _ => wp_require.mpr ⟨fun sha _ => ?_, fun _ => h.ready⟩,
      fun _ => h.ready⟩
    refine sound_ext trivial h.ready fun receipt x _ => sound_ext trivial h.answered.ready fun now x _ => ?_
    refine sound_transition h.answered.answered rfl (fun _ => .uploaded receipt now hs)
      fun event => ?_
    exact wp_commit.mpr ⟨trivial, committed_loaded h.get⟩

theorem coldVerifyStage_sound (h : w.Loaded item) :
    Sound (fun _ => ArchiveMove provider) X (fun i w => w.Loaded i) (coldVerifyStage item) w := by
  unfold coldVerifyStage
  split
  case isFalse => exact h
  case isTrue hs =>
    simp only [Prog.wp_bind, Prog.wp_pure]
    refine wp_require.mpr ⟨fun sha hsha => ?_, fun _ => h.ready⟩
    refine (Prog.wp_ofExcept _).mpr ⟨fun receipt hr => ?_, fun _ _ => h.ready⟩
    refine sound_ext trivial h.ready fun ok x _ => ?_
    refine wp_raiseIf.mpr ⟨fun hok => ?_, fun _ => h.answered.ready⟩
    refine sound_ext trivial h.answered.ready fun now x _ => ?_
    refine sound_transition h.answered.answered rfl (fun _ => .verified now hs hr hsha ?_)
      fun event => ?_
    · simp only [Bool.not_eq_false'] at hok
      simp [observe, hok]
    · exact wp_commit.mpr ⟨trivial, committed_loaded h.get⟩

theorem coldArchiveStage_sound (h : w.Loaded item) :
    Sound (fun _ => ArchiveMove provider) X (fun i w => w.Loaded i) (coldArchiveStage item) w := by
  unfold coldArchiveStage
  split
  case isFalse => exact h
  case isTrue hs =>
    simp only [Prog.wp_bind, Prog.wp_pure]
    refine (Prog.wp_ofExcept _).mpr ⟨fun receipt hr => ?_, fun _ _ => h.ready⟩
    refine sound_ext trivial h.ready fun _ x _ => sound_ext trivial h.answered.ready fun now x _ => ?_
    refine sound_transition h.answered.answered rfl (fun _ => .archived now hs hr ?_)
      fun event => ?_
    · simp [observe]
    · exact wp_commit.mpr ⟨trivial, committed_loaded h.get⟩

theorem quarantineStage_sound (h : w.Loaded item) :
    Sound (fun _ => ArchiveMove provider) X (fun i w => w.Loaded i) (wf.quarantineStage item) w := by
  unfold quarantineStage
  split
  case isFalse => exact h
  case isTrue hs =>
    simp only [Prog.wp_bind, Prog.wp_pure]
    refine sound_ext trivial h.ready fun now x _ => ?_
    refine sound_transition h.answered rfl (fun _ => .quarantined _ hs) fun event => ?_
    exact wp_commit.mpr ⟨trivial, committed_loaded h.get⟩

theorem finishStages_sound (h : w.Loaded item) :
    Sound (fun _ => ArchiveMove provider) X (fun i w => w.Loaded i) (wf.finishStages item) w := by
  simp only [finishStages, partialPathIn, Prog.wp_bind, Prog.wp_pure]
  refine sound_ext trivial h.ready fun _ x _ => (stagedStage_sound h.answered _).post fun i w h => ?_
  refine (verifiedStage_sound wf h _).post fun i w h => ?_
  refine (advanceStage_sound h (by decide)).post fun i w h => ?_
  refine (backupStage_sound h).post fun i w h => ?_
  refine (advanceStage_sound h (by decide)).post fun i w h => ?_
  refine (uploadStage_sound h).post fun i w h => ?_
  refine (coldVerifyStage_sound h).post fun i w h => ?_
  refine (advanceStage_sound h (by decide)).post fun i w h => ?_
  exact (coldArchiveStage_sound h).post fun i w h => quarantineStage_sound wf h

/-- `archive` moves the item it is given along the pipeline, and no other row. -/
theorem archive_sound (h : w.Loaded item) :
    Sound (fun _ => ArchiveMove wf.sourceProvider) X (fun i w => w.Loaded i) (wf.archive item) w := by
  simp only [archive, Prog.wp_bind]
  refine (enterStage_sound h).post fun i w h => (queueStage_sound h).post fun i w h => ?_
  refine (downloadStage_sound wf h).post fun p w h => ?_
  obtain ⟨i, returned⟩ := p
  cases returned with
  | true => exact h
  | false => exact finishStages_sound wf h

end Archive

/-! ### `discover` -/

section Discover

variable {σ : Type} {X : ExtEnv σ} {M : Moves} {w : World σ} {item : ArchiveItem}
  (wf : ArchiveWorkflow)

theorem judge_sound {source : SourceObject} (h : w.Loaded item)
    (haccepted : ∀ log : List Event, log.getLast? = some (.judgedEligible source) →
      M "scanner" log item { item with state := .eligible })
    (hrejected : ∀ log, M "scanner" log item { item with state := .ineligible }) :
    Sound M X (fun _ w => w.Ready) (wf.judge item source) w := by
  simp only [judge, Prog.wp_bind]
  refine sound_ext trivial h.ready fun decision x _ => ?_
  by_cases hd : decision.eligible = true
  · rw [if_pos hd]
    refine sound_move h.answered rfl (fun _ => haccepted _ ?_) (by decide) fun _ hl => hl.ready
    simp [observe, hd]
  · rw [if_neg hd]
    exact sound_move h.answered rfl (fun _ => hrejected _) (by decide) fun _ hl => hl.ready

theorem sourceMatches_newItem (source : SourceObject) (id : Nat) :
    sourceMatches { wf.newItem source with id := id } source = true := by
  simp [sourceMatches, newItem]

theorem discoverObject_sound (h : w.Ready) (source : SourceObject) :
    Sound scannerMove X (fun _ w => w.Ready) (wf.discoverObject source) w := by
  simp only [discoverObject, Prog.wp_bind]
  refine (wp_db_ok rfl).mpr ⟨trivial, ?_⟩
  split
  case h_1 =>
    simp only [Prog.wp_bind]
    refine sound_addItem h rfl fun hl => judge_sound wf hl (fun log he => ⟨rfl, ?_⟩) fun log =>
      ⟨rfl, .rejected (.inl rfl)⟩
    exact .accepted (.inl rfl) (sourceMatches_newItem wf _ _) he
  case h_2 item hi =>
    have hl : w.Loaded item := ⟨Table.get_of_first hi, h⟩
    by_cases hc : sourceChanged item source = true
    · rw [if_pos hc]
      simp only [Prog.wp_bind, Prog.wp_pure]
      refine sound_move hl rfl (fun _ => ⟨rfl, .changed⟩) (by decide) fun _ hl' => ?_
      refine wp_save.mpr ⟨⟨_, hl'.get, ⟨_, rfl, .metadata source rfl⟩, fun hs => ?_⟩, hl'.ready.write ?_⟩
      · simp [inPipeline] at hs
      · simp [withMetadata, checkpointed]
    · rw [if_neg hc]
      split
      case isTrue hs =>
        refine judge_sound wf hl (fun log he => ⟨rfl, .accepted (.inr hs) ?_ he⟩) fun log =>
          ⟨rfl, .rejected (.inr hs)⟩
        simpa [sourceChanged] using hc
      case isFalse => exact h

/-- What every page request and every object keep, a whole scan keeps. -/
theorem discover_rule {C : World σ → Op → Prop} {env : Prog.Env (World σ) Op Op.Ans}
    {K : World σ → Prop}
    (hpage : ∀ w cursor, K w →
      (ext (.sourceDiscover wf.sourceProvider cursor)).wp C env (fun _ => K) (fun _ => K) w)
    (hobject : ∀ w source, K w →
      (wf.discoverObject source).wp C env (fun _ => K) (fun _ => K) w)
    (fuel : Nat) (h : K w) : (wf.discover fuel).wp C env (fun _ => K) (fun _ => K) w := by
  have hobjects : ∀ sources w, K w →
      (wf.discoverObjects sources).wp C env (fun _ => K) (fun _ => K) w := by
    intro sources
    induction sources with
    | nil => exact fun _ h => h
    | cons source rest ih =>
      intro w h
      simp only [discoverObjects, Prog.wp_bind]
      exact (hobject w source h).post fun _ w h => (ih w h).post fun _ _ h => h
  have hpages : ∀ fuel cursor w, K w →
      (wf.discoverPages fuel cursor).wp C env (fun _ => K) (fun _ => K) w := by
    intro fuel
    induction fuel with
    | zero => exact fun _ _ h => h
    | succ n ih =>
      intro cursor w h
      simp only [discoverPages, Prog.wp_bind]
      refine (hpage w cursor h).post fun page w h => ?_
      refine (hobjects page.objects w h).post fun _ w h => ?_
      split
      · exact h
      · exact (Prog.wp_bind _ _).mpr ((ih _ w h).post fun _ _ h => h)
  exact hpages fuel none w h

/-- `discover` writes rows by its own moves alone. -/
theorem discover_sound (fuel : Nat) (h : w.Ready) :
    Sound scannerMove X (fun _ w => w.Ready) (wf.discover fuel) w :=
  discover_rule wf (fun _ _ h => sound_ext trivial h fun _ _ _ => h.answered)
    (fun _ source h => discoverObject_sound wf h source) fuel h

end Discover

/-! ### `delete_test_item` -/

section Deletion

variable {σ : Type} {X : ExtEnv σ} {w : World σ} {item : ArchiveItem} (wf : ArchiveWorkflow)

/-- The world in which the source is asked to delete `item`. -/
structure World.Deleting (w : World σ) (item : ArchiveItem) : Prop where
  loaded : w.Loaded item
  state : item.state = .deleting
  pend : w.pend = []
  durable : w.db.items.get item.id = some item

theorem World.Deleting.answered {o : ExtOp} {a : Except PyError o.Res} {x : σ}
    (h : w.Deleting item) : (w.answered o a x).Deleting item :=
  ⟨h.loaded.answered, h.state, h.pend, h.durable⟩

theorem outside_sourceFacts : Outside (fun _ => True) (wf.sourceFacts item) := by
  simp only [sourceFacts, ext, Prog.calls_bind, Prog.calls_call, Prog.calls_ofExcept,
    Prog.calls_tryCatch, Prog.calls_pure, Op.outside, implies_true, true_and]
  intro _ e _
  split <;> trivial

theorem outside_localFacts : Outside (fun _ => True) (localFacts item) := by
  unfold localFacts
  cases item.nasPath with
  | none => trivial
  | some path => cases item.plaintextSha256 <;> simp [ext, Op.outside]

theorem outside_deletionDecision (c : DeletionContext) :
    Outside (fun _ => True) (wf.deletionDecision item c) := by
  simp only [deletionDecision, Prog.calls_bind]
  refine (outside_sourceFacts wf).mono (fun _ _ => ?_) fun _ _ => trivial
  refine outside_localFacts.mono (fun _ _ => ?_) fun _ _ => trivial
  simp [ext, Op.outside]

/-- A transition whose validity is known raises nothing, so its world need not be ready. -/
theorem sound_step {M : Moves} {target : ArchiveState}
    {actor : String} {Q : ArchiveItem → World σ → Prop} (hg : w.txn.items.get item.id = some item)
    (hv : validTransition item.state target = true)
    (hM : M actor w.log item { item with state := target })
    (hd : item.state ∈ inPipeline → w.Durable item)
    (hQ : ∀ event, Q { item with state := target }
      (w.flush { item with state := target } event)) :
    Sound M X Q (transitionItem item target actor) w :=
  wp_transitionItem.mpr ⟨fun _ => ⟨⟨item, hg, hM, hd⟩, hQ _⟩, fun hf => by simp [hv] at hf⟩

/-- The row is in `state`, just moved there by this call, or else its world is ready. -/
structure World.Passing (w : World σ) (state : ArchiveState) (item i : ArchiveItem) : Prop where
  get : w.txn.items.get i.id = some i
  ready : i.state = state ∨ w.Ready
  frame : i = { item with state := i.state }
  origin : i.state = item.state ∨ item.state ∈ deletable

theorem World.Passing.id {state : ArchiveState} {i : ArchiveItem} (h : w.Passing state item i) :
    i.id = item.id := by
  rw [h.frame]

theorem guardStep_sound {current target : ArchiveState} {i : ArchiveItem}
    (h : w.Passing current item i) (hst : (current, target) ∈ deletionSteps)
    (hv : validTransition current target = true)
    (hd : i.state = current → current ∈ inPipeline → w.Durable i) (hc : current ∈ deletable) :
    Sound (deletionOf item.id) X (fun i w => w.Passing target item i)
      (guardStep current target i) w := by
  unfold guardStep
  split
  case isTrue hs =>
    refine sound_step h.get (hs ▸ hv) ⟨h.id, .step (hs ▸ hst)⟩ (fun hp => hd hs (hs ▸ hp)) fun event => ?_
    refine ⟨World.Loaded.flushed h.get, .inl rfl, ?_, .inr ?_⟩
    · rw [h.frame]
    · exact h.origin.elim (fun ho => ho ▸ hs ▸ hc) fun ho => ho
  case isFalse hs => exact ⟨h.get, .inr (h.ready.resolve_left hs), h.frame, h.origin⟩

/-- Before the source is called, the row is durable as `DELETING`, and nothing is pending. -/
theorem prepareDeletion_sound (h : w.Loaded item) :
    Sound (deletionOf item.id) X
      (fun i w => w.Deleting i ∧ i = { item with state := .deleting } ∧
        (item.state ∈ deletable ∨ item.state = .deleting))
      (prepareDeletion item) w := by
  simp only [prepareDeletion, Prog.wp_bind, Prog.wp_pure]
  refine (guardStep_sound ⟨h.get, .inr h.ready, rfl, .inl rfl⟩ (by decide) (by decide)
    (fun hs _ => h.durable (hs ▸ by decide)) (by decide)).post fun i w hi => ?_
  refine (guardStep_sound hi (by decide) (by decide)
    (fun _ hp => absurd hp (by decide)) (by decide)).post fun i w hi => ?_
  by_cases hs : i.state = .readyForDeletion ∨ i.state = .deleting
  · refine sound_step hi.get ((validTransition_deleting _).mpr hs) ⟨hi.id, .step ?_⟩ ?_ fun event => ?_
    · rcases hs with hs | hs <;> rw [hs] <;> decide
    · intro hp
      rcases hs with hs | hs <;> simp [hs, inPipeline] at hp
    · have hl : (w.flush { i with state := .deleting } event).commit.Loaded _ :=
        committed_loaded hi.get
      refine wp_commit.mpr ⟨trivial, ⟨hl, rfl, rfl, hl.get⟩, ?_, ?_⟩
      · rw [hi.frame]
      · refine hi.origin.elim (fun ho => ?_) .inl
        rw [ho] at hs
        rcases hs with hs | hs
        · exact .inl (by rw [hs]; decide)
        · exact .inr hs
  · refine wp_transitionItem.mpr ⟨fun hv => absurd ((validTransition_deleting _).mp hv) hs,
      fun _ => hi.ready.resolve_left fun he => hs (.inl he)⟩

theorem deleteSource_sound (h : w.Deleting item) :
    Sound (deletionOf item.id) X (fun _ w => w.Deleting item) (wf.deleteSource item) w := by
  simp only [deleteSource, Prog.wp_tryCatch, Prog.wp_bind, Prog.wp_pure]
  refine wp_ext.mpr ⟨⟨h.pend, item, h.durable, h.state, rfl, rfl⟩,
    fun _ _ _ _ => h.answered, fun e x _ _ => ?_⟩
  split
  · exact h.answered
  · exact h.answered.loaded.ready
  · exact h.answered

theorem recordDeletion_sound (h : w.Deleting item) (outcome : Option Bool) :
    Sound (deletionOf item.id) X (fun _ w => w.Ready) (recordDeletion item outcome) w := by
  have hl := h.loaded
  match outcome with
  | none =>
    simp only [recordDeletion, Prog.wp_bind, Prog.wp_pure]
    exact sound_move hl rfl (fun _ => ⟨rfl, .changed⟩) (by decide) fun _ hl => hl.ready
  | some false =>
    simp only [recordDeletion, Prog.wp_bind, Prog.wp_pure]
    refine sound_move hl rfl (fun _ => ⟨rfl, .step ?_⟩) (by decide) fun _ hl => hl.ready
    rw [h.state]; decide
  | some true =>
    simp only [recordDeletion, Prog.wp_bind, Prog.wp_pure]
    refine sound_ext trivial hl.ready fun now x _ => ?_
    refine sound_move hl.answered rfl (fun _ => ⟨rfl, .deleted now h.state⟩) (by decide) fun _ hl => ?_
    exact sound_move hl rfl (fun _ => ⟨rfl, .step (by simp [deletionSteps])⟩) (by decide)
      fun _ hl => hl.ready

/-- `delete_test_item` asks the source to delete only a row that is durable as `DELETING`. -/
theorem deleteTestItem_sound (h : w.Loaded item) (decision : GateDecision) :
    Sound (deletionOf item.id) X (fun _ w => w.Ready) (wf.deleteTestItem item decision) w := by
  simp only [deleteTestItem, Prog.wp_bind]
  refine sound_ext trivial h.ready fun capabilities x _ => ?_
  refine wp_raiseIf.mpr ⟨fun _ => ?_, fun _ => h.answered.ready⟩
  refine wp_raiseIf.mpr ⟨fun _ => ?_, fun _ => h.answered.ready⟩
  refine sound_ext trivial h.answered.ready fun current x _ => ?_
  split
  case isTrue =>
    simp only [Prog.wp_bind]
    refine (prepareDeletion_sound h.answered.answered).post ?_
    rintro _ w ⟨hd, rfl, -⟩
    exact (deleteSource_sound wf hd).post fun outcome w hd => recordDeletion_sound hd outcome
  case isFalse =>
    simp only [Prog.wp_bind, Prog.wp_pure]
    exact sound_move h.answered.answered rfl (fun _ => ⟨rfl, .changed⟩) (by decide) fun _ hl => hl.ready

end Deletion

end Mnema
