import Mnema.ChangeJournal

/-! What the transactions keep of the item tree: no row is lost, every reference to an archive
item leads to one, and rows are added only where the root folders are. -/

namespace Mnema

namespace Db

/-- The root folders are there. -/
def Rooted (d : Db) : Prop := ∀ root ∈ roots, (d.fpItems.get root.1).isSome

/-- References to archive items lead to one. -/
structure Linked (d : Db) : Prop where
  fpItems : ∀ r ∈ d.fpItems.rows, ∀ id, r.archiveItemId = some id → (d.items.get id).isSome
  uploads : ∀ k ∈ d.uploadKeys, (d.items.get k.2.2).isSome

/-- No row is lost, and references still lead to a row. -/
structure Grows (d d' : Db) : Prop where
  items : ∀ id, (d.items.get id).isSome → (d'.items.get id).isSome
  fpItems : ∀ id, (d.fpItems.get id).isSome → (d'.fpItems.get id).isSome
  linked : d.Linked → d'.Linked

/-- The same, and an empty tree stays empty. -/
structure Keeps (d d' : Db) : Prop extends d.Grows d' where
  empty : d.fpItems.rows = [] → d'.fpItems.rows = []

/-- Rows are added to a tree that has its roots. -/
def Seeded (d d' : Db) : Prop := d.fpItems.rows = [] → d'.fpItems.rows = [] ∨ d'.Rooted

variable {d d' d'' : Db}

theorem Grows.refl (d : Db) : d.Grows d := ⟨fun _ h => h, fun _ h => h, fun h => h⟩

theorem Grows.trans (h : d.Grows d') (h' : d'.Grows d'') : d.Grows d'' :=
  ⟨fun id hi => h'.items id (h.items id hi), fun id hi => h'.fpItems id (h.fpItems id hi),
    fun hl => h'.linked (h.linked hl)⟩

theorem Grows.rooted (h : d.Grows d') (hd : d.Rooted) : d'.Rooted :=
  fun root hroot => h.fpItems _ (hd root hroot)

theorem Keeps.refl (d : Db) : d.Keeps d := ⟨.refl d, fun h => h⟩

theorem Keeps.trans (h : d.Keeps d') (h' : d'.Keeps d'') : d.Keeps d'' :=
  ⟨h.toGrows.trans h'.toGrows, fun he => h'.empty (h.empty he)⟩

theorem Keeps.seeded (h : d.Keeps d') : d.Seeded d' := fun he => .inl (h.empty he)

theorem isSome_put {α κ : Type} {key : α → κ} [DecidableEq κ] {t : Table α κ key} {row : α} {k : κ}
    (h : (t.get k).isSome) : ((t.put row).get k).isSome := by
  rw [Table.get_put]
  by_cases hk : k = key row
  · rw [if_pos hk, Option.isSome_map]
    exact h
  · rw [if_neg hk]
    exact h

theorem isSome_insert {α κ : Type} {key : α → κ} [DecidableEq κ] {t : Table α κ key} {row : α}
    {k : κ} (h : (t.get k).isSome) : ((t.insert row).get k).isSome := by
  obtain ⟨x, hx⟩ := Option.isSome_iff_exists.mp h
  rw [Table.get_insert_of_get hx]
  rfl

/-- The tree is the same, with rows added to the archive. -/
theorem keeps_of_items (hi : ∀ id, (d.items.get id).isSome → (d'.items.get id).isSome)
    (hf : d'.fpItems = d.fpItems) (hu : d'.uploadKeys = d.uploadKeys) : d.Keeps d' := by
  refine ⟨⟨hi, fun _ h => hf ▸ h, fun hl => ⟨fun r hr id ha => ?_, fun k hk => ?_⟩⟩, fun he => hf ▸ he⟩
  · rw [hf] at hr
    exact hi id (hl.fpItems r hr id ha)
  · rw [hu] at hk
    exact hi _ (hl.uploads k hk)

theorem Linked.of_get (h : d.Linked) {k : String} {item : FileProviderItem}
    (hitem : d.fpItems.get k = some item) {id : Nat} (ha : item.archiveItemId = some id) :
    (d.items.get id).isSome :=
  h.fpItems item (Table.mem_of_get hitem) id ha

/-- A row in place of the one with its id. -/
theorem keeps_put {row : FileProviderItem}
    (ha : d.Linked → ∀ id, row.archiveItemId = some id → (d.items.get id).isSome) :
    d.Keeps { d with fpItems := d.fpItems.put row } := by
  refine ⟨⟨fun _ h => h, fun _ h => isSome_put h, fun hl => ⟨fun r hr id hid => ?_, hl.uploads⟩⟩,
    fun he => ?_⟩
  · rcases Table.mem_put hr with rfl | ⟨hmem, -⟩
    · exact ha hl id hid
    · exact hl.fpItems r hmem id hid
  · simp [Table.put, he]

theorem grows_insert {row : FileProviderItem}
    (ha : ∀ id, row.archiveItemId = some id → (d.items.get id).isSome) :
    d.Grows { d with fpItems := d.fpItems.insert row } := by
  refine ⟨fun _ h => h, fun _ h => isSome_insert h, fun hl => ⟨fun r hr id hid => ?_, hl.uploads⟩⟩
  rcases Table.mem_insert hr with hmem | rfl
  · exact hl.fpItems r hmem id hid
  · exact ha id hid

theorem grows_upload {row : FileProviderUpload} (ha : (d.items.get row.archiveItemId).isSome) :
    d.Grows { d with uploads := d.uploads.insert row } := by
  refine ⟨fun _ h => h, fun _ h => h, fun hl => ⟨hl.fpItems, fun k hk => ?_⟩⟩
  obtain ⟨u, hu, rfl⟩ := List.mem_map.mp hk
  rcases Table.mem_insert hu with hmem | rfl
  · exact hl.uploads _ (List.mem_map_of_mem hmem)
  · exact ha

end Db

/-- What a program makes of the rows, if it returns. -/
abbrev Growing {σ α : Type} (X : ExtEnv σ) (w : World σ) (p : Flow α) : Prop :=
  Tends X w p fun _ t => w.txn.Grows t.txn

abbrev Keeping {σ α : Type} (X : ExtEnv σ) (w : World σ) (p : Flow α) : Prop :=
  Tends X w p fun _ t => w.txn.Keeps t.txn

section Rules

variable {σ α β : Type} {X : ExtEnv σ} {w w' : World σ} {d : Db}

theorem keeps_of_offTree {o : Op} {a : o.Ans} (h : o.offTree = true)
    (he : World.env X w o a w') : w.txn.Keeps w'.txn := by
  cases o with
  | ext o =>
    obtain ⟨x, _, _, rfl⟩ := he
    exact .refl _
  | db o =>
    rw [(World.env_db.mp he).2]
    cases o with
    | addFpItem _ | saveFpItem _ | addChange _ _ | commit | addUpload _ => simp [Op.offTree] at h
    | addItem row =>
      simp only [World.dbStep]
      split
      · exact .refl _
      · exact Db.keeps_of_items (fun _ hi => Db.isSome_insert hi) rfl rfl
    | flush _ _ | save _ => exact Db.keeps_of_items (fun _ hi => Db.isSome_put hi) rfl rfl
    | setUploadStatus id _ | setReceivedSize id _ =>
      have hset : ∀ f : FileProviderUpload → FileProviderUpload, (∀ u, (f u).key = u.key) →
          w.txn.Keeps (w.setUpload id f).txn := fun f hf => by
        refine Db.keeps_of_items ?_ ?_ (uploadKeys_setUpload id hf)
        · rw [(World.sameRows_setUpload id f).txn]
          exact fun _ hi => hi
        · unfold World.setUpload
          split <;> rfl
      exact hset _ fun _ => rfl
    | _ => exact Db.keeps_of_items (fun _ h => h) rfl rfl

theorem keeping_off {p : Flow α} (hp : OffTree p) :
    Tends X w p fun _ t => w.txn.SameTree t.txn ∧ w.txn.Keeps t.txn :=
  (hp.wp (I := fun t => w.txn.SameTree t.txn ∧ w.txn.Keeps t.txn)
    (fun _ _ ho _ => rootSafe_of_offTree ho)
    (fun _ _ _ _ ho h he => ⟨h.1.trans (sameTree_of_offTree ho he), h.2.trans (keeps_of_offTree ho he)⟩)
    ⟨.refl _, .refl _⟩).mono (fun _ _ h => h) (fun _ _ h => h.2) fun _ _ _ => trivial

theorem keeping_bind {p : Flow α} {f : α → Flow β} (hp : Keeping X w p)
    (hf : ∀ a t, Keeping X t (f a)) : Keeping X w (p >>= f) :=
  tends_bind hp fun a t ht => (hf a t).post fun _ _ h => ht.trans h

/-- A step off the tree before the rest of a program. -/
theorem keeping_skip {p : Flow α} {f : α → Flow β} (hp : OffTree p)
    (hf : ∀ a t, w.txn.SameTree t.txn → Keeping X t (f a)) : Keeping X w (p >>= f) :=
  tends_bind (keeping_off hp) fun a t ht => (hf a t ht.1).post fun _ _ h => ht.2.trans h

theorem keeping_pure (a : α) : Keeping X w (pure a) := .refl _

theorem keeping_of_off {p : Flow α} (hp : OffTree p) : Keeping X w p :=
  (keeping_off hp).post fun _ _ h => h.2

theorem keeping_saveFpItem {row : FileProviderItem}
    (ha : w.txn.Linked → ∀ id, row.archiveItemId = some id → (w.txn.items.get id).isSome) :
    Keeping X w (db (.saveFpItem row)) := by
  refine wp_db.mpr ⟨trivial, fun a h => ?_, fun _ _ => trivial⟩
  by_cases ht : w.txn.fpTaken row = true
  · simp [World.dbStep, ht] at h
  · simp only [World.dbStep, ht]
    exact Db.keeps_put ha

theorem keeping_recordChangeOf (id operation : String) :
    Keeping X w (recordChangeOf id operation) := by
  unfold recordChangeOf
  rw [Keeping, Tends, Prog.wp_bind]
  refine (wp_db_ok (o := .addChange id operation) rfl).mpr ⟨trivial, ?_⟩
  rw [Prog.wp_bind]
  refine (wp_db_ok (o := .getFpItem id) rfl).mpr ⟨trivial, ?_⟩
  rw [World.txn_setTxn]
  have hadded : w.txn.Keeps { w.txn with
      changes := w.txn.changes ++ [⟨w.txn.newSequence, id, operation⟩] } :=
    Db.keeps_of_items (fun _ h => h) rfl rfl
  cases hitem : w.txn.fpItems.get id with
  | none => exact hadded
  | some item =>
    refine (Prog.wp_bind _ _).mpr (wp_ext.mpr ⟨trivial, fun now x _ _ => ?_, fun _ _ _ _ => trivial⟩)
    refine Prog.wp.post (keeping_saveFpItem ?_) fun _ t ht => ?_
    · exact fun hl id ha => hl.of_get hitem ha
    · exact hadded.trans ht

theorem keeping_recordChange (id : String) : Keeping X w (recordChange id) :=
  keeping_recordChangeOf id "UPSERT"

theorem Keeping.growing {p : Flow α} (h : Keeping X w p) : Growing X w p :=
  h.post fun _ _ ht => ht.toGrows

theorem growing_bind {p : Flow α} {f : α → Flow β} (hp : Growing X w p)
    (hf : ∀ a t, w.txn.Grows t.txn → Growing X t (f a)) : Growing X w (p >>= f) :=
  tends_bind hp fun a t ht => (hf a t ht).post fun _ _ h => ht.trans h

theorem growing_skip {p : Flow α} {f : α → Flow β} (hp : OffTree p)
    (hf : ∀ a t, w.txn.Grows t.txn → Growing X t (f a)) : Growing X w (p >>= f) :=
  growing_bind (keeping_of_off hp).growing hf

theorem growing_addFpItem {row : FileProviderItem}
    (ha : ∀ id, row.archiveItemId = some id → (w.txn.items.get id).isSome) :
    Tends X w (db (.addFpItem row)) fun _ t => w.txn.Grows t.txn ∧
      (t.txn.fpItems.get row.id).isSome ∧ w.txn.fpItems.get row.id = none := by
  refine wp_db.mpr ⟨trivial, fun a h => ?_, fun _ _ => trivial⟩
  by_cases ht : ((w.txn.fpItems.get row.id).isSome || w.txn.fpTaken row) = true
  · simp [World.dbStep, ht] at h
  · simp only [World.dbStep, ht]
    have hnone : w.txn.fpItems.get row.id = none := by
      simp only [Bool.or_eq_true, not_or] at ht
      simpa using ht.1
    exact ⟨Db.grows_insert ha, Option.isSome_of_eq_some (Table.get_insert_self hnone), hnone⟩

/-- A row that is added, and recorded. -/
theorem growing_add {row : FileProviderItem} {f : Unit → Flow β}
    (ha : ∀ id, row.archiveItemId = some id → (w.txn.items.get id).isSome)
    (hf : ∀ t, w.txn.Grows t.txn → (t.txn.fpItems.get row.id).isSome → Growing X t (f ())) :
    Growing X w (db (.addFpItem row) >>= f) :=
  tends_bind (growing_addFpItem ha) fun _ t ht => (hf t ht.1 ht.2.1).post fun _ _ h => ht.1.trans h

end Rules

/-! ### The programs -/

section Programs

variable {σ α β : Type} {X : ExtEnv σ} {w : World σ} (uuid5 : String → String) (settings : Settings)

theorem growing_bootstrapRoot (root : String × Option String × String) :
    Tends X w (bootstrapRoot root) fun _ t =>
      w.txn.Grows t.txn ∧ (t.txn.fpItems.get root.1).isSome := by
  refine tends_bind (tends_getFpItem root.1) fun item t ⟨hitem, ht⟩ => ?_
  subst ht
  cases item with
  | some item => exact ⟨.refl _, Option.isSome_of_eq_some hitem.symm⟩
  | none =>
    refine tends_bind (keeping_off (offTree_ext _)) fun now t' ht' => ?_
    refine tends_bind (growing_addFpItem fun id hid => by simp at hid) fun _ t'' ht'' => ?_
    refine (keeping_recordChange root.1).post fun _ t₃ ht₃ => ?_
    exact ⟨ht'.2.toGrows.trans (ht''.1.trans ht₃.toGrows), ht₃.fpItems _ ht''.2.1⟩

theorem growing_bootstrapEach (l : List (String × Option String × String)) :
    Tends X w (bootstrapEach l) fun _ t =>
      w.txn.Grows t.txn ∧ ∀ root ∈ l, (t.txn.fpItems.get root.1).isSome := by
  induction l generalizing w with
  | nil => exact ⟨.refl _, fun _ hr => absurd hr List.not_mem_nil⟩
  | cons root rest ih =>
    refine tends_bind (growing_bootstrapRoot root) fun _ t ht => ih.post fun _ t' ht' => ?_
    refine ⟨ht.1.trans ht'.1, fun r hr => ?_⟩
    rcases List.mem_cons.mp hr with rfl | hr
    · exact ht'.1.fpItems _ ht.2
    · exact ht'.2 r hr

/-- Afterwards every root folder is there. -/
theorem growing_bootstrapRoots :
    Tends X w bootstrapRoots fun _ t => w.txn.Grows t.txn ∧ t.txn.Rooted := by
  have heach := growing_bootstrapEach (X := X) (w := w) roots
  refine tends_bind heach fun _ t ht => ?_
  refine (keeping_of_off ?_).post fun _ t' ht' => ⟨ht.1.trans ht'.toGrows, ht'.rooted ht.2⟩
  refine .seq ?_ fun _ => trivial
  refine .seq (offTree_db rfl) fun value => ?_
  cases value with
  | some value => trivial
  | none => exact .seq (offTree_ext _) fun _ => .seq (offTree_db rfl) fun _ => trivial

theorem keeping_promoteUpload (archive : ArchiveItem) (itemId : String) :
    Keeping X w (promoteUpload archive itemId) := by
  unfold promoteUpload
  split
  · exact keeping_pure ()
  refine tends_bind (tends_getFpItem itemId) fun item t ⟨hitem, ht⟩ => ?_
  subst ht
  cases item with
  | none => exact keeping_pure ()
  | some item =>
    change Keeping X t (if item.status = .ready then pure () else _)
    split
    · exact keeping_pure ()
    refine keeping_skip (offTree_uniqueChildName _ _ _) fun name t' hsame => ?_
    rw [← hsame.fpItems] at hitem
    exact keeping_bind (keeping_saveFpItem fun hl id ha => hl.of_get hitem.symm ha) fun _ _ =>
      keeping_recordChange _

theorem keeping_markUploadFailed (itemId code : String) :
    Keeping X w (markUploadFailed itemId code) := by
  refine tends_bind (tends_getFpItem itemId) fun item t ⟨hitem, ht⟩ => ?_
  subst ht
  cases item with
  | none => exact keeping_pure ()
  | some item =>
    exact keeping_bind (keeping_saveFpItem fun hl id ha => hl.of_get hitem.symm ha) fun _ _ =>
      keeping_recordChange _

theorem growing_projectFolders (provider parentId : String) (done components : List String) :
    Growing X w (projectFolders uuid5 provider parentId done components) := by
  induction components generalizing parentId done w with
  | nil => exact .refl _
  | cons component rest ih =>
    refine growing_bind ?_ fun folderId t _ => ih _ _
    refine growing_skip (offTree_db rfl) fun folder t _ => ?_
    cases folder with
    | some folder => exact .refl _
    | none =>
      refine growing_skip (offTree_uniqueChildName _ _ _) fun name t _ => ?_
      refine growing_skip (offTree_ext _) fun now t _ => ?_
      refine growing_add (fun id hid => by simp at hid) fun t _ _ => ?_
      exact growing_bind (keeping_recordChange _).growing fun _ _ _ => .refl _

theorem growing_placeOf (archive : ArchiveItem) (original : List String) (itemId : String) :
    Growing X w (placeOf uuid5 archive original itemId) := by
  have hname : ∀ (parentId desired : String) (t : World σ), Growing X t (do
      let name ← uniqueChildName parentId desired itemId
      pure (parentId, name)) := fun _ _ _ =>
    growing_skip (offTree_uniqueChildName _ _ _) fun _ _ _ => .refl _
  unfold placeOf
  dsimp only
  split
  · exact growing_bind (growing_projectFolders uuid5 _ _ _ _) fun parentId t _ => hname _ _ _
  · exact hname _ _ _

theorem growing_projectArchive {archive : ArchiveItem}
    (harchive : (w.txn.items.get archive.id).isSome) :
    Growing X w (projectArchive uuid5 archive) := by
  unfold projectArchive
  split
  · exact .refl _
  refine tends_bind (Q := fun existing t => (∀ item, existing = some item →
    item.archiveItemId = some archive.id) ∧ t = w) ((wp_db_ok (o := .fpItemOf archive.id) rfl).mpr
      ⟨trivial, fun item hi => by simpa using Table.pred_of_first hi, rfl⟩) ?_
  rintro existing t ⟨hexisting, rfl⟩
  refine growing_skip (offTree_ofExcept _) fun original t' hsame => ?_
  refine growing_bind (growing_placeOf uuid5 archive _ _) fun place t'' hplace => ?_
  cases existing with
  | none =>
    refine growing_add (fun id hid => ?_) fun t₃ _ _ => ?_
    · obtain rfl : archive.id = id := by simpa using hid
      exact hplace.items _ (hsame.items _ harchive)
    · exact growing_bind (keeping_recordChange _).growing fun _ _ _ => .refl _
  | some item =>
    change Growing X t'' (if item.parentId ≠ some place.1 ∨ item.name ≠ place.2 then _ else _)
    split
    · refine growing_bind (keeping_saveFpItem fun _ id ha => ?_).growing fun _ t₃ _ => ?_
      · obtain rfl : archive.id = id := Option.some.inj ((hexisting item rfl).symm.trans ha)
        exact hplace.items _ (hsame.items _ harchive)
      · exact growing_bind (keeping_recordChange _).growing fun _ _ _ => .refl _
    · exact .refl _

theorem growing_projectVerifiedArchives :
    Tends X w (projectVerifiedArchives uuid5) fun _ t => w.txn.Grows t.txn ∧ t.txn.Rooted := by
  have heach : ∀ (l : List ArchiveItem) (w : World σ),
      (∀ archive ∈ l, (w.txn.items.get archive.id).isSome) → Growing X w (projectEach uuid5 l) :=
    fun l => by
      induction l with
      | nil => exact fun _ _ => .refl _
      | cons archive rest ih =>
        intro w hl
        refine growing_bind (growing_projectArchive uuid5 (hl archive List.mem_cons_self)) fun _ t ht => ?_
        refine growing_bind (ih t fun a ha => ?_) fun _ _ _ => .refl _
        exact ht.items _ (hl a (List.mem_cons_of_mem _ ha))
  refine tends_bind growing_bootstrapRoots fun _ t ht => ?_
  refine (Prog.wp_bind _ _).mpr ((wp_db_ok (o := .itemsWithPath) rfl).mpr ⟨trivial, ?_⟩)
  refine (heach _ t fun archive ha => ?_).post fun _ t' ht' => ⟨ht.1.trans ht', ht'.rooted ht.2⟩
  exact Option.isSome_of_eq_some (Table.get_of_mem (List.mem_filter.mp ha).1)

theorem keeping_sealUpload (upload : FileProviderUpload) :
    Keeping X w (sealUpload settings upload) := by
  refine keeping_skip (offTree_outside (outside_uploadPath _ _)) fun source t _ => ?_
  refine keeping_skip (offTree_raiseIf _ _) fun _ t _ => ?_
  refine keeping_skip (offTree_db rfl) fun archive t _ => ?_
  cases archive with
  | none => trivial
  | some archive =>
    refine keeping_skip (offTree_outside (outside_createIfEmpty _ _)) fun _ t _ => ?_
    refine keeping_skip (offTree_outside (outside_sealCandidate _ _)) fun candidate t _ => ?_
    refine keeping_skip (offTree_outside (outside_incomplete _ _)) fun _ t _ => ?_
    refine keeping_skip (offTree_raiseIf _ _) fun _ t _ => ?_
    refine keeping_skip (offTree_ext _) fun checksum t _ => ?_
    refine keeping_skip (offTree_raiseIf _ _) fun _ t _ => ?_
    refine keeping_skip (offTree_outside (outside_stageUpload _ _ _)) fun _ t _ => ?_
    refine keeping_skip (offTree_transitionItem _ _ _) fun archive t _ => ?_
    refine keeping_skip (offTree_db rfl) fun _ t _ => ?_
    refine tends_bind (tends_getFpItem _) fun item t ⟨hitem, ht⟩ => ?_
    subst ht
    cases item with
    | none => trivial
    | some item =>
      refine keeping_bind (keeping_saveFpItem fun hl id ha => hl.of_get hitem.symm ha) fun _ t => ?_
      refine keeping_skip (offTree_enqueueArchive _ _ _) fun _ t _ => ?_
      exact keeping_bind (keeping_recordChange _) fun _ _ => keeping_pure _

theorem keeping_reapUploads (now : Time) (uploads : List FileProviderUpload) :
    Keeping X w (reapUploads settings now uploads) := by
  induction uploads generalizing w with
  | nil => exact keeping_pure _
  | cons upload rest ih =>
    refine keeping_bind ?_ fun n t => keeping_bind ih fun _ _ => keeping_pure _
    unfold reapUpload
    split
    · exact keeping_pure _
    refine keeping_skip (offTree_outside (outside_uploadPath _ _)) fun path t _ => ?_
    refine keeping_skip (offTree_outside (outside_removeUploadFile _)) fun _ t _ => ?_
    refine keeping_skip (offTree_db rfl) fun _ t _ => ?_
    refine keeping_bind (keeping_markUploadFailed _ _) fun _ t => ?_
    refine keeping_of_off (.seq (offTree_db rfl) fun archive => ?_)
    cases archive with
    | none => trivial
    | some archive =>
      refine (Prog.calls_ite _ _).mpr ⟨fun _ => trivial, fun _ => ?_⟩
      exact .seq (offTree_transitionItem _ _ _) fun _ => trivial

/-- The archive item of an upload, through its first states. -/
theorem growing_transitionItem {item : ArchiveItem} {target : ArchiveState} {actor : String}
    {f : ArchiveItem → Flow β}
    (hf : ∀ t, w.txn.Grows t.txn → Growing X t (f { item with state := target })) :
    Growing X w (transitionItem item target actor >>= f) := by
  refine (Prog.wp_bind _ _).mpr (wp_transitionItem.mpr ⟨fun _ => ⟨trivial, ?_⟩, fun _ => trivial⟩)
  have hflush : w.txn.Keeps (w.flush { item with state := target }
      ⟨item.id, "state_transition", item.state, target, actor⟩).txn :=
    Db.keeps_of_items (fun _ hi => Db.isSome_put hi) rfl rfl
  exact (hf _ hflush.toGrows).post fun _ _ h => hflush.toGrows.trans h

theorem rooted_skip {p : Flow α} {f : α → Flow β} (hroot : w.txn.Rooted) (hp : OffTree p)
    (hf : ∀ a t, t.txn.Rooted → Growing X t (f a)) : Growing X w (p >>= f) :=
  growing_skip hp fun a t h => hf a t (h.rooted hroot)

/-- The rows of a new upload, below folders that are there. -/
theorem growing_addUpload {row : FileProviderItem} {upload : Time → FileProviderUpload}
    {archiveId : Nat} (hrow : row.archiveItemId = some archiveId)
    (hupload : ∀ now, (upload now).itemId = row.id ∧ (upload now).archiveItemId = archiveId)
    (harchive : (w.txn.items.get archiveId).isSome) (hroot : w.txn.Rooted) :
    Growing X w (do
      db (.addFpItem row)
      let now ← ext .utcnow
      db (.addUpload (upload now))
      recordChange row.id
      pure (upload now)) := by
  have hlink : ∀ id, row.archiveItemId = some id → (w.txn.items.get id).isSome := fun id hid => by
    obtain rfl : archiveId = id := Option.some.inj (hrow.symm.trans hid)
    exact harchive
  refine tends_bind (growing_addFpItem hlink) fun _ t ⟨ht, _, hnone⟩ => ?_
  have hne : row.id ≠ "root" := fun he => by
    have hh := hroot ("root", none, "Mnema") (by simp [roots])
    simp [← he, hnone] at hh
  refine tends_bind (keeping_off (offTree_ext _)) fun now t' ht' => ?_
  have hgrown := ht.trans ht'.2.toGrows
  refine tends_bind (Q := fun _ t'' => w.txn.Grows t''.txn) ?_ fun _ t'' hadded => ?_
  · refine wp_db.mpr ⟨show (upload now).itemId ≠ "root" from (hupload now).1 ▸ hne, fun _ _ => ?_,
      fun _ _ => trivial⟩
    simp only [World.dbStep]
    split
    · exact hgrown
    · refine hgrown.trans (Db.grows_upload ?_)
      rw [(hupload now).2]
      exact hgrown.items _ harchive
  · refine tends_bind (keeping_recordChange row.id) fun _ t₃ ht₃ => ?_
    exact (hadded.trans ht₃.toGrows : w.txn.Grows _)

theorem growing_createUpload (request : UploadRequest) :
    Tends X w (createUpload settings request) fun _ t => w.txn.Grows t.txn ∧ t.txn.Rooted := by
  unfold createUpload
  generalize validateUploadName request.name = validated
  refine tends_bind growing_bootstrapRoots fun _ t ⟨hboot, hroot⟩ => ?_
  refine Prog.wp.post (?_ : Growing X t _) fun _ _ h => ⟨hboot.trans h, h.rooted hroot⟩
  refine rooted_skip hroot (offTree_ofExcept _) fun name t hroot => ?_
  refine rooted_skip hroot (offTree_raiseIf _ _) fun _ t hroot => ?_
  refine rooted_skip hroot (offTree_ext _) fun usage t hroot => ?_
  refine rooted_skip hroot (offTree_ofExcept _) fun lacking t hroot => ?_
  refine rooted_skip hroot (offTree_raiseIf _ _) fun _ t hroot => ?_
  refine rooted_skip hroot (offTree_raiseIf _ _) fun _ t hroot => ?_
  refine rooted_skip hroot (offTree_ext _) fun uploadId t hroot => ?_
  refine rooted_skip hroot (offTree_ext _) fun fpId t hroot => ?_
  refine rooted_skip hroot (offTree_ext _) fun now t hroot => ?_
  refine tends_bind (Q := fun archive t' => t.txn.Grows t'.txn ∧ (t'.txn.items.get archive.id).isSome)
    ?_ fun archive t' ⟨hadd, harchive⟩ => ?_
  · refine wp_db.mpr ⟨trivial, fun archive ha => ?_, fun _ _ => trivial⟩
    simp only [World.dbStep] at ha ⊢
    split at ha
    · cases ha
    · rename_i htaken
      obtain rfl := Except.ok.inj ha
      rw [if_neg htaken]
      have hkeeps : ∀ row, t.txn.Keeps (t.addItem row).txn := fun row =>
        Db.keeps_of_items (fun _ hi => Db.isSome_insert hi) rfl rfl
      refine ⟨(hkeeps _).toGrows, ?_⟩
      exact Option.isSome_of_eq_some (Table.get_insert_self (World.get_newItemId _))
  · refine Prog.wp.post (?_ : Growing X t' _) fun _ _ h => hadd.trans h
    refine growing_transitionItem fun t₁ h₁ => growing_transitionItem fun t₂ h₂ => ?_
    refine growing_transitionItem fun t₃ h₃ => growing_skip (offTree_ext _) fun now t₄ h₄ => ?_
    have hgrown := h₁.trans (h₂.trans (h₃.trans h₄))
    exact growing_addUpload rfl (fun _ => ⟨rfl, rfl⟩) (hgrown.items _ harchive)
      (hgrown.rooted (hadd.rooted hroot))

/-- What any of the transactions makes of the rows. -/
theorem grown_of_itemTransaction {p : Flow Unit} (hp : ItemTransaction settings uuid5 p) :
    Tends X w p fun _ t => w.txn.Grows t.txn ∧ w.txn.Seeded t.txn := by
  have quiet : ∀ {α : Type} {q : Flow α}, Keeping X w q →
      Tends X w q fun _ t => w.txn.Grows t.txn ∧ w.txn.Seeded t.txn := fun h =>
    h.post fun _ _ ht => ⟨ht.toGrows, ht.seeded⟩
  have void : ∀ {α : Type} {q : Flow α} {Q : World σ → Prop}, Tends X w q (fun _ t => Q t) →
      Tends X w q.void fun _ t => Q t := fun h => (Prog.wp_void _).mpr h
  cases hp with
  | bootstrapRoots => exact growing_bootstrapRoots.post fun _ _ h => ⟨h.1, fun _ => .inr h.2⟩
  | createUpload request =>
    exact void ((growing_createUpload settings request).post fun _ _ h => ⟨h.1, fun _ => .inr h.2⟩)
  | completeSeal uploadId =>
    refine quiet (keeping_skip (offTree_db rfl) fun upload t _ => ?_)
    cases upload with
    | none => trivial
    | some upload => exact keeping_bind (keeping_sealUpload settings upload) fun _ _ => keeping_pure _
  | reconcileSealing uploadId =>
    refine quiet (keeping_skip (offTree_db rfl) fun upload t _ => ?_)
    cases upload with
    | none => exact keeping_pure _
    | some upload => exact keeping_bind (keeping_sealUpload settings upload) fun _ _ => keeping_pure _
  | failSealing uploadId =>
    refine quiet (keeping_skip (offTree_db rfl) fun upload t _ => ?_)
    cases upload with
    | none => exact keeping_pure _
    | some upload => exact keeping_skip (offTree_db rfl) fun _ _ _ => keeping_markUploadFailed _ _
  | reapExpiredUploads =>
    refine void (quiet ?_)
    exact keeping_skip (offTree_ext _) fun now t _ => keeping_skip (offTree_db rfl) fun uploads t _ =>
      keeping_reapUploads settings now uploads
  | promoteUpload archive itemId => exact quiet (keeping_promoteUpload archive itemId)
  | completeJob workerId job =>
    refine tends_bind (keeping_off (offTree_db rfl)) fun archive t ht => ?_
    cases archive with
    | none => trivial
    | some archive =>
      refine tends_bind (keeping_promoteUpload _ _) fun _ t' ht' => ?_
      refine tends_bind (growing_projectVerifiedArchives uuid5) fun _ t'' ht'' => ?_
      have hgrown := ht.2.toGrows.trans (ht'.toGrows.trans ht''.1)
      refine tends_bind (keeping_off (offTree_db rfl)) fun active t₃ ht₃ => ?_
      cases active with
      | none => trivial
      | some active =>
        refine (keeping_of_off (offTree_db rfl)).post fun _ t₄ ht₄ => ?_
        have hlast := ht₃.2.trans ht₄
        exact ⟨hgrown.trans hlast.toGrows, fun _ => .inr (hlast.rooted ht''.2)⟩
  | reportFailure workerId job message =>
    refine quiet (keeping_skip (offTree_db rfl) fun active t _ => ?_)
    cases active with
    | none => exact keeping_pure _
    | some active =>
      refine keeping_skip (offTree_ext _) fun now t _ => keeping_skip (offTree_db rfl) fun _ t _ => ?_
      change Keeping X t (if _ then markUploadFailed _ _ else pure ())
      split
      · exact keeping_markUploadFailed _ _
      · exact keeping_pure _
  | markUploadFailed itemId code => exact quiet (keeping_markUploadFailed itemId code)
  | projectVerifiedArchives =>
    exact void ((growing_projectVerifiedArchives uuid5).post fun _ _ h => ⟨h.1, fun _ => .inr h.2⟩)

end Programs

end Mnema
