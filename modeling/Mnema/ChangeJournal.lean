import Mnema.Changes

/-! The transactions that change items leave one row of the journal for every item that
they change, after its last change. -/

namespace Mnema

open PyText

/-! ### Tables -/

namespace Db

/-- The items, and what the journal has recorded of them. -/
structure SameTree (d d' : Db) : Prop where
  fpItems : d'.fpItems = d.fpItems
  changes : d'.changes = d.changes

/-- The row `id` was changed, and one row of the journal added for it. -/
structure Recorded (d d' : Db) (id operation : String) : Prop where
  changes : d'.changes = d.changes ++ [⟨d.newSequence, id, operation⟩]
  others : ∀ k, k ≠ id → d'.fpItems.get k = d.fpItems.get k
  status : lower operation = "delete" ↔ d'.fpItems.get id = none

/-- Any number of items were added or changed, each recorded after its change. -/
def Upserts : Db → Db → Prop :=
  Relation.ReflTransGen fun d d' => d.SameTree d' ∨ ∃ id, d.Recorded d' id "UPSERT"

/-- The row `id` is there, and was changed without a row of the journal. -/
structure Unrecorded (d d' : Db) (id : String) : Prop where
  changes : d'.changes = d.changes
  others : ∀ k, k ≠ id → d'.fpItems.get k = d.fpItems.get k
  present : (d'.fpItems.get id).isSome

theorem SameTree.refl (d : Db) : d.SameTree d := ⟨rfl, rfl⟩

theorem SameTree.trans {d d' d'' : Db} (h : d.SameTree d') (h' : d'.SameTree d'') :
    d.SameTree d'' :=
  ⟨h'.fpItems.trans h.fpItems, h'.changes.trans h.changes⟩

theorem SameTree.upserts {d d' : Db} (h : d.SameTree d') : d.Upserts d' := .single (.inl h)

theorem Unrecorded.sameTree {d d' d'' : Db} {id : String} (h : d.Unrecorded d' id)
    (hs : d'.SameTree d'') : d.Unrecorded d'' id :=
  ⟨hs.changes.trans h.changes, fun k hk => by rw [hs.fpItems]; exact h.others k hk,
    by rw [hs.fpItems]; exact h.present⟩

theorem SameTree.unrecorded {d d' d'' : Db} {id : String} (hs : d.SameTree d')
    (h : d'.Unrecorded d'' id) : d.Unrecorded d'' id :=
  ⟨h.changes.trans hs.changes, fun k hk => by rw [← hs.fpItems]; exact h.others k hk, h.present⟩

theorem Recorded.present {d d' : Db} {id k : String} (h : d.Recorded d' id "UPSERT")
    (hk : (d.fpItems.get k).isSome) : (d'.fpItems.get k).isSome := by
  by_cases he : k = id
  · have hne : d'.fpItems.get id ≠ none := fun hn => absurd (h.status.mpr hn) (by decide)
    exact he ▸ Option.isSome_iff_ne_none.mpr hne
  · rw [h.others k he]
    exact hk

/-- Items are not removed by upserts. -/
theorem Upserts.present {d d' : Db} (h : d.Upserts d') {k : String}
    (hk : (d.fpItems.get k).isSome) : (d'.fpItems.get k).isSome := by
  induction h with
  | refl => exact hk
  | tail _ hs ih =>
    rcases hs with hs | ⟨id, hs⟩
    · rw [hs.fpItems]
      exact ih
    · exact hs.present ih

/-! ### The journal of the items -/

/-- The rows as the clients see them, with their journal. -/
def journal (d : Db) (allowTestDelete : Bool) : Journal String RemoteItem where
  store id := (d.fpItems.get id).map (itemPayload allowTestDelete)
  log := d.changes.map fun c => ⟨c.sequence, c.itemId, lower c.operation == "delete"⟩

theorem lt_newSequence {d : Db} {c : FileProviderChange} (h : c ∈ d.changes) :
    c.sequence < d.newSequence :=
  Nat.lt_succ_of_le (le_foldl_max (List.mem_map_of_mem h))

variable {d d' : Db} {allowTestDelete : Bool}

theorem journal_sameTree (h : d.SameTree d') :
    d'.journal allowTestDelete = d.journal allowTestDelete := by
  simp only [journal, h.fpItems, h.changes]

/-- One recorded change keeps the journal coherent and extends it. -/
theorem Recorded.journal {id operation : String} (h : d.Recorded d' id operation)
    (hc : (d.journal allowTestDelete).Coherent) :
    (d'.journal allowTestDelete).Coherent ∧
      (d.journal allowTestDelete).Extends (d'.journal allowTestDelete) := by
  have hlog : (d'.journal allowTestDelete).log = (d.journal allowTestDelete).log ++
      [⟨d.newSequence, id, lower operation == "delete"⟩] := by
    simp [Db.journal, h.changes]
  have hstore : ∀ k, k ≠ id →
      (d'.journal allowTestDelete).store k = (d.journal allowTestDelete).store k := fun k hk =>
    congrArg (Option.map _) (h.others k hk)
  have hsingle : ∀ k (e : Entry String), Journal.Apart k [e] ↔ e.key ≠ k := fun k e => by
    simp [Journal.Apart]
  refine ⟨⟨?_, fun k hk => ?_, fun pre e post hsplit hpost => ?_⟩, _, hlog, fun k hk => ?_⟩
  · rw [hlog, List.map_append, List.map_singleton, ← List.cons_append, List.pairwise_append]
    refine ⟨hc.increasing, List.pairwise_singleton _ _, fun a ha b hb => ?_⟩
    obtain rfl := List.mem_singleton.mp hb
    rcases List.mem_cons.mp ha with rfl | ha
    · exact Nat.succ_pos _
    · simp only [Db.journal, List.map_map, List.mem_map, Function.comp_apply] at ha
      obtain ⟨c, hmem, rfl⟩ := ha
      exact lt_newSequence hmem
  · rw [hlog, Journal.apart_append, hsingle] at hk
    rw [hstore k (Ne.symm hk.2)]
    exact hc.absent k hk.1
  · rw [hlog] at hsplit
    rcases List.eq_nil_or_concat post with rfl | ⟨post, last, rfl⟩
    · -- the new entry itself
      obtain ⟨-, he⟩ := List.append_inj' hsplit rfl
      obtain rfl := (List.cons.inj he).1
      simp only [beq_iff_eq]
      rw [h.status]
      exact Option.map_eq_none_iff.symm
    · -- an entry from before, which the new one is not about
      rw [List.concat_eq_append] at hsplit hpost
      rw [← List.cons_append, ← List.append_assoc] at hsplit
      obtain ⟨hold, he⟩ := List.append_inj' hsplit rfl
      obtain rfl := (List.cons.inj he).1
      obtain ⟨hpost, hne⟩ := Journal.apart_append.mp hpost
      rw [hstore e.key (Ne.symm ((hsingle _ _).mp hne))]
      exact hc.recorded pre e post hold hpost
  · exact hstore k (Ne.symm ((hsingle _ _).mp hk))

theorem Upserts.journal (h : d.Upserts d') (hc : (d.journal allowTestDelete).Coherent) :
    (d'.journal allowTestDelete).Coherent ∧
      (d.journal allowTestDelete).Extends (d'.journal allowTestDelete) := by
  induction h with
  | refl => exact ⟨hc, .refl _⟩
  | tail _ hs ih =>
    rcases hs with hs | ⟨id, hs⟩
    · rw [journal_sameTree hs]
      exact ih
    · obtain ⟨hcoherent, hextends⟩ := hs.journal ih.1
      exact ⟨hcoherent, ih.2.trans hextends⟩

end Db

/-! ### Operations -/

/-- Operations that leave the items, their journal and the set of uploads alone. -/
def Op.offTree : Op → Bool
  | .db (.addFpItem _) | .db (.saveFpItem _) | .db (.addChange _ _) => false
  | .db .commit | .db (.addUpload _) => false
  | _ => true

/-- No upload is for the root folder, and nothing is committed half-way. -/
def RootSafe {σ : Type} (_ : World σ) : Op → Prop
  | .db (.addUpload row) => row.itemId ≠ "root"
  | .db .commit => False
  | _ => True

/-- What a program makes of the items, if it returns. -/
abbrev Tends {σ α : Type} (X : ExtEnv σ) (w : World σ) (p : Flow α) (Q : α → World σ → Prop) : Prop :=
  p.wp RootSafe (World.env X) Q (fun _ _ => True) w

/-- It records every change of an item. -/
abbrev Records {σ α : Type} (X : ExtEnv σ) (w : World σ) (p : Flow α) : Prop :=
  Tends X w p fun _ t => w.txn.Upserts t.txn

abbrev OffTree {α : Type} (p : Flow α) : Prop :=
  p.Calls (fun o => o.offTree = true) (fun _ => True) (fun _ => True)

section Programs

variable {σ α β : Type} {X : ExtEnv σ} {w : World σ} {d : Db}

theorem rootSafe_of_offTree {o : Op} (h : o.offTree = true) : RootSafe w o := by
  cases o with
  | ext o => trivial
  | db o => cases o <;> trivial

theorem sameTree_of_offTree {w' : World σ} {o : Op} {a : o.Ans} (h : o.offTree = true)
    (he : World.env X w o a w') : w.txn.SameTree w'.txn := by
  cases o with
  | ext o =>
    obtain ⟨x, _, _, rfl⟩ := he
    exact ⟨rfl, rfl⟩
  | db o =>
    rw [(World.env_db.mp he).2]
    cases o with
    | addFpItem _ | saveFpItem _ | addChange _ _ | commit | addUpload _ => simp [Op.offTree] at h
    | addItem _ | setUploadStatus _ _ | setReceivedSize _ _ =>
      simp only [World.dbStep, World.setUpload]
      split <;> exact ⟨rfl, rfl⟩
    | _ => exact ⟨rfl, rfl⟩

theorem tends_bind {p : Flow α} {f : α → Flow β} {Q : α → World σ → Prop} {R : β → World σ → Prop}
    (hp : Tends X w p Q) (hf : ∀ a t, Q a t → Tends X t (f a) R) : Tends X w (p >>= f) R :=
  (Prog.wp_bind _ _).mpr (hp.post hf)

theorem tends_off {p : Flow α} (hp : OffTree p) : Tends X w p fun _ t => w.txn.SameTree t.txn :=
  (hp.wp (I := fun t => w.txn.SameTree t.txn) (fun _ _ ho _ => rootSafe_of_offTree ho)
    (fun _ _ _ _ ho h he => h.trans (sameTree_of_offTree ho he)) (.refl _)).mono (fun _ _ h => h)
    (fun _ _ h => h.2) fun _ _ _ => trivial

theorem records_bind {p : Flow α} {f : α → Flow β} (hp : Records X w p)
    (hf : ∀ a t, w.txn.Upserts t.txn → Records X t (f a)) : Records X w (p >>= f) :=
  tends_bind hp fun a t ht => (hf a t ht).post fun _ _ h => ht.trans h

/-- A step off the tree before the rest of a program. -/
theorem records_off {p : Flow α} {f : α → Flow β} (hp : OffTree p)
    (hf : ∀ a t, w.txn.SameTree t.txn → Records X t (f a)) : Records X w (p >>= f) :=
  tends_bind (tends_off hp) fun a t ht => (hf a t ht).post fun _ _ h => ht.upserts.trans h

theorem records_pure (a : α) : Records X w (pure a) := Relation.ReflTransGen.refl

theorem Records.after {p : Flow α} (hd : d.Upserts w.txn) (h : Records X w p) :
    Tends X w p fun _ t => d.Upserts t.txn :=
  h.post fun _ _ ht => hd.trans ht

theorem records_of_off {p : Flow α} (hp : OffTree p) : Records X w p :=
  (tends_off hp).post fun _ _ h => h.upserts

theorem tends_getFpItem (id : String) :
    Tends X w (db (.getFpItem id)) fun item t => item = w.txn.fpItems.get id ∧ t = w :=
  (wp_db_ok (o := .getFpItem id) rfl).mpr ⟨trivial, rfl, rfl⟩

theorem offTree_db {o : DbOp} (h : (Op.db o).offTree = true) : OffTree (db o) :=
  ⟨h, fun a => (Prog.calls_ofExcept a).mpr ⟨fun _ _ => trivial, fun _ _ => trivial⟩⟩

theorem offTree_ext (o : ExtOp) : OffTree (ext o) :=
  ⟨rfl, fun a => (Prog.calls_ofExcept a).mpr ⟨fun _ _ => trivial, fun _ _ => trivial⟩⟩

theorem offTree_ofExcept (r : Except PyError α) : OffTree (Prog.ofExcept r) :=
  (Prog.calls_ofExcept r).mpr ⟨fun _ _ => trivial, fun _ _ => trivial⟩

theorem offTree_raiseIf (failed : Bool) (error : PyError) : OffTree (raiseIf failed error) := by
  cases failed <;> trivial

theorem offTree_outside {p : Flow α} (hp : Outside (fun _ => True) p) : OffTree p :=
  hp.imp fun o ho => by
    cases o with
    | db o => simp [Op.outside] at ho
    | ext o => rfl

theorem offTree_transitionItem (item : ArchiveItem) (target : ArchiveState) (actor : String) :
    OffTree (transitionItem item target actor) :=
  .seq (offTree_ofExcept _) fun _ => .seq (offTree_db rfl) fun _ => trivial

/-- The row is written, and is there. -/
theorem tends_saveFpItem {row : FileProviderItem} (h : (w.txn.fpItems.get row.id).isSome) :
    Tends X w (db (.saveFpItem row)) fun _ t => w.txn.Unrecorded t.txn row.id := by
  refine wp_db.mpr ⟨trivial, fun a ha => ?_, fun _ _ => trivial⟩
  by_cases ht : w.txn.fpTaken row = true
  · simp [World.dbStep, ht] at ha
  · simp only [World.dbStep, ht]
    obtain ⟨old, hold⟩ := Option.isSome_iff_exists.mp h
    refine ⟨rfl, fun k hk => Table.get_put_of_ne hk, ?_⟩
    exact Option.isSome_of_eq_some (Table.get_put_self hold)

theorem tends_addFpItem (row : FileProviderItem) :
    Tends X w (db (.addFpItem row)) fun _ t =>
      w.txn.Unrecorded t.txn row.id ∧ w.txn.fpItems.get row.id = none := by
  refine wp_db.mpr ⟨trivial, fun a ha => ?_, fun _ _ => trivial⟩
  by_cases ht : ((w.txn.fpItems.get row.id).isSome || w.txn.fpTaken row) = true
  · simp [World.dbStep, ht] at ha
  · simp only [World.dbStep, ht]
    have hnone : w.txn.fpItems.get row.id = none := by
      simp only [Bool.or_eq_true, not_or] at ht
      simpa using ht.1
    refine ⟨⟨rfl, fun k hk => Table.get_insert_of_ne hk, ?_⟩, hnone⟩
    exact Option.isSome_of_eq_some (Table.get_insert_self hnone)

/-- `record_change` on a row that is there, with what it leaves of the other rows. -/
theorem tends_recordChangeOf {id : String} (operation : String) (h : d.Unrecorded w.txn id) :
    Tends X w (recordChangeOf id operation) fun _ t =>
      t.txn.changes = d.changes ++ [⟨d.newSequence, id, operation⟩] ∧
        (∀ k, k ≠ id → t.txn.fpItems.get k = d.fpItems.get k) ∧ (t.txn.fpItems.get id).isSome := by
  obtain ⟨item, hitem⟩ := Option.isSome_iff_exists.mp h.present
  have hid := Table.key_of_get hitem
  have hseq : w.txn.newSequence = d.newSequence := by simp [Db.newSequence, h.changes]
  unfold Tends recordChangeOf
  rw [Prog.wp_bind]
  refine (wp_db_ok (o := .addChange id operation) rfl).mpr ⟨trivial, ?_⟩
  rw [Prog.wp_bind]
  refine (wp_db_ok (o := .getFpItem id) rfl).mpr ⟨trivial, ?_⟩
  rw [World.txn_setTxn, hitem]
  refine (Prog.wp_bind _ _).mpr (wp_ext.mpr ⟨trivial, fun now x _ _ => ?_, fun _ _ _ _ => trivial⟩)
  refine (tends_saveFpItem ?_).post fun _ t ht => ⟨?_, fun k hk => ?_, ?_⟩
  · exact Option.isSome_of_eq_some (hid.symm ▸ hitem)
  · rw [ht.changes, ← hseq, ← h.changes]
    rfl
  · exact (ht.others k (hid.symm ▸ hk)).trans (h.others k hk)
  · exact hid ▸ ht.present

theorem tends_recordChange {id : String} (h : d.Unrecorded w.txn id) :
    Tends X w (recordChange id) fun _ t => d.Upserts t.txn := by
  refine (tends_recordChangeOf "UPSERT" h).post fun _ t ht => ?_
  refine .single (.inr ⟨id, ht.1, ht.2.1, ?_⟩)
  exact ⟨fun hl => absurd hl (by decide), fun hn => by simp [hn] at ht⟩

end Programs

/-! ### The programs -/

section Programs

variable {σ α β : Type} {X : ExtEnv σ} {w : World σ} {d : Db} (uuid5 : String → String)
  (settings : Settings)

theorem Db.SameTree.present {d d' : Db} (h : d.SameTree d') (item : FileProviderItem) {id : String}
    (hi : d.fpItems.get id = some item) : (d'.fpItems.get item.id).isSome := by
  rw [h.fpItems, Table.key_of_get hi]
  exact Option.isSome_of_eq_some hi

theorem tends_bootstrapRoot (root : String × Option String × String) :
    Tends X w (bootstrapRoot root) fun _ t =>
      w.txn.Upserts t.txn ∧ (t.txn.fpItems.get root.1).isSome := by
  refine tends_bind (tends_getFpItem root.1) fun item t ⟨hitem, ht⟩ => ?_
  subst ht
  cases item with
  | some item => exact ⟨.refl, Option.isSome_of_eq_some hitem.symm⟩
  | none =>
    refine tends_bind (tends_off (offTree_ext _)) fun now t ht => ?_
    refine tends_bind (tends_addFpItem _) fun _ t' hadd => ?_
    have hadd := ht.unrecorded hadd.1
    refine (tends_recordChangeOf "UPSERT" hadd).post fun _ t'' hrec => ⟨?_, hrec.2.2⟩
    exact .single (.inr ⟨root.1, hrec.1, hrec.2.1,
      fun hl => absurd hl (by decide), fun hn => by simp [hn] at hrec⟩)

theorem tends_bootstrapEach (l : List (String × Option String × String)) :
    Tends X w (bootstrapEach l) fun _ t =>
      w.txn.Upserts t.txn ∧ ∀ root ∈ l, (t.txn.fpItems.get root.1).isSome := by
  induction l generalizing w with
  | nil => exact ⟨.refl, fun _ hr => absurd hr List.not_mem_nil⟩
  | cons root rest ih =>
    refine tends_bind (tends_bootstrapRoot root) fun _ t ht => (ih (w := t)).post fun _ t' ht' => ?_
    refine ⟨ht.1.trans ht'.1, fun r hr => ?_⟩
    rcases List.mem_cons.mp hr with rfl | hr
    · exact ht'.1.present ht.2
    · exact ht'.2 r hr

/-- Afterwards the root folder is there. -/
theorem tends_bootstrapRoots : Tends X w bootstrapRoots fun _ t =>
    w.txn.Upserts t.txn ∧ (t.txn.fpItems.get "root").isSome := by
  refine tends_bind (tends_bootstrapEach roots) fun _ t ht => ?_
  have hsetting : OffTree (setting "file_provider_generation") :=
    .seq (offTree_db rfl) fun value => by
      cases value with
      | some value => trivial
      | none => exact .seq (offTree_ext _) fun _ => .seq (offTree_db rfl) fun _ => trivial
  refine tends_bind (tends_off hsetting) fun _ t' ht' => ⟨ht.1.trans ht'.upserts, ?_⟩
  rw [ht'.fpItems]
  exact ht.2 ("root", none, "Mnema") (by simp [roots])

theorem records_bootstrapRoots : Records X w bootstrapRoots :=
  tends_bootstrapRoots.post fun _ _ h => h.1

theorem offTree_uniqueChildName (parentId desired itemId : String) :
    OffTree (uniqueChildName parentId desired itemId) := by
  have hfree : ∀ l, OffTree (firstFree parentId itemId l) := fun l => by
    induction l with
    | nil => trivial
    | cons candidate rest ih =>
      refine .seq (offTree_db rfl) fun clash => ?_
      cases clash with
      | none => trivial
      | some _ => exact ih
  exact hfree _

theorem records_promoteUpload (archive : ArchiveItem) (itemId : String) :
    Records X w (promoteUpload archive itemId) := by
  unfold promoteUpload
  split
  · exact records_pure ()
  refine tends_bind (tends_getFpItem itemId) fun item t ⟨hitem, ht⟩ => ?_
  subst ht
  cases item with
  | none => exact records_pure ()
  | some item =>
    change Records X t (if item.status = .ready then pure () else _)
    split
    · exact records_pure ()
    refine records_off (offTree_uniqueChildName _ _ _) fun name t' ht => ?_
    refine tends_bind (tends_saveFpItem (ht.present item hitem.symm)) fun _ _ hsave => ?_
    exact tends_recordChange hsave

theorem records_markUploadFailed (itemId code : String) :
    Records X w (markUploadFailed itemId code) := by
  refine tends_bind (tends_getFpItem itemId) fun item t ⟨hitem, ht⟩ => ?_
  subst ht
  cases item with
  | none => exact records_pure ()
  | some item =>
    refine tends_bind (tends_saveFpItem ((Db.SameTree.refl _).present item hitem.symm)) fun _ _ hsave => ?_
    exact tends_recordChange hsave

theorem records_projectFolders (provider parentId : String) (done components : List String) :
    Records X w (projectFolders uuid5 provider parentId done components) := by
  induction components generalizing parentId done w with
  | nil => exact records_pure _
  | cons component rest ih =>
    refine records_bind ?_ fun folderId t _ => ih _ _
    refine tends_bind (tends_getFpItem _) fun folder t ⟨_, ht⟩ => ?_
    subst ht
    cases folder with
    | some folder => exact records_pure _
    | none =>
      refine records_off (offTree_uniqueChildName _ _ _) fun name t _ => ?_
      refine records_off (offTree_ext _) fun now t _ => ?_
      refine tends_bind (tends_addFpItem _) fun _ t'' hadd => ?_
      exact tends_bind (tends_recordChange hadd.1) fun _ _ h => h

theorem records_placeOf (archive : ArchiveItem) (original : List String) (itemId : String) :
    Records X w (placeOf uuid5 archive original itemId) := by
  unfold placeOf
  dsimp only
  split
  · refine records_bind (records_projectFolders uuid5 _ _ _ _) fun parentId t _ => ?_
    exact records_bind (records_of_off (offTree_uniqueChildName _ _ _)) fun _ _ _ => records_pure _
  · exact records_bind (records_of_off (offTree_uniqueChildName _ _ _)) fun _ _ _ => records_pure _

/-- The item that an archive row already has is there when it is moved. -/
theorem records_projectArchive (archive : ArchiveItem) :
    Records X w (projectArchive uuid5 archive) := by
  unfold projectArchive
  split
  · exact records_pure _
  refine tends_bind (Q := fun existing t => (∀ item, existing = some item →
    (t.txn.fpItems.get item.id).isSome) ∧ t = w) ((wp_db_ok (o := .fpItemOf archive.id) rfl).mpr
      ⟨trivial, fun item hi => Option.isSome_of_eq_some (Table.get_of_first hi), rfl⟩) ?_
  rintro existing t ⟨hexisting, rfl⟩
  refine records_off (offTree_ofExcept _) fun original t' hsame => ?_
  refine tends_bind (records_placeOf uuid5 archive _ _) fun place t'' hplace => ?_
  have hupserts : t'.txn.Upserts t''.txn := hplace
  cases existing with
  | none =>
    refine tends_bind (tends_addFpItem _) fun _ t₃ hadd => ?_
    exact tends_bind (tends_recordChange hadd.1) fun _ _ h =>
      (hupserts.trans h : t'.txn.Upserts _)
  | some item =>
    have hpresent : (t''.txn.fpItems.get item.id).isSome := hupserts.present (by
      rw [hsame.fpItems]
      exact hexisting item rfl)
    change Tends X t'' (if item.parentId ≠ some place.1 ∨ item.name ≠ place.2 then _ else _) _
    split
    · refine tends_bind (tends_saveFpItem hpresent) fun _ t₃ hsave => ?_
      exact tends_bind (tends_recordChange hsave) fun _ _ h =>
      (hupserts.trans h : t'.txn.Upserts _)
    · exact (hupserts : t'.txn.Upserts _)

theorem records_projectVerifiedArchives : Records X w (projectVerifiedArchives uuid5) := by
  have heach : ∀ (l : List ArchiveItem) (w : World σ), Records X w (projectEach uuid5 l) := fun l => by
    induction l with
    | nil => exact fun _ => records_pure _
    | cons archive rest ih =>
      exact fun w => records_bind (records_projectArchive uuid5 archive) fun _ t _ =>
        records_bind (ih t) fun _ _ _ => records_pure _
  exact records_bind records_bootstrapRoots fun _ t _ =>
    records_bind (records_of_off (offTree_db rfl)) fun candidates t _ => heach candidates t

theorem offTree_enqueueArchive (archiveItemId : Nat) (itemId uploadId : String) :
    OffTree (enqueueArchive archiveItemId itemId uploadId) := by
  refine .seq (offTree_db rfl) fun job => ?_
  cases job with
  | some job => trivial
  | none => exact .seq (offTree_ext _) fun _ => .seq (offTree_db rfl) fun _ => trivial

theorem records_sealUpload (upload : FileProviderUpload) :
    Records X w (sealUpload settings upload) := by
  refine records_off (offTree_outside (outside_uploadPath _ _)) fun source t _ => ?_
  refine records_off (offTree_raiseIf _ _) fun _ t _ => ?_
  refine records_off (offTree_db rfl) fun archive t _ => ?_
  cases archive with
  | none => trivial
  | some archive =>
    refine records_off (offTree_outside (outside_createIfEmpty _ _)) fun _ t _ => ?_
    refine records_off (offTree_outside (outside_sealCandidate _ _)) fun candidate t _ => ?_
    refine records_off (offTree_outside (outside_incomplete _ _)) fun _ t _ => ?_
    refine records_off (offTree_raiseIf _ _) fun _ t _ => ?_
    refine records_off (offTree_ext _) fun checksum t _ => ?_
    refine records_off (offTree_raiseIf _ _) fun _ t _ => ?_
    refine records_off (offTree_outside (outside_stageUpload _ _ _)) fun _ t _ => ?_
    refine records_off (offTree_transitionItem _ _ _) fun archive t _ => ?_
    refine records_off (offTree_db rfl) fun _ t _ => ?_
    refine tends_bind (tends_getFpItem _) fun item t ⟨hitem, ht⟩ => ?_
    subst ht
    cases item with
    | none => trivial
    | some item =>
      refine tends_bind (tends_saveFpItem ((Db.SameTree.refl _).present item hitem.symm)) fun _ t' hsave => ?_
      refine tends_bind (tends_off (offTree_enqueueArchive _ _ _)) fun _ t'' hqueue => ?_
      exact tends_bind (tends_recordChange (hsave.sameTree hqueue)) fun _ _ h => h

theorem records_reapUploads (now : Time) (uploads : List FileProviderUpload) :
    Records X w (reapUploads settings now uploads) := by
  induction uploads generalizing w with
  | nil => exact records_pure _
  | cons upload rest ih =>
    refine records_bind ?_ fun n t _ => records_bind ih fun _ _ _ => records_pure _
    unfold reapUpload
    split
    · exact records_pure _
    refine records_off (offTree_outside (outside_uploadPath _ _)) fun path t _ => ?_
    refine records_off (offTree_outside (outside_removeUploadFile _)) fun _ t _ => ?_
    refine records_off (offTree_db rfl) fun _ t _ => ?_
    refine records_bind (records_markUploadFailed _ _) fun _ t _ => ?_
    refine records_of_off (.seq (offTree_db rfl) fun archive => ?_)
    cases archive with
    | none => trivial
    | some archive =>
      refine (Prog.calls_ite _ _).mpr ⟨fun _ => trivial, fun _ => ?_⟩
      exact .seq (offTree_transitionItem _ _ _) fun _ => trivial

/-- The end of `create_upload`: the upload is for the row added just before, which is not
the root folder. -/
theorem records_addUpload (row : FileProviderItem) {upload : Time → FileProviderUpload}
    (hrow : ∀ now, (upload now).itemId = row.id) (hroot : (w.txn.fpItems.get "root").isSome) :
    Records X w (do
      db (.addFpItem row)
      let now ← ext .utcnow
      db (.addUpload (upload now))
      recordChange row.id
      pure (upload now)) := by
  refine tends_bind (tends_addFpItem row) fun _ t ⟨hadd, hnone⟩ => ?_
  have hne : row.id ≠ "root" := fun he => by simp [he ▸ hnone] at hroot
  refine tends_bind (tends_off (offTree_ext _)) fun now t' hsame => ?_
  refine tends_bind (Q := fun _ t'' => t'.txn.SameTree t''.txn) ?_ fun _ t'' hupload => ?_
  · refine wp_db.mpr ⟨show (upload now).itemId ≠ "root" from hrow now ▸ hne, fun _ _ => ?_, fun _ _ => trivial⟩
    simp only [World.dbStep]
    split <;> exact ⟨rfl, rfl⟩
  · have hadd := (hadd.sameTree hsame).sameTree hupload
    exact tends_bind (tends_recordChange hadd) fun _ _ h => h

theorem rooted_off {p : Flow α} {f : α → Flow β} (hroot : (w.txn.fpItems.get "root").isSome)
    (hp : OffTree p) (hf : ∀ a t, (t.txn.fpItems.get "root").isSome → Records X t (f a)) :
    Records X w (p >>= f) :=
  records_off hp fun a t h => hf a t (by rw [h.fpItems]; exact hroot)

theorem records_createUpload (request : UploadRequest) :
    Records X w (createUpload settings request) := by
  unfold createUpload
  generalize validateUploadName request.name = validated
  refine tends_bind tends_bootstrapRoots fun _ t ⟨hboot, hroot⟩ => Records.after hboot ?_
  refine rooted_off hroot (offTree_ofExcept _) fun name t hroot => ?_
  refine rooted_off hroot (offTree_raiseIf _ _) fun _ t hroot => ?_
  refine rooted_off hroot (offTree_ext _) fun usage t hroot => ?_
  refine rooted_off hroot (offTree_ofExcept _) fun lacking t hroot => ?_
  refine rooted_off hroot (offTree_raiseIf _ _) fun _ t hroot => ?_
  refine rooted_off hroot (offTree_raiseIf _ _) fun _ t hroot => ?_
  refine rooted_off hroot (offTree_ext _) fun uploadId t hroot => ?_
  refine rooted_off hroot (offTree_ext _) fun fpId t hroot => ?_
  refine rooted_off hroot (offTree_ext _) fun now t hroot => ?_
  refine rooted_off hroot (offTree_db rfl) fun archive t hroot => ?_
  refine rooted_off hroot (offTree_transitionItem _ _ _) fun archive t hroot => ?_
  refine rooted_off hroot (offTree_transitionItem _ _ _) fun archive t hroot => ?_
  refine rooted_off hroot (offTree_transitionItem _ _ _) fun archive t hroot => ?_
  refine rooted_off hroot (offTree_ext _) fun now t hroot => ?_
  exact records_addUpload _ (fun _ => rfl) hroot

/-- Every transaction that changes items records it. -/
theorem records_of_itemTransaction {p : Flow Unit} (hp : ItemTransaction settings uuid5 p) :
    Records X w p := by
  cases hp with
  | bootstrapRoots => exact records_bootstrapRoots
  | createUpload request =>
    exact records_bind (records_createUpload settings request) fun _ _ _ => records_pure _
  | completeSeal uploadId =>
    refine records_off (offTree_db rfl) fun upload t _ => ?_
    cases upload with
    | none => trivial
    | some upload => exact records_bind (records_sealUpload settings upload) fun _ _ _ => records_pure _
  | reconcileSealing uploadId =>
    refine records_off (offTree_db rfl) fun upload t _ => ?_
    cases upload with
    | none => exact records_pure _
    | some upload => exact records_bind (records_sealUpload settings upload) fun _ _ _ => records_pure _
  | failSealing uploadId =>
    refine records_off (offTree_db rfl) fun upload t _ => ?_
    cases upload with
    | none => exact records_pure _
    | some upload =>
      exact records_off (offTree_db rfl) fun _ _ _ => records_markUploadFailed _ _
  | reapExpiredUploads =>
    refine records_bind ?_ fun _ _ _ => records_pure _
    exact records_off (offTree_ext _) fun now t _ => records_off (offTree_db rfl) fun uploads t _ =>
      records_reapUploads settings now uploads
  | promoteUpload archive itemId => exact records_promoteUpload archive itemId
  | completeJob workerId job =>
    refine records_off (offTree_db rfl) fun archive t _ => ?_
    cases archive with
    | none => trivial
    | some archive =>
      refine records_bind (records_promoteUpload _ _) fun _ t _ => ?_
      refine records_bind (records_projectVerifiedArchives uuid5) fun _ t _ => ?_
      refine records_off (offTree_db rfl) fun active t _ => ?_
      cases active with
      | none => trivial
      | some active => exact records_of_off (offTree_db rfl)
  | reportFailure workerId job message =>
    refine records_off (offTree_db rfl) fun active t _ => ?_
    cases active with
    | none => exact records_pure _
    | some active =>
      refine records_off (offTree_ext _) fun now t _ => records_off (offTree_db rfl) fun _ t _ => ?_
      change Records X t (if _ then markUploadFailed _ _ else pure ())
      split
      · exact records_markUploadFailed _ _
      · exact records_pure _
  | markUploadFailed itemId code => exact records_markUploadFailed itemId code
  | projectVerifiedArchives =>
    exact records_bind (records_projectVerifiedArchives uuid5) fun _ _ _ => records_pure _

end Programs

/-! ### Transactions -/

namespace Db

/-- No upload is for the root folder. -/
def Rootless (d : Db) : Prop := ∀ k ∈ d.uploadKeys, k.2.1 ≠ "root"

/-- The journal tells what the items are, and the root folder was never deleted. -/
structure Sound (d : Db) (allowTestDelete : Bool) : Prop where
  coherent : (d.journal allowTestDelete).Coherent
  rootless : d.Rootless
  kept : ∀ c ∈ d.changes, lower c.operation = "delete" → c.itemId ≠ "root"

/-- What any number of transactions may have done since. -/
structure Later (allowTestDelete : Bool) (d d' : Db) : Prop where
  changes : ∃ new, d'.changes = d.changes ++ new
  extended : (d.journal allowTestDelete).Extends (d'.journal allowTestDelete)
  settings : ∃ added, d'.settings = d.settings ++ added
  sound : d'.Sound allowTestDelete

theorem Later.trans {allowTestDelete : Bool} {d d' d'' : Db} (h : Later allowTestDelete d d')
    (h' : Later allowTestDelete d' d'') : Later allowTestDelete d d'' := by
  obtain ⟨added, hs⟩ := h.settings
  obtain ⟨added', hs'⟩ := h'.settings
  obtain ⟨new, hc⟩ := h.changes
  obtain ⟨new', hc'⟩ := h'.changes
  exact ⟨⟨new ++ new', by rw [hc', hc, List.append_assoc]⟩, h.extended.trans h'.extended, ⟨added ++ added', by rw [hs', hs, List.append_assoc]⟩,
    h'.sound⟩

theorem Later.refl {allowTestDelete : Bool} {d : Db} (h : d.Sound allowTestDelete) :
    Later allowTestDelete d d :=
  ⟨⟨[], (List.append_nil _).symm⟩, .refl _, ⟨[], (List.append_nil _).symm⟩, h⟩

/-- A setting that is there stays. -/
theorem Later.generation {allowTestDelete : Bool} {d d' : Db} (h : Later allowTestDelete d d')
    {generation : String} (hg : d.generation = some generation) : d'.generation = some generation := by
  obtain ⟨added, hs⟩ := h.settings
  obtain ⟨row, hrow, rfl⟩ := Option.map_eq_some_iff.mp hg
  simp only [Db.generation, hs, List.find?_append, hrow, Option.some_or, Option.map_some]

theorem Upserts.changes {d d' : Db} (h : d.Upserts d') : ∃ new, d'.changes = d.changes ++ new := by
  induction h with
  | refl => exact ⟨[], (List.append_nil _).symm⟩
  | tail _ hs ih =>
    obtain ⟨new, hnew⟩ := ih
    rcases hs with hs | ⟨id, hs⟩
    · exact ⟨new, hs.changes.trans hnew⟩
    · exact ⟨new ++ _, by rw [hs.changes, hnew, List.append_assoc]⟩

theorem Upserts.kept {d d' : Db} (h : d.Upserts d')
    (hk : ∀ c ∈ d.changes, lower c.operation = "delete" → c.itemId ≠ "root") :
    ∀ c ∈ d'.changes, lower c.operation = "delete" → c.itemId ≠ "root" := by
  induction h with
  | refl => exact hk
  | tail _ hs ih =>
    rcases hs with hs | ⟨id, hs⟩
    · rw [hs.changes]
      exact ih
    · rw [hs.changes]
      intro c hc hd
      rcases List.mem_append.mp hc with hc | hc
      · exact ih c hc hd
      · rw [List.mem_singleton.mp hc] at hd
        exact absurd hd (by decide : ¬lower "UPSERT" = "delete")

end Db

section Transactions

variable {σ α : Type} {X : ExtEnv σ} {w w' : World σ} {allowTestDelete : Bool}
  {settings : Settings} {uuid5 : String → String}

/-- What no transaction touches before it ends: the durable rows; and what it keeps of the others. -/
structure Underway (w t : World σ) : Prop where
  db : t.db = w.db
  rootless : t.txn.Rootless
  settings : ∃ added, t.txn.settings = w.db.settings ++ added

theorem rootless_setUpload {id : String} {f : FileProviderUpload → FileProviderUpload}
    (hf : ∀ u, (f u).key = u.key) (h : w.txn.Rootless) : (w.setUpload id f).txn.Rootless := by
  unfold Db.Rootless
  rw [uploadKeys_setUpload id hf]
  exact h

theorem underway_step {t t' : World σ} {o : Op} {a : o.Ans} (hc : RootSafe t o) (h : Underway w t)
    (he : World.env X t o a t') : Underway w t' := by
  obtain ⟨hdb, hroot, added, hs⟩ := h
  cases o with
  | ext o =>
    obtain ⟨x, _, _, rfl⟩ := he
    exact ⟨hdb, hroot, added, hs⟩
  | db o =>
    rw [(World.env_db.mp he).2]
    cases o with
    | commit => exact hc.elim
    | setUploadStatus id _ | setReceivedSize id _ =>
      refine ⟨?_, rootless_setUpload (fun _ => rfl) hroot, added, ?_⟩
      all_goals
        simp only [World.dbStep, World.setUpload]
        split <;> assumption
    | addUpload row =>
      simp only [World.dbStep]
      split
      · exact ⟨hdb, hroot, added, hs⟩
      · refine ⟨hdb, fun k hk => ?_, added, hs⟩
        obtain ⟨u, hu, rfl⟩ := List.mem_map.mp hk
        rcases Table.mem_insert hu with hu | rfl
        · exact hroot _ (List.mem_map_of_mem hu)
        · exact hc
    | addSetting key value =>
      exact ⟨hdb, hroot, added ++ [(key, value)], by simp [World.dbStep, hs]⟩
    | addItem _ | addFpItem _ | saveFpItem _ =>
      simp only [World.dbStep]
      split <;> exact ⟨hdb, hroot, added, hs⟩
    | _ => exact ⟨hdb, hroot, added, hs⟩

/-- How a transaction ends: nothing was written, or what the program made of the items. -/
theorem ends_tends {p : Flow α} {r : Option (Except PyError α)} {Q : α → World σ → Prop}
    (hw : w.Idle) (hroot : w.db.Rootless) (hp : Tends X w p Q)
    (he : (transactions X).Ends p w r w') :
    w'.Idle ∧ ((w'.db = w.db ∧ ∀ a, r ≠ some (.ok a)) ∨
      ∃ a t, r = some (.ok a) ∧ Q a t ∧ Underway w t ∧ w'.db = t.txn) := by
  have hstart : Underway w w := ⟨rfl, hw.txn ▸ hroot, [], by rw [hw.txn, List.append_nil]⟩
  have halong : ∀ {t : World σ} {q : Flow α}, Prog.Steps (World.env X) (w, p) (t, q) →
      Underway w t := fun hs => hp.along (fun _ _ _ _ hc h he => underway_step hc h he) hstart hs
  cases he with
  | returned h =>
    exact ⟨⟨rfl, rfl⟩, .inr ⟨_, _, rfl, hp.steps h, halong h, rfl⟩⟩
  | raised h => exact ⟨⟨rfl, rfl⟩, .inl ⟨(halong h).db, fun _ hr => by simp at hr⟩⟩
  | cut h => exact ⟨⟨rfl, rfl⟩, .inl ⟨(halong h).db, fun _ hr => by simp at hr⟩⟩

theorem later_of_upserts {t : World σ} (hs : w.db.Sound allowTestDelete) (ht : Underway w t)
    (h : w.db.Upserts t.txn) : Db.Later allowTestDelete w.db t.txn := by
  obtain ⟨hcoherent, hextends⟩ := h.journal hs.coherent
  exact ⟨h.changes, hextends, ht.settings, hcoherent, ht.rootless, h.kept hs.kept⟩

theorem later_of_transaction {p : Flow Unit} {r : Option (Except PyError Unit)} (hw : w.Idle)
    (hs : w.db.Sound allowTestDelete) (hp : ItemTransaction settings uuid5 p)
    (he : (transactions X).Ends p w r w') : w'.Idle ∧ Db.Later allowTestDelete w.db w'.db := by
  obtain ⟨hi, hend⟩ := ends_tends hw hs.rootless (records_of_itemTransaction uuid5 settings hp) he
  refine ⟨hi, ?_⟩
  rcases hend with ⟨hdb, -⟩ | ⟨_, t, -, hq, ht, hdb⟩
  · rw [hdb]
    exact .refl hs
  · rw [hdb]
    exact later_of_upserts hs ht (hw.txn ▸ hq)

theorem off_then {β : Type} {d : Db} {p : Flow α} {f : α → Flow β} {Q : β → World σ → Prop}
    (hd : d.SameTree w.txn) (hp : OffTree p)
    (hf : ∀ a t, d.SameTree t.txn → Tends X t (f a) Q) : Tends X w (p >>= f) Q :=
  tends_bind (tends_off hp) fun a t ht => hf a t (hd.trans ht)

/-- The clean-up records a deletion, and not that of the root folder. -/
theorem tends_cleanupE2eUpload (hroot : w.txn.Rootless) (itemId : String) :
    Tends X w (cleanupE2eUpload settings allowTestDelete itemId) fun r t =>
      (r = none → w.txn.SameTree t.txn) ∧
      ∀ item upload, r = some (item, upload) → item.id ≠ "root" ∧
        t.txn.changes = w.txn.changes ++ [⟨w.txn.newSequence, item.id, "DELETE"⟩] ∧
        ∀ k, k ≠ item.id → t.txn.fpItems.get k = w.txn.fpItems.get k := by
  refine (Prog.wp_bind _ _).mpr (wp_raiseIf.mpr ⟨fun _ => ?_, fun _ => trivial⟩)
  refine tends_bind (tends_getFpItem itemId) fun item t ⟨hitem, ht⟩ => ?_
  subst ht
  cases item with
  | none => exact ⟨fun _ => .refl _, fun _ _ hr => by simp at hr⟩
  | some item =>
    refine (Prog.wp_bind _ _).mpr (wp_raiseIf.mpr ⟨fun _ => ?_, fun _ => trivial⟩)
    refine tends_bind (Q := fun upload t' => upload = (t.txn.uploads.first fun u =>
      u.itemId == item.id) ∧ t' = t) ((wp_db_ok (o := .uploadOfItem item.id) rfl).mpr
        ⟨trivial, rfl, rfl⟩) ?_
    rintro upload t' ⟨hupload, rfl⟩
    cases upload with
    | none => trivial
    | some upload =>
      have hne : item.id ≠ "root" := by
        have hmem := Table.mem_of_get (Table.get_of_first hupload.symm)
        have hown : upload.itemId = item.id := by simpa using Table.pred_of_first hupload.symm
        exact hown ▸ hroot upload.key (List.mem_map_of_mem hmem)
      refine off_then (.refl _) (offTree_raiseIf _ _) fun _ t hd => ?_
      refine off_then hd (offTree_db rfl) fun archive t hd => ?_
      cases archive with
      | none => trivial
      | some archive =>
        refine off_then hd (offTree_raiseIf _ _) fun _ t hd => ?_
        refine off_then hd (offTree_ext _) fun root t hd => ?_
        refine off_then hd (offTree_ext _) fun link t hd => ?_
        refine off_then hd (offTree_raiseIf _ _) fun _ t hd => ?_
        refine off_then hd (offTree_ext _) fun resolved t hd => ?_
        refine off_then hd (offTree_raiseIf _ _) fun _ t hd => ?_
        refine off_then hd (offTree_ext _) fun _ t hd => ?_
        refine off_then hd (offTree_ext _) fun left t hd => ?_
        refine off_then hd (offTree_raiseIf _ _) fun _ t hd => ?_
        refine off_then hd (offTree_transitionItem _ _ _) fun _ t hd => ?_
        have hthere : Db.Unrecorded t'.txn t.txn item.id :=
          ⟨hd.changes, fun _ _ => by rw [hd.fpItems], hd.present item hitem.symm⟩
        refine tends_bind (tends_recordChangeOf "DELETE" hthere) fun _ t ht => ?_
        refine ⟨fun hr => by simp at hr, fun item' upload' hr => ?_⟩
        obtain ⟨rfl, rfl⟩ := Prod.mk.inj (Option.some.inj hr)
        exact ⟨hne, ht.1, ht.2.1⟩

/-- The clean-up of an upload of the end-to-end test, with the rows it deletes at its end. -/
theorem later_of_cleanup {itemId : String}
    {r : Option (Except PyError (Option (FileProviderItem × FileProviderUpload)))} (hw : w.Idle)
    (hs : w.db.Sound allowTestDelete)
    (he : (transactions X).Ends (cleanupE2eUpload settings allowTestDelete itemId) w r w') :
    (w'.deleteRows r).Idle ∧ Db.Later allowTestDelete w.db (w'.deleteRows r).db := by
  have hroot : w.txn.Rootless := hw.txn ▸ hs.rootless
  obtain ⟨hi, hend⟩ := ends_tends hw hs.rootless (tends_cleanupE2eUpload hroot itemId) he
  refine ⟨⟨congrArg (Db.deleteRows · r) hi.txn, hi.pend⟩, ?_⟩
  show Db.Later allowTestDelete w.db (w'.db.deleteRows r)
  rcases hend with ⟨hdb, hr⟩ | ⟨a, t, rfl, ⟨hnone, hsome⟩, ht, hdb⟩
  · have hsame : w'.db.deleteRows r = w'.db := by
      rcases r with _ | (e | a)
      · rfl
      · rfl
      · exact absurd rfl (hr a)
    rw [hsame, hdb]
    exact .refl hs
  cases a with
  | none =>
    show Db.Later allowTestDelete w.db w'.db
    rw [hdb]
    exact later_of_upserts hs ht (hw.txn ▸ (hnone rfl).upserts)
  | some rows =>
    obtain ⟨item, upload⟩ := rows
    obtain ⟨hne, hchanges, hothers⟩ := hsome item upload rfl
    rw [hw.txn] at hchanges hothers
    rw [hdb]
    have hrec : w.db.Recorded (t.txn.deleteRows (some (.ok (some (item, upload))))) item.id
        "DELETE" := by
      refine ⟨hchanges, fun k hk => ?_, fun _ => ?_, fun _ => by decide⟩
      · exact (Table.get_erase _ _ _).trans ((if_neg hk).trans (hothers k hk))
      · exact (Table.get_erase _ _ _).trans (if_pos rfl)
    obtain ⟨hcoherent, hextends⟩ := hrec.journal hs.coherent
    refine ⟨⟨_, hchanges⟩, hextends, ht.settings, hcoherent, fun k hk => ?_, fun c hc hd => ?_⟩
    · obtain ⟨u, hu, rfl⟩ := List.mem_map.mp hk
      exact ht.rootless _ (List.mem_map_of_mem (Table.mem_erase.mp hu).1)
    · rw [show (t.txn.deleteRows (some (.ok (some (item, upload))))).changes = _ from hchanges] at hc
      rcases List.mem_append.mp hc with hc | hc
      · exact hs.kept c hc hd
      · rw [List.mem_singleton.mp hc]
        exact hne

end Transactions

end Mnema
