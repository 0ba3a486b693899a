import Mnema.ChangeConvergence
import Mnema.SealIntegrity
import Mnema.TreeGrowth

/-! Which requests `create_upload` accepts. -/

namespace Mnema

namespace Db

/-- No row has the identifier, as is true of a new random one. -/
structure Unused (d : Db) (id : String) : Prop where
  fpItems : d.fpItems.get id = none
  uploads : ∀ k ∈ d.uploadKeys, k.1 ≠ id ∧ k.2.1 ≠ id
  items : ∀ r ∈ d.items.rows, r.sourceIdentifier ≠ id

/-- There is nothing but root folders. -/
def Bare (d : Db) : Prop :=
  ∀ r ∈ d.fpItems.rows, (r.id, r.parentId, r.name) ∈ roots ∧ r.archiveItemId = none

/-- No item of the inbox has the name. -/
def InboxFree (d : Db) (name : String) : Prop :=
  ∀ r ∈ d.fpItems.rows, r.parentId = some inboxId → r.name ≠ name

/-- The tree before and after the root folders were made sure of. -/
structure Booted (d d' : Db) : Prop where
  items : d'.items = d.items
  uploads : d'.uploads = d.uploads
  tree : d'.fpItems = d.fpItems ∨ d.Bare ∧ d'.Bare
  next : d'.Rooted ∨ d'.Bare

variable {d d' d'' : Db}

theorem Booted.refl (h : d.Rooted ∨ d.Bare) : d.Booted d := ⟨rfl, rfl, .inl rfl, h⟩

theorem Booted.trans (h : d.Booted d') (h' : d'.Booted d'') : d.Booted d'' := by
  refine ⟨h'.items.trans h.items, h'.uploads.trans h.uploads, ?_, h'.next⟩
  rcases h'.tree with he | ⟨hb, hb'⟩
  · rcases h.tree with he₀ | ⟨hb₀, hb₁⟩
    · exact .inl (he.trans he₀)
    · refine .inr ⟨hb₀, ?_⟩
      unfold Bare
      rw [he]
      exact hb₁
  · rcases h.tree with he₀ | ⟨hb₀, -⟩
    · refine .inr ⟨?_, hb'⟩
      unfold Bare
      rw [← he₀]
      exact hb
    · exact .inr ⟨hb₀, hb'⟩

theorem Bare.inboxFree (h : d.Bare) (name : String) : d.InboxFree name := by
  intro r hr hp
  have hroot := (h r hr).1
  rw [hp] at hroot
  have hnone : ∀ root ∈ roots, root.2.1 ≠ some inboxId := by decide
  exact absurd rfl (hnone _ hroot)

theorem Booted.inboxFree (h : d.Booted d') (name : String) :
    d'.InboxFree name ↔ d.InboxFree name := by
  rcases h.tree with he | ⟨hb, hb'⟩
  · unfold InboxFree
    rw [he]
  · exact iff_of_true (hb'.inboxFree name) (hb.inboxFree name)

theorem Booted.linked (h : d.Booted d') (hl : d.Linked) : d'.Linked := by
  refine ⟨fun r hr id ha => ?_, fun k hk => ?_⟩
  · rw [h.items]
    rcases h.tree with he | ⟨-, hb'⟩
    · rw [he] at hr
      exact hl.fpItems r hr id ha
    · exact absurd ((hb' r hr).2.symm.trans ha) (by simp)
  · rw [h.items]
    unfold uploadKeys at hk
    rw [h.uploads] at hk
    exact hl.uploads k hk

/-- A root folder that is missing clashes with none that is there. -/
theorem Bare.fpTaken (h : d.Bare) {row : FileProviderItem}
    (hroot : (row.id, row.parentId, row.name) ∈ roots) : d.fpTaken row = false := by
  rw [← Bool.not_eq_true]
  intro htaken
  obtain ⟨r, hr, hclash⟩ := List.any_eq_true.mp htaken
  obtain ⟨hmem, hnone⟩ := h r hr
  simp only [hnone, Option.isSome_none, Bool.false_and, Bool.or_false, Bool.and_eq_true, bne_iff_ne,
    beq_iff_eq] at hclash
  obtain ⟨hne, ⟨-, hparent⟩, hname⟩ := hclash
  have hunique : ∀ a ∈ roots, ∀ b ∈ roots, a.2 = b.2 → a.1 = b.1 := by decide
  exact hne (hunique _ hmem _ hroot (Prod.ext hparent hname))

theorem Bare.put (h : d.Bare) {row : FileProviderItem}
    (hroot : (row.id, row.parentId, row.name) ∈ roots) (ha : row.archiveItemId = none)
    (hd : d'.fpItems = d.fpItems.put row) : d'.Bare := by
  intro r hr
  rw [hd] at hr
  rcases Table.mem_put hr with rfl | ⟨hmem, -⟩
  · exact ⟨hroot, ha⟩
  · exact h r hmem

theorem Bare.insert (h : d.Bare) {row : FileProviderItem}
    (hroot : (row.id, row.parentId, row.name) ∈ roots) (ha : row.archiveItemId = none)
    (hd : d'.fpItems = d.fpItems.insert row) : d'.Bare := by
  intro r hr
  rw [hd] at hr
  rcases Table.mem_insert hr with hmem | rfl
  · exact h r hmem
  · exact ⟨hroot, ha⟩

end Db

/-! ### Requests that are in order -/

/-- The clock and the random identifiers work, and the free-space check passes. -/
def Regular (settings : Settings) (request : UploadRequest) (d : Db) : (o : Op) → o.Ans → Prop
  | .ext .utcnow, a => ∃ now, a = .ok now
  | .ext .uuid4, a => ∃ id, a = .ok id ∧ d.Unused id
  | .ext (.diskUsage _), a => ∃ usage, a = .ok usage ∧
      lacksSpace usage request.size settings.fileProviderMinimumFreePercent = .ok false
  | _, _ => True

/-- Whatever is outside the database, where the request is in order. -/
def World.regular {σ : Type} (X : ExtEnv σ) (settings : Settings) (request : UploadRequest) :
    Prog.Env (World σ) Op Op.Ans :=
  fun w o a w' => World.env X w o a w' ∧ Regular settings request w.txn o a

section Rules

variable {σ α β : Type} {X : ExtEnv σ} {settings : Settings} {request : UploadRequest}
  {w w' : World σ} {Q : β → World σ → Prop} {E : PyError → World σ → Prop}

abbrev Brings (X : ExtEnv σ) (settings : Settings) (request : UploadRequest) (w : World σ)
    (p : Flow α) (Q : α → World σ → Prop) (E : PyError → World σ → Prop) : Prop :=
  p.wp (fun _ _ => True) (World.regular X settings request) Q E w

theorem brings_db {o : DbOp} {a : o.Res} {f : o.Res → Flow β} (h : w.dbStep o = (.ok a, w'))
    (hf : Brings X settings request w' (f a) Q E) :
    Brings X settings request w (db o >>= f) Q E := by
  refine ⟨trivial, fun b t hb => ?_⟩
  obtain ⟨rfl, rfl⟩ := Prod.mk.inj (hb.1.trans h)
  exact hf

theorem brings_query {o : DbOp} {a : o.Res} {f : o.Res → Flow β} (h : w.dbStep o = (.ok a, w))
    (hf : Brings X settings request w (f a) Q E) : Brings X settings request w (db o >>= f) Q E :=
  brings_db h hf

theorem brings_db_error {o : DbOp} {e : PyError} {f : o.Res → Flow β}
    (h : w.dbStep o = (.error e, w')) (hE : E e w') :
    Brings X settings request w (db o >>= f) Q E := by
  refine ⟨trivial, fun b t hb => ?_⟩
  obtain ⟨rfl, rfl⟩ := Prod.mk.inj (hb.1.trans h)
  exact hE

theorem brings_utcnow {f : Time → Flow β}
    (hf : ∀ now t, t.txn = w.txn → Brings X settings request t (f now) Q E) :
    Brings X settings request w (ext .utcnow >>= f) Q E := by
  refine ⟨trivial, ?_⟩
  rintro _ _ ⟨⟨x, _, _, rfl⟩, now, rfl⟩
  exact hf now _ rfl

theorem brings_uuid4 {f : String → Flow β}
    (hf : ∀ id t, t.txn = w.txn → w.txn.Unused id → Brings X settings request t (f id) Q E) :
    Brings X settings request w (ext .uuid4 >>= f) Q E := by
  refine ⟨trivial, ?_⟩
  rintro _ _ ⟨⟨x, _, _, rfl⟩, id, rfl, hunused⟩
  exact hf id _ rfl hunused

theorem brings_diskUsage {path : Path} {f : DiskUsage → Flow β}
    (hf : ∀ usage t, t.txn = w.txn →
      lacksSpace usage request.size settings.fileProviderMinimumFreePercent = .ok false →
      Brings X settings request t (f usage) Q E) :
    Brings X settings request w (ext (.diskUsage path) >>= f) Q E := by
  refine ⟨trivial, ?_⟩
  rintro _ _ ⟨⟨x, _, _, rfl⟩, usage, rfl, hspace⟩
  exact hf usage _ rfl hspace

theorem brings_transitionItem {item : ArchiveItem} {target : ArchiveState} {actor : String}
    {f : ArchiveItem → Flow β} (hvalid : validTransition item.state target = true)
    (hf : Brings X settings request (w.flush { item with state := target }
      ⟨item.id, "state_transition", item.state, target, actor⟩) (f { item with state := target }) Q E) :
    Brings X settings request w (transitionItem item target actor >>= f) Q E := by
  have hcheck : validateTransition item.state target = .ok () := by
    simp [validateTransition, hvalid]
  unfold transitionItem
  rw [hcheck, Brings, Prog.wp_bind, Prog.wp_bind]
  exact brings_db rfl hf

/-- `record_change` of a row that is there. -/
theorem brings_recordChange {item : FileProviderItem} {f : Unit → Flow β}
    (hitem : w.txn.fpItems.get item.id = some item) (hfree : w.txn.fpTaken item = false)
    (hf : ∀ now t, t.txn = w.txn.withChange item now → Brings X settings request t (f ()) Q E) :
    Brings X settings request w (recordChange item.id >>= f) Q E := by
  unfold recordChange
  rw [Brings, Prog.wp_bind]
  refine brings_db rfl (brings_query (o := .getFpItem item.id) (a := some item) ?_ ?_)
  · simp [World.dbStep, hitem]
  refine brings_utcnow fun now t ht => ?_
  have hstep : t.dbStep (.saveFpItem { item with
      metadataVersion := w.txn.newSequence, modifiedAt := now }) =
      (.ok (), t.setTxn (w.txn.withChange item now)) := by
    have hfree' : t.txn.fpTaken { item with
        metadataVersion := w.txn.newSequence, modifiedAt := now } = false := by
      rw [ht]
      exact hfree
    simp only [World.dbStep, hfree', Bool.false_eq_true, if_false]
    rw [ht]
    rfl
  refine ⟨trivial, fun b u hb => ?_⟩
  obtain ⟨rfl, rfl⟩ := Prod.mk.inj (hb.1.trans hstep)
  exact hf now _ rfl

/-! ### The root folders -/

theorem Db.Booted.withChange {d d' : Db} {row : FileProviderItem} {now : Time}
    (hbare : d.Bare) (hbare' : d'.Bare) (hi : d'.items = d.items) (hu : d'.uploads = d.uploads)
    (hroot : (row.id, row.parentId, row.name) ∈ roots) (ha : row.archiveItemId = none) :
    d.Booted (d'.withChange row now) := by
  let stamped := { row with metadataVersion := d'.newSequence, modifiedAt := now }
  have hstamped : (stamped.id, stamped.parentId, stamped.name) ∈ roots := hroot
  have hb : (d'.withChange row now).Bare := hbare'.put hstamped ha rfl
  exact ⟨hi, hu, .inr ⟨hbare, hb⟩, .inr hb⟩

theorem brings_bootstrapRoot {root : String × Option String × String} {f : Unit → Flow β}
    (hroot : root ∈ roots) (hnext : w.txn.Rooted ∨ w.txn.Bare)
    (hf : ∀ t, w.txn.Booted t.txn → Brings X settings request t (f ()) Q E) :
    Brings X settings request w (bootstrapRoot root >>= f) Q E := by
  unfold bootstrapRoot
  rw [Brings, Prog.wp_bind]
  refine brings_query (o := .getFpItem root.1) (a := w.txn.fpItems.get root.1) rfl ?_
  cases hget : w.txn.fpItems.get root.1 with
  | some item => exact hf w (.refl hnext)
  | none =>
    have hbare : w.txn.Bare := hnext.resolve_left fun h => by
      have hh := h root hroot
      simp [hget] at hh
    refine brings_utcnow fun now t ht => ?_
    let row : FileProviderItem :=
      { id := root.1, parentId := root.2.1, name := root.2.2, kind := .folder, status := .ready,
        modifiedAt := now }
    have hfree : w.txn.fpTaken row = false := hbare.fpTaken hroot
    have hadd : t.dbStep (.addFpItem row) =
        (.ok (), t.setTxn { w.txn with fpItems := w.txn.fpItems.insert row }) := by
      simp [World.dbStep, ht, hfree, row, hget]
    refine brings_db hadd ?_
    have hbare' : ({ w.txn with fpItems := w.txn.fpItems.insert row } : Db).Bare :=
      hbare.insert hroot rfl rfl
    have hchange : Brings X settings request (t.setTxn { w.txn with
        fpItems := w.txn.fpItems.insert row }) (recordChange row.id >>= f) Q E := by
      refine brings_recordChange (Table.get_insert_self hget) (hbare'.fpTaken hroot) fun now u hu => ?_
      refine hf u ?_
      rw [hu]
      exact .withChange hbare hbare' rfl rfl hroot rfl
    rw [Brings, Prog.wp_bind] at hchange
    exact hchange

theorem brings_bootstrapEach {l : List (String × Option String × String)} {f : Unit → Flow β}
    (hl : ∀ root ∈ l, root ∈ roots) (hnext : w.txn.Rooted ∨ w.txn.Bare)
    (hf : ∀ t, w.txn.Booted t.txn → Brings X settings request t (f ()) Q E) :
    Brings X settings request w (bootstrapEach l >>= f) Q E := by
  induction l generalizing w with
  | nil => exact hf w (.refl hnext)
  | cons root rest ih =>
    rw [Brings, Prog.wp_bind]
    refine brings_bootstrapRoot (hl root List.mem_cons_self) hnext fun t ht => ?_
    have hrest := ih (w := t) (fun r hr => hl r (List.mem_cons_of_mem _ hr)) ht.next
      fun u hu => hf u (ht.trans hu)
    rw [Brings, Prog.wp_bind] at hrest
    exact hrest

theorem brings_bootstrapRoots {f : Unit → Flow β} (hnext : w.txn.Rooted ∨ w.txn.Bare)
    (hf : ∀ t, w.txn.Booted t.txn → Brings X settings request t (f ()) Q E) :
    Brings X settings request w (bootstrapRoots >>= f) Q E := by
  unfold bootstrapRoots
  rw [Brings, Prog.wp_bind]
  refine brings_bootstrapEach (fun _ h => h) hnext fun t ht => ?_
  unfold setting
  rw [Brings, Prog.wp_bind]
  refine brings_query (o := .getSetting "file_provider_generation") rfl ?_
  cases (t.txn.settings.find? (·.1 == "file_provider_generation")).map (·.2) with
  | some value => exact hf t ht
  | none =>
    refine brings_uuid4 fun value u hu _ => brings_db rfl ?_
    refine hf _ ?_
    rw [World.txn_setTxn, hu]
    exact ht.trans ⟨rfl, rfl, .inl rfl, ht.next⟩

/-! ### The request -/

/-- The new row of the inbox clashes with a name, and with nothing else. -/
theorem Db.fpTaken_inbox {d : Db} {row : FileProviderItem} (hid : d.fpItems.get row.id = none)
    (hparent : row.parentId = some inboxId)
    (harchive : ∀ r ∈ d.fpItems.rows, r.archiveItemId.isSome → r.archiveItemId ≠ row.archiveItemId) :
    d.fpTaken row = false ↔ d.InboxFree row.name := by
  have hne : ∀ r ∈ d.fpItems.rows, r.id ≠ row.id := fun r hr he =>
    absurd ((Table.get_of_mem hr).symm.trans (he ▸ hid)) (by simp)
  rw [← Bool.not_eq_true]
  unfold Db.fpTaken
  rw [List.any_eq_true]
  constructor
  · intro hfree r hr hp hname
    refine hfree ⟨r, hr, ?_⟩
    simp [hne r hr, hp, hparent, hname]
  · rintro hfree ⟨r, hr, hclash⟩
    simp only [Bool.and_eq_true, bne_iff_ne, Bool.or_eq_true, beq_iff_eq] at hclash
    rcases hclash.2 with ⟨⟨-, hp⟩, hname⟩ | ⟨hsome, ha⟩
    · exact hfree r hr (hp.trans hparent) hname
    · exact harchive r hr hsome ha

/-- A row that was added clashes with none. -/
theorem Db.fpTaken_insert {d d' : Db} {row : FileProviderItem} (hfree : d.fpTaken row = false)
    (hd : d'.fpItems = d.fpItems.insert row) : d'.fpTaken row = false := by
  unfold Db.fpTaken at hfree ⊢
  rw [List.any_eq_false] at hfree ⊢
  intro r hr
  rw [hd] at hr
  rcases Table.mem_insert hr with hmem | rfl
  · exact hfree r hmem
  · simp

theorem Db.Linked.fresh {d : Db} (hl : d.Linked) :
    (∀ r ∈ d.fpItems.rows, r.archiveItemId.isSome → r.archiveItemId ≠ some d.newItemId) ∧
      ∀ k ∈ d.uploadKeys, k.2.2 ≠ d.newItemId := by
  have hnew : d.items.get d.newItemId = none := World.get_newItemId d
  refine ⟨fun r hr _ ha => ?_, fun k hk he => ?_⟩
  · have hh := hl.fpItems r hr _ ha
    simp [hnew] at hh
  · have hh := hl.uploads k hk
    simp [he, hnew] at hh

theorem Db.Unused.sourceTaken {d : Db} {row : ArchiveItem} (h : d.Unused row.sourceIdentifier) :
    d.sourceTaken row = false := by
  unfold Db.sourceTaken
  rw [List.any_eq_false]
  intro r hr
  simp [h.items r hr]

theorem Db.Unused.uploadTaken {d d' : Db} {row : FileProviderUpload} (hid : d.Unused row.id)
    (hitem : d.Unused row.itemId) (ha : ∀ k ∈ d.uploadKeys, k.2.2 ≠ row.archiveItemId)
    (hd : d'.uploads = d.uploads) : d'.uploadTaken row = false := by
  unfold Db.uploadTaken
  rw [hd, List.any_eq_false]
  intro r hr
  have hkey : r.key ∈ d.uploadKeys := List.mem_map_of_mem hr
  have hfst := (hid.uploads _ hkey).1
  have hsnd := (hitem.uploads _ hkey).2
  have hthd := ha _ hkey
  simp_all [FileProviderUpload.key]

theorem brings_raiseIf {failed : Bool} {error : PyError} {f : Unit → Flow β} (h : failed = false)
    (hf : Brings X settings request w (f ()) Q E) :
    Brings X settings request w (raiseIf failed error >>= f) Q E := by
  rw [h]
  exact hf

/-- The rows of the upload, once the archive item is there. -/
theorem brings_addUpload {d : Db} {row : FileProviderItem} {upload : Time → FileProviderUpload}
    {name : String} (hl : d.Linked) (hfp : w.txn.fpItems = d.fpItems)
    (huploads : w.txn.uploads = d.uploads) (hrow : d.Unused row.id)
    (hupload : ∀ now, d.Unused (upload now).id ∧ (upload now).itemId = row.id ∧
      (upload now).archiveItemId = d.newItemId)
    (hparent : row.parentId = some inboxId) (hname : row.name = name)
    (harchive : row.archiveItemId = some d.newItemId) :
    Brings X settings request w (do
      db (.addFpItem row)
      let now ← ext .utcnow
      db (.addUpload (upload now))
      recordChange row.id
      pure (upload now)) (fun _ _ => d.InboxFree name)
      (fun e _ => ¬ d.InboxFree name ∧ e = .integrity "file_provider_items") := by
  have hsame : w.txn.fpTaken row = d.fpTaken row := by
    unfold Db.fpTaken
    rw [hfp]
  have htaken := Db.fpTaken_inbox hrow.fpItems hparent (harchive ▸ hl.fresh.1)
  rw [hname] at htaken
  have hnone : w.txn.fpItems.get row.id = none := hfp ▸ hrow.fpItems
  by_cases hfree : d.InboxFree name
  · have hclear := hsame.trans (htaken.mpr hfree)
    have hinsert : w.dbStep (.addFpItem row) =
        (.ok (), w.setTxn { w.txn with fpItems := w.txn.fpItems.insert row }) := by
      simp [World.dbStep, hnone, hclear]
    refine brings_db hinsert (brings_utcnow fun now t ht => ?_)
    rw [World.txn_setTxn] at ht
    have hadd : t.dbStep (.addUpload (upload now)) = (.ok (), t.setTxn { t.txn with
        uploads := t.txn.uploads.insert (upload now) }) := by
      have hnew : t.txn.uploadTaken (upload now) = false := by
        obtain ⟨hid, hitem, ha⟩ := hupload now
        exact hid.uploadTaken (hitem ▸ hrow) (ha ▸ hl.fresh.2) (by rw [ht]; exact huploads)
      simp [World.dbStep, hnew]
    refine brings_db hadd ?_
    refine brings_recordChange ?_ ?_ fun now t _ => hfree
    · rw [World.txn_setTxn, ht]
      exact Table.get_insert_self hnone
    · rw [World.txn_setTxn, ht]
      exact Db.fpTaken_insert hclear rfl
  · have hclash : w.txn.fpTaken row = true := by
      rw [hsame, ← Bool.not_eq_false, htaken]
      exact hfree
    have hrefused : w.dbStep (.addFpItem row) = (.error (.integrity "file_provider_items"), w) := by
      simp [World.dbStep, hclash]
    exact brings_db_error hrefused ⟨hfree, rfl⟩

/-- The archive item of an upload, on its way to the first bytes. -/
theorem brings_downloading {row : ArchiveItem} {f : ArchiveItem → Flow β}
    (hstate : row.state = .discovered) (hsource : w.txn.sourceTaken row = false)
    (hf : ∀ (archive : ArchiveItem) (t : World σ), archive.id = w.txn.newItemId →
      t.txn.fpItems = w.txn.fpItems → t.txn.uploads = w.txn.uploads →
      Brings X settings request t (f archive) Q E) :
    Brings X settings request w (do
      let archive ← db (.addItem row)
      let archive ← transitionItem archive .eligible "file-provider"
      let archive ← transitionItem archive .queued "file-provider"
      let archive ← transitionItem archive .downloading "file-provider"
      f archive) Q E := by
  have hadd : w.dbStep (.addItem row) = (.ok { row with id := w.txn.newItemId }, w.addItem row) := by
    simp [World.dbStep, hsource]
  have heligible : validTransition row.state .eligible = true := by
    rw [hstate]
    decide
  refine brings_db hadd (brings_transitionItem heligible ?_)
  refine brings_transitionItem (show validTransition .eligible .queued = true by decide) ?_
  refine brings_transitionItem (show validTransition .queued .downloading = true by decide) ?_
  exact hf _ _ rfl rfl rfl

/-- A request that is in order is refused exactly where the inbox has the name. -/
theorem brings_createUpload {name : String} (hl : w.txn.Linked)
    (hnext : w.txn.Rooted ∨ w.txn.Bare) (hname : validateUploadName request.name = .ok name)
    (hsize : request.size ≤ settings.fileProviderMaxFileSize)
    (hsha : ∀ sha, request.sha256 = some sha → validSha256 sha = true) :
    Brings X settings request w (createUpload settings request)
      (fun _ _ => w.txn.InboxFree name)
      (fun e _ => ¬ w.txn.InboxFree name ∧ e = .integrity "file_provider_items") := by
  unfold createUpload
  rw [hname]
  refine brings_bootstrapRoots hnext fun t ht => ?_
  rw [← ht.inboxFree]
  replace hl := ht.linked hl
  change Brings X settings request t (raiseIf _ _ >>= _) _ _
  refine brings_raiseIf (decide_eq_false (by omega)) ?_
  refine brings_diskUsage fun usage t₁ h₁ hspace => ?_
  rw [hspace]
  refine brings_raiseIf rfl ?_
  refine brings_raiseIf ?_ ?_
  · cases hs : request.sha256 with
    | none => rfl
    | some sha => simp [hsha sha hs]
  refine brings_uuid4 fun uploadId t₂ h₂ hupload => ?_
  refine brings_uuid4 fun fpId t₃ h₃ hfp => brings_utcnow fun now t₄ h₄ => ?_
  rw [h₁] at hupload
  rw [h₂, h₁] at hfp
  replace h₄ := h₄.trans (h₃.trans (h₂.trans h₁))
  have hsource : ∀ row : ArchiveItem, row.sourceIdentifier = uploadId →
      t₄.txn.sourceTaken row = false := by
    intro row hrow
    rw [h₄]
    exact (hrow ▸ hupload).sourceTaken
  refine brings_downloading rfl (hsource _ rfl) fun archive t₅ harchive hitems huploads => ?_
  refine brings_utcnow fun now t₆ h₆ => ?_
  rw [← h₆, h₄] at hitems huploads
  rw [h₄] at harchive
  exact brings_addUpload hl hitems huploads hfp (fun _ => ⟨hupload, rfl, harchive⟩) rfl rfl
    (congrArg some harchive)

end Rules

/-! ### Runs -/

/-- The transactions of the API and the worker on items, and what the rest of the program does,
which leaves the tree alone. -/
inductive UploadStep {σ : Type} (X : ExtEnv σ) (settings : Settings) (uuid5 : String → String)
    (w : World σ) : World σ → Prop where
  | transaction {p : Flow Unit} {r : Option (Except PyError Unit)} {w' : World σ}
      (hp : ItemTransaction settings uuid5 p) (he : (transactions X).Ends p w r w') :
      UploadStep X settings uuid5 w w'
  | elsewhere {w' : World σ} (hi : w'.Idle) (hf : w'.db.fpItems = w.db.fpItems)
      (hu : w'.db.uploadKeys = w.db.uploadKeys)
      (hitems : ∀ id, (w.db.items.get id).isSome → (w'.db.items.get id).isSome) :
      UploadStep X settings uuid5 w w'

abbrev UploadRun {σ : Type} (X : ExtEnv σ) (settings : Settings) (uuid5 : String → String) :=
  Relation.ReflTransGen (UploadStep X settings uuid5)

/-- The transaction of a request that is in order. -/
def requests {σ : Type} (X : ExtEnv σ) (settings : Settings) (request : UploadRequest) :
    Transactions (World σ) Op Op.Ans :=
  { transactions X with env := World.regular X settings request }

/-- What holds of the database between the transactions. -/
structure World.Kept {σ : Type} (w : World σ) : Prop where
  idle : w.Idle
  rootless : w.db.Rootless
  linked : w.db.Linked
  seeded : w.db.fpItems.rows = [] ∨ w.db.Rooted

section Runs

variable {σ : Type} {X : ExtEnv σ} {settings : Settings} {uuid5 : String → String}
  {request : UploadRequest} {w w' : World σ}

theorem kept_fresh (x : σ) : (World.fresh x).Kept :=
  ⟨⟨rfl, rfl⟩, fun _ hk => absurd hk List.not_mem_nil,
    ⟨fun _ hr => absurd hr List.not_mem_nil, fun _ hk => absurd hk List.not_mem_nil⟩, .inl rfl⟩

theorem kept_step (h : w.Kept) (hs : UploadStep X settings uuid5 w w') : w'.Kept := by
  cases hs with
  | transaction hp he =>
    obtain ⟨hi, hend⟩ := ends_tends h.idle h.rootless (grown_of_itemTransaction uuid5 settings hp) he
    rcases hend with ⟨hdb, -⟩ | ⟨_, t, -, ⟨hgrown, hseeded⟩, ht, hdb⟩
    · exact ⟨hi, hdb ▸ h.rootless, hdb ▸ h.linked, hdb ▸ h.seeded⟩
    · rw [h.idle.txn] at hgrown hseeded
      refine ⟨hi, hdb ▸ ht.rootless, hdb ▸ hgrown.linked h.linked, ?_⟩
      rw [hdb]
      rcases h.seeded with he | hr
      · exact hseeded he
      · exact .inr (hgrown.rooted hr)
  | elsewhere hi hf hu hitems =>
    have hkeeps : w.db.Keeps w'.db := Db.keeps_of_items hitems hf hu
    refine ⟨hi, ?_, hkeeps.linked h.linked, ?_⟩
    · unfold Db.Rootless
      rw [hu]
      exact h.rootless
    · rcases h.seeded with he | hr
      · exact .inl (hkeeps.empty he)
      · exact .inr (hkeeps.rooted hr)

theorem kept_run {x : σ} (hr : UploadRun X settings uuid5 (World.fresh x) w) : w.Kept := by
  induction hr with
  | refl => exact kept_fresh x
  | tail _ hs ih => exact kept_step ih hs

/-- How the transaction of a request in order ends, if it is not cut off. -/
theorem ends_createUpload {name : String} (h : w.Kept)
    (hname : validateUploadName request.name = .ok name)
    (hsize : request.size ≤ settings.fileProviderMaxFileSize)
    (hsha : ∀ sha, request.sha256 = some sha → validSha256 sha = true)
    {r : Except PyError FileProviderUpload}
    (he : (requests X settings request).Ends (createUpload settings request) w (some r) w') :
    (∃ upload, r = .ok upload ∧ w.db.InboxFree name) ∨
      r = .error (.integrity "file_provider_items") ∧ ¬ w.db.InboxFree name := by
  have hnext : w.txn.Rooted ∨ w.txn.Bare := by
    rw [h.idle.txn]
    refine h.seeded.symm.imp_right fun he => ?_
    intro r hr
    rw [he] at hr
    exact absurd hr List.not_mem_nil
  have hwp := brings_createUpload (X := X) (w := w) (h.idle.txn ▸ h.linked) hnext hname hsize hsha
  rw [← h.idle.txn]
  cases he with
  | returned hs =>
    have hfree := hwp.steps hs
    exact .inl ⟨_, rfl, hfree⟩
  | raised hs =>
    have hraised := hwp.steps hs
    exact .inr ⟨congrArg _ hraised.2, hraised.1⟩

/-- In every state that the transactions reach: a request in order succeeds exactly where no item
of the inbox has its name. -/
theorem create_upload_total {x : σ} {name : String}
    (hr : UploadRun X settings uuid5 (World.fresh x) w)
    (hname : validateUploadName request.name = .ok name)
    (hsize : request.size ≤ settings.fileProviderMaxFileSize)
    (hsha : ∀ sha, request.sha256 = some sha → validSha256 sha = true)
    {r : Except PyError FileProviderUpload}
    (he : (requests X settings request).Ends (createUpload settings request) w (some r) w') :
    (∃ upload, r = .ok upload) ↔ w.db.InboxFree name := by
  constructor
  · rintro ⟨upload, rfl⟩
    rcases ends_createUpload (kept_run hr) hname hsize hsha he with ⟨_, _, hfree⟩ | ⟨hraised, _⟩
    · exact hfree
    · cases hraised
  · intro hfree
    rcases ends_createUpload (kept_run hr) hname hsize hsha he with ⟨upload, hok, _⟩ | ⟨_, hclash⟩
    · exact ⟨upload, hok⟩
    · exact absurd hfree hclash

end Runs

/-! ### On the host -/

section Host

/-- Whether what the host answers is in order. -/
def answersRegular (settings : Settings) (request : UploadRequest) (w : World Host) : Op → Bool
  | .ext .uuid4 =>
    let id := toString w.ext.serial
    (w.txn.fpItems.get id).isNone && w.txn.uploadKeys.all (fun k => k.1 != id && k.2.1 != id) &&
      w.txn.items.rows.all fun r => r.sourceIdentifier != id
  | .ext (.diskUsage _) =>
    sparesSpace ⟨1000000000000, 900000000000⟩ request.size settings.fileProviderMinimumFreePercent
  | _ => true

theorem regular_of_answersRegular {settings : Settings} {request : UploadRequest} (w : World Host)
    (o : Op) (h : answersRegular settings request w o = true) :
    World.regular (Host.env .plain) settings request w o (w.onHost .plain id o).1
      (w.onHost .plain id o).2 := by
  refine ⟨onHost_id w o, ?_⟩
  cases o with
  | db o => trivial
  | ext o =>
    cases o with
    | utcnow => exact ⟨_, rfl⟩
    | uuid4 =>
      simp only [answersRegular, Bool.and_eq_true, List.all_eq_true, bne_iff_ne,
        Option.isNone_iff_eq_none] at h
      exact ⟨_, rfl, h.1.1, h.1.2, h.2⟩
    | diskUsage path =>
      exact ⟨_, rfl, sparesSpace_iff.mp h⟩
    | _ => trivial

/-- The end of a request on the host, where all that it is answered is in order. -/
theorem ends_onHost (settings : Settings) (request : UploadRequest) (w : World Host)
    (h : (createUpload settings request).respects (answersRegular settings request)
      (World.onHost .plain id) w = true) :
    ∃ w', (requests (Host.env .plain) settings request).Ends (createUpload settings request) w
      (some ((createUpload settings request).exec (World.onHost .plain id) w).1) w' := by
  have hs := Prog.exec_steps_of_respects regular_of_answersRegular (createUpload settings request) w h
  cases hr : ((createUpload settings request).exec (World.onHost .plain id) w).1 with
  | ok upload =>
    rw [hr] at hs
    exact ⟨_, .returned hs⟩
  | error e =>
    rw [hr] at hs
    exact ⟨_, .raised hs⟩

/-- The upload of the worked examples. -/
def oneByte (name : String) : UploadRequest := { name := name, size := 1 }

theorem run_createdOne (uuid5 : String → String) :
    UploadRun (Host.env .plain) plainSettings uuid5 (World.fresh (Host.start [])) createdOne :=
  .single (.transaction (.createUpload _)
    (Transactions.ends_outcome (M := transactions (Host.env .plain)) onHost_id _ _))

theorem create_upload_total_another : ∃ (r : Except PyError FileProviderUpload) (w' : World Host),
    (requests (Host.env .plain) plainSettings (oneByte "g")).Ends
      (createUpload plainSettings (oneByte "g")) createdOne (some r) w' ∧
    createdOne.db.InboxFree "g" ∧ ∃ upload, r = .ok upload := by
  obtain ⟨w', he⟩ := ends_onHost plainSettings (oneByte "g") createdOne (by decide +kernel)
  have hfree : createdOne.db.InboxFree "g" := by
    unfold Db.InboxFree
    decide +kernel
  refine ⟨_, w', he, hfree, ?_⟩
  exact (create_upload_total (run_createdOne id) (by decide +kernel) (by decide)
    (by simp [oneByte]) he).mpr hfree

/-- A second upload of a name, while the first is in the inbox. -/
theorem second_upload_refused : ¬ ∀ (settings : Settings) (uuid5 : String → String)
    (request : UploadRequest) (name : String) (w w' : World Host)
    (r : Except PyError FileProviderUpload),
    UploadRun (Host.env .plain) settings uuid5 (World.fresh (Host.start [])) w →
    validateUploadName request.name = .ok name →
    request.size ≤ settings.fileProviderMaxFileSize →
    (∀ sha, request.sha256 = some sha → validSha256 sha = true) →
    (requests (Host.env .plain) settings request).Ends (createUpload settings request) w (some r) w' →
    ∃ upload, r = .ok upload := by
  intro hall
  obtain ⟨w', he⟩ := ends_onHost plainSettings (oneByte "f") createdOne (by decide +kernel)
  obtain ⟨upload, hok⟩ := hall plainSettings id (oneByte "f") "f" createdOne w' _ (run_createdOne id)
    (by decide +kernel) (by decide) (by simp [oneByte]) he
  have herror : ((createUpload plainSettings (oneByte "f")).exec (World.onHost .plain id)
      createdOne).1.toOption.isSome = false := by
    decide +kernel
  rw [hok] at herror
  exact absurd herror (by simp [Except.toOption])

end Host

end Mnema
