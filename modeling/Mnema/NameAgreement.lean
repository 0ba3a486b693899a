import Mnema.PromotedNames

/-! Whether promotion and projection give the item of an upload one name. -/

namespace Mnema

/-- The row of the item of an archive item, and no other row of that archive item. -/
structure Db.Holds (d : Db) (archiveId : Nat) (item : FileProviderItem) : Prop where
  row : d.fpItems.get item.id = some item
  archive : item.archiveItemId = some archiveId
  only : d.Only item

/-- The upload of `name` is published, and its item has not been promoted. -/
structure Awaiting (d : Db) (archive : ArchiveItem) (item : FileProviderItem) (name : String) :
    Prop where
  holds : d.Holds archive.id item
  ready : archive.isReady = true
  provider : archive.sourceProvider = uploadProvider
  path : archive.originalPath = "Uploads/" ++ name
  named : item.name = name
  pending : item.status ≠ .ready

/-- The parent and the name of the item. -/
def Db.placeOf (d : Db) (itemId : String) : Option (Option String × String) :=
  (d.fpItems.get itemId).map fun item => (item.parentId, item.name)

/-- The place that an item is given under the uploads, if there is one. -/
def Db.uploadsPlace (d : Db) (desired itemId : String) : Option (Option String × String) :=
  (d.chosenName uploadsId desired itemId).map fun name => (some uploadsId, name)

/-- Promotion and projection give the item one place, and leave it there in either order;
`none` is where no name is free and both of them raise. -/
structure Agrees (c : Crypto) (project : Flow Nat) (w : World Host) (archive : ArchiveItem)
    (itemId : String) : Prop where
  same : ∀ place,
    Performs c (promoteUpload archive itemId) (fun _ w' => w'.txn.placeOf itemId = place)
      (fun _ _ => place = none) w ↔
    Performs c project (fun _ w' => w'.txn.placeOf itemId = place) (fun _ _ => place = none) w
  projected : Performs c (promoteUpload archive itemId)
    (fun _ w' => Performs c project (fun n w'' => n = 0 ∧ w''.txn = w'.txn)
      (fun _ _ => False) w') (fun _ _ => True) w
  promoted : Performs c project
    (fun _ w' => Performs c (promoteUpload archive itemId)
      (fun _ w'' => w''.txn.placeOf itemId = w'.txn.placeOf itemId) (fun _ _ => False) w')
    (fun _ _ => True) w

/-- All but the item of an archive item, its changes among them, is as it was. -/
structure Db.Beside (d d' : Db) (itemId : String) (archiveId : Nat) : Prop where
  items : d'.items = d.items
  settings : d'.settings = d.settings
  rows : d.SameBeside d' itemId
  archive : ∀ row, d'.fpItems.get itemId = some row → row.archiveItemId = some archiveId

/-- A projection has nothing to do but for one archive item: the folders are there, and every other
item has its place, wherever the item of this one is. -/
structure Settled (c : Crypto) (uuid5 : String → String) (d : Db) (archive : ArchiveItem)
    (itemId : String) : Prop where
  listed : archive ∈ d.items.rows ∧ archive.nasPath.isSome
  roots : ∀ w : World Host, d.Beside w.txn itemId archive.id →
    ∀ Q E, Performs c bootstrapRoots Q E w ↔ Q () w
  others : ∀ a ∈ d.items.rows, a.nasPath.isSome → a ≠ archive →
    ∀ w : World Host, d.Beside w.txn itemId archive.id →
      ∀ Q E, Performs c (projectArchive uuid5 a) Q E w ↔ Q 0 w

section Places

variable {c : Crypto} {uuid5 : String → String} {w : World Host} {s : Store Path Bytes}
  {m : Option Path} {d : Db} {archive : ArchiveItem} {archiveId : Nat}
  {item row : FileProviderItem} {name : String} {now : Time}

namespace Db

theorem sameBeside_refl (d : Db) (itemId : String) : d.SameBeside d itemId := fun _ _ => .rfl

theorem Holds.first (h : d.Holds archiveId item) :
    (d.fpItems.first fun r => r.archiveItemId == some archiveId) = some item := by
  have hmem := Table.mem_of_get h.row
  cases hfirst : d.fpItems.first fun r => r.archiveItemId == some archiveId with
  | none =>
    have hnone := List.find?_eq_none.mp hfirst item hmem
    simp [h.archive] at hnone
  | some r =>
    have hr := Table.get_of_first hfirst
    have ha : r.archiveItemId = some archiveId := by simpa using Table.pred_of_first hfirst
    have hid := h.only r (Table.mem_of_get hr) (by simp [ha]) (ha.trans h.archive.symm)
    rw [hid] at hr
    exact hr.symm.trans h.row

theorem Holds.place (h : d.Holds archiveId item) :
    d.placeOf item.id = some (item.parentId, item.name) := by
  simp [placeOf, h.row]

theorem mem_put_of_ne {t : Table FileProviderItem String FileProviderItem.id}
    {r x : FileProviderItem} (h : r.id ≠ x.id) : r ∈ (t.put x).rows ↔ r ∈ t.rows := by
  constructor
  · intro hr
    rcases Table.mem_put hr with rfl | ⟨hmem, -⟩
    · exact absurd rfl h
    · exact hmem
  · intro hr
    have hget := Table.get_of_mem hr
    rw [← Table.get_put_of_ne (r := x) h] at hget
    exact Table.mem_of_get hget

theorem sameBeside_withPlaced (d : Db) (row : FileProviderItem) (now : Time) :
    d.SameBeside (d.withPlaced row now) row.id := by
  intro r hr
  have hplaced : r.id ≠
      ({ row with metadataVersion := d.newSequence, modifiedAt := now } : FileProviderItem).id := hr
  have hput : r ∈ (d.fpItems.put row).rows ↔ r ∈ d.fpItems.rows := mem_put_of_ne hr
  exact (mem_put_of_ne hplaced).trans hput

/-- The row that is there after the item has been placed. -/
theorem Holds.withPlaced (h : d.Holds archiveId item) (row : FileProviderItem) (now : Time)
    (hid : row.id = item.id) (ha : row.archiveItemId = item.archiveItemId) :
    (d.withPlaced row now).Holds archiveId
      { row with metadataVersion := d.newSequence, modifiedAt := now } := by
  have hrow := h.row
  rw [← hid] at hrow
  refine ⟨Table.get_put_self (Table.get_put_self hrow), ha.trans h.archive, ?_⟩
  intro r hr hsome harchive
  by_cases hne : r.id = row.id
  · exact hne
  · have hr' := (d.sameBeside_withPlaced row now r hne).mp hr
    exact absurd ((h.only r hr' hsome (harchive.trans ha)).trans hid.symm) hne

theorem Holds.place_withPlaced (h : d.Holds archiveId item) (row : FileProviderItem) (now : Time)
    (hid : row.id = item.id) (ha : row.archiveItemId = item.archiveItemId) :
    (d.withPlaced row now).placeOf item.id = some (row.parentId, row.name) := by
  have hplaced := (h.withPlaced row now hid ha).place
  rw [← hid]
  exact hplaced

theorem SameBeside.withPlaced (row : FileProviderItem) (now : Time) (hid : row.id = item.id) :
    d.SameBeside (d.withPlaced row now) item.id :=
  hid ▸ d.sameBeside_withPlaced row now

end Db

variable {place : Option (Option String × String)}

theorem Awaiting.promote_place (h : Awaiting d archive item name) (hw : w.Has s m d) :
    Performs c (promoteUpload archive item.id) (fun _ w' => w'.txn.placeOf item.id = place)
      (fun _ _ => place = none) w ↔ d.uploadsPlace (promotedName archive.id name) item.id = place := by
  refine performs_promoteUpload hw h.ready h.holds.row h.pending h.holds.only
    (fun chosen hchosen now w hw => ?_) fun hnone e w hw => ?_
  · have hplaced := h.holds.place_withPlaced (item.promoted chosen) now rfl rfl
    rw [hw.txn, hplaced, ← h.named, Db.uploadsPlace, hchosen]
    rfl
  · rw [← h.named, Db.uploadsPlace, hnone]
    exact eq_comm

theorem Awaiting.original (h : Awaiting d archive item name) (hname : FileName name) :
    safeRelativePath archive.originalPath = .ok ["Uploads", name] := by
  rw [h.path]
  exact safeRelativePath_upload hname

theorem Awaiting.project_place (h : Awaiting d archive item name) (hname : FileName name)
    (hw : w.Has s m d) :
    Performs c (projectArchive uuid5 archive) (fun _ w' => w'.txn.placeOf item.id = place)
      (fun _ _ => place = none) w ↔
        d.uploadsPlace (numbered archive.id ++ name) item.id = place := by
  refine performs_projectUpload hw h.ready h.provider (h.original hname) h.holds.first h.holds.only
    (fun chosen hchosen hparent hsame w hw => ?_) (fun chosen hchosen hmove now w hw => ?_)
    fun hnone e w hw => ?_
  · rw [hw.txn, h.holds.place, hparent, hsame, Db.uploadsPlace]
    simp only [List.getLastD_cons, List.getLastD_nil] at hchosen
    rw [hchosen]
    rfl
  · have hplaced := h.holds.place_withPlaced
      { item with parentId := some uploadsId, name := chosen } now rfl rfl
    rw [hw.txn, hplaced, Db.uploadsPlace]
    simp only [List.getLastD_cons, List.getLastD_nil] at hchosen
    rw [hchosen]
    rfl
  · simp only [List.getLastD_cons, List.getLastD_nil] at hnone
    rw [Db.uploadsPlace, hnone]
    exact eq_comm

theorem promotedName_of_not_numbered (h : ¬ (numbered archiveId).toList <+: name.toList) :
    promotedName archiveId name = numbered archiveId ++ name := by
  rw [← List.isPrefixOf_iff_prefix] at h
  exact if_neg h

theorem promotedName_of_numbered (h : (numbered archiveId).toList <+: name.toList) :
    promotedName archiveId name = name := by
  rw [← List.isPrefixOf_iff_prefix] at h
  exact if_pos h

/-- A projection after the promotion of a name that is not numbered yet. -/
theorem Awaiting.projected (h : Awaiting d archive item name) (hname : FileName name)
    (hn : ¬ (numbered archive.id).toList <+: name.toList) (hw : w.Has s m d) :
    Performs c (promoteUpload archive item.id)
      (fun _ w' => Performs c (projectArchive uuid5 archive)
        (fun n w'' => n = 0 ∧ w''.txn = w'.txn) (fun _ _ => False) w') (fun _ _ => True) w := by
  refine (performs_promoteUpload (P := True) hw h.ready h.holds.row h.pending h.holds.only
    (fun chosen hchosen now w hw => ?_) fun _ _ _ _ => Iff.rfl).mpr trivial
  have hplaced := h.holds.withPlaced (item.promoted chosen) now rfl rfl
  have hsame : (d.withPlaced (item.promoted chosen) now).chosenName uploadsId
      (numbered archive.id ++ name) item.id = some chosen := by
    have hbeside : d.SameBeside (d.withPlaced (item.promoted chosen) now) item.id :=
      .withPlaced _ now rfl
    rw [hbeside.chosenName, ← promotedName_of_not_numbered hn, ← h.named]
    exact hchosen
  refine performs_projectUpload hw h.ready h.provider (h.original hname) hplaced.first hplaced.only
    (fun other hother _ _ w' hw' => ?_) (fun other hother hmove now w hw => ?_)
    fun hnone e w hw => ?_
  · exact iff_of_true ⟨rfl, hw'.txn.trans hw.txn.symm⟩ trivial
  · have hchild : some other = some chosen := hother.symm.trans hsame
    rcases hmove with hmove | hmove
    · exact absurd rfl hmove
    · exact absurd (Option.some.inj hchild).symm hmove
  · exact absurd (hnone.symm.trans hsame) (by simp)

/-- A promotion of an item that lies under the uploads by a numbered name. -/
theorem promote_keeps (hw : w.Has s m d) (hready : archive.isReady = true)
    (hrow : d.Holds archive.id row) (hpending : row.status ≠ .ready)
    (hparent : row.parentId = some uploadsId)
    (hnumbered : (numbered archive.id).toList <+: row.name.toList)
    (hfree : d.childTaken uploadsId row.id row.name = false) :
    Performs c (promoteUpload archive row.id)
      (fun _ w' => w'.txn.placeOf row.id = w.txn.placeOf row.id) (fun _ _ => False) w := by
  have hchosen : d.chosenName uploadsId (promotedName archive.id row.name) row.id = some row.name := by
    rw [promotedName_of_numbered hnumbered]
    simp [Db.chosenName, hfree]
  refine (performs_promoteUpload (P := True) hw hready hrow.row hpending hrow.only
    (fun chosen hsame now w' hw' => ?_) fun hnone e w hw => ?_).mpr trivial
  · have hname : row.name = chosen := Option.some.inj (hchosen.symm.trans hsame)
    have hplaced := hrow.place_withPlaced (row.promoted chosen) now rfl rfl
    refine iff_of_true ?_ trivial
    rw [hw'.txn, hplaced, hw.txn, hrow.place, hparent, hname]
    rfl
  · exact absurd (hnone.symm.trans hchosen) (by simp)

/-- A promotion after the projection. -/
theorem Awaiting.promoted (h : Awaiting d archive item name) (hname : FileName name)
    (hw : w.Has s m d) :
    Performs c (projectArchive uuid5 archive)
      (fun _ w' => Performs c (promoteUpload archive item.id)
        (fun _ w'' => w''.txn.placeOf item.id = w'.txn.placeOf item.id) (fun _ _ => False) w')
      (fun _ _ => True) w := by
  refine (performs_projectUpload (P := True) hw h.ready h.provider (h.original hname) h.holds.first
    h.holds.only (fun chosen hchosen hparent hsame w hw => ?_)
    (fun chosen hchosen _ now w hw => ?_) fun _ _ _ _ => Iff.rfl).mpr trivial
  · have hnumbered := numbered_chosen hname hchosen
    have hfree := not_taken_of_chosen hchosen
    rw [← hsame] at hnumbered hfree
    exact iff_of_true (promote_keeps hw h.ready h.holds h.pending hparent hnumbered hfree) trivial
  · have hbeside : d.SameBeside (d.withPlaced { item with
        parentId := some uploadsId, name := chosen } now) item.id := .withPlaced _ now rfl
    have hfree := not_taken_of_chosen hchosen
    rw [← hbeside.childTaken] at hfree
    have hplaced := h.holds.withPlaced { item with parentId := some uploadsId, name := chosen } now
      rfl rfl
    have hkeeps := promote_keeps (c := c) hw h.ready hplaced h.pending rfl
      (numbered_chosen hname hchosen) hfree
    exact iff_of_true hkeeps trivial

/-! ### The whole projection -/

namespace Db

theorem Holds.beside (h : d.Holds archiveId item) : d.Beside d item.id archiveId where
  items := rfl
  settings := rfl
  rows := d.sameBeside_refl item.id
  archive row hrow := by
    obtain rfl : item = row := Option.some.inj (h.row.symm.trans hrow)
    exact h.archive

theorem Beside.withPlaced {d' : Db} {itemId : String} (h : d.Beside d' itemId archiveId)
    (hrow : d'.Holds archiveId item) (hitem : item.id = itemId) (row : FileProviderItem) (now : Time)
    (hid : row.id = item.id) (ha : row.archiveItemId = item.archiveItemId) :
    d.Beside (d'.withPlaced row now) itemId archiveId where
  items := h.items
  settings := h.settings
  rows r hr := by
    have hne : r.id ≠ row.id := by
      rw [hid, hitem]
      exact hr
    exact (d'.sameBeside_withPlaced row now r hne).trans (h.rows r hr)
  archive r hr := by
    have hplaced := (hrow.withPlaced row now hid ha).beside.archive r
    rw [← hitem, ← hid] at hr
    exact hplaced hr

end Db

theorem beside_project {d' : Db} {itemId : String} (hb : d.Beside d' itemId archive.id)
    (hrow : d'.Holds archive.id item) (hitem : item.id = itemId) (hready : archive.isReady = true)
    (hprovider : archive.sourceProvider = uploadProvider)
    (hpath : safeRelativePath archive.originalPath = .ok ["Uploads", name]) (hw : w.Has s m d') :
    Performs c (projectArchive uuid5 archive) (fun _ w' => d.Beside w'.txn itemId archive.id)
      (fun _ _ => True) w := by
  refine (performs_projectUpload (P := True) hw hready hprovider hpath hrow.first hrow.only
    (fun chosen _ _ _ w' hw' => ?_) (fun chosen _ _ now w' hw' => ?_) fun _ _ _ _ => Iff.rfl).mpr trivial
  · rw [hw'.txn]
    exact iff_of_true hb trivial
  · rw [hw'.txn]
    exact iff_of_true (hb.withPlaced hrow hitem _ now rfl rfl) trivial

variable {Q : Nat → World Host → Prop} {E : PyError → World Host → Prop} {itemId : String}

theorem Settled.performs_others (h : Settled c uuid5 d archive itemId)
    (hb : d.Beside w.txn itemId archive.id) {l : List ArchiveItem}
    (hl : ∀ a ∈ l, a ∈ d.items.rows ∧ a.nasPath.isSome ∧ a ≠ archive) :
    Performs c (projectEach uuid5 l) Q E w ↔ Q 0 w := by
  induction l generalizing Q with
  | nil => exact Iff.rfl
  | cons a rest ih =>
    obtain ⟨hmem, hpath, hne⟩ := hl a List.mem_cons_self
    rw [projectEach, performs_bind, h.others a hmem hpath hne w hb, performs_bind,
      ih fun a ha => hl a (List.mem_cons_of_mem _ ha)]
    exact Iff.rfl

theorem Settled.performs_each (h : Settled c uuid5 d archive itemId)
    (hb : d.Beside w.txn itemId archive.id) {before after : List ArchiveItem}
    (hl : ∀ a ∈ before, a ∈ d.items.rows ∧ a.nasPath.isSome ∧ a ≠ archive) :
    Performs c (projectEach uuid5 (before ++ archive :: after)) Q E w ↔
      Performs c (projectArchive uuid5 archive)
        (fun n w' => Performs c (projectEach uuid5 after) (fun m => Q (n + m)) E w') E w := by
  induction before generalizing Q with
  | nil =>
    rw [List.nil_append, projectEach, performs_bind]
    simp only [performs_bind]
    exact Iff.rfl
  | cons a rest ih =>
    obtain ⟨hmem, hpath, hne⟩ := hl a List.mem_cons_self
    rw [List.cons_append, projectEach, performs_bind, h.others a hmem hpath hne w hb, performs_bind,
      ih fun a ha => hl a (List.mem_cons_of_mem _ ha)]
    simp only [Nat.zero_add]
    exact Iff.rfl

/-- Where a projection has nothing else to do, it does what it does for the one archive item. -/
theorem Settled.performs (h : Settled c uuid5 d archive itemId) (hb : d.Beside w.txn itemId archive.id)
    (hkeeps : Performs c (projectArchive uuid5 archive) (fun _ w' => d.Beside w'.txn itemId archive.id)
      (fun _ _ => True) w) :
    Performs c (projectVerifiedArchives uuid5) Q E w ↔ Performs c (projectArchive uuid5 archive) Q E w := by
  have hlisted : archive ∈ d.items.rows.filter (·.nasPath.isSome) := List.mem_filter.mpr h.listed
  obtain ⟨before, after, hsplit⟩ := List.append_of_mem hlisted
  have hnodup : (d.items.rows.filter (·.nasPath.isSome)).Nodup := d.items.nodup.of_map.filter _
  have hlist : ∀ a, a ∈ before ∨ a ∈ after → a ∈ d.items.rows ∧ a.nasPath.isSome ∧ a ≠ archive := by
    intro a ha
    have hmem : a ∈ d.items.rows.filter (·.nasPath.isSome) := by
      rw [hsplit, List.mem_append, List.mem_cons]
      exact ha.imp id Or.inr
    rw [hsplit, List.nodup_middle, List.nodup_cons, List.mem_append] at hnodup
    obtain ⟨hrow, hpath⟩ := List.mem_filter.mp hmem
    refine ⟨hrow, hpath, ?_⟩
    rintro rfl
    exact hnodup.1 ha
  have hcandidates : w.dbStep .itemsWithPath = (.ok (before ++ archive :: after), w) := by
    rw [← hsplit, ← hb.items]
    rfl
  rw [projectVerifiedArchives, performs_bind, h.roots w hb, performs_bind, performs_answer hcandidates,
    h.performs_each hb fun a ha => hlist a (.inl ha)]
  exact Prog.wp_congr hkeeps fun n w' hb' => h.performs_others hb' fun a ha => hlist a (.inr ha)

theorem Settled.agrees_iff (h : Settled c uuid5 w.txn archive item.id) (ha : Awaiting w.txn archive item name)
    (hname : FileName name) :
    Agrees c (projectVerifiedArchives uuid5) w archive item.id ↔
      Agrees c (projectArchive uuid5 archive) w archive item.id := by
  have hwhole : ∀ {Q E}, Performs c (projectVerifiedArchives uuid5) Q E w ↔
      Performs c (projectArchive uuid5 archive) Q E w :=
    h.performs ha.holds.beside
      (beside_project ha.holds.beside ha.holds rfl ha.ready ha.provider (ha.original hname) w.has_self)
  have hafter : Performs c (promoteUpload archive item.id)
      (fun _ w' => ∀ Q E, Performs c (projectVerifiedArchives uuid5) Q E w' ↔
        Performs c (projectArchive uuid5 archive) Q E w') (fun _ _ => True) w := by
    refine (performs_promoteUpload (P := True) w.has_self ha.ready ha.holds.row ha.pending ha.holds.only
      (fun chosen _ now w' hw' => iff_of_true (fun Q E => ?_) trivial) fun _ _ _ _ => Iff.rfl).mpr trivial
    have hplaced := ha.holds.withPlaced (item.promoted chosen) now rfl rfl
    have hb := ha.holds.beside.withPlaced ha.holds rfl (item.promoted chosen) now rfl rfl
    exact h.performs (hw'.txn ▸ hb)
      (beside_project hb hplaced rfl ha.ready ha.provider (ha.original hname) hw')
  constructor
  · intro hagrees
    exact ⟨fun place => (hagrees.same place).trans hwhole,
      (Prog.wp_congr hafter fun _ w' hw' => hw' _ _).mp hagrees.projected, hwhole.mp hagrees.promoted⟩
  · intro hagrees
    exact ⟨fun place => (hagrees.same place).trans hwhole.symm,
      (Prog.wp_congr hafter fun _ w' hw' => hw' _ _).mpr hagrees.projected, hwhole.mpr hagrees.promoted⟩

/-- Where the folders and the generation are there, nothing is added. -/
theorem performs_bootstrapRoots {Q : Unit → World Host → Prop}
    (hroots : ∀ root ∈ roots, (w.txn.fpItems.get root.1).isSome)
    (hsetting : (w.txn.settings.find? (·.1 == "file_provider_generation")).isSome) :
    Performs c bootstrapRoots Q E w ↔ Q () w := by
  have heach : ∀ l : List (String × Option String × String), (∀ root ∈ l, (w.txn.fpItems.get root.1).isSome) →
      ∀ Q : Unit → World Host → Prop, Performs c (bootstrapEach l) Q E w ↔ Q () w := by
    intro l hl
    induction l with
    | nil => exact fun Q => Iff.rfl
    | cons root rest ih =>
      intro Q
      obtain ⟨row, hrow⟩ := Option.isSome_iff_exists.mp (hl root List.mem_cons_self)
      have hget : w.dbStep (.getFpItem root.1) = (.ok (some row), w) := by
        rw [← hrow]
        rfl
      rw [bootstrapEach, performs_bind, bootstrapRoot, performs_bind, performs_answer hget]
      exact ih (fun root hr => hl root (List.mem_cons_of_mem _ hr)) Q
  obtain ⟨entry, hentry⟩ := Option.isSome_iff_exists.mp hsetting
  have hget : w.dbStep (.getSetting "file_provider_generation") = (.ok (some entry.2), w) := by
    have hvalue : some entry.2 = (some entry).map (·.2) := rfl
    rw [hvalue, ← hentry]
    rfl
  rw [bootstrapRoots, performs_bind, heach roots hroots, performs_bind, setting, performs_bind, performs_answer hget]
  exact Iff.rfl

/-- An archive item of an upload that is archived in the cold storage. -/
def archivedUpload (archiveId : Nat) (name : String) : ArchiveItem :=
  { id := archiveId, sourceProvider := uploadProvider, sourceIdentifier := "u",
    originalPath := "Uploads/" ++ name, originalSize := 1, originalModifiedAt := 0,
    sourceVersion := "u", state := .archived, coldArchivedAt := some 0, nasPath := some ["archive"] }

/-- The item of an upload, in the inbox. -/
def inboxItem (archiveId : Nat) (name : String) : FileProviderItem :=
  { id := "i", parentId := some inboxId, name := name, kind := .file, status := .processing,
    archiveItemId := some archiveId, size := 1, modifiedAt := 0 }

def rootRow (root : String × Option String × String) : FileProviderItem :=
  { id := root.1, parentId := root.2.1, name := root.2.2, kind := .folder, status := .ready, modifiedAt := 0 }

/-- The folders, as they are added at the first start. -/
def rootRows : List FileProviderItem := roots.map rootRow

theorem nodup_loneRows (archiveId : Nat) (name : String) :
    ((rootRows ++ [inboxItem archiveId name]).map FileProviderItem.id).Nodup := by
  have hids : (rootRows ++ [inboxItem archiveId name]).map FileProviderItem.id =
      ["root", "inbox", "archive", "archive-uploads", "archive-icloud", "archive-local", "i"] := rfl
  rw [hids]
  decide

/-- The host that has the folders and the item of one upload. -/
def World.lone (archiveId : Nat) (name : String) : World Host :=
  let rows : Db :=
    { items := Table.empty.insert (archivedUpload archiveId name)
      fpItems := ⟨rootRows ++ [inboxItem archiveId name], nodup_loneRows archiveId name⟩
      settings := [("file_provider_generation", "g")] }
  ⟨rows, rows, [], [], .start []⟩

theorem mem_lone {r : FileProviderItem} (hr : r ∈ (World.lone archiveId name).txn.fpItems.rows) :
    r ∈ rootRows ∨ r = inboxItem archiveId name := by
  simpa [World.lone] using hr

theorem awaiting_lone (archiveId : Nat) (name : String) :
    Awaiting (World.lone archiveId name).txn (archivedUpload archiveId name) (inboxItem archiveId name)
      name where
  holds := by
    refine ⟨Table.get_of_mem (List.mem_append_right _ List.mem_cons_self), rfl, ?_⟩
    intro r hr hsome _
    rcases mem_lone hr with hroot | rfl
    · obtain ⟨root, -, rfl⟩ := List.mem_map.mp hroot
      cases hsome
    · rfl
  ready := rfl
  provider := rfl
  path := rfl
  named := rfl
  pending := nofun

theorem settled_lone (c : Crypto) (uuid5 : String → String) (archiveId : Nat) (name : String) :
    Settled c uuid5 (World.lone archiveId name).txn (archivedUpload archiveId name)
      (inboxItem archiveId name).id where
  listed := ⟨List.mem_cons_self, rfl⟩
  roots w hb Q E := by
    have hother : ∀ root ∈ roots, root.1 ≠ "i" := by decide
    refine performs_bootstrapRoots (fun root hroot => ?_) (by rw [hb.settings]; rfl)
    have hrow : rootRow root ∈ (World.lone archiveId name).txn.fpItems.rows :=
      List.mem_append_left _ (List.mem_map_of_mem hroot)
    have hkept := Table.get_of_mem ((hb.rows (rootRow root) (hother root hroot)).mpr hrow)
    exact Option.isSome_of_mem hkept
  others a ha _ hne := by
    obtain rfl : a = archivedUpload archiveId name := by
      simpa [World.lone, Table.insert, Table.empty] using ha
    exact absurd rfl hne

theorem lone_chosen (archiveId : Nat) (name desired : String) :
    (World.lone archiveId name).txn.uploadsPlace desired (inboxItem archiveId name).id =
      some (some uploadsId, desired) := by
  have hroots : ∀ r ∈ rootRows, r.parentId ≠ some uploadsId := by decide
  have hfree : (World.lone archiveId name).txn.childTaken uploadsId (inboxItem archiveId name).id desired =
      false := by
    rw [← Bool.not_eq_true, Db.childTaken_iff]
    rintro ⟨r, hr, hparent, -, hne⟩
    rcases mem_lone hr with hroot | rfl
    · exact hroots r hroot hparent
    · exact hne rfl
  simp [Db.uploadsPlace, Db.chosenName, hfree]

/-- Promotion keeps a name that is numbered already; projection numbers it once more. -/
theorem not_agrees_lone (hname : FileName name)
    (hnumbered : (numbered archiveId).toList <+: name.toList) :
    ¬ Agrees c (projectArchive uuid5 (archivedUpload archiveId name)) (World.lone archiveId name)
      (archivedUpload archiveId name) (inboxItem archiveId name).id := by
  intro hagrees
  have hawaiting := awaiting_lone archiveId name
  have hsame := hagrees.same (some (some uploadsId, name))
  rw [hawaiting.promote_place (World.has_self _), hawaiting.project_place hname (World.has_self _),
    lone_chosen, lone_chosen] at hsame
  rw [show (archivedUpload archiveId name).id = archiveId from rfl,
    promotedName_of_numbered hnumbered] at hsame
  have hlonger := (Prod.mk.inj (Option.some.inj (hsame.mp rfl))).2
  have hlength := congrArg (fun t => t.toList.length) hlonger
  simp [numbered] at hlength
  omega

/-- Promotion and projection of an upload agree exactly on the names that do not begin with the
number of the archive item and a dash: the projection of its archive item in every database, and the
whole projection where it has nothing else to do. -/
theorem promoted_names (c : Crypto) (uuid5 : String → String) (archiveId : Nat) {raw : String}
    (hname : validateUploadName raw = .ok name) :
    ((∀ (w : World Host) (archive : ArchiveItem) (item : FileProviderItem), archive.id = archiveId →
      Awaiting w.txn archive item name → Agrees c (projectArchive uuid5 archive) w archive item.id) ↔
        ¬ (numbered archiveId).toList <+: name.toList) ∧
    ((∀ (w : World Host) (archive : ArchiveItem) (item : FileProviderItem), archive.id = archiveId →
      Awaiting w.txn archive item name → Settled c uuid5 w.txn archive item.id →
        Agrees c (projectVerifiedArchives uuid5) w archive item.id) ↔
          ¬ (numbered archiveId).toList <+: name.toList) := by
  have hfile := fileName_of_validate hname
  have hagrees : ¬ (numbered archiveId).toList <+: name.toList →
      ∀ (w : World Host) (archive : ArchiveItem) (item : FileProviderItem), archive.id = archiveId →
        Awaiting w.txn archive item name → Agrees c (projectArchive uuid5 archive) w archive item.id := by
    rintro hn w archive item rfl hawaiting
    refine ⟨fun place => ?_, hawaiting.projected hfile hn (World.has_self w),
      hawaiting.promoted hfile (World.has_self w)⟩
    rw [hawaiting.promote_place (World.has_self w), hawaiting.project_place hfile (World.has_self w),
      promotedName_of_not_numbered hn]
  refine ⟨⟨fun hall hnumbered => ?_, hagrees⟩, fun hall hnumbered => ?_, fun hn w archive item hid ha hs => ?_⟩
  · exact not_agrees_lone hfile hnumbered (hall _ _ _ rfl (awaiting_lone archiveId name))
  · have hwhole := hall _ _ _ rfl (awaiting_lone archiveId name) (settled_lone c uuid5 archiveId name)
    exact not_agrees_lone hfile hnumbered
      (((settled_lone c uuid5 archiveId name).agrees_iff (awaiting_lone archiveId name) hfile).mp hwhole)
  · exact (hs.agrees_iff ha hfile).mpr (hagrees hn w archive item hid ha)

theorem promoted_names_holiday : validateUploadName " holiday.jpg" = .ok "holiday.jpg" ∧
    Agrees .plain (projectArchive id (archivedUpload 5 "holiday.jpg")) (World.lone 5 "holiday.jpg")
      (archivedUpload 5 "holiday.jpg") (inboxItem 5 "holiday.jpg").id ∧
    Agrees .plain (projectVerifiedArchives id) (World.lone 5 "holiday.jpg")
      (archivedUpload 5 "holiday.jpg") (inboxItem 5 "holiday.jpg").id := by
  have hname : validateUploadName " holiday.jpg" = .ok "holiday.jpg" := by decide
  obtain ⟨heach, hwhole⟩ := promoted_names .plain id 5 hname
  exact ⟨hname, heach.mpr (by decide) _ _ _ rfl (awaiting_lone 5 "holiday.jpg"),
    hwhole.mpr (by decide) _ _ _ rfl (awaiting_lone 5 "holiday.jpg") (settled_lone .plain id 5 "holiday.jpg")⟩

/-- The upload of a file that is called `5-x.jpg`, archived as the fifth item. -/
theorem numbered_upload_disagrees : ¬ ∀ (c : Crypto) (uuid5 : String → String) (archiveId : Nat)
    (raw name : String) (w : World Host) (archive : ArchiveItem) (item : FileProviderItem),
    validateUploadName raw = .ok name → archive.id = archiveId → Awaiting w.txn archive item name →
      Settled c uuid5 w.txn archive item.id →
        Agrees c (projectVerifiedArchives uuid5) w archive item.id := by
  intro hall
  have hname : validateUploadName "5-x.jpg" = .ok "5-x.jpg" := by decide
  have hfile := fileName_of_validate hname
  have hwhole := hall .plain id 5 _ _ _ _ _ hname rfl (awaiting_lone 5 "5-x.jpg")
    (settled_lone .plain id 5 "5-x.jpg")
  exact not_agrees_lone hfile (by decide)
    (((settled_lone .plain id 5 "5-x.jpg").agrees_iff (awaiting_lone 5 "5-x.jpg") hfile).mp hwhole)

end Places

end Mnema
