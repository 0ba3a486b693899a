import Mnema.Projection
import Mnema.Conformance

/-! Programs on the item tree alone: they leave every other table as it is. -/

namespace Mnema

/-- Operations on the items of the tree, their journal and the settings. -/
def Op.inTree : Op → Bool
  | .db (.getFpItem _) | .db (.childNamed _ _ _) | .db (.fpItemOf _) | .db .itemsWithPath => true
  | .db (.addFpItem _) | .db (.saveFpItem _) | .db (.addChange _ _) => true
  | .db (.getSetting _) | .db (.addSetting _ _) => true
  | .ext .utcnow | .ext .uuid4 => true
  | _ => false

/-- The tables outside the tree are the same, and nothing was committed. -/
structure World.SameOutside {σ : Type} (w w' : World σ) : Prop where
  db : w'.db = w.db
  items : w'.txn.items = w.txn.items
  uploads : w'.txn.uploads = w.txn.uploads
  jobs : w'.txn.jobs = w.txn.jobs
  pend : w'.pend = w.pend

section Frame

variable {σ : Type} {X : ExtEnv σ} {w w' w'' : World σ}

theorem World.SameOutside.refl (w : World σ) : w.SameOutside w := ⟨rfl, rfl, rfl, rfl, rfl⟩

theorem World.SameOutside.trans (h : w.SameOutside w') (h' : w'.SameOutside w'') :
    w.SameOutside w'' :=
  ⟨h'.db.trans h.db, h'.items.trans h.items, h'.uploads.trans h.uploads, h'.jobs.trans h.jobs,
    h'.pend.trans h.pend⟩

theorem World.sameOutside_of_inTree {o : Op} {a : o.Ans} (h : o.inTree = true)
    (he : World.env X w o a w') : w.SameOutside w' := by
  cases o with
  | ext o =>
    obtain ⟨x, _, _, rfl⟩ := he
    exact ⟨rfl, rfl, rfl, rfl, rfl⟩
  | db o =>
    rw [(World.env_db.mp he).2]
    cases o with
    | addFpItem _ | saveFpItem _ =>
      simp only [World.dbStep]
      split <;> exact ⟨rfl, rfl, rfl, rfl, rfl⟩
    | getFpItem _ | childNamed _ _ _ | fpItemOf _ | itemsWithPath | addChange _ _ | getSetting _
    | addSetting _ _ => exact ⟨rfl, rfl, rfl, rfl, rfl⟩
    | _ => simp [Op.inTree] at h

end Frame

/-! ### The programs of the tree -/

/-- A program of operations on the tree. -/
abbrev InTree {α : Type} (p : Flow α) : Prop :=
  p.Calls (fun o => o.inTree = true) (fun _ => True) (fun _ => True)

section Programs

variable {α β : Type} (uuid5 : String → String)

theorem inTree_db {o : DbOp} (h : (Op.db o).inTree = true) : InTree (db o) :=
  ⟨h, fun a => (Prog.calls_ofExcept a).mpr ⟨fun _ _ => trivial, fun _ _ => trivial⟩⟩

theorem inTree_ext {o : ExtOp} (h : (Op.ext o).inTree = true) : InTree (ext o) :=
  ⟨h, fun a => (Prog.calls_ofExcept a).mpr ⟨fun _ _ => trivial, fun _ _ => trivial⟩⟩

theorem inTree_bind {p : Flow α} {f : α → Flow β} (hp : InTree p) (hf : ∀ a, InTree (f a)) :
    InTree (p >>= f) :=
  .seq hp hf

theorem inTree_recordChangeOf (itemId operation : String) :
    InTree (recordChangeOf itemId operation) := by
  refine inTree_bind (inTree_db rfl) fun _ => inTree_bind (inTree_db rfl) fun item => ?_
  cases item with
  | none => trivial
  | some item => exact inTree_bind (inTree_ext rfl) fun _ => inTree_db rfl

theorem inTree_recordChange (itemId : String) : InTree (recordChange itemId) :=
  inTree_recordChangeOf itemId "UPSERT"

theorem inTree_bootstrapRoots : InTree bootstrapRoots := by
  have hroot : ∀ root, InTree (bootstrapRoot root) := fun root => by
    refine inTree_bind (inTree_db rfl) fun item => ?_
    cases item with
    | some item => trivial
    | none =>
      exact inTree_bind (inTree_ext rfl) fun _ => inTree_bind (inTree_db rfl) fun _ =>
        inTree_recordChange _
  have heach : ∀ l, InTree (bootstrapEach l) := fun l => by
    induction l with
    | nil => trivial
    | cons root rest ih => exact inTree_bind (hroot root) fun _ => ih
  refine inTree_bind (heach roots) fun _ => inTree_bind (inTree_bind (inTree_db rfl) fun value => ?_)
    fun _ => trivial
  cases value with
  | some value => trivial
  | none => exact inTree_bind (inTree_ext rfl) fun _ => inTree_bind (inTree_db rfl) fun _ => trivial

theorem inTree_uniqueChildName (parentId desired itemId : String) :
    InTree (uniqueChildName parentId desired itemId) := by
  have hfree : ∀ l, InTree (firstFree parentId itemId l) := fun l => by
    induction l with
    | nil => trivial
    | cons candidate rest ih =>
      refine inTree_bind (inTree_db rfl) fun clash => ?_
      cases clash with
      | none => trivial
      | some _ => exact ih
  exact hfree _

theorem inTree_promoteUpload (archive : ArchiveItem) (itemId : String) :
    InTree (promoteUpload archive itemId) := by
  refine (Prog.calls_ite _ _).mpr ⟨fun _ => trivial, fun _ => ?_⟩
  refine inTree_bind (inTree_db rfl) fun item => ?_
  cases item with
  | none => trivial
  | some item =>
    refine (Prog.calls_ite _ _).mpr ⟨fun _ => trivial, fun _ => ?_⟩
    exact inTree_bind (inTree_uniqueChildName _ _ _) fun _ => inTree_bind (inTree_db rfl) fun _ =>
      inTree_recordChange _

theorem inTree_markUploadFailed (itemId code : String) : InTree (markUploadFailed itemId code) := by
  refine inTree_bind (inTree_db rfl) fun item => ?_
  cases item with
  | none => trivial
  | some item => exact inTree_bind (inTree_db rfl) fun _ => inTree_recordChange _

theorem inTree_projectFolders (provider parentId : String) (done components : List String) :
    InTree (projectFolders uuid5 provider parentId done components) := by
  induction components generalizing parentId done with
  | nil => trivial
  | cons component rest ih =>
    refine inTree_bind (inTree_bind (inTree_db rfl) fun folder => ?_) fun folderId => ih _ _
    cases folder with
    | some folder => trivial
    | none =>
      exact inTree_bind (inTree_uniqueChildName _ _ _) fun _ => inTree_bind (inTree_ext rfl) fun _ =>
        inTree_bind (inTree_db rfl) fun _ => inTree_bind (inTree_recordChange _) fun _ => trivial

theorem inTree_projectArchive (archive : ArchiveItem) : InTree (projectArchive uuid5 archive) := by
  have hplace : ∀ original itemId, InTree (placeOf uuid5 archive original itemId) := fun _ _ => by
    refine (Prog.calls_ite _ _).mpr ⟨fun _ => ?_, fun _ => ?_⟩
    · exact inTree_bind (inTree_projectFolders _ _ _ _ _) fun _ =>
        inTree_bind (inTree_uniqueChildName _ _ _) fun _ => trivial
    · exact inTree_bind (inTree_uniqueChildName _ _ _) fun _ => trivial
  refine (Prog.calls_ite _ _).mpr ⟨fun _ => trivial, fun _ => ?_⟩
  refine inTree_bind (inTree_db rfl) fun existing => inTree_bind ?_ fun original =>
    inTree_bind (hplace _ _) fun place => ?_
  · exact (Prog.calls_ofExcept _).mpr ⟨fun _ _ => trivial, fun _ _ => trivial⟩
  cases existing with
  | none =>
    exact inTree_bind (inTree_db rfl) fun _ => inTree_bind (inTree_recordChange _) fun _ => trivial
  | some item =>
    refine (Prog.calls_ite _ _).mpr ⟨fun _ => ?_, fun _ => trivial⟩
    exact inTree_bind (inTree_db rfl) fun _ => inTree_bind (inTree_recordChange _) fun _ => trivial

theorem inTree_projectVerifiedArchives : InTree (projectVerifiedArchives uuid5) := by
  have heach : ∀ l, InTree (projectEach uuid5 l) := fun l => by
    induction l with
    | nil => trivial
    | cons archive rest ih =>
      exact inTree_bind (inTree_projectArchive uuid5 archive) fun _ => inTree_bind ih fun _ => trivial
  exact inTree_bind inTree_bootstrapRoots fun _ => inTree_bind (inTree_db rfl) fun _ => heach _

end Programs

/-- A program of the tree leaves the other tables alone wherever it stops. -/
theorem sameOutside_wp {σ α : Type} {X : ExtEnv σ} {p : Flow α} (hp : InTree p) (w : World σ) :
    p.wp (fun _ _ => True) (World.env X) (fun _ w' => w.SameOutside w')
      (fun _ w' => w.SameOutside w') w :=
  (hp.wp (I := fun w' => w.SameOutside w') (fun _ _ _ _ => trivial)
    (fun _ _ _ _ ho h he => h.trans (World.sameOutside_of_inTree ho he)) (.refl w)).mono
    (fun _ _ h => h) (fun _ _ h => h.2) fun _ _ h => h.2

end Mnema
