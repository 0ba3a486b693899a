import Mnema.SealIntegrity

/-! What becomes of the bytes of dead uploads: which file is left under which upload once a
starting worker has gone through its lists. -/

namespace Mnema

/-- Whether a call may put a file there, with `writing` the one that is open. -/
def ExtOp.creates (writing : Option Path) : ExtOp → Path → Prop
  | .sourceDownload _ _ target, path => path = target
  | .replace _ target, path => path = target
  | .createEmpty target, path => path = target
  | .openFile target _, path => path = target
  | .writeChunk _, path => writing = some path
  | _, _ => False

/-- Operations that create no file and leave the uploads and the durable rows as they are. -/
def Op.frees : Op → Bool
  | .ext (.sourceDownload _ _ _) | .ext (.replace _ _) | .ext (.createEmpty _) => false
  | .ext (.openFile _ _) | .ext (.writeChunk _) => false
  | .ext _ => true
  | .db .commit | .db (.addUpload _) | .db (.setUploadStatus _ _) | .db (.setReceivedSize _ _) => false
  | .db _ => true

theorem Host.files_answer (c : Crypto) (h : Host) (o : ExtOp) {path : Path}
    (hp : ((h.answer c o).2.files path).isSome = true) :
    (h.files path).isSome = true ∨ o.creates h.writing path := by
  have hput : ∀ {s : Store Path Bytes} {target : Path} {b : Bytes},
      ((s.put target b) path).isSome = true → (s path).isSome = true ∨ path = target := by
    intro s target b hs
    by_cases he : path = target
    · exact .inr he
    · exact .inl (s.put_of_ne he b ▸ hs)
  have herase : ∀ {s : Store Path Bytes} {target : Path},
      ((s.erase target) path).isSome = true → (s path).isSome = true := by
    intro s target hs
    by_cases he : path = target
    · simp [he] at hs
    · exact s.erase_of_ne he ▸ hs
  cases o with
  | sourceDownload provider sourceId target =>
    simp only [Host.answer, Host.sourceDownload] at hp
    split at hp
    · exact .inl hp
    · split at hp
      · exact .inl hp
      · exact hput hp
  | unlink target missingOk =>
    simp only [Host.answer, Host.unlink] at hp
    split at hp
    · exact .inl (herase hp)
    · split at hp <;> exact .inl hp
  | replace source target =>
    simp only [Host.answer, Host.replace] at hp
    split at hp
    · exact .inl hp
    · exact (hput hp).imp_left herase
  | createEmpty target => exact hput hp
  | openFile target mode =>
    simp only [Host.answer, Host.openFile] at hp
    split at hp
    · exact .inl hp
    · exact .inl hp
    · exact hput hp
  | writeChunk chunk =>
    simp only [Host.answer, Host.writeChunk] at hp
    split at hp
    case h_1 => exact .inl hp
    case h_2 target ht =>
      refine (hput hp).imp_right fun he => ?_
      exact ht.trans (congrArg some he.symm)
  | truncate target size =>
    simp only [Host.answer, Host.truncate] at hp
    split at hp
    case h_1 => exact .inl hp
    case h_2 b hb =>
      refine .inl ((hput hp).elim id fun he => ?_)
      rw [he, hb]
      rfl
  | sourceDelete provider sourceId version =>
    simp only [Host.answer, Host.sourceDelete] at hp
    split at hp
    · exact .inl hp
    · split at hp <;> exact .inl hp
  | backupSnapshot source key =>
    simp only [Host.answer, Host.backupSnapshot] at hp
    split at hp
    · exact .inl hp
    · split at hp <;> exact .inl hp
  | coldUpload source object key =>
    simp only [Host.answer, Host.coldUpload] at hp
    split at hp
    · exact .inl hp
    · split at hp <;> exact .inl hp
  | _ => exact .inl hp

theorem Host.writing_openFile {h h' : Host} {path : Path} {mode : FileMode}
    (he : h.openFile path mode = (.ok (), h')) : h'.writing = some path := by
  unfold Host.openFile at he
  split at he
  · cases he
  · exact (Prod.mk.inj he).2 ▸ rfl
  · exact (Prod.mk.inj he).2 ▸ rfl

theorem Host.files_unlink (h : Host) (path : Path) : (h.unlink path true).2.files path = none := by
  unfold Host.unlink
  cases hp : h.files path with
  | some b => exact Store.erase_self _ _
  | none => exact hp

section Contract

variable {α : Type} {c : Crypto} {settings : Settings} {w w' : World Host}

/-- The uploads are the same, in the open rows and in the durable ones. -/
structure World.SameUploads (w w' : World Host) : Prop where
  db : w'.db.uploads = w.db.uploads
  txn : w'.txn.uploads = w.txn.uploads

theorem World.SameUploads.refl (w : World Host) : w.SameUploads w := ⟨rfl, rfl⟩

theorem World.SameUploads.trans {w₁ w₂ w₃ : World Host} (h : w₁.SameUploads w₂)
    (h' : w₂.SameUploads w₃) : w₁.SameUploads w₃ :=
  ⟨h'.db.trans h.db, h'.txn.trans h.txn⟩

theorem World.sameUploads_step {o : Op} {a : o.Ans} (ho : o.frees = true)
    (he : World.env (Host.env c) w o a w') : w.SameUploads w' := by
  cases o with
  | ext o =>
    obtain ⟨x, _, _, rfl⟩ := he
    exact ⟨rfl, rfl⟩
  | db o =>
    rw [(World.env_db.mp he).2]
    cases o with
    | commit | addUpload _ | setUploadStatus _ _ | setReceivedSize _ _ => cases ho
    | addItem _ | addFpItem _ | saveFpItem _ =>
      simp only [World.dbStep]
      split <;> exact ⟨rfl, rfl⟩
    | _ => exact ⟨rfl, rfl⟩

/-- The path is that of no failed upload. -/
def World.Free (settings : Settings) (w : World Host) (path : Path) : Prop :=
  ∀ u, u ∈ w.db.uploads.rows ∨ u ∈ w.txn.uploads.rows → u.status = .failed →
    settings.uploadFile u.id ≠ path

theorem World.Free.of_same {path : Path} (h : w.Free settings path) (hs : w.SameUploads w') :
    w'.Free settings path := by
  intro u hu
  rw [hs.db, hs.txn] at hu
  exact h u hu

/-- No failed upload has a file. -/
def World.Released (settings : Settings) (w : World Host) : Prop :=
  ∀ path, (w.ext.files path).isSome = true → w.Free settings path

/-- Files are created where no failed upload is, an upload fails without a file, and nothing
becomes durable on the way. -/
def Releases (settings : Settings) (w : World Host) : Op → Prop
  | .ext o => ∀ path, o.creates w.ext.writing path → w.Free settings path
  | .db (.setUploadStatus id status) =>
    status = .failed → w.ext.files (settings.uploadFile id) = none
  | .db (.addUpload row) => row.status ≠ .failed
  | .db .commit => False
  | _ => True

theorem releases_of_frees {o : Op} (h : o.frees = true) : Releases settings w o := by
  cases o with
  | db o =>
    cases o with
    | setUploadStatus _ _ | addUpload _ | commit => cases h
    | _ => trivial
  | ext o =>
    intro path hp
    cases o with
    | sourceDownload _ _ _ | replace _ _ | createEmpty _ | openFile _ _ | writeChunk _ => cases h
    | _ => cases hp

theorem mem_uploads_setUpload {id : String} {f : FileProviderUpload → FileProviderUpload}
    (hf : ∀ u, (f u).id = u.id) {u : FileProviderUpload}
    (hu : u ∈ (w.setUpload id f).txn.uploads.rows) :
    (∃ v ∈ w.txn.uploads.rows, v.id = id ∧ u = f v) ∨ u ∈ w.txn.uploads.rows ∧ u.id ≠ id := by
  unfold World.setUpload at hu
  split at hu
  case h_1 v hv =>
    have hid : v.id = id := Table.key_of_get hv
    rcases Table.mem_put hu with rfl | ⟨hu, hne⟩
    · exact .inl ⟨v, Table.mem_of_get hv, hid, rfl⟩
    · exact .inr ⟨hu, fun he => hne (he.trans (hid.symm.trans (hf v).symm))⟩
  case h_2 hnone =>
    refine .inr ⟨hu, fun he => ?_⟩
    rw [← he, Table.get_of_mem hu] at hnone
    cases hnone

theorem uploadFile_injective {id id' : String}
    (h : settings.uploadFile id = settings.uploadFile id') : id = id' := by
  have hname : id ++ ".upload" = id' ++ ".upload" :=
    List.singleton_injective (List.append_inj_right' h rfl)
  have hlist := congrArg String.toList hname
  rw [String.toList_append, String.toList_append] at hlist
  exact String.toList_injective (List.append_cancel_right hlist)

theorem World.Released.setUpload (h : w.Released settings) {id : String}
    {f : FileProviderUpload → FileProviderUpload} (hf : ∀ u, (f u).id = u.id)
    (hnew : ∀ v ∈ w.txn.uploads.rows, v.id = id → (f v).status = .failed →
      ∀ path, (w.ext.files path).isSome = true → settings.uploadFile v.id ≠ path) :
    (w.setUpload id f).Released settings := by
  have hext : (w.setUpload id f).ext = w.ext := (w.txn_setUpload id f).2
  have hdb : (w.setUpload id f).db = w.db := by
    unfold World.setUpload
    split <;> rfl
  intro path hp u hu hfail
  rw [hext] at hp
  rw [hdb] at hu
  rcases hu with hu | hu
  · exact h path hp u (.inl hu) hfail
  · rcases mem_uploads_setUpload hf hu with ⟨v, hv, hid, rfl⟩ | ⟨hu, _⟩
    · rw [hf v]
      exact hnew v hv hid hfail path hp
    · exact h path hp u (.inr hu) hfail

theorem World.Released.step (h : w.Released settings) {o : Op} {a : o.Ans}
    (ho : Releases settings w o) (he : World.env (Host.env c) w o a w') : w'.Released settings := by
  cases o with
  | ext o =>
    obtain ⟨x, ⟨x', hd, hx⟩, _, rfl⟩ := he
    intro path hp
    obtain rfl := (Prod.mk.inj hx).2
    have hfree : w.Free settings path := by
      rcases Host.files_answer c x' o hp with hp | hp
      · exact h path (hd.files ▸ hp)
      · exact ho path (hd.writing ▸ hp)
    exact hfree
  | db o =>
    rw [(World.env_db.mp he).2]
    cases hq : (Op.db o).frees with
    | true =>
      have hs := World.sameUploads_step (c := c) hq he
      rw [(World.env_db.mp he).2] at hs
      have hext : (w.dbStep o).2.ext = w.ext := by
        cases o with
        | setUploadStatus _ _ | setReceivedSize _ _ | addUpload _ => cases hq
        | addItem _ | addFpItem _ | saveFpItem _ =>
          simp only [World.dbStep]
          split <;> rfl
        | _ => rfl
      intro path hp
      exact (h path (hext ▸ hp)).of_same hs
    | false =>
      cases o with
      | commit => exact ho.elim
      | addUpload row =>
        simp only [World.dbStep]
        split
        · exact h
        · intro path hp u hu hfail
          rcases hu with hu | hu
          · exact h path hp u (.inl hu) hfail
          · rcases Table.mem_insert hu with hu | rfl
            · exact h path hp u (.inr hu) hfail
            · exact absurd hfail ho
      | setReceivedSize id n =>
        simp only [World.dbStep]
        refine h.setUpload (fun u => rfl) fun v hv hid hfail => ?_
        exact fun path hp => h path hp v (.inr hv) hfail
      | setUploadStatus id status =>
        simp only [World.dbStep]
        refine h.setUpload (fun u => rfl) fun v hv hid hfail path hp he => ?_
        have hnone := ho hfail
        rw [← hid, he] at hnone
        simp [hnone] at hp
      | _ => cases hq

/-! ### The programs -/

/-- A program that creates no file and leaves the uploads and the durable rows as they are. -/
abbrev Frees (p : Flow α) : Prop := p.Calls (fun o => o.frees = true) (fun _ => True) fun _ => True

theorem Journals.frees {p : Flow α} (h : Journals p) : Frees p := by
  refine h.imp fun o ho => ?_
  cases o with
  | db o => cases o <;> first | rfl | cases ho
  | ext o => cases o <;> first | rfl | cases ho

theorem frees_db {o : DbOp} (h : (Op.db o).frees = true) : Frees (db o) :=
  ⟨h, fun a => (Prog.calls_ofExcept a).mpr ⟨fun _ _ => trivial, fun _ _ => trivial⟩⟩

theorem frees_ext {o : ExtOp} (h : (Op.ext o).frees = true) : Frees (ext o) :=
  ⟨h, fun a => (Prog.calls_ofExcept a).mpr ⟨fun _ _ => trivial, fun _ _ => trivial⟩⟩

theorem frees_raiseIf (failed : Bool) (error : PyError) : Frees (raiseIf failed error) := by
  cases failed <;> trivial

theorem frees_transitionItem (item : ArchiveItem) (target : ArchiveState) (actor : String) :
    Frees (transitionItem item target actor) :=
  .seq ((Prog.calls_ofExcept _).mpr ⟨fun _ _ => trivial, fun _ _ => trivial⟩) fun _ =>
    .seq (frees_db rfl) fun _ => trivial

/-- What the specification of a transaction asks of every operation, and its result. -/
abbrev Releasing (settings : Settings) (c : Crypto) (Q : α → World Host → Prop) (p : Flow α)
    (w : World Host) : Prop :=
  p.wp (Releases settings) (World.env (Host.env c)) Q (fun _ _ => True) w

theorem releasing_frees {p : Flow α} {Q : α → World Host → Prop} (hp : Frees p)
    (hQ : ∀ a w', w.SameUploads w' → Q a w') : Releasing settings c Q p w := by
  have hw : p.wp (Releases settings) (World.env (Host.env c)) (fun _ w' => True ∧ w.SameUploads w')
      (fun _ w' => True ∧ w.SameUploads w') w :=
    hp.wp (fun _ _ ho _ => releases_of_frees ho)
      (fun _ _ _ _ ho hs he => hs.trans (World.sameUploads_step ho he)) (.refl w)
  exact hw.mono (fun _ _ hr => hr) (fun a w' hs => hQ a w' hs.2) fun _ _ _ => trivial

theorem releasing_ext {o : ExtOp} {Q : o.Res → World Host → Prop} (ho : Releases settings w (.ext o))
    (hQ : ∀ a w', w.SameUploads w' → Q a w') : Releasing settings c Q (ext o) w :=
  wp_ext.mpr ⟨ho, fun a _ _ _ => hQ a _ ⟨rfl, rfl⟩, fun _ _ _ _ => trivial⟩

theorem releasing_uploadPath {uploadId : String} {Q : Path → World Host → Prop}
    (hQ : ∀ w', w.SameUploads w' → Q (settings.uploadFile uploadId) w') :
    Releasing settings c Q (uploadPath settings uploadId) w := by
  simp only [uploadPath, Prog.wp_bind, Prog.wp_pure]
  refine wp_raiseIf.mpr ⟨fun _ => wp_ext.mpr ⟨releases_of_frees rfl, fun root x hx _ => ?_,
    fun _ _ _ _ => trivial⟩, fun _ => trivial⟩
  obtain ⟨x', _, he⟩ := hx
  have hroot : root = settings.fileProviderUploadRoot := Except.ok.inj (Prod.mk.inj he).1
  subst hroot
  refine releasing_ext (releases_of_frees rfl) fun _ w₁ h₁ => ?_
  refine releasing_ext (releases_of_frees rfl) fun _ w₂ h₂ => ?_
  have hs : w.SameUploads w₂ := ⟨h₂.db.trans h₁.db, h₂.txn.trans h₁.txn⟩
  exact wp_raiseIf.mpr ⟨fun _ => hQ w₂ hs, fun _ => trivial⟩

/-- The upload can go no further. -/
def FileProviderUpload.Settled (u : FileProviderUpload) : Prop := u.status = .sealed ∨ u.status = .failed

/-- The uploads of `ids` have been settled, and the others left or settled. -/
def World.Settles (w : World Host) (ids : List String) (w' : World Host) : Prop :=
  ∀ u ∈ w'.txn.uploads.rows, u.Settled ∨ u ∈ w.txn.uploads.rows ∧ u.id ∉ ids

theorem World.Settles.of_same {ids : List String} {w₁ w₂ : World Host} (h : w.Settles ids w₁)
    (hs : w₁.SameUploads w₂) : w.Settles ids w₂ := by
  intro u hu
  rw [hs.txn] at hu
  exact h u hu

theorem World.Settles.after_same {ids : List String} {w₁ w₂ : World Host} (hs : w.SameUploads w₁)
    (h : w₁.Settles ids w₂) : w.Settles ids w₂ := by
  intro u hu
  exact (h u hu).imp_right fun hu => ⟨hs.txn ▸ hu.1, hu.2⟩

theorem World.Settles.trans {ids ids' : List String} {w₁ w₂ : World Host} (h : w.Settles ids w₁)
    (h' : w₁.Settles ids' w₂) : w.Settles (ids ++ ids') w₂ := by
  intro u hu
  rcases h' u hu with hs | ⟨hu, hnot'⟩
  · exact .inl hs
  · refine (h u hu).imp_right fun ⟨hu, hnot⟩ => ⟨hu, fun hm => ?_⟩
    exact (List.mem_append.mp hm).elim hnot hnot'

theorem World.settles_self (hs : w.SameUploads w') : w.Settles [] w' :=
  fun _ hu => .inr ⟨hs.txn ▸ hu, List.not_mem_nil⟩

theorem World.settles_setStatus (id : String) {status : FileProviderUploadStatus}
    (h : status = .sealed ∨ status = .failed) :
    w.Settles [id] (w.setUpload id fun u => { u with status := status }) := by
  intro u hu
  have hid : ∀ u : FileProviderUpload, ({ u with status := status } : FileProviderUpload).id = u.id :=
    fun _ => rfl
  rcases mem_uploads_setUpload hid hu with ⟨v, _, _, rfl⟩ | ⟨hu, hne⟩
  · exact .inl h
  · exact .inr ⟨hu, fun hm => hne (List.mem_singleton.mp hm)⟩

theorem World.settles_of_get_none {id : String} (h : w.txn.uploads.get id = none) :
    w.Settles [id] w := by
  refine fun u hu => .inr ⟨hu, fun hm => ?_⟩
  rw [← List.mem_singleton.mp hm, Table.get_of_mem hu] at h
  cases h

theorem releasing_createIfEmpty {source : Path} {size : Nat} {Q : Unit → World Host → Prop}
    (hfree : w.Free settings source) (hQ : ∀ w', w.SameUploads w' → Q () w') :
    Releasing settings c Q (createIfEmpty source size) w := by
  unfold createIfEmpty
  split
  case isFalse => exact hQ w (.refl w)
  case isTrue =>
    refine (Prog.wp_bind _ _).mpr (releasing_ext (releases_of_frees rfl) fun there w₁ h₁ => ?_)
    cases there with
    | true => exact hQ w₁ h₁
    | false =>
      refine releasing_ext (fun path hp => ?_) fun _ w₂ h₂ => hQ w₂ (h₁.trans h₂)
      obtain rfl : path = source := hp
      exact hfree.of_same h₁

theorem releasing_stageUpload {source destination : Path} {size : Nat} {Q : Unit → World Host → Prop}
    (hfree : w.Free settings destination) (hQ : ∀ w', w.SameUploads w' → Q () w') :
    Releasing settings c Q (stageUpload source destination size) w := by
  simp only [stageUpload, Prog.wp_bind]
  refine releasing_ext (releases_of_frees rfl) fun _ w₁ h₁ => ?_
  refine releasing_ext (releases_of_frees rfl) fun there w₂ h₂ => ?_
  replace h₂ := h₁.trans h₂
  cases there with
  | true =>
    refine releasing_frees (.seq (.seq (frees_ext rfl) fun _ => ?_) fun _ => .seq ?_ fun _ => frees_ext rfl)
      fun _ w₃ h₃ => hQ w₃ (h₂.trans h₃)
    · refine (Prog.calls_ite _ _).mpr ⟨fun _ => trivial, fun _ => .seq (frees_ext rfl) fun _ => trivial⟩
    · exact frees_raiseIf _ _
  | false =>
    refine (Prog.wp_bind _ _).mpr (releasing_ext (fun path hp => ?_) fun _ w₃ h₃ => ?_)
    · obtain rfl : path = destination := hp
      exact hfree.of_same h₂
    · exact releasing_ext (releases_of_frees rfl) fun _ w₄ h₄ => hQ w₄ ((h₂.trans h₃).trans h₄)

theorem sealUpload_releasing {upload : FileProviderUpload}
    (hsource : upload.status = .sealing → w.Free settings (settings.uploadFile upload.id)) :
    Releasing settings c (fun _ w' => w.Settles [upload.id] w') (sealUpload settings upload) w := by
  simp only [sealUpload, Prog.wp_bind]
  refine releasing_uploadPath fun w₁ h₁ => wp_raiseIf.mpr ⟨fun hs => ?_, fun _ => trivial⟩
  replace hsource := (hsource (by simpa using hs)).of_same h₁
  refine (wp_db_ok rfl).mpr ⟨trivial, ?_⟩
  split
  case h_1 => trivial
  case h_2 archive _ =>
    simp only [Prog.wp_bind]
    refine releasing_createIfEmpty hsource fun w₂ h₂ => ?_
    replace h₂ := h₁.trans h₂
    refine releasing_frees (p := sealCandidate _ _) (by simp [sealCandidate, ext, Op.frees]) fun _ w₃ h₃ => ?_
    replace h₃ := h₂.trans h₃
    refine releasing_frees (p := incomplete _ _) (by simp [incomplete, notRegular, ext, Op.frees])
      fun _ w₄ h₄ => wp_raiseIf.mpr ⟨fun _ => ?_, fun _ => trivial⟩
    replace h₄ := h₃.trans h₄
    refine releasing_ext (releases_of_frees rfl) fun checksum w₅ h₅ => ?_
    replace h₅ := h₄.trans h₅
    refine wp_raiseIf.mpr ⟨fun _ => ?_, fun _ => trivial⟩
    refine releasing_stageUpload (fun u _ _ => uploadFile_ne_partialPath _ u.id _ _) fun w₆ h₆ => ?_
    replace h₆ := h₅.trans h₆
    refine releasing_frees (frees_transitionItem _ _ _) fun _ w₇ h₇ => (wp_db_ok rfl).mpr ⟨?_, ?_⟩
    · exact fun hf => by cases hf
    have hsettled := (World.settles_setStatus (w := w₇) upload.id (.inl rfl)).after_same (h₆.trans h₇)
    refine (wp_db_ok rfl).mpr ⟨trivial, ?_⟩
    split
    case h_1 => trivial
    case h_2 item _ =>
      refine releasing_frees (.seq (frees_db rfl) fun _ => .seq (journals_enqueueArchive _ _ _).frees
        fun _ => .seq (journals_recordChange _).frees fun _ => trivial) fun _ w₈ h₈ => ?_
      exact hsettled.of_same h₈

theorem failSealing_releasing {id : String} (hnone : w.ext.files (settings.uploadFile id) = none) :
    Releasing settings c (fun _ w' => w.Settles [id] w') (failSealing id) w := by
  simp only [failSealing, Prog.wp_bind]
  refine (wp_db_ok rfl).mpr ⟨trivial, ?_⟩
  split
  case h_1 h => exact World.settles_of_get_none h
  case h_2 upload hu =>
    obtain rfl : upload.id = id := Table.key_of_get hu
    simp only [Prog.wp_bind]
    refine (wp_db_ok rfl).mpr ⟨fun _ => hnone, ?_⟩
    exact releasing_frees (journals_markUploadFailed _ _).frees fun _ w₁ h₁ =>
      (World.settles_setStatus _ (.inr rfl)).of_same h₁

theorem releasing_removeUploadFile {path : Path} {Q : Unit → World Host → Prop}
    (hQ : ∀ w', w.SameUploads w' → w'.ext.files path = none → Q () w') :
    Releasing settings c Q (removeUploadFile path) w := by
  simp only [removeUploadFile, Prog.wp_bind]
  refine wp_ext.mpr ⟨releases_of_frees rfl, fun there x hx _ => ?_, fun _ _ _ _ => trivial⟩
  obtain ⟨x', _, he⟩ := hx
  obtain ⟨hthere, rfl⟩ := Prod.mk.inj he
  cases there with
  | false =>
    have hnone : x.files path = none := by
      have hsome : (x.files path).isSome = false := (Except.ok.inj hthere).symm
      simpa using hsome
    exact hQ _ ⟨rfl, rfl⟩ hnone
  | true =>
    refine (Prog.wp_bind _ _).mpr (wp_ext.mpr ⟨releases_of_frees rfl, fun link y hy _ => ?_,
      fun _ _ _ _ => trivial⟩)
    obtain ⟨y', _, hlink⟩ := hy
    have hfalse : link = false := Except.ok.inj (Prod.mk.inj hlink).1
    subst hfalse
    refine wp_ext.mpr ⟨releases_of_frees rfl, fun _ z hz _ => ?_, fun _ _ _ _ => trivial⟩
    obtain ⟨z', _, hgone⟩ := hz
    obtain ⟨-, rfl⟩ := Prod.mk.inj hgone
    exact hQ _ ⟨rfl, rfl⟩ (Host.files_unlink z' path)

/-- The uploads of the list that have expired. -/
def expired (now : Time) (uploads : List FileProviderUpload) : List String :=
  (uploads.filter fun u => decide (u.expiresAt ≤ now)).map (·.id)

theorem reapUpload_releasing (now : Time) (upload : FileProviderUpload) :
    Releasing settings c (fun _ w' => w.Settles (expired now [upload]) w')
      (reapUpload settings now upload) w := by
  unfold reapUpload
  split
  case isTrue hlive =>
    have hnil : expired now [upload] = [] := by simp [expired, Int.not_le.mpr hlive]
    exact hnil ▸ World.settles_self (.refl w)
  case isFalse hdead =>
    have hone : expired now [upload] = [upload.id] := by simp [expired, Int.not_lt.mp hdead]
    rw [hone]
    simp only [Prog.wp_bind]
    refine releasing_uploadPath fun w₁ h₁ => releasing_removeUploadFile fun w₂ h₂ hnone => ?_
    refine (wp_db_ok rfl).mpr ⟨fun _ => hnone, ?_⟩
    have hsettled := (World.settles_setStatus (w := w₂) upload.id (.inr rfl)).after_same (h₁.trans h₂)
    refine releasing_frees (journals_markUploadFailed _ _).frees fun _ w₃ h₃ => ?_
    replace hsettled := hsettled.of_same h₃
    refine (wp_db_ok rfl).mpr ⟨trivial, ?_⟩
    split
    case h_2 => exact hsettled
    case h_1 archive _ =>
      split
      case isTrue => exact hsettled
      case isFalse =>
        refine releasing_frees (.seq (frees_transitionItem _ _ _) fun _ => trivial) fun _ w₄ h₄ => ?_
        exact hsettled.of_same h₄

theorem reapUploads_releasing (now : Time) (uploads : List FileProviderUpload) :
    Releasing settings c (fun _ w' => w.Settles (expired now uploads) w')
      (reapUploads settings now uploads) w := by
  induction uploads generalizing w with
  | nil => exact World.settles_self (.refl w)
  | cons upload rest ih =>
    simp only [reapUploads, Prog.wp_bind]
    refine (reapUpload_releasing now upload).post fun _ w₁ h₁ => (ih (w := w₁)).post fun _ w₂ h₂ => ?_
    have happend : expired now (upload :: rest) = expired now [upload] ++ expired now rest := by
      simp only [expired, ← List.map_append, ← List.filter_append, List.singleton_append]
    exact happend ▸ h₁.trans h₂

/-- The calls that go on with the open file. -/
def Op.continues : Op → Bool
  | .ext (.writeChunk _) | .ext .syncFile | .ext .closeFile => true
  | _ => false

theorem writing_of_continues {o : Op} {a : o.Ans} (ho : o.continues = true)
    (he : World.env (Host.env c) w o a w') :
    w.SameUploads w' ∧ (w'.ext.writing = w.ext.writing ∨ w'.ext.writing = none) := by
  cases o with
  | db o => cases ho
  | ext o =>
    obtain ⟨x, ⟨x', hd, hx⟩, _, rfl⟩ := he
    refine ⟨⟨rfl, rfl⟩, ?_⟩
    obtain rfl := (Prod.mk.inj hx).2
    change (x'.answer c o).2.writing = w.ext.writing ∨ (x'.answer c o).2.writing = none
    cases o with
    | writeChunk chunk =>
      simp only [Host.answer, Host.writeChunk]
      split
      · exact .inl hd.writing
      · exact .inl hd.writing
    | syncFile => exact .inl hd.writing
    | closeFile => exact .inr rfl
    | _ => cases ho

/-- Going on with the open file keeps to that file. -/
theorem releasing_continues {path : Path} {p : Flow α}
    (hcalls : p.Calls (fun o => o.continues = true) (fun _ => True) fun _ => True)
    (hfree : w.Free settings path) (hwriting : ∀ q, w.ext.writing = some q → q = path) :
    p.wp (Releases settings) (World.env (Host.env c)) (fun _ w' => w.SameUploads w')
      (fun _ w' => w.SameUploads w') w := by
  have hrest : p.wp (Releases settings) (World.env (Host.env c))
      (fun _ w' => True ∧ w.SameUploads w' ∧ ∀ q, w'.ext.writing = some q → q = path)
      (fun _ w' => True ∧ w.SameUploads w' ∧ ∀ q, w'.ext.writing = some q → q = path) w := by
    refine hcalls.wp (fun w' o ho hI => ?_) (fun w' o a w'' ho hI he => ?_) ⟨⟨rfl, rfl⟩, hwriting⟩
    · cases o with
      | db o => cases ho
      | ext o =>
        cases o with
        | writeChunk chunk =>
          intro q hq
          rw [hI.2 q hq]
          exact hfree.of_same hI.1
        | syncFile | closeFile => exact fun q hq => by cases hq
        | _ => cases ho
    · obtain ⟨hs, hw⟩ := writing_of_continues ho he
      refine ⟨hI.1.trans hs, fun q hq => ?_⟩
      rcases hw with hw | hw
      · exact hI.2 q (hw ▸ hq)
      · rw [hw] at hq
        cases hq
  exact hrest.mono (fun _ _ h => h) (fun _ _ h => h.2.1) fun _ _ h => h.2.1

/-- Once the file is open, a body is written and synced, and the file is closed. -/
theorem continues_receiveOpen (expected offset : Nat) (body : List Bytes) (broken : Option PyError) :
    (do
      let written ← tryCatch
        (do
          let written ← writeBody expected offset 0 body
          match broken with
          | some error => throw error
          | none => do
            ext .syncFile
            pure written)
        fun error => do
          ext .closeFile
          throw error
      ext .closeFile
      pure written : Flow Nat).Calls (fun o => o.continues = true) (fun _ => True) fun _ => True := by
  have hraise : ∀ failed error, (raiseIf failed error).Calls (fun o => o.continues = true)
      (fun _ => True) fun _ => True := by
    intro failed error
    cases failed <;> trivial
  have hext : ∀ {o : ExtOp}, (Op.ext o).continues = true → (ext o).Calls (fun o => o.continues = true)
      (fun _ => True) fun _ => True := by
    intro o h
    exact ⟨h, fun a => (Prog.calls_ofExcept a).mpr ⟨fun _ _ => trivial, fun _ _ => trivial⟩⟩
  have hwrite : ∀ written, (writeBody expected offset written body).Calls
      (fun o => o.continues = true) (fun _ => True) fun _ => True := by
    induction body with
    | nil => exact fun _ => trivial
    | cons chunk rest ih => exact fun _ => .seq (hraise _ _) fun _ => .seq (hext rfl) fun _ => ih _
  refine .seq ((Prog.calls_tryCatch _ _).mpr ?_) fun _ => .seq (hext rfl) fun _ => trivial
  refine (Prog.Calls.seq (hwrite 0) fun _ => ?_).mono (fun _ h => h) fun _ _ =>
    .seq (hext rfl) fun _ => trivial
  cases broken with
  | some error => trivial
  | none => exact .seq (hext rfl) fun _ => trivial

theorem receiveBody_releasing {path : Path} (hfree : w.Free settings path) (mode : FileMode)
    (expected offset : Nat) (body : List Bytes) (broken : Option PyError) :
    (receiveBody path mode expected offset body broken).wp (Releases settings)
      (World.env (Host.env c)) (fun _ w' => w.SameUploads w') (fun _ w' => w.SameUploads w') w := by
  unfold receiveBody
  refine (Prog.wp_bind _ _).mpr (wp_ext.mpr ⟨fun p hp => ?_, fun _ x hx _ => ?_,
    fun _ _ _ _ => ⟨rfl, rfl⟩⟩)
  · obtain rfl : p = path := hp
    exact hfree
  · obtain ⟨x', _, he⟩ := hx
    have hopen : x.writing = some path := Host.writing_openFile he.symm
    have hcalls := continues_receiveOpen expected offset body broken
    have hsame : w.SameUploads (w.answered (.openFile path mode) (.ok ()) x) := ⟨rfl, rfl⟩
    refine (releasing_continues hcalls (hfree.of_same hsame) fun q hq => ?_).mono (fun _ _ h => h)
      (fun _ _ h => hsame.trans h) fun _ _ h => hsame.trans h
    exact (Option.some.inj (hopen.symm.trans hq)).symm

theorem appendUpload_releasing {uploadId : String} (offset : Nat) (body : List Bytes)
    (broken : Option PyError) (hfree : ∀ u, w.txn.uploads.get uploadId = some u →
      u.status = .openUpload → w.Free settings (settings.uploadFile u.id)) :
    Releasing settings c (fun _ _ => True) (appendUpload settings uploadId offset body broken) w := by
  simp only [appendUpload, Prog.wp_bind]
  refine (wp_db_ok rfl).mpr ⟨trivial, ?_⟩
  split
  case h_1 => trivial
  case h_2 upload hu =>
    simp only [Prog.wp_bind, Prog.wp_pure]
    refine releasing_ext (releases_of_frees rfl) fun now w₁ h₁ => wp_raiseIf.mpr ⟨fun hs => ?_,
      fun _ => trivial⟩
    have hopen : upload.status = .openUpload := by
      simp only [Bool.or_eq_false_iff, bne_eq_false_iff_eq] at hs
      exact hs.1
    replace hfree := hfree upload hu hopen
    refine wp_raiseIf.mpr ⟨fun _ => releasing_uploadPath fun w₂ h₂ => ?_, fun _ => trivial⟩
    replace h₂ := h₁.trans h₂
    refine releasing_frees (p := stagingInconsistent _ _) (by simp [stagingInconsistent, ext, Op.frees])
      fun _ w₃ h₃ => wp_raiseIf.mpr ⟨fun _ => ?_, fun _ => trivial⟩
    replace h₃ := h₂.trans h₃
    refine releasing_ext (releases_of_frees rfl) fun there w₄ h₄ => ?_
    replace h₄ := h₃.trans h₄
    simp only [Prog.wp_tryCatch]
    refine (receiveBody_releasing (hfree.of_same h₄) _ _ _ _ _).mono (fun _ _ h => h)
      (fun _ w₅ _ => (wp_db_ok rfl).mpr ⟨trivial, trivial⟩) fun e w₅ h₅ => ?_
    refine releasing_frees (p := rollbackBody _ _ _) ?_ fun _ w₆ _ => (wp_db_ok rfl).mpr ⟨trivial, trivial⟩
    simp [rollbackBody, ext, Op.frees]

theorem createUpload_releasing (request : UploadRequest) :
    Releasing settings c (fun _ _ => True) (createUpload settings request) w := by
  simp only [createUpload, Prog.wp_bind, Prog.wp_pure]
  refine releasing_frees journals_bootstrapRoots.frees fun _ w₁ _ => ?_
  refine (Prog.wp_ofExcept _).mpr ⟨fun name _ => wp_raiseIf.mpr ⟨fun _ => ?_, fun _ => trivial⟩,
    fun _ _ => trivial⟩
  refine releasing_ext (releases_of_frees rfl) fun usage w₂ _ => ?_
  refine (Prog.wp_ofExcept _).mpr ⟨fun lacking _ => wp_raiseIf.mpr ⟨fun _ => ?_, fun _ => trivial⟩,
    fun _ _ => trivial⟩
  refine wp_raiseIf.mpr ⟨fun _ => releasing_ext (releases_of_frees rfl) fun uploadId w₃ _ => ?_,
    fun _ => trivial⟩
  refine releasing_ext (releases_of_frees rfl) fun fpId w₄ _ => ?_
  refine releasing_ext (releases_of_frees rfl) fun now w₅ _ => ?_
  refine releasing_frees (frees_db rfl) fun archive w₆ _ => ?_
  refine releasing_frees (frees_transitionItem _ _ _) fun archive w₇ _ => ?_
  refine releasing_frees (frees_transitionItem _ _ _) fun archive w₈ _ => ?_
  refine releasing_frees (frees_transitionItem _ _ _) fun archive w₉ _ => ?_
  refine releasing_ext (releases_of_frees rfl) fun now w₁ _ => ?_
  refine releasing_frees (frees_db rfl) fun _ w₂ _ => ?_
  refine releasing_ext (releases_of_frees rfl) fun now w₃ _ => ?_
  refine wp_db.mpr ⟨(by intro h; cases h), fun _ _ => ?_, fun _ _ => trivial⟩
  exact releasing_frees (journals_recordChange _).frees fun _ _ _ => trivial

theorem completeBegin_releasing (uploadId : String) :
    Releasing settings c (fun _ _ => True) (completeBegin uploadId) w := by
  simp only [completeBegin, Prog.wp_bind]
  refine (wp_db_ok rfl).mpr ⟨trivial, ?_⟩
  split
  · trivial
  · split
    · trivial
    · simp only [Prog.wp_bind, Prog.wp_pure]
      refine wp_raiseIf.mpr ⟨fun _ => (wp_db_ok rfl).mpr ⟨(by intro h; cases h), trivial⟩, fun _ => trivial⟩

theorem frees_reconcileInterruptedItems (onlyDeletions : Bool) :
    Frees (reconcileInterruptedItems onlyDeletions) := by
  have hone : ∀ item, Frees (reconcileItem item) := fun item => by
    unfold reconcileItem
    split
    case isTrue => exact .seq (frees_transitionItem _ _ _) fun _ => trivial
    case isFalse =>
      split
      case isTrue => exact .seq (frees_db rfl) fun _ => trivial
      case isFalse =>
        refine .seq ?_ fun awaiting => ?_
        · unfold awaitingClientUpload
          split
          case isTrue =>
            refine .seq (frees_db rfl) fun upload => ?_
            cases upload <;> trivial
          case isFalse => trivial
        · split
          case isTrue => trivial
          case isFalse => exact .seq (frees_transitionItem _ _ _) fun _ => trivial
  have hall : ∀ items, Frees (reconcileItems items) := fun items => by
    induction items with
    | nil => trivial
    | cons item rest ih => exact .seq (hone item) fun _ => .seq ih fun _ => trivial
  exact .seq (frees_db rfl) fun _ => hall _

end Contract

/-! ### Runs -/

/-- The worker marks a listed upload failed only where no bytes of it are left. -/
def withoutFile (settings : Settings) (w : World Host) : Phase → Bool
  | .failing uploadId _ => (w.ext.files (settings.uploadFile uploadId)).isNone
  | _ => true

namespace Phase

/-- Which uploads the worker still has to settle. -/
def Left (d : Db) : Phase → Prop
  | sealing pending => ∀ u ∈ d.uploads.rows, u.status = .sealing → u.id ∈ pending
  | failing uploadId pending => ∀ u ∈ d.uploads.rows, u.status = .sealing → u.id ∈ uploadId :: pending
  | reaping _ uploads => ∀ u ∈ d.uploads.rows, u.Settled ∨ u ∈ uploads
  | _ => True

def isStopped : Phase → Bool
  | stopped => true
  | _ => false

/-- The worker is about to reap at a time later than every expiry. -/
def late (d : Db) : Phase → Bool
  | reaping now _ => d.uploads.rows.all fun u => decide (u.expiresAt < now)
  | _ => false

end Phase

namespace Startup

variable {σ : Type} (X : ExtEnv σ) (settings : Settings) (G : World σ → Phase → Prop)

/-- A transaction of the API or of the worker, or a restart of the worker before its next one. -/
inductive Turn : World σ × Phase → World σ × Phase → Prop where
  | next {c c' : World σ × Phase} (h : Next X settings G c c') : Turn c c'
  | restart {w : World σ} {phase : Phase} : Turn (w, phase) (w, .stopped)

/-- The transactions of a worker, one after another, up to and with the reaping. -/
inductive Sweep : World σ × Phase → World σ → Prop where
  | step {w w' w'' : World σ} {phase : Phase} {r : Option (Except PyError Phase)} (hG : G w phase)
      (h : (transactions X).Ends (phase.run settings) w r w') (hon : (phase.next r).isStopped = false)
      (rest : Sweep (w', phase.next r) w'') : Sweep (w, phase) w''
  | reap {w w' : World σ} {phase next : Phase} (hG : G w phase) (hlate : phase.late w.db = true)
      (h : (transactions X).Ends (phase.run settings) w (some (.ok next)) w') : Sweep (w, phase) w'

end Startup

section Runs

variable {c : Crypto} {settings : Settings} {w w' : World Host} {phase : Phase}

theorem free_of_get (hi : w.Idle) {id : String} {u : FileProviderUpload}
    (hu : w.txn.uploads.get id = some u) (hs : u.status ≠ .failed) :
    w.Free settings (settings.uploadFile u.id) := by
  intro v hv hfail he
  have hmem : v ∈ w.txn.uploads.rows := hv.elim (fun hv => hi.txn ▸ hv) fun hv => hv
  have hid : v.id = u.id := uploadFile_injective he
  have hget := Table.get_of_mem hmem
  rw [hid, Table.get_of_mem (Table.mem_of_get hu)] at hget
  exact hs (Option.some.inj hget ▸ hfail)

theorem sealing_releasing (hi : w.Idle) {uploadId : String} {u : FileProviderUpload}
    (hu : w.txn.uploads.get uploadId = some u) :
    Releasing settings c (fun _ w' => w.Settles [uploadId] w') (sealUpload settings u) w := by
  have hid : u.id = uploadId := Table.key_of_get hu
  exact hid ▸ sealUpload_releasing fun hs => free_of_get hi hu (by simp [hs])

theorem api_releasing (hi : w.Idle) {p : Flow Unit} (hp : ApiCall settings p) :
    Releasing settings c (fun _ _ => True) p w := by
  cases hp with
  | createUpload request => exact (Prog.wp_void _).mpr (createUpload_releasing request)
  | appendUpload uploadId offset body broken =>
    refine (Prog.wp_void _).mpr (appendUpload_releasing offset body broken fun u hu hs => ?_)
    exact free_of_get hi hu (by simp [hs])
  | completeBegin uploadId => exact (Prog.wp_void _).mpr (completeBegin_releasing uploadId)
  | completeSeal uploadId =>
    simp only [completeSeal, Prog.wp_bind]
    refine (wp_db_ok rfl).mpr ⟨trivial, ?_⟩
    split
    case h_1 => trivial
    case h_2 u hu => exact (Prog.wp_bind _ _).mpr ((sealing_releasing hi hu).post fun _ _ _ => trivial)

theorem settles_left {uploadId : String} {pending : List String} (h : w.Settles [uploadId] w')
    (hl : ∀ u ∈ w.txn.uploads.rows, u.status = .sealing → u.id ∈ uploadId :: pending) :
    ∀ u ∈ w'.txn.uploads.rows, u.status = .sealing → u.id ∈ pending := by
  intro u hu hs
  rcases h u hu with hsettled | ⟨hu, hnot⟩
  · rcases hsettled with he | he <;> rw [hs] at he <;> cases he
  · have hne : u.id ≠ uploadId := fun he => hnot (List.mem_singleton.mpr he)
    exact List.mem_of_ne_of_mem hne (hl u hu hs)

theorem phase_releasing (hi : w.Idle) (hG : withoutFile settings w phase = true) :
    Releasing settings c (fun next w' => phase.Left w.txn → next.Left w'.txn) (phase.run settings) w := by
  unfold Phase.run
  split
  all_goals simp only [Prog.wp_bind, Prog.wp_pure]
  case h_1 => exact releasing_frees (frees_reconcileInterruptedItems false) fun _ _ _ _ => trivial
  case h_2 =>
    refine (Prog.wp_bind _ _).mpr ((wp_db_ok rfl).mpr ⟨trivial, fun _ u hu hs => ?_⟩)
    exact List.mem_map.mpr ⟨u, List.mem_filter.mpr ⟨hu, by simp [hs]⟩, rfl⟩
  case h_3 uploadId pending =>
    refine (Prog.wp_bind _ _).mpr ((wp_db_ok rfl).mpr ⟨trivial, ?_⟩)
    split
    case h_1 hnone => exact fun hl => settles_left (World.settles_of_get_none hnone) hl
    case h_2 u hu =>
      exact (Prog.wp_bind _ _).mpr ((sealing_releasing hi hu).post fun _ _ h hl => settles_left h hl)
  case h_4 uploadId pending =>
    have hnone : w.ext.files (settings.uploadFile uploadId) = none := by simpa [withoutFile] using hG
    exact (failSealing_releasing hnone).post fun _ _ h hl => settles_left h hl
  case h_5 =>
    refine releasing_ext (releases_of_frees rfl) fun now w₁ h₁ => (wp_db_ok rfl).mpr ⟨trivial, ?_⟩
    intro hl u hu
    rw [h₁.txn] at hu
    cases hs : u.status with
    | sealed => exact .inl (.inl hs)
    | failed => exact .inl (.inr hs)
    | openUpload => exact .inr (List.mem_filter.mpr ⟨h₁.txn ▸ hu, by simp [hs]⟩)
    | sealing => exact absurd (hl u hu hs) List.not_mem_nil
  case h_6 now uploads =>
    exact (reapUploads_releasing now uploads).post fun _ _ _ _ => trivial

theorem World.db_of_releases {o : Op} {a : o.Ans} (ho : Releases settings w o)
    (he : World.env (Host.env c) w o a w') : w'.db = w.db := by
  cases o with
  | ext o =>
    obtain ⟨x, _, _, rfl⟩ := he
    rfl
  | db o =>
    rw [(World.env_db.mp he).2]
    cases o with
    | commit => exact ho.elim
    | setUploadStatus _ _ | setReceivedSize _ _ =>
      simp only [World.dbStep, World.setUpload]
      split <;> rfl
    | addItem _ | addUpload _ | addFpItem _ | saveFpItem _ =>
      simp only [World.dbStep]
      split <;> rfl
    | _ => rfl

/-- A transaction leaves no file under a failed upload; it returns with what is known of its
result, or leaves the durable rows as they were. -/
theorem released_of_ends {α : Type} {p : Flow α} {Q : α → World Host → Prop}
    {r : Option (Except PyError α)} (h : (transactions (Host.env c)).Ends p w r w')
    (hp : Releasing settings c Q p w) (hw : w.Released settings) :
    w'.Released settings ∧ ((w'.db = w.db ∧ ∀ a, r ≠ some (.ok a)) ∨
      ∃ a t, r = some (.ok a) ∧ Q a t ∧ w' = t.commit) := by
  have hstep : ∀ w₁ o a w₂, Releases settings w₁ o → w₁.Released settings ∧ w₁.db = w.db →
      World.env (Host.env c) w₁ o a w₂ → w₂.Released settings ∧ w₂.db = w.db :=
    fun w₁ o a w₂ ho hI he => ⟨hI.1.step ho he, (World.db_of_releases ho he).trans hI.2⟩
  obtain ⟨t, ⟨ht, hdb⟩, hend⟩ := h.holds hp hstep ⟨hw, rfl⟩
  rcases hend with ⟨rfl, hnot⟩ | ⟨a, ha, hq, rfl⟩
  · refine ⟨fun path hp u hu => ht path hp u (.inl (hu.elim id id)), .inl ⟨hdb, hnot⟩⟩
  · exact ⟨fun path hp u hu => ht path hp u (.inr (hu.elim id id)), .inr ⟨a, t, ha, hq, rfl⟩⟩

theorem released_of_turn {c₁ c₂ : World Host × Phase} (hb : Between c₁) (h : c₁.1.Released settings)
    (hn : Startup.Turn (Host.env c) settings (fun w phase => withoutFile settings w phase = true) c₁ c₂) :
    Between c₂ ∧ c₂.1.Released settings := by
  cases hn with
  | restart => exact ⟨⟨hb.idle, hb.tidy, trivial⟩, h⟩
  | next hn =>
    refine ⟨between_next hb hn, ?_⟩
    cases hn with
    | api hp he => exact (released_of_ends he (api_releasing hb.idle hp) h).1
    | worker hG he => exact (released_of_ends he (phase_releasing hb.idle hG) h).1

/-- What the worker still has to settle, from one of its transactions to the next. -/
theorem left_next {r : Option (Except PyError Phase)} (hi : w.Idle)
    (hG : withoutFile settings w phase = true) (h : w.Released settings) (hl : phase.Left w.db)
    (he : (transactions (Host.env c)).Ends (phase.run settings) w r w')
    (hon : (phase.next r).isStopped = false) : (phase.next r).Left w'.db := by
  obtain ⟨-, ⟨hdb, hnot⟩ | ⟨next, t, rfl, hq, rfl⟩⟩ := released_of_ends he (phase_releasing hi hG) h
  · rw [hdb]
    match r with
    | none =>
      have hstopped : phase.next none = .stopped := by cases phase <;> rfl
      rw [hstopped] at hon
      cases hon
    | some (.ok next) => exact absurd rfl (hnot next)
    | some (.error e) =>
      match phase with
      | .sealing (uploadId :: pending) =>
        change (if Phase.caught e then Phase.failing uploadId pending else .stopped).Left w.db
        split
        · exact hl
        · trivial
      | .sealing [] | .stopped | .restarted | .failing _ _ | .reaping _ _ => trivial
  · have hnext : phase.next (some (.ok next)) = next := by cases phase <;> rfl
    rw [hnext]
    exact hq (hi.txn ▸ hl)

theorem settled_of_sweep {c₁ : World Host × Phase} (hb : Between c₁) (h : c₁.1.Released settings)
    (hl : c₁.2.Left c₁.1.db)
    (hs : Startup.Sweep (Host.env c) settings (fun w phase => withoutFile settings w phase = true) c₁ w') :
    w'.Released settings ∧ ∀ u ∈ w'.db.uploads.rows, u.Settled := by
  induction hs with
  | @step w w₁ w₂ phase r hG he hon rest ih =>
    have hn : Startup.Next (Host.env c) settings (fun w phase => withoutFile settings w phase = true)
        (w, phase) (w₁, phase.next r) := .worker hG he
    have hrel := (released_of_ends he (phase_releasing hb.idle hG) h).1
    exact ih (between_next hb hn) hrel (left_next hb.idle hG h hl he hon)
  | @reap w w' phase next hG hlate he =>
    cases phase with
    | reaping now uploads =>
      have hq : Releasing settings c (fun _ w' => w.Settles (expired now uploads) w')
          ((Phase.reaping now uploads).run settings) w := by
        simp only [Phase.run, Prog.wp_bind, Prog.wp_pure]
        exact reapUploads_releasing now uploads
      obtain ⟨hrel, ⟨-, hnot⟩ | ⟨_, t, -, hsettles, rfl⟩⟩ := released_of_ends he hq h
      · exact absurd rfl (hnot next)
      · refine ⟨hrel, fun u hu => (hsettles u hu).elim id fun hremoved => ?_⟩
        obtain ⟨hu, hnot⟩ := hremoved
        rw [hb.idle.txn] at hu
        have hexp : u.expiresAt < now := by simpa using List.all_eq_true.mp hlate u hu
        refine (hl u hu).resolve_right fun hm => hnot ?_
        exact List.mem_map.mpr ⟨u, List.mem_filter.mpr ⟨hm, by simpa using Int.le_of_lt hexp⟩, rfl⟩
    | _ => cases hlate

/-- In every order of the transactions of the API and of restarting workers, with crashes at any
point, in which the worker marks a listed upload failed only where no file of it is left: after
the worker has gone through its lists at a time later than every expiry, every upload is sealed
or failed, and no file of a failed upload is left. -/
theorem uploads_released {x : Host}
    (hr : Relation.ReflTransGen (Startup.Turn (Host.env c) settings
      fun w phase => withoutFile settings w phase = true) (World.fresh x, .stopped) (w, .stopped))
    (hs : Startup.Sweep (Host.env c) settings (fun w phase => withoutFile settings w phase = true)
      (w, .stopped) w') :
    ∀ u ∈ w'.db.uploads.rows, (u.status = .sealed ∨ u.status = .failed) ∧
      (u.status = .failed → w'.ext.files (settings.uploadFile u.id) = none) := by
  have hfresh : (World.fresh x).Released settings := by
    intro path _ u hu
    rcases hu with hu | hu <;> exact absurd hu List.not_mem_nil
  have hreach : Between (w, Phase.stopped) ∧ w.Released settings := by
    generalize hc : (w, Phase.stopped) = c₁ at hr
    have hall : Between c₁ ∧ c₁.1.Released settings := by
      clear hc
      induction hr with
      | refl => exact ⟨between_fresh x, hfresh⟩
      | tail _ hn ih => exact released_of_turn ih.1 ih.2 hn
    subst hc
    exact hall
  obtain ⟨hrel, hsettled⟩ := settled_of_sweep hreach.1 hreach.2 trivial hs
  intro u hu
  refine ⟨hsettled u hu, fun hfail => ?_⟩
  by_contra hsome
  exact hrel _ (Option.isSome_iff_ne_none.mpr hsome) u (.inl hu) hfail rfl

end Runs

/-! ### On the host -/

/-- Two days later. -/
def later (h : Host) : Host := { h with now := h.now + hours 48 }

theorem Host.drift_later (h : Host) : h.Drift (later h) := ⟨rfl, rfl, rfl, rfl, rfl⟩

/-- The next transaction of a worker that starts two days later. -/
def lateStep (c : World Host × Phase) : World Host × Phase :=
  let r := (transactions (Host.env .plain)).outcome (World.onHost .plain later) (c.2.run plainSettings) c.1
  (r.2, c.2.next (some r.1))

section Late

variable {G : World Host → Phase → Prop} {c : World Host × Phase} {w' : World Host}

theorem ends_lateStep (c : World Host × Phase) :
    (transactions (Host.env .plain)).Ends (c.2.run plainSettings) c.1
      (some ((transactions (Host.env .plain)).outcome (World.onHost .plain later)
        (c.2.run plainSettings) c.1).1) (lateStep c).1 :=
  Transactions.ends_outcome (M := transactions (Host.env .plain)) (onHost_env Host.drift_later) _ c.1

theorem sweep_lateStep (hG : G c.1 c.2) (hon : (lateStep c).2.isStopped = false)
    (rest : Startup.Sweep (Host.env .plain) plainSettings G (lateStep c) w') :
    Startup.Sweep (Host.env .plain) plainSettings G c w' :=
  .step hG (ends_lateStep c) hon rest

theorem sweep_reaped (hG : G c.1 c.2) (hlate : c.2.late c.1.db = true)
    (hok : ((transactions (Host.env .plain)).outcome (World.onHost .plain later)
      (c.2.run plainSettings) c.1).1.toOption.isSome = true) :
    Startup.Sweep (Host.env .plain) plainSettings G c (lateStep c).1 := by
  have hends := ends_lateStep c
  revert hok hends
  generalize ((transactions (Host.env .plain)).outcome (World.onHost .plain later)
    (c.2.run plainSettings) c.1).1 = r
  intro hok hends
  cases r with
  | error e => cases hok
  | ok next => exact .reap hG hlate hends

end Late

theorem turns_of_run {G : World Host → Phase → Prop} {c c' : World Host × Phase}
    (h : Startup.Run (Host.env .plain) plainSettings G c c') :
    Relation.ReflTransGen (Startup.Turn (Host.env .plain) plainSettings G) c c' := by
  induction h with
  | refl => exact .refl
  | tail _ hn ih => exact ih.tail (.next hn)

/-- One upload, of which one byte has arrived. -/
def received : World Host × Phase :=
  apiStep (apiStep (World.fresh (Host.start []), .stopped)
    (createUpload plainSettings { name := "f", size := 2 }).void)
    (appendUpload plainSettings "1" 0 [[7]] none).void

theorem run_received {G : World Host → Phase → Prop} :
    Startup.Run (Host.env .plain) plainSettings G (World.fresh (Host.start []), .stopped) received :=
  run_apiStep (run_apiStep .refl (.createUpload _)) (.appendUpload _ _ _ _)

theorem uploads_released_received : ∃ w' : World Host, (∃ u ∈ w'.db.uploads.rows, u.status = .failed) ∧
    ∀ u ∈ w'.db.uploads.rows, (u.status = .sealed ∨ u.status = .failed) ∧
      (u.status = .failed → w'.ext.files (plainSettings.uploadFile u.id) = none) := by
  refine ⟨(lateStep (lateStep (lateStep (lateStep received)))).1, by decide +kernel,
    uploads_released (turns_of_run run_received) ?_⟩
  refine sweep_lateStep (c := received) ?_ ?_ (sweep_lateStep ?_ ?_ (sweep_lateStep ?_ ?_ (sweep_reaped ?_ ?_ ?_)))
  all_goals decide +kernel

/-- One upload of one byte with another digest than was declared, about to be sealed. -/
def mismatched : World Host × Phase :=
  let sha := String.ofList (List.replicate 64 '0')
  let c := apiStep (World.fresh (Host.start []), .stopped)
    (createUpload plainSettings { name := "f", size := 1, sha256 := some sha }).void
  let c := apiStep c (appendUpload plainSettings "1" 0 [[7]] none).void
  apiStep (apiStep c (completeBegin "1").void) (completeSeal plainSettings "1")

theorem run_mismatched {G : World Host → Phase → Prop} :
    Startup.Run (Host.env .plain) plainSettings G (World.fresh (Host.start []), .stopped) mismatched :=
  run_apiStep (run_apiStep (run_apiStep (run_apiStep .refl (.createUpload _)) (.appendUpload _ _ _ _))
    (.completeBegin _)) (.completeSeal _)

/-- The seal fails, the worker marks the upload failed, and its byte stays. -/
theorem failed_upload_keeps_file : ∃ (w w' : World Host) (u : FileProviderUpload),
    Relation.ReflTransGen (Startup.Turn (Host.env .plain) plainSettings fun _ _ => True)
      (World.fresh (Host.start []), .stopped) (w, .stopped) ∧
    Startup.Sweep (Host.env .plain) plainSettings (fun _ _ => True) (w, .stopped) w' ∧
    u ∈ w'.db.uploads.rows ∧ u.status = .failed ∧
    w'.ext.files (plainSettings.uploadFile u.id) = some [7] := by
  obtain ⟨u, hu, hfail, hfile⟩ : ∃ u ∈ (lateStep (lateStep (lateStep (lateStep (lateStep (lateStep
      mismatched)))))).1.db.uploads.rows, u.status = .failed ∧
      (lateStep (lateStep (lateStep (lateStep (lateStep (lateStep mismatched)))))).1.ext.files
        (plainSettings.uploadFile u.id) = some [7] := by
    decide +kernel
  refine ⟨mismatched.1, _, u, turns_of_run run_mismatched, ?_, hu, hfail, hfile⟩
  refine sweep_lateStep (c := mismatched) trivial ?_ (sweep_lateStep trivial ?_ (sweep_lateStep trivial ?_
    (sweep_lateStep trivial ?_ (sweep_lateStep trivial ?_ (sweep_reaped trivial ?_ ?_)))))
  all_goals decide +kernel

end Mnema
