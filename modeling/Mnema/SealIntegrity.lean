import Mnema.HostFiles
import Mnema.SealedUploads

/-! What `seal_upload` does with the two files an upload may have: the one its bytes arrived
in and the staged one. -/

namespace Mnema

namespace Db

def withUpload (d : Db) (id : String) (f : FileProviderUpload → FileProviderUpload) : Db :=
  match d.uploads.get id with
  | some u => { d with uploads := d.uploads.put (f u) }
  | none => d

/-- `record_change` where the item is there. -/
def withChange (d : Db) (item : FileProviderItem) (now : Time) : Db :=
  { d with
    changes := d.changes ++ [⟨d.newSequence, item.id, "UPSERT"⟩]
    fpItems := d.fpItems.put { item with metadataVersion := d.newSequence, modifiedAt := now } }

/-- `enqueue`, for the job that archives an upload. -/
def withArchiveJob (d : Db) (archiveItemId : Nat) (itemId uploadId : String) (now : Time) : Db :=
  match d.jobs.first fun j => j.idempotencyKey == "file-provider-upload:" ++ uploadId with
  | some _ => d
  | none =>
    let job : Job :=
      { id := d.newJobId, kind := "archive_upload", adapter := "file_provider",
        payload := ⟨archiveItemId, itemId⟩,
        idempotencyKey := "file-provider-upload:" ++ uploadId, availableAt := now }
    { d with jobs := d.jobs.insert job }

/-- `transition_item`. -/
def withTransition (d : Db) (item : ArchiveItem) (target : ArchiveState) (actor : String) : Db :=
  { d with
    items := d.items.put { item with state := target }
    events := d.events ++ [⟨item.id, "state_transition", item.state, target, actor⟩] }

theorem fpTaken_congr {d d' : Db} {row r : FileProviderItem} (hid : r.id = row.id)
    (hp : r.parentId = row.parentId) (hn : r.name = row.name)
    (ha : r.archiveItemId = row.archiveItemId) (hd : d'.fpItems = d.fpItems) :
    d'.fpTaken r = d.fpTaken row := by
  unfold fpTaken
  rw [hd, hid, hp, hn, ha]

theorem fpTaken_put {d : Db} {row r : FileProviderItem} (hid : r.id = row.id)
    (hp : r.parentId = row.parentId) (hn : r.name = row.name)
    (ha : r.archiveItemId = row.archiveItemId) {d' : Db} (hd : d'.fpItems = d.fpItems.put row) :
    d'.fpTaken r = d.fpTaken row := by
  unfold fpTaken
  rw [hd, Table.put, List.any_map, hid, hp, hn, ha]
  refine List.any_congr rfl fun x => ?_
  by_cases hx : x.id = row.id
  · simp [hx]
  · simp [hx]

end Db

section Rows

variable {α β : Type} {c : Crypto} {w : World Host} {s : Store Path Bytes} {m : Option Path}
  {d : Db} {E : PyError → World Host → Prop} {P : Prop}

theorem World.txn_setUpload (w : World Host) (id : String)
    (f : FileProviderUpload → FileProviderUpload) :
    (w.setUpload id f).txn = w.txn.withUpload id f ∧ (w.setUpload id f).ext = w.ext := by
  unfold World.setUpload Db.withUpload
  cases w.txn.uploads.get id with
  | none => exact ⟨rfl, rfl⟩
  | some u => exact ⟨rfl, rfl⟩

theorem performs_transitionItem {item : ArchiveItem} {target : ArchiveState} {actor : String}
    {f : ArchiveItem → Flow β} {Q : β → World Host → Prop} (hw : w.Has s m d)
    (hfail : validTransition item.state target = false → ∀ e, (E e w ↔ P))
    (hnext : validTransition item.state target = true →
      ∀ w', w'.Has s m (d.withTransition item target actor) →
      (Performs c (f { item with state := target }) Q E w' ↔ P)) :
    Performs c (transitionItem item target actor >>= f) Q E w ↔ P := by
  refine performs_bind.trans (wp_transitionItem.trans ?_)
  cases hv : validTransition item.state target with
  | false => simpa using hfail hv _
  | true =>
    have hw' : (w.flush { item with state := target }
        ⟨item.id, "state_transition", item.state, target, actor⟩).Has s m
        (d.withTransition item target actor) :=
      ⟨hw.files, hw.writing, by rw [← hw.txn]; rfl⟩
    simpa using hnext hv _ hw'

theorem performs_setUploadStatus {id : String} {status : FileProviderUploadStatus}
    {f : Unit → Flow β} {Q : β → World Host → Prop} (hw : w.Has s m d)
    (hnext : ∀ w', w'.Has s m (d.withUpload id fun u => { u with status := status }) →
      (Performs c (f ()) Q E w' ↔ P)) :
    Performs c (db (.setUploadStatus id status) >>= f) Q E w ↔ P := by
  refine performs_db hw (fun w hd => ⟨rfl, ?_⟩) hnext
  exact hd ▸ w.txn_setUpload id _

theorem performs_saveFpItem {row : FileProviderItem} {f : Unit → Flow β} {Q : β → World Host → Prop}
    (hw : w.Has s m d) (hfree : d.fpTaken row = false)
    (hnext : ∀ w', w'.Has s m { d with fpItems := d.fpItems.put row } →
      (Performs c (f ()) Q E w' ↔ P)) : Performs c (db (.saveFpItem row) >>= f) Q E w ↔ P :=
  performs_db hw (fun w hd => by simp [World.dbStep, hd, hfree]) hnext

theorem performs_saveFpItem_taken {row : FileProviderItem} {f : Unit → Flow β}
    {Q : β → World Host → Prop} (hw : w.Has s m d) (htaken : d.fpTaken row = true)
    (hfail : ∀ e w', w'.Has s m d → (E e w' ↔ P)) :
    Performs c (db (.saveFpItem row) >>= f) Q E w ↔ P :=
  performs_db_error hw (fun w hd => by simp [World.dbStep, hd, htaken]; rfl) (hfail _)

theorem performs_addChange {id : String} {f : Nat → Flow β} {Q : β → World Host → Prop}
    (hw : w.Has s m d)
    (hnext : ∀ w', w'.Has s m { d with changes := d.changes ++ [⟨d.newSequence, id, "UPSERT"⟩] } →
      (Performs c (f d.newSequence) Q E w' ↔ P)) :
    Performs c (db (.addChange id "UPSERT") >>= f) Q E w ↔ P :=
  performs_db hw (fun w hd => by simp [World.dbStep, hd]) hnext

theorem performs_recordChange (item : FileProviderItem) {f : Unit → Flow β} {Q : β → World Host → Prop}
    (hw : w.Has s m d) (hitem : d.fpItems.get item.id = some item) (hfree : d.fpTaken item = false)
    (hnext : ∀ now w', w'.Has s m (d.withChange item now) → (Performs c (f ()) Q E w' ↔ P)) :
    Performs c (recordChange item.id >>= f) Q E w ↔ P := by
  unfold recordChange
  refine performs_bind.trans (performs_addChange hw fun w hw => ?_)
  refine performs_query (a := some item) hw (fun w hd => by simp [World.dbStep, hd, hitem]) fun w hw => ?_
  change Performs c (ext .utcnow >>= _) _ _ _ ↔ _
  refine performs_utcnow hw fun now w hw => ?_
  have hfree' : ({ d with changes := d.changes ++ [⟨d.newSequence, item.id, "UPSERT"⟩] } : Db).fpTaken
      { item with metadataVersion := d.newSequence, modifiedAt := now } = false := hfree
  have hstep : w.dbStep (.saveFpItem { item with metadataVersion := d.newSequence, modifiedAt := now }) =
      (.ok (), w.setTxn (d.withChange item now)) := by
    simp [World.dbStep, hw.txn, hfree', Db.withChange]
  refine (wp_db_ok hstep).trans ?_
  rw [true_and]
  exact hnext now _ ⟨hw.files, hw.writing, rfl⟩

theorem performs_enqueueArchive {archiveItemId : Nat} {itemId uploadId : String} {f : Unit → Flow β}
    {Q : β → World Host → Prop} (hw : w.Has s m d)
    (hnext : ∀ now w', w'.Has s m (d.withArchiveJob archiveItemId itemId uploadId now) →
      (Performs c (f ()) Q E w' ↔ P)) :
    Performs c (enqueueArchive archiveItemId itemId uploadId >>= f) Q E w ↔ P := by
  unfold enqueueArchive
  refine performs_bind.trans ?_
  refine performs_query (a := d.jobs.first fun j => j.idempotencyKey == "file-provider-upload:" ++ uploadId)
    hw (fun w hd => by simp [World.dbStep, hd]) fun w hw => ?_
  unfold Db.withArchiveJob at hnext
  cases hj : d.jobs.first fun j => j.idempotencyKey == "file-provider-upload:" ++ uploadId with
  | some job =>
    simp only [hj] at hnext
    exact hnext 0 w hw
  | none =>
    simp only [hj] at hnext
    change Performs c (ext .utcnow >>= _) _ _ _ ↔ _
    refine performs_utcnow hw fun now w hw => ?_
    refine performs_bind.trans ((wp_db_ok rfl).trans ?_)
    rw [true_and]
    exact hnext now _ ⟨hw.files, hw.writing, by simp [hw.txn]⟩

/-! ### The files -/

/-- The files once an empty upload has one of its own. -/
def filled (s : Store Path Bytes) (source : Path) (expectedSize : Nat) : Store Path Bytes :=
  if expectedSize = 0 then s.putNew source [] else s

theorem performs_createIfEmpty {source : Path} {expectedSize : Nat} {f : Unit → Flow β}
    {Q : β → World Host → Prop} (hw : w.Has s m d)
    (hnext : ∀ w', w'.Has (filled s source expectedSize) m d → (Performs c (f ()) Q E w' ↔ P)) :
    Performs c (createIfEmpty source expectedSize >>= f) Q E w ↔ P := by
  refine performs_bind.trans ?_
  unfold createIfEmpty
  unfold filled Store.putNew at hnext
  by_cases hn : expectedSize = 0
  · rw [if_pos hn] at hnext ⊢
    refine performs_look (a := (s source).isSome) hw (fun h hs => by rw [← hs]; rfl) fun w hw => ?_
    cases hs : (s source).isSome with
    | true =>
      rw [hs, if_pos rfl] at hnext
      exact hnext w hw
    | false =>
      rw [hs, if_neg Bool.false_ne_true] at hnext
      refine performs_ext (o := .createEmpty source) hw (fun h hs hm => ⟨_, rfl, ?_, hm⟩) hnext
      rw [hs]
  · rw [if_neg hn] at hnext ⊢
    exact hnext w hw

/-- The file that is there under either name, the first by preference. -/
def candidateFile (s : Store Path Bytes) (source destination : Path) : Path :=
  if (s source).isSome then source else destination

theorem performs_sealCandidate {source destination : Path} {f : Path → Flow β}
    {Q : β → World Host → Prop} (hw : w.Has s m d)
    (hnext : ∀ w', w'.Has s m d → (Performs c (f (candidateFile s source destination)) Q E w' ↔ P)) :
    Performs c (sealCandidate source destination >>= f) Q E w ↔ P := by
  refine performs_bind.trans ?_
  unfold sealCandidate
  unfold candidateFile at hnext
  refine performs_look (a := (s source).isSome) hw (fun h hs => by rw [← hs]; rfl) fun w hw => ?_
  cases hs : (s source).isSome <;> rw [hs] at hnext <;> exact hnext w hw

/-- A file of the expected size is there. -/
def complete (s : Store Path Bytes) (candidate : Path) (expectedSize : Nat) : Bool :=
  (s candidate).any fun b => b.length == expectedSize

theorem performs_incomplete {candidate : Path} {expectedSize : Nat} {f : Bool → Flow β}
    {Q : β → World Host → Prop} (hw : w.Has s m d)
    (hnext : ∀ w', w'.Has s m d → (Performs c (f (!complete s candidate expectedSize)) Q E w' ↔ P)) :
    Performs c (incomplete candidate expectedSize >>= f) Q E w ↔ P := by
  refine performs_bind.trans ?_
  unfold incomplete notRegular
  unfold complete at hnext
  refine performs_bind.trans ?_
  refine performs_look (o := .isSymlink candidate) hw (fun h _ => rfl) fun w hw => ?_
  change Performs c (ext (.isFile candidate) >>= fun r => pure !r) _ _ _ ↔ _
  refine performs_look (a := (s candidate).isSome) hw (fun h hs => by rw [← hs]; rfl) fun w hw => ?_
  cases hs : s candidate with
  | none =>
    rw [hs] at hnext
    exact hnext w hw
  | some b =>
    rw [hs] at hnext
    change Performs c (ext (.fileSize candidate) >>= _) _ _ _ ↔ _
    exact performs_fileSize hw hs fun w hw => hnext w hw

/-- The staged file is in place: moved there, or there already. -/
def staged (s : Store Path Bytes) (source destination : Path) (b : Bytes) : Store Path Bytes :=
  if (s destination).isSome then s.erase source else (s.erase source).put destination b

theorem performs_stageUpload {source destination : Path} {expectedSize : Nat} {b : Bytes}
    {f : Unit → Flow β} {Q : β → World Host → Prop} (hw : w.Has s m d)
    (hb : s (candidateFile s source destination) = some b)
    (hfail : (∃ b', s destination = some b' ∧ b'.length ≠ expectedSize) →
      ∀ e w', w'.Has s m d → (E e w' ↔ P))
    (hnext : (∀ b', s destination = some b' → b'.length = expectedSize) →
      ∀ w', w'.Has (staged s source destination b) m d → (Performs c (f ()) Q E w' ↔ P)) :
    Performs c (stageUpload source destination expectedSize >>= f) Q E w ↔ P := by
  refine performs_bind.trans ?_
  unfold stageUpload
  unfold staged at hnext
  refine performs_look (o := .mkdir _) hw (fun h _ => rfl) fun w hw => ?_
  refine performs_look (a := (s destination).isSome) hw (fun h hs => by rw [← hs]; rfl) fun w hw => ?_
  cases hd : s destination with
  | none =>
    have hsource : s source = some b := by
      unfold candidateFile at hb
      split at hb
      case isTrue => exact hb
      case isFalse => simp [hd] at hb
    rw [hd, if_neg (by simp)] at hnext
    change Performs c (ext (.replace source destination) >>= _) _ _ _ ↔ _
    refine performs_bind.trans (performs_replace hw hsource fun w hw => ?_)
    refine performs_ext (o := .fsyncDirectory _) hw (fun h hs hm => ⟨h, rfl, hs, hm⟩) ?_
    exact hnext fun b' hb' => by simp at hb'
  | some b' =>
    rw [hd, if_pos (by simp)] at hnext
    change Performs c ((ext (.isSymlink destination) >>= _) >>= _) _ _ _ ↔ _
    refine performs_bind.trans ?_
    refine performs_look (o := .isSymlink destination) hw (fun h _ => rfl) fun w hw => ?_
    change Performs c (ext (.fileSize destination) >>= _) _ _ _ ↔ _
    refine performs_fileSize hw hd fun w hw => ?_
    refine performs_raiseIf (fun hne => ?_) fun heq => ?_
    · exact hfail ⟨b', hd, by simpa using hne⟩ _ w hw
    · refine performs_unlink hw (hnext fun x hx => ?_)
      rw [← Option.some.inj hx]
      simpa using heq

end Rows

/-! ### The call -/

/-- The digest and the files that a sealing arrives at, where the checks of the files pass. -/
def sealFiles (c : Crypto) (settings : Settings) (upload : FileProviderUpload)
    (s : Store Path Bytes) : Option (Digest × Store Path Bytes) :=
  let source := settings.uploadFile upload.id
  let destination := partialPath settings.stagingRoot upload.archiveItemId
  let s := filled s source upload.expectedSize
  match s (candidateFile s source destination) with
  | none => none
  | some b =>
    if b.length == upload.expectedSize && !upload.expectedSha256.any (· != c.sha256 b) &&
        (s destination).all (·.length == upload.expectedSize) then
      some (c.sha256 b, staged s source destination b)
    else none

/-- The row, the digest and the files with which a sealing turns to the database. -/
def sealStart (c : Crypto) (settings : Settings) (upload : FileProviderUpload)
    (s : Store Path Bytes) (d : Db) : Option (ArchiveItem × Digest × Store Path Bytes) :=
  if settings.admits upload.id && upload.status == .sealing then
    match d.items.get upload.archiveItemId with
    | none => none
    | some row => (sealFiles c settings upload s).map fun r => (row, r.1, r.2)
  else none

/-- The database lets the sealing through. -/
def sealsOn (d : Db) (upload : FileProviderUpload) (row : ArchiveItem) : Bool :=
  validTransition row.state .localStaged &&
    (d.fpItems.get upload.itemId).any fun item => !d.fpTaken item

/-- The rows after a sealing, with the time of the job and that of the change. -/
def Db.sealedBy (d : Db) (upload : FileProviderUpload) (row : ArchiveItem) (sha : Digest)
    (item : FileProviderItem) (queued changed : Time) : Db :=
  let d := d.withTransition { row with plaintextSha256 := some sha } .localStaged "file-provider"
  let d := d.withUpload upload.id fun u => { u with status := .sealed }
  let d := { d with fpItems := d.fpItems.put { item with contentVersion := sha } }
  (d.withArchiveJob row.id item.id upload.id queued).withChange
    { item with contentVersion := sha } changed

section Seal

variable {α β : Type} {c : Crypto} {w : World Host} {s : Store Path Bytes} {m : Option Path}
  {d : Db} {E : PyError → World Host → Prop} {P : Prop} {settings : Settings}
  {upload : FileProviderUpload} {Q : ArchiveItem → World Host → Prop}

@[simp] theorem fpItems_withUpload (d : Db) (id : String)
    (f : FileProviderUpload → FileProviderUpload) : (d.withUpload id f).fpItems = d.fpItems := by
  unfold Db.withUpload
  split <;> rfl

@[simp] theorem fpItems_withArchiveJob (d : Db) (archiveItemId : Nat) (itemId uploadId : String)
    (now : Time) : (d.withArchiveJob archiveItemId itemId uploadId now).fpItems = d.fpItems := by
  unfold Db.withArchiveJob
  split <;> rfl

/-- What follows the move of the file. -/
theorem performs_sealRows {row : ArchiveItem} {sha : Digest} (hw : w.Has s m d)
    (hraised : sealsOn d upload row = false → ∀ e w', w'.ext.files = s → (E e w' ↔ P))
    (hsealed : sealsOn d upload row = true → ∀ item queued changed w',
      d.fpItems.get upload.itemId = some item →
      w'.Has s m (d.sealedBy upload row sha item queued changed) →
      (Q { row with plaintextSha256 := some sha, state := .localStaged } w' ↔ P)) :
    Performs c (do
      let archive ← transitionItem { row with plaintextSha256 := some sha } .localStaged "file-provider"
      db (.setUploadStatus upload.id .sealed)
      match ← db (.getFpItem upload.itemId) with
      | none => throw (.runtime "File Provider item is missing")
      | some item => do
        db (.saveFpItem { item with contentVersion := sha })
        enqueueArchive archive.id item.id upload.id
        recordChange item.id
        pure archive) Q E w ↔ P := by
  refine performs_transitionItem hw (fun hv e => hraised ?_ e w hw.files) fun hv w hw => ?_
  · simp [sealsOn, hv]
  refine performs_setUploadStatus hw fun w hw => ?_
  have hfp : ((d.withTransition { row with plaintextSha256 := some sha } .localStaged
      "file-provider").withUpload upload.id fun u => { u with status := .sealed }).fpItems =
      d.fpItems := fpItems_withUpload _ _ _
  refine performs_query (a := d.fpItems.get upload.itemId) hw (fun w hd => ?_) fun w hw => ?_
  · rw [← hfp]
    simp [World.dbStep, hd]
  cases hitem : d.fpItems.get upload.itemId with
  | none => exact hraised (by simp [sealsOn, hitem]) _ w hw.files
  | some item =>
    have hid : item.id = upload.itemId := Table.key_of_get hitem
    change Performs c (db (.saveFpItem { item with contentVersion := sha }) >>= _) _ _ _ ↔ _
    have hversion : d.fpTaken { item with contentVersion := sha } = d.fpTaken item := rfl
    have hsame := (Db.fpTaken_congr rfl rfl rfl rfl hfp).trans hversion
    cases hfree : d.fpTaken item with
    | true =>
      refine performs_saveFpItem_taken hw (hsame.trans hfree) fun e w hw => hraised ?_ e w hw.files
      simp [sealsOn, hitem, hfree]
    | false =>
      replace hsame := hsame.trans hfree
      refine performs_saveFpItem hw hsame fun w hw => ?_
      refine performs_enqueueArchive hw fun queued w hw => ?_
      have hget : (((d.withTransition { row with plaintextSha256 := some sha } .localStaged
          "file-provider").withUpload upload.id fun u => { u with status := .sealed }).fpItems.put
          { item with contentVersion := sha }).get item.id = some { item with contentVersion := sha } := by
        rw [hfp]
        exact Table.get_put_self (r := { item with contentVersion := sha }) (hid ▸ hitem)
      refine performs_recordChange { item with contentVersion := sha } hw ?_ ?_ fun changed w hw => ?_
      · rw [fpItems_withArchiveJob]
        exact hget
      · rw [Db.fpTaken_congr rfl rfl rfl rfl (fpItems_withArchiveJob _ _ _ _ _)]
        exact (Db.fpTaken_put rfl rfl rfl rfl rfl).trans hsame
      · exact hsealed (by simp [sealsOn, hv, hitem, hfree]) item queued changed w hitem hw

/-- `seal_upload` either is refused before it touches the upload file, or moves it and is then
let through by the database or not. -/
theorem performs_sealUpload (hw : w.Has s m d)
    (hrefused : sealStart c settings upload s d = none → ∀ e w' s',
      s' = s ∨ s' = filled s (settings.uploadFile upload.id) upload.expectedSize →
      w'.Has s' m d → (E e w' ↔ P))
    (hraised : ∀ row sha s', sealStart c settings upload s d = some (row, sha, s') →
      sealsOn d upload row = false → ∀ e w', w'.ext.files = s' → (E e w' ↔ P))
    (hsealed : ∀ row sha s', sealStart c settings upload s d = some (row, sha, s') →
      sealsOn d upload row = true → ∀ item queued changed w',
      d.fpItems.get upload.itemId = some item →
      w'.Has s' m (d.sealedBy upload row sha item queued changed) →
      (Q { row with plaintextSha256 := some sha, state := .localStaged } w' ↔ P)) :
    Performs c (sealUpload settings upload) Q E w ↔ P := by
  unfold sealUpload
  refine performs_uploadPath hw (fun ha text w hw => ?_) fun ha w hw => ?_
  · exact hrefused (by simp [sealStart, ha]) _ w s (.inl rfl) hw
  refine performs_raiseIf (fun hs => ?_) fun hs => ?_
  · replace hs : upload.status ≠ .sealing := by simpa using hs
    exact hrefused (by simp [sealStart, hs]) _ w s (.inl rfl) hw
  replace hs : upload.status = .sealing := by simpa using hs
  refine performs_query (a := d.items.get upload.archiveItemId) hw (fun w hd => ?_) fun w hw => ?_
  · simp [World.dbStep, hd]
  cases hrow : d.items.get upload.archiveItemId with
  | none => exact hrefused (by simp [sealStart, hrow]) _ w s (.inl rfl) hw
  | some row =>
    have hid : row.id = upload.archiveItemId := Table.key_of_get hrow
    have hstart : sealStart c settings upload s d =
        (sealFiles c settings upload s).map fun r => (row, r.1, r.2) := by
      simp [sealStart, ha, hs, hrow]
    change Performs c (createIfEmpty (settings.uploadFile upload.id) upload.expectedSize >>= _) _ _ _ ↔ _
    refine performs_createIfEmpty hw fun w hw => ?_
    refine performs_sealCandidate hw fun w hw => ?_
    refine performs_incomplete hw fun w hw => ?_
    generalize hsource : settings.uploadFile upload.id = source at *
    generalize hdest : partialPath settings.stagingRoot row.id = destination at *
    have hfiles : sealFiles c settings upload s = match filled s source upload.expectedSize
        (candidateFile (filled s source upload.expectedSize) source destination) with
      | none => none
      | some b =>
        if b.length == upload.expectedSize && !upload.expectedSha256.any (· != c.sha256 b) &&
            (filled s source upload.expectedSize destination).all (·.length == upload.expectedSize) then
          some (c.sha256 b, staged (filled s source upload.expectedSize) source destination b)
        else none := by
      rw [← hsource, ← hdest, hid]
      rfl
    generalize filled s source upload.expectedSize = s₁ at *
    cases hb : s₁ (candidateFile s₁ source destination) with
    | none =>
      rw [complete, hb]
      simp only [hb] at hfiles
      exact hrefused (by rw [hstart, hfiles]; rfl) _ w s₁ (.inr rfl) hw
    | some b =>
      simp only [hb] at hfiles
      rw [complete, hb]
      refine performs_raiseIf (fun hl => ?_) fun hl => ?_
      · have hl' : (b.length == upload.expectedSize) = false := by simpa using hl
        refine hrefused ?_ _ w s₁ (.inr rfl) hw
        rw [hstart, hfiles, hl']
        rfl
      have hl' : (b.length == upload.expectedSize) = true := by simpa using hl
      refine performs_sha256File hw hb fun w hw => ?_
      refine performs_raiseIf (fun hsha => ?_) fun hsha => ?_
      · refine hrefused ?_ _ w s₁ (.inr rfl) hw
        rw [hstart, hfiles, hsha, hl']
        rfl
      rw [hl', hsha] at hfiles
      refine performs_stageUpload hw hb (fun hfail e w hw => ?_) fun hall w hw => ?_
      · obtain ⟨b', hb', hne⟩ := hfail
        refine hrefused ?_ e w s₁ (.inr rfl) hw
        rw [hstart, hfiles, hb']
        simp [hne]
      · have hdone : sealStart c settings upload s d =
            some (row, c.sha256 b, staged s₁ source destination b) := by
          rw [hstart, hfiles]
          cases hd : s₁ destination with
          | none => simp
          | some b' => simp [hall b' hd]
        exact performs_sealRows hw (hraised _ _ _ hdone) (hsealed _ _ _ hdone)

/-! ### Integrity -/

/-- The staging file is whole, with the digest that is recorded and the one that was declared. -/
structure SealedWhole (c : Crypto) (settings : Settings) (upload : FileProviderUpload)
    (w : World Host) (b : Bytes) (row : ArchiveItem) : Prop where
  file : w.ext.files (partialPath settings.stagingRoot upload.archiveItemId) = some b
  size : b.length = upload.expectedSize
  stored : w.txn.items.get upload.archiveItemId = some row
  recorded : row.plaintextSha256 = some (c.sha256 b)
  declared : ∀ sha, upload.expectedSha256 = some sha → c.sha256 b = sha

/-- The bytes of the upload file are there in one of the two places. -/
def KeepsBytes (settings : Settings) (upload : FileProviderUpload) (s s' : Store Path Bytes) : Prop :=
  ∀ b, s (settings.uploadFile upload.id) = some b →
    s' (settings.uploadFile upload.id) = some b ∨
      s' (partialPath settings.stagingRoot upload.archiveItemId) = some b

/-- Where both files are there and pass the checks, they agree: on the digest if the sealing
goes through, byte by byte if the database stops it. -/
def FilesAgree (c : Crypto) (settings : Settings) (upload : FileProviderUpload) (s : Store Path Bytes)
    (d : Db) : Prop :=
  ∀ b b' row, s (settings.uploadFile upload.id) = some b →
    s (partialPath settings.stagingRoot upload.archiveItemId) = some b' →
    settings.admits upload.id = true → upload.status = .sealing →
    d.items.get upload.archiveItemId = some row →
    b.length = upload.expectedSize → b'.length = upload.expectedSize →
    (∀ sha, upload.expectedSha256 = some sha → c.sha256 b = sha) →
    if sealsOn d upload row then c.sha256 b' = c.sha256 b else b' = b

theorem uploadFile_ne_partialPath (settings : Settings) (uploadId : String) (root : Path) (id : Nat) :
    settings.uploadFile uploadId ≠ partialPath root id := by
  intro h
  have hname : uploadId ++ ".upload" = toString id ++ ".partial" :=
    List.singleton_injective (List.append_inj_right' h rfl)
  have hlast := congrArg (fun s : String => s.toList.getLast?) hname
  simp at hlast

theorem filled_of_some {source : Path} {b : Bytes} (h : s source = some b) (n : Nat) :
    filled s source n = s := by
  simp [filled, Store.putNew, h]

theorem filled_of_ne {source q : Path} (h : q ≠ source) (n : Nat) : filled s source n q = s q := by
  unfold filled Store.putNew
  split
  case isFalse => rfl
  case isTrue =>
    split
    case isTrue => rfl
    case isFalse => exact s.put_of_ne h []

/-- What passed the checks, in the file that is kept. -/
structure Passed (c : Crypto) (upload : FileProviderUpload) (b : Bytes) (sha : Digest) : Prop where
  size : b.length = upload.expectedSize
  declared : ∀ sha', upload.expectedSha256 = some sha' → c.sha256 b = sha'
  digest : sha = c.sha256 b

/-- Two files make the staged one stay; one file ends up as the staged one. -/
theorem sealFiles_cases {sha : Digest} {s' : Store Path Bytes}
    (h : sealFiles c settings upload s = some (sha, s')) :
    (∃ b b', s (settings.uploadFile upload.id) = some b ∧
      s (partialPath settings.stagingRoot upload.archiveItemId) = some b' ∧
      Passed c upload b sha ∧ b'.length = upload.expectedSize ∧
      s' = s.erase (settings.uploadFile upload.id)) ∨
    ((s (settings.uploadFile upload.id) = none ∨
        s (partialPath settings.stagingRoot upload.archiveItemId) = none) ∧
      ∃ b, Passed c upload b sha ∧
        s' (partialPath settings.stagingRoot upload.archiveItemId) = some b ∧
        ∀ b₀, s (settings.uploadFile upload.id) = some b₀ → b = b₀) := by
  have hne := uploadFile_ne_partialPath settings upload.id settings.stagingRoot
    upload.archiveItemId
  unfold sealFiles at h
  simp only at h
  generalize settings.uploadFile upload.id = source at *
  generalize partialPath settings.stagingRoot upload.archiveItemId = destination at *
  have hdest := filled_of_ne (s := s) hne.symm upload.expectedSize
  split at h
  case h_1 => simp at h
  case h_2 b hb =>
    split at h
    case isFalse => simp at h
    case isTrue hc =>
      simp only [Bool.and_eq_true, beq_iff_eq, Bool.not_eq_true', Option.any_eq_false,
        Option.all_eq_true] at hc
      obtain ⟨⟨hl, hdecl⟩, hall⟩ := hc
      obtain ⟨rfl, rfl⟩ := Prod.mk.inj (Option.some.inj h)
      have hpass : Passed c upload b (c.sha256 b) := by
        refine ⟨hl, fun sha' he => ?_, rfl⟩
        have := hdecl sha' he
        simpa using (bne_eq_false_iff_eq.mp this).symm
      cases hs : s source with
      | some b₀ =>
        rw [filled_of_some hs] at hb hall ⊢
        have hb₀ : b₀ = b := by simpa [candidateFile, hs] using hb
        subst hb₀
        cases hd : s destination with
        | none =>
          refine .inr ⟨.inr rfl, b₀, hpass, ?_, fun b' he => Option.some.inj he⟩
          simp [staged, hd]
        | some b' =>
          refine .inl ⟨b₀, b', rfl, rfl, hpass, by simpa using hall b' hd, ?_⟩
          simp [staged, hd]
      | none =>
        refine .inr ⟨.inl rfl, b, hpass, ?_, fun b₀ he => by simp at he⟩
        generalize hs₁ : filled s source upload.expectedSize = s₁ at *
        unfold staged
        cases hd : s₁ destination with
        | none => simp
        | some b' =>
          rw [if_pos (by simp), Store.erase_of_ne _ hne.symm, hd]
          by_cases hsome : (s₁ source).isSome = true
          · have hzero : upload.expectedSize = 0 := by
              by_contra h0
              rw [← hs₁, filled, if_neg h0, hs] at hsome
              simp at hsome
            have hb' := hall b' hd
            simp only [hzero, List.length_eq_zero_iff] at hb'
            rw [hzero, List.length_eq_zero_iff] at hl
            rw [hb', hl]
          · rw [candidateFile, if_neg hsome, hd] at hb
            exact hb

theorem sealStart_cases {row : ArchiveItem} {sha : Digest} {s' : Store Path Bytes}
    (h : sealStart c settings upload s d = some (row, sha, s')) :
    settings.admits upload.id = true ∧ upload.status = .sealing ∧
      d.items.get upload.archiveItemId = some row ∧ sealFiles c settings upload s = some (sha, s') := by
  unfold sealStart at h
  split at h
  case isFalse => simp at h
  case isTrue ha =>
    rw [Bool.and_eq_true, beq_iff_eq] at ha
    cases hrow : d.items.get upload.archiveItemId with
    | none => simp [hrow] at h
    | some row' =>
      simp only [hrow, Option.map_eq_some_iff, Prod.mk.injEq] at h
      obtain ⟨r, hr, rfl, rfl, rfl⟩ := h
      exact ⟨ha.1, ha.2, rfl, hr⟩

/-- Two files that pass the checks are enough for the sealing to get to the database. -/
theorem sealStart_of_both {b b' : Bytes} {row : ArchiveItem}
    (hb : s (settings.uploadFile upload.id) = some b)
    (hb' : s (partialPath settings.stagingRoot upload.archiveItemId) = some b')
    (ha : settings.admits upload.id = true) (hs : upload.status = .sealing)
    (hrow : d.items.get upload.archiveItemId = some row)
    (hl : b.length = upload.expectedSize) (hl' : b'.length = upload.expectedSize)
    (hdecl : ∀ sha, upload.expectedSha256 = some sha → c.sha256 b = sha) :
    sealStart c settings upload s d =
      some (row, c.sha256 b, s.erase (settings.uploadFile upload.id)) := by
  have hany : upload.expectedSha256.any (· != c.sha256 b) = false := by
    cases hd : upload.expectedSha256 with
    | none => rfl
    | some sha => simp [hdecl sha hd]
  simp [sealStart, sealFiles, filled_of_some hb, candidateFile, staged, ha, hs, hrow, hb, hb', hl, hl', hany]

@[simp] theorem items_withUpload (d : Db) (id : String) (f : FileProviderUpload → FileProviderUpload) :
    (d.withUpload id f).items = d.items := by
  unfold Db.withUpload
  split <;> rfl

@[simp] theorem items_withArchiveJob (d : Db) (archiveItemId : Nat) (itemId uploadId : String)
    (now : Time) : (d.withArchiveJob archiveItemId itemId uploadId now).items = d.items := by
  unfold Db.withArchiveJob
  split <;> rfl

theorem items_sealedBy (row : ArchiveItem) (sha : Digest) (item : FileProviderItem)
    (queued changed : Time) : (d.sealedBy upload row sha item queued changed).items =
      d.items.put { row with plaintextSha256 := some sha, state := .localStaged } := by
  simp [Db.sealedBy, Db.withChange, Db.withTransition]

/-- A sealing that the database stops keeps the bytes exactly where the files agree. -/
theorem keepsBytes_iff {row : ArchiveItem} {sha : Digest} {s' : Store Path Bytes}
    (h : sealStart c settings upload s d = some (row, sha, s'))
    (hoff : sealsOn d upload row = false) :
    KeepsBytes settings upload s s' ↔ FilesAgree c settings upload s d := by
  have hne := uploadFile_ne_partialPath settings upload.id settings.stagingRoot
    upload.archiveItemId
  obtain ⟨ha, hs, hrow, hfiles⟩ := sealStart_cases h
  rcases sealFiles_cases hfiles with ⟨b, b', hb, hb', hp, hl', rfl⟩ | ⟨hone, b, hp, hd, hsame⟩
  · have hkeep : KeepsBytes settings upload s (s.erase (settings.uploadFile upload.id)) ↔ b' = b := by
      simp [KeepsBytes, hb, Store.erase_of_ne _ hne.symm, hb']
    refine hkeep.trans ⟨fun he b₀ b₁ row' h₀ h₁ _ _ hr _ _ _ => ?_, fun hagree => ?_⟩
    · rw [hb] at h₀
      rw [hb'] at h₁
      rw [hrow] at hr
      rw [← Option.some.inj hr, if_neg (by simp [hoff]), ← Option.some.inj h₀, ← Option.some.inj h₁]
      exact he
    · have := hagree b b' row hb hb' ha hs hrow hp.size hl' hp.declared
      rwa [if_neg (by simp [hoff])] at this
  · refine iff_of_true (fun b₀ h₀ => .inr ?_) fun b₀ b₁ row' h₀ h₁ => ?_
    · rw [hd, hsame b₀ h₀]
    · rcases hone with hone | hone
      · simp [hone] at h₀
      · simp [hone] at h₁

/-- A sealing that goes through leaves a whole file exactly where the files agree. -/
theorem sealedWhole_iff {row : ArchiveItem} {sha : Digest} {s' : Store Path Bytes}
    (h : sealStart c settings upload s d = some (row, sha, s')) (hon : sealsOn d upload row = true)
    {item : FileProviderItem} {queued changed : Time} {w' : World Host}
    (hw : w'.Has s' m (d.sealedBy upload row sha item queued changed)) :
    (∃ b row, SealedWhole c settings upload w' b row) ↔ FilesAgree c settings upload s d := by
  have hne := uploadFile_ne_partialPath settings upload.id settings.stagingRoot
    upload.archiveItemId
  obtain ⟨ha, hs, hrow, hfiles⟩ := sealStart_cases h
  have hstored : w'.txn.items.get upload.archiveItemId =
      some { row with plaintextSha256 := some sha, state := .localStaged } := by
    rw [hw.txn, items_sealedBy, ← Table.key_of_get hrow]
    exact Table.get_put_self (r := { row with plaintextSha256 := some sha, state := .localStaged })
      ((Table.key_of_get hrow).symm ▸ hrow)
  rcases sealFiles_cases hfiles with ⟨b, b', hb, hb', hp, hl', rfl⟩ | ⟨hone, b, hp, hd, hsame⟩
  · have hdest : w'.ext.files (partialPath settings.stagingRoot upload.archiveItemId) = some b' := by
      rw [hw.files, Store.erase_of_ne _ hne.symm, hb']
    have hwhole : (∃ b row, SealedWhole c settings upload w' b row) ↔ c.sha256 b' = c.sha256 b := by
      constructor
      · rintro ⟨b₁, row₁, hfile, -, hrow₁, hrec, -⟩
        rw [hdest] at hfile
        rw [hstored] at hrow₁
        rw [← Option.some.inj hrow₁, ← Option.some.inj hfile] at hrec
        exact (Option.some.inj hrec).symm.trans hp.digest
      · intro he
        refine ⟨b', _, hdest, hl', hstored, ?_, fun sha' hd => he.trans (hp.declared sha' hd)⟩
        rw [he, ← hp.digest]
    refine hwhole.trans ⟨fun he b₀ b₁ row' h₀ h₁ _ _ hr _ _ _ => ?_, fun hagree => ?_⟩
    · rw [hb] at h₀
      rw [hb'] at h₁
      rw [hrow] at hr
      rw [← Option.some.inj hr, if_pos hon, ← Option.some.inj h₀, ← Option.some.inj h₁]
      exact he
    · have := hagree b b' row hb hb' ha hs hrow hp.size hl' hp.declared
      rwa [if_pos hon] at this
  · refine iff_of_true ⟨b, _, (hw.files ▸ hd), hp.size, hstored, ?_, hp.declared⟩ ?_
    · rw [hp.digest]
    · intro b₀ b₁ row' h₀ h₁
      rcases hone with hone | hone
      · simp [hone] at h₀
      · simp [hone] at h₁

/-- Whatever is in the upload file and in the staging file: a sealing that returns leaves a
whole file with the recorded digest and one that raises loses no byte, in every course it may
take, exactly where the two files agree. -/
theorem seal_integrity_iff (settings : Settings) (upload : FileProviderUpload) (w : World Host) :
    (sealUpload settings upload).wp (fun _ _ => True) (World.env (Host.env c))
      (fun _ w' => ∃ b row, SealedWhole c settings upload w' b row)
      (fun _ w' => KeepsBytes settings upload w.ext.files w'.ext.files) w ↔
    FilesAgree c settings upload w.ext.files w.txn := by
  refine performs_sealUpload w.has_self (fun hnone e w' s' hs' hw' => ?_) ?_ ?_
  · refine iff_of_true (fun b hb => .inl ?_) fun b b' row hb hb' ha hs hrow hl hl' hd => ?_
    · rcases hs' with rfl | rfl
      · rw [hw'.files, hb]
      · rw [hw'.files, filled_of_some hb, hb]
    · rw [sealStart_of_both hb hb' ha hs hrow hl hl' hd] at hnone
      simp at hnone
  · intro row sha s' hstart hoff e w' hw'
    rw [hw']
    exact keepsBytes_iff hstart hoff
  · intro row sha s' hstart hon item queued changed w' _ hw'
    exact sealedWhole_iff hstart hon hw'

end Seal

/-- An upload of one byte about to be sealed, with a staging file under its archive id that
an item of an earlier database left behind. -/
def leftover : World Host :=
  let w := uploaded.1
  { w with ext := { w.ext with files := w.ext.files.put ["active", "staging", "1.partial"] [9] } }

theorem sealed_other_bytes : ∃ upload ∈ leftover.db.uploads.rows, ∃ (w' : World Host) (row : ArchiveItem),
    upload.status = .sealing ∧
    Prog.Steps (World.env (Host.env .plain)) (leftover, sealUpload plainSettings upload) (w', .ret row) ∧
    row.plaintextSha256 = some (Crypto.plain.sha256 [7]) ∧
    w'.ext.files (partialPath plainSettings.stagingRoot upload.archiveItemId) = some [9] ∧
    w'.ext.files (plainSettings.uploadFile upload.id) = none := by
  have hfacts : ∃ upload ∈ leftover.db.uploads.rows, upload.status = .sealing ∧
      ∃ row ∈ ((sealUpload plainSettings upload).exec (World.onHost .plain id) leftover).1.toOption,
        row.plaintextSha256 = some (Crypto.plain.sha256 [7]) ∧
        ((sealUpload plainSettings upload).exec (World.onHost .plain id) leftover).2.ext.files
          (partialPath plainSettings.stagingRoot upload.archiveItemId) = some [9] ∧
        ((sealUpload plainSettings upload).exec (World.onHost .plain id) leftover).2.ext.files
          (plainSettings.uploadFile upload.id) = none := by
    decide +kernel
  obtain ⟨upload, hu, hs, row, hrow, hrec, hstaged, hgone⟩ := hfacts
  have hrun := Prog.exec_steps (onHost_id (c := .plain)) (sealUpload plainSettings upload) leftover
  cases hr : ((sealUpload plainSettings upload).exec (World.onHost .plain id) leftover).1 with
  | error e => simp [hr, Except.toOption] at hrow
  | ok row' =>
    rw [hr] at hrow hrun
    obtain rfl := Option.some.inj hrow
    exact ⟨upload, hu, _, row', hs, hrun, hrec, hstaged, hgone⟩

end Mnema
