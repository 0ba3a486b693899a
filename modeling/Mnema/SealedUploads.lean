import Mnema.Startup
import Mnema.Host

/-! What becomes of a sealed upload while the API and a starting worker go on. The worker
writes `FAILED` on the strength of a status it read in an earlier transaction. -/

namespace Mnema

namespace Db

/-- The item of the upload is marked failed. -/
def FileFailed (d : Db) (itemId : String) : Prop :=
  ∃ item, d.fpItems.get itemId = some item ∧ item.status = .failed

/-- The archive item of the upload is in manual review. -/
def InReview (d : Db) (id : Nat) : Prop :=
  ∃ row, d.items.get id = some row ∧ row.state = .manualReview

/-- What an upload that is `SEALED` in `d` is in `d'`: still `SEALED`, and nothing that
belongs to it has been marked failed or sent to manual review. -/
structure KeepsSealed (d : Db) (u : FileProviderUpload) (d' : Db) : Prop where
  upload : ∃ v, d'.uploads.get u.id = some v ∧ v.key = u.key ∧ v.status = .sealed
  file : d'.FileFailed u.itemId → d.FileFailed u.itemId
  archive : d'.InReview u.archiveItemId → d.InReview u.archiveItemId

end Db

/-- An operation that leaves the upload `u` and what belongs to it alone. -/
def Spares {σ : Type} (u : FileProviderUpload) (w : World σ) : Op → Prop
  | .db (.flush row _) | .db (.save row) => row.id = u.archiveItemId → row.state ≠ .manualReview
  | .db (.addItem row) => row.state ≠ .manualReview
  | .db (.setUploadStatus id _) => id ≠ u.id
  | .db (.addFpItem row) => row.status ≠ .failed
  | .db (.saveFpItem row) => row.id = u.itemId → row.status = .failed → w.txn.FileFailed row.id
  | _ => True

section Spare

variable {σ α β : Type} {X : ExtEnv σ} {u : FileProviderUpload} {w w' : World σ}

theorem get_setUpload {id : String} {f : FileProviderUpload → FileProviderUpload}
    (hne : u.id ≠ id) (hf : ∀ v, (f v).id = v.id) :
    (w.setUpload id f).txn.uploads.get u.id = w.txn.uploads.get u.id := by
  unfold World.setUpload
  split
  case h_2 => rfl
  case h_1 v hv =>
    refine Table.get_put_of_ne fun he => hne ?_
    exact he.trans ((hf v).trans (Table.key_of_get hv))

theorem upload_step {o : Op} {a : o.Ans} (hc : Spares u w o)
    (h : ∃ v, w.txn.uploads.get u.id = some v ∧ v.key = u.key ∧ v.status = .sealed)
    (he : World.env X w o a w') :
    ∃ v, w'.txn.uploads.get u.id = some v ∧ v.key = u.key ∧ v.status = .sealed := by
  cases o with
  | ext o =>
    obtain ⟨x, _, _, rfl⟩ := he
    exact h
  | db o =>
    rw [(World.env_db.mp he).2]
    cases o with
    | setUploadStatus id st =>
      simp only [World.dbStep]
      rw [get_setUpload (Ne.symm hc) fun _ => by rfl]
      exact h
    | setReceivedSize id n =>
      by_cases hid : u.id = id
      · obtain ⟨v, hv, hk, hs⟩ := h
        subst hid
        simp only [World.dbStep, World.setUpload, hv, World.txn_setTxn]
        refine ⟨{ v with receivedSize := n }, ?_, hk, hs⟩
        have hkey := Table.key_of_get hv
        exact hkey ▸ Table.get_put_self (r := { v with receivedSize := n }) (hkey.symm ▸ hv)
      · simp only [World.dbStep]
        rw [get_setUpload hid fun _ => by rfl]
        exact h
    | addUpload row =>
      simp only [World.dbStep]
      split
      · exact h
      · obtain ⟨v, hv, hs⟩ := h
        exact ⟨v, Table.get_insert_of_get hv, hs⟩
    | addItem _ | addFpItem _ | saveFpItem _ =>
      simp only [World.dbStep]
      split <;> exact h
    | _ => exact h

theorem file_step {o : Op} {a : o.Ans} (hc : Spares u w o) (he : World.env X w o a w')
    (h : w'.txn.FileFailed u.itemId) : w.txn.FileFailed u.itemId := by
  cases o with
  | ext o =>
    obtain ⟨x, _, _, rfl⟩ := he
    exact h
  | db o =>
    rw [(World.env_db.mp he).2] at h
    cases o with
    | setUploadStatus id st | setReceivedSize id st =>
      simp only [World.dbStep, World.setUpload] at h
      split at h <;> exact h
    | addFpItem row =>
      simp only [World.dbStep] at h
      split at h
      case isTrue => exact h
      case isFalse hn =>
        obtain ⟨item, hi, hs⟩ := h
        by_cases hid : u.itemId = row.id
        · have hnone : w.txn.fpItems.get row.id = none := by
            simp only [Bool.or_eq_true, not_or, Bool.not_eq_true, Option.isSome_eq_false_iff,
              Option.isNone_iff_eq_none] at hn
            exact hn.1
          rw [World.txn_setTxn, hid, Table.get_insert_self hnone] at hi
          exact absurd (Option.some.inj hi ▸ hs) hc
        · exact ⟨item, (Table.get_insert_of_ne hid).symm.trans hi, hs⟩
    | saveFpItem row =>
      simp only [World.dbStep] at h
      split at h
      case isTrue => exact h
      case isFalse =>
        obtain ⟨item, hi, hs⟩ := h
        by_cases hid : u.itemId = row.id
        · rw [World.txn_setTxn, Table.get_put, if_pos hid] at hi
          obtain ⟨old, -, rfl⟩ := Option.map_eq_some_iff.mp hi
          exact hid ▸ hc hid.symm hs
        · exact ⟨item, (Table.get_put_of_ne hid).symm.trans hi, hs⟩
    | addItem _ | addUpload _ =>
      simp only [World.dbStep] at h
      split at h <;> exact h
    | _ => exact h

theorem archive_step {o : Op} {a : o.Ans} (hc : Spares u w o) (he : World.env X w o a w')
    (h : w'.txn.InReview u.archiveItemId) : w.txn.InReview u.archiveItemId := by
  have hput : ∀ {row : ArchiveItem}, (row.id = u.archiveItemId → row.state ≠ .manualReview) →
      (∃ r, (w.txn.items.put row).get u.archiveItemId = some r ∧ r.state = .manualReview) →
      w.txn.InReview u.archiveItemId := by
    rintro row hrow ⟨r, hr, hs⟩
    by_cases hid : u.archiveItemId = row.id
    · rw [Table.get_put, if_pos hid] at hr
      obtain ⟨old, -, rfl⟩ := Option.map_eq_some_iff.mp hr
      exact absurd hs (hrow hid.symm)
    · exact ⟨r, (Table.get_put_of_ne hid).symm.trans hr, hs⟩
  cases o with
  | ext o =>
    obtain ⟨x, _, _, rfl⟩ := he
    exact h
  | db o =>
    rw [(World.env_db.mp he).2] at h
    cases o with
    | setUploadStatus id st | setReceivedSize id st =>
      simp only [World.dbStep, World.setUpload] at h
      split at h <;> exact h
    | flush row event => exact hput hc h
    | save row => exact hput hc h
    | addItem row =>
      simp only [World.dbStep] at h
      split at h
      case isTrue => exact h
      case isFalse =>
        obtain ⟨r, hr, hs⟩ := h
        by_cases hid : u.archiveItemId = w.txn.newItemId
        · have hg := Table.get_insert_self (r := { row with id := w.txn.newItemId })
            (World.get_newItemId w.txn)
          rw [World.items_addItem, hid, hg] at hr
          obtain rfl := Option.some.inj hr
          exact absurd hs hc
        · exact ⟨r, (Table.get_insert_of_ne (t := w.txn.items) hid).symm.trans hr, hs⟩
    | addUpload _ | addFpItem _ | saveFpItem _ =>
      simp only [World.dbStep] at h
      split at h <;> exact h
    | _ => exact h

theorem keepsSealed_step {d : Db} {o : Op} {a : o.Ans} (hc : Spares u w o)
    (h : d.KeepsSealed u w.txn) (he : World.env X w o a w') : d.KeepsSealed u w'.txn :=
  ⟨upload_step hc h.upload he, fun hf => h.file (file_step hc he hf),
    fun hr => h.archive (archive_step hc he hr)⟩

/-! ### Which programs leave an upload alone -/

/-- Operations that leave every upload alone, whatever the state. -/
def Op.harmless : Op → Bool
  | .ext _ => true
  | .db (.flush row _) | .db (.save row) | .db (.addItem row) => row.state != .manualReview
  | .db (.addFpItem row) => row.status != .failed
  | .db (.setUploadStatus _ _) | .db (.saveFpItem _) => false
  | .db _ => true

theorem spares_of_harmless {o : Op} (h : o.harmless = true) : Spares u w o := by
  cases o with
  | ext o => trivial
  | db o =>
    cases o with
    | flush row event | save row => exact fun _ => by simpa [Op.harmless] using h
    | addItem row | addFpItem row => simpa [Op.harmless, Spares] using h
    | setUploadStatus id st | saveFpItem row => simp [Op.harmless] at h
    | _ => trivial

/-- From `w`, the program leaves `u` alone. -/
abbrev Sparing (u : FileProviderUpload) (X : ExtEnv σ) (p : Flow α) (w : World σ) : Prop :=
  p.wp (Spares u) (World.env X) (fun _ _ => True) (fun _ _ => True) w

theorem sparing_bind {p : Flow α} {f : α → Flow β} (hp : Sparing u X p w)
    (hf : ∀ a w, Sparing u X (f a) w) : Sparing u X (p >>= f) w :=
  (Prog.wp_bind _ _).mpr (hp.post fun a w _ => hf a w)

theorem sparing_calls {p : Flow α}
    (hp : p.Calls (fun o => o.harmless = true) (fun _ => True) fun _ => True) : Sparing u X p w :=
  (hp.wp (I := fun _ => True) (fun _ _ ho _ => spares_of_harmless ho)
    (fun _ _ _ _ _ _ _ => trivial) trivial).mono (fun _ _ h => h) (fun _ _ _ => trivial)
    fun _ _ _ => trivial

theorem harmless_of_outside {o : Op} (h : o.outside = true) : o.harmless = true := by
  cases o with
  | db o => simp [Op.outside] at h
  | ext o => rfl

theorem sparing_outside {p : Flow α} (hp : Outside (fun _ => True) p) : Sparing u X p w :=
  sparing_calls (hp.imp fun _ => harmless_of_outside)

theorem sparing_db {o : DbOp} (h : Spares u w (.db o)) : Sparing u X (db o) w :=
  wp_db.mpr ⟨h, fun _ _ => trivial, fun _ _ => trivial⟩

theorem sparing_ext {o : ExtOp} : Sparing u X (ext o) w :=
  wp_ext.mpr ⟨trivial, fun _ _ _ _ => trivial, fun _ _ _ _ => trivial⟩

theorem sparing_raiseIf {failed : Bool} {error : PyError} : Sparing u X (raiseIf failed error) w :=
  wp_raiseIf.mpr ⟨fun _ => trivial, fun _ => trivial⟩

theorem sparing_ofExcept {r : Except PyError α} : Sparing u X (Prog.ofExcept r) w :=
  (Prog.wp_ofExcept _).mpr ⟨fun _ _ => trivial, fun _ _ => trivial⟩

theorem sparing_transitionItem {item : ArchiveItem} {target : ArchiveState} {actor : String}
    (h : item.id = u.archiveItemId → target ≠ .manualReview) :
    Sparing u X (transitionItem item target actor) w :=
  wp_transitionItem.mpr ⟨fun _ => ⟨h, trivial⟩, fun _ => trivial⟩

theorem recordChange_sparing (itemId : String) (w : World σ) :
    Sparing u X (recordChange itemId) w := by
  refine sparing_bind (sparing_db trivial) fun _ w => (Prog.wp_bind _ _).mpr ?_
  refine (wp_db_ok rfl).mpr ⟨trivial, ?_⟩
  cases hi : w.txn.fpItems.get itemId with
  | none => trivial
  | some item =>
    refine (Prog.wp_bind _ _).mpr (wp_ext.mpr ⟨trivial, fun now x _ _ => ?_, fun _ _ _ _ => trivial⟩)
    exact sparing_db fun _ hs => ⟨item, (Table.key_of_get hi).symm ▸ hi, hs⟩

theorem markUploadFailed_sparing {itemId : String} (code : String) (h : itemId ≠ u.itemId)
    (w : World σ) : Sparing u X (markUploadFailed itemId code) w := by
  refine (Prog.wp_bind _ _).mpr ((wp_db_ok rfl).mpr ⟨trivial, ?_⟩)
  cases hi : w.txn.fpItems.get itemId with
  | none => trivial
  | some item =>
    refine sparing_bind (sparing_db fun hid => ?_) fun _ w => recordChange_sparing item.id w
    exact absurd ((Table.key_of_get hi).symm.trans hid) h

theorem bootstrapRoots_sparing (w : World σ) : Sparing u X bootstrapRoots w := by
  have hroot : ∀ root w, Sparing u X (bootstrapRoot root) w := fun root w => by
    refine sparing_bind (sparing_db trivial) fun item w => ?_
    cases item with
    | some item => trivial
    | none =>
      refine sparing_bind sparing_ext fun now w => sparing_bind (sparing_db ?_) fun _ w => ?_
      · simp [Spares]
      · exact recordChange_sparing _ w
  have heach : ∀ l w, Sparing u X (bootstrapEach l) w := fun l => by
    induction l with
    | nil => exact fun _ => trivial
    | cons root rest ih => exact fun w => sparing_bind (hroot root w) fun _ w => ih w
  have hsetting : ∀ key w, Sparing u X (setting key) w := fun key w => by
    refine sparing_bind (sparing_db trivial) fun value w => ?_
    cases value with
    | some value => trivial
    | none => exact sparing_bind sparing_ext fun _ _ => sparing_bind (sparing_db trivial) fun _ _ =>
        trivial
  exact sparing_bind (heach roots w) fun _ w => sparing_bind (hsetting _ w) fun _ _ => trivial

theorem createUpload_sparing (settings : Settings) (request : UploadRequest) (w : World σ) :
    Sparing u X (createUpload settings request) w := by
  unfold createUpload
  generalize validateUploadName request.name = validated
  refine sparing_bind (bootstrapRoots_sparing w) fun _ w => ?_
  refine sparing_bind sparing_ofExcept fun name w => sparing_bind sparing_raiseIf fun _ w => ?_
  refine sparing_bind sparing_ext fun usage w => sparing_bind sparing_ofExcept fun lacking w => ?_
  refine sparing_bind sparing_raiseIf fun _ w => ?_
  refine sparing_bind sparing_raiseIf fun _ w => sparing_bind sparing_ext fun uploadId w => ?_
  refine sparing_bind sparing_ext fun fpId w => sparing_bind sparing_ext fun now w => ?_
  refine sparing_bind (sparing_db (by simp [Spares])) fun archive w => ?_
  refine sparing_bind (sparing_transitionItem fun _ => by decide) fun archive w => ?_
  refine sparing_bind (sparing_transitionItem fun _ => by decide) fun archive w => ?_
  refine sparing_bind (sparing_transitionItem fun _ => by decide) fun archive w => ?_
  refine sparing_bind sparing_ext fun now w => sparing_bind (sparing_db (by simp [Spares])) fun _ w => ?_
  refine sparing_bind sparing_ext fun now w => sparing_bind (sparing_db trivial) fun _ w => ?_
  exact sparing_bind (recordChange_sparing _ w) fun _ _ => trivial

theorem appendUpload_sparing (settings : Settings) (uploadId : String) (offset : Nat)
    (body : List Bytes) (broken : Option PyError) (w : World σ) :
    Sparing u X (appendUpload settings uploadId offset body broken) w :=
  sparing_calls (appendUpload_calls settings (fun _ => harmless_of_outside) (fun _ => rfl)
    (fun _ _ => rfl) _ _ _ _)

/-- The upload is another one, and so are its file and its archive item. -/
structure Apart (u v : FileProviderUpload) : Prop where
  id : v.id ≠ u.id
  file : v.itemId ≠ u.itemId
  archive : v.archiveItemId ≠ u.archiveItemId

theorem Db.Tidy.apart {d : Db} (h : d.Tidy) {v : FileProviderUpload} (hu : u.key ∈ d.uploadKeys)
    (hv : v.key ∈ d.uploadKeys) (hne : v.id ≠ u.id) : Apart u v :=
  ⟨hne, fun he => hne (h.unique _ hv _ hu (.inl he)), fun he => hne (h.unique _ hv _ hu (.inr he))⟩

theorem sealUpload_sparing (settings : Settings) {v : FileProviderUpload}
    (h : v.status = .sealing → Apart u v) (w : World σ) :
    Sparing u X (sealUpload settings v) w := by
  refine sparing_bind (sparing_outside (outside_uploadPath _ _)) fun source w => ?_
  refine (Prog.wp_bind _ _).mpr (wp_raiseIf.mpr ⟨fun hs => ?_, fun _ => trivial⟩)
  replace h := h (by simpa using hs)
  refine sparing_bind (sparing_db trivial) fun item w => ?_
  cases item with
  | none => trivial
  | some archive =>
    refine sparing_bind (sparing_outside (outside_createIfEmpty _ _)) fun _ w => ?_
    refine sparing_bind (sparing_outside (outside_sealCandidate _ _)) fun candidate w => ?_
    refine sparing_bind (sparing_outside (outside_incomplete _ _)) fun _ w => ?_
    refine sparing_bind sparing_raiseIf fun _ w => sparing_bind sparing_ext fun checksum w => ?_
    refine sparing_bind sparing_raiseIf fun _ w => ?_
    refine sparing_bind (sparing_outside (outside_stageUpload _ _ _)) fun _ w => ?_
    refine sparing_bind (sparing_transitionItem fun _ => by decide) fun archive w => ?_
    refine sparing_bind (sparing_db h.id) fun _ w => (Prog.wp_bind _ _).mpr ?_
    refine (wp_db_ok rfl).mpr ⟨trivial, ?_⟩
    cases hi : w.txn.fpItems.get v.itemId with
    | none => trivial
    | some item =>
      refine sparing_bind (sparing_db fun hid => ?_) fun _ w => ?_
      · exact absurd ((Table.key_of_get hi).symm.trans hid) h.file
      · refine sparing_bind (sparing_bind (sparing_db trivial) fun job w => ?_) fun _ w =>
          sparing_bind (recordChange_sparing _ w) fun _ _ => trivial
        cases job with
        | some job => trivial
        | none =>
          refine sparing_bind sparing_ext fun now w => ?_
          exact sparing_bind (sparing_db trivial) fun _ _ => trivial

theorem reapUploads_sparing (settings : Settings) {now : Time} {uploads : List FileProviderUpload}
    (h : ∀ v ∈ uploads, v.expiresAt ≤ now → Apart u v) (w : World σ) :
    Sparing u X (reapUploads settings now uploads) w := by
  induction uploads generalizing w with
  | nil => trivial
  | cons v rest ih =>
    refine sparing_bind ?_ fun _ w => sparing_bind
      (ih (fun v hv => h v (List.mem_cons_of_mem _ hv)) w) fun _ _ => trivial
    unfold reapUpload
    split
    case isTrue => trivial
    case isFalse hexp =>
      have hv := h v List.mem_cons_self (Int.not_lt.mp hexp)
      refine sparing_bind (sparing_outside (outside_uploadPath _ _)) fun path w => ?_
      refine sparing_bind (sparing_outside (outside_removeUploadFile _)) fun _ w => ?_
      refine sparing_bind (sparing_db hv.id) fun _ w => ?_
      refine sparing_bind (markUploadFailed_sparing _ hv.file w) fun _ w => ?_
      refine (Prog.wp_bind _ _).mpr ((wp_db_ok rfl).mpr ⟨trivial, ?_⟩)
      cases hi : w.txn.items.get v.archiveItemId with
      | none => trivial
      | some archive =>
        change Sparing u X (if archive.state = .manualReview then pure 1 else do
          let _ ← transitionItem archive .manualReview "upload-reaper"
          pure 1) w
        split
        case isTrue => trivial
        case isFalse =>
          refine sparing_bind (sparing_transitionItem fun hid => ?_) fun _ _ => trivial
          exact absurd ((Table.key_of_get hi).symm.trans hid) hv.archive

/-- The rows that reconciliation selects are not being deleted here, so it only retries them. -/
theorem reconcileItems_sparing {items : List ArchiveItem} (h : ∀ i ∈ items, i.state ≠ .deleting)
    (w : World σ) : Sparing u X (reconcileItems items) w := by
  induction items generalizing w with
  | nil => trivial
  | cons item rest ih =>
    refine sparing_bind ?_ fun _ w => sparing_bind
      (ih (fun i hi => h i (List.mem_cons_of_mem _ hi)) w) fun _ _ => trivial
    unfold reconcileItem
    rw [if_neg (h item List.mem_cons_self)]
    split
    case isTrue => exact sparing_bind (sparing_db trivial) fun _ _ => trivial
    case isFalse =>
      refine sparing_bind ?_ fun awaiting w => ?_
      · unfold awaitingClientUpload
        split
        case isTrue =>
          refine sparing_bind (sparing_db trivial) fun upload w => ?_
          cases upload <;> trivial
        case isFalse => trivial
      · split
        case isTrue => trivial
        case isFalse =>
          exact sparing_bind (sparing_transitionItem fun _ => by decide) fun _ _ => trivial

/-! ### Runs -/

/-- The worker marks an upload failed only while that upload is not sealed. -/
def leavesSealed (w : World σ) : Phase → Bool
  | .failing uploadId _ => (w.db.uploads.get uploadId).all fun u => u.status != .sealed
  | .reaping now uploads => uploads.all fun v =>
    decide (now < v.expiresAt) || (w.db.uploads.get v.id).all fun u => u.status != .sealed
  | _ => true

variable {settings : Settings} {phase : Phase} {d : Db}

theorem key_mem {v : FileProviderUpload} {id : String} (h : d.uploads.get id = some v) :
    v.key ∈ d.uploadKeys :=
  List.mem_map.mpr ⟨v, Table.mem_of_get h, rfl⟩

theorem apart_of_get (ht : d.Tidy) (hu : d.KeepsSealed u d) {v : FileProviderUpload} {id : String}
    (hv : d.uploads.get id = some v) (hs : v.status ≠ .sealed) : Apart u v := by
  obtain ⟨v', hv', hk, hs'⟩ := hu.upload
  refine ht.apart (hk ▸ key_mem hv') (key_mem hv) fun he => hs ?_
  rw [← Table.key_of_get hv, he] at hv
  exact Option.some.inj (hv'.symm.trans hv) ▸ hs'

theorem api_sparing (h : Between (w, phase)) (hu : w.db.KeepsSealed u w.db) {p : Flow Unit}
    (hp : ApiCall settings p) : Sparing u X p w := by
  cases hp with
  | createUpload request => exact sparing_bind (createUpload_sparing settings request w) fun _ _ => trivial
  | appendUpload uploadId offset body broken =>
    exact sparing_bind (appendUpload_sparing settings uploadId offset body broken w) fun _ _ => trivial
  | completeBegin uploadId =>
    refine sparing_bind ((Prog.wp_bind _ _).mpr ((wp_db_ok rfl).mpr ⟨trivial, ?_⟩)) fun _ _ => trivial
    cases hv : w.txn.uploads.get uploadId with
    | none => trivial
    | some v =>
      change Sparing u X (if v.status = .sealed then pure false else _) w
      split
      case isTrue => trivial
      case isFalse hs =>
        refine sparing_bind sparing_raiseIf fun _ w => sparing_bind (sparing_db ?_) fun _ _ => trivial
        exact Table.key_of_get hv ▸ (apart_of_get h.tidy hu (h.idle.txn ▸ hv) hs).id
  | completeSeal uploadId =>
    refine (Prog.wp_bind _ _).mpr ((wp_db_ok rfl).mpr ⟨trivial, ?_⟩)
    cases hv : w.txn.uploads.get uploadId with
    | none => trivial
    | some v =>
      refine sparing_bind (sealUpload_sparing settings (fun hs => ?_) w) fun _ _ => trivial
      exact apart_of_get h.tidy hu (h.idle.txn ▸ hv) (by simp [hs])

theorem phase_sparing (h : Between (w, phase)) (hu : w.db.KeepsSealed u w.db)
    (hG : leavesSealed w phase = true) : Sparing u X (phase.run settings) w := by
  cases phase with
  | stopped =>
    refine sparing_bind ((Prog.wp_bind _ _).mpr ((wp_db_ok rfl).mpr ⟨trivial, ?_⟩)) fun _ _ => trivial
    refine reconcileItems_sparing (fun i hi => ?_) w
    exact h.tidy.settled i (h.idle.txn ▸ (List.mem_filter.mp hi).1)
  | restarted =>
    exact sparing_bind (sparing_bind (sparing_db trivial) fun _ _ => trivial) fun _ _ => trivial
  | sealing pending =>
    cases pending with
    | nil =>
      exact sparing_bind sparing_ext fun _ w => sparing_bind (sparing_db trivial) fun _ _ => trivial
    | cons uploadId pending =>
      refine sparing_bind ((Prog.wp_bind _ _).mpr ((wp_db_ok rfl).mpr ⟨trivial, ?_⟩)) fun _ _ => trivial
      cases hv : w.txn.uploads.get uploadId with
      | none => trivial
      | some v =>
        refine sparing_bind (sealUpload_sparing settings (fun hs => ?_) w) fun _ _ => trivial
        exact apart_of_get h.tidy hu (h.idle.txn ▸ hv) (by simp [hs])
  | failing uploadId pending =>
    refine sparing_bind ((Prog.wp_bind _ _).mpr ((wp_db_ok rfl).mpr ⟨trivial, ?_⟩)) fun _ _ => trivial
    cases hv : w.txn.uploads.get uploadId with
    | none => trivial
    | some v =>
      rw [h.idle.txn] at hv
      have hs : v.status ≠ .sealed := by simpa [leavesSealed, hv] using hG
      have ha := apart_of_get h.tidy hu hv hs
      exact sparing_bind (sparing_db ha.id) fun _ w => markUploadFailed_sparing _ ha.file w
  | reaping now uploads =>
    refine sparing_bind (reapUploads_sparing settings (fun v hv hexp => ?_) w) fun _ _ => trivial
    obtain ⟨v', hv', hk, hs'⟩ := hu.upload
    refine h.tidy.apart (hk ▸ key_mem hv') (h.known v hv) fun he => ?_
    have hG := List.all_eq_true.mp hG v hv
    simp [he, hv', hs', Int.not_lt.mpr hexp] at hG

theorem keepsSealed_next {c c' : World σ × Phase} (h : Between c) (hk : d.KeepsSealed u c.1.db)
    (hn : Startup.Next X settings (fun w phase => leavesSealed w phase = true) c c') :
    d.KeepsSealed u c'.1.db := by
  have hself : c.1.db.KeepsSealed u c.1.db := ⟨hk.upload, id, id⟩
  have hstep : ∀ w o a w', Spares u w o → d.KeepsSealed u w.txn → World.env X w o a w' →
      d.KeepsSealed u w'.txn := fun _ _ _ _ hc hI he => keepsSealed_step hc hI he
  cases hn with
  | api hp he => exact (db_of_ends he (api_sparing h hself hp) hstep h.idle hk).2.1
  | worker hG he => exact (db_of_ends he (phase_sparing h hself hG) hstep h.idle hk).2.1

/-- In every order of the transactions of the API and of a starting worker, with crashes at
any point, in which the worker marks an upload failed only while that upload is not sealed: once
an upload is durably `SEALED` it stays so, its file is not marked failed and its archive item
is not sent to manual review. -/
theorem sealed_stays_sealed {x : σ} {c c' : World σ × Phase}
    (hr : Startup.Run X settings (fun w phase => leavesSealed w phase = true)
      (World.fresh x, .stopped) c)
    (hu : c.1.db.uploads.get u.id = some u) (hs : u.status = .sealed)
    (hrun : Startup.Run X settings (fun w phase => leavesSealed w phase = true) c c') :
    c.1.db.KeepsSealed u c'.1.db := by
  have hb := between_run (between_fresh x) hr
  induction hrun with
  | refl => exact ⟨⟨u, hu, rfl, hs⟩, id, id⟩
  | tail hrun hn ih => exact keepsSealed_next (between_run hb hrun) ih hn

end Spare

/-! ### On the host -/

section Runs

variable {settings : Settings} {G : World Host → Phase → Prop} {c₀ c : World Host × Phase}

/-- What the host makes of a transaction. -/
def World.transact {α : Type} (w : World Host) (p : Flow α) : Except PyError α × World Host :=
  (transactions (Host.env .plain)).outcome (World.onHost .plain id) p w

/-- A transaction of the API. -/
def apiStep (c : World Host × Phase) (p : Flow Unit) : World Host × Phase :=
  ((c.1.transact p).2, c.2)

/-- The next transaction of the worker. -/
def workerStep (settings : Settings) (c : World Host × Phase) : World Host × Phase :=
  ((c.1.transact (c.2.run settings)).2, c.2.next (some (c.1.transact (c.2.run settings)).1))

theorem run_apiStep (hr : Startup.Run (Host.env .plain) settings G c₀ c) {p : Flow Unit}
    (hp : ApiCall settings p) : Startup.Run (Host.env .plain) settings G c₀ (apiStep c p) :=
  hr.tail (.api hp (Transactions.ends_outcome (M := transactions (Host.env .plain)) onHost_id p c.1))

theorem run_workerStep (hr : Startup.Run (Host.env .plain) settings G c₀ c) (hG : G c.1 c.2) :
    Startup.Run (Host.env .plain) settings G c₀ (workerStep settings c) :=
  hr.tail (.worker hG (Transactions.ends_outcome (M := transactions (Host.env .plain)) onHost_id _ c.1))

end Runs

def plainSettings : Settings where
  activeRoot := ["active"]
  stagingRoot := ["active", "staging"]
  fileProviderUploadRoot := ["active", "uploads"]

/-- One upload of one byte, complete and about to be sealed. -/
def uploaded : World Host × Phase :=
  let c := apiStep (World.fresh (Host.start []), .stopped)
    (createUpload plainSettings { name := "f", size := 1 }).void
  let c := apiStep c (appendUpload plainSettings "1" 0 [[7]] none).void
  apiStep c (completeBegin "1").void

theorem run_uploaded {G : World Host → Phase → Prop} :
    Startup.Run (Host.env .plain) plainSettings G (World.fresh (Host.start []), .stopped) uploaded :=
  run_apiStep (run_apiStep (run_apiStep .refl (.createUpload _)) (.appendUpload _ _ _ _))
    (.completeBegin _)

/-- The upload sealed before the worker starts. -/
def sealedFirst : World Host × Phase := apiStep uploaded (completeSeal plainSettings "1")

/-- The worker reconciles, lists, selects and reaps after that. -/
def startedAfter : World Host × Phase :=
  workerStep plainSettings (workerStep plainSettings (workerStep plainSettings
    (workerStep plainSettings sealedFirst)))

theorem sealed_stays_sealed_startedAfter : ∃ u ∈ sealedFirst.1.db.uploads.rows,
    u.status = .sealed ∧ sealedFirst.1.db.KeepsSealed u startedAfter.1.db := by
  obtain ⟨u, hu, hs⟩ : ∃ u ∈ sealedFirst.1.db.uploads.rows, u.status = .sealed := by
    decide +kernel
  refine ⟨u, hu, hs, sealed_stays_sealed (run_apiStep run_uploaded (.completeSeal _))
    (Table.get_of_mem hu) hs ?_⟩
  refine run_workerStep (run_workerStep (run_workerStep (run_workerStep .refl ?_) ?_) ?_) ?_
  all_goals decide +kernel

/-- The upload sealed between the listing of the worker and its own attempt. -/
def sealedBetween : World Host × Phase :=
  apiStep (workerStep plainSettings (workerStep plainSettings uploaded))
    (completeSeal plainSettings "1")

/-- The attempt of the worker raises, and it marks the sealed upload as failed. -/
theorem sealed_marked_failed : ∃ (c c' : World Host × Phase) (u v : FileProviderUpload),
    Startup.Run (Host.env .plain) plainSettings (fun _ _ => True)
      (World.fresh (Host.start []), .stopped) c ∧
    c.1.db.uploads.get u.id = some u ∧ u.status = .sealed ∧
    (∃ job ∈ c.1.db.jobs.rows, job.idempotencyKey = "file-provider-upload:" ++ u.id) ∧
    Startup.Run (Host.env .plain) plainSettings (fun _ _ => True) c c' ∧
    c'.1.db.uploads.get u.id = some v ∧ v.status = .failed ∧ c'.1.db.FileFailed u.itemId ∧
    ¬ c.1.db.FileFailed u.itemId := by
  have hfacts : ∃ u ∈ sealedBetween.1.db.uploads.rows, u.status = .sealed ∧
      (∃ job ∈ sealedBetween.1.db.jobs.rows, job.idempotencyKey = "file-provider-upload:" ++ u.id) ∧
      (∀ item ∈ sealedBetween.1.db.fpItems.rows, item.status ≠ .failed) ∧
      ∃ v ∈ (workerStep plainSettings (workerStep plainSettings sealedBetween)).1.db.uploads.rows,
        v.id = u.id ∧ v.status = .failed ∧
        ∃ item ∈ (workerStep plainSettings
            (workerStep plainSettings sealedBetween)).1.db.fpItems.rows,
          item.id = u.itemId ∧ item.status = .failed := by
    decide +kernel
  obtain ⟨u, hu, hs, hjob, hok, v, hv, hid, hf, item, hi, hitem, hfail⟩ := hfacts
  refine ⟨sealedBetween, workerStep plainSettings (workerStep plainSettings sealedBetween), u, v,
    ?_, Table.get_of_mem hu, hs, hjob, ?_, hid ▸ Table.get_of_mem hv, hf,
    ⟨item, hitem ▸ Table.get_of_mem hi, hfail⟩, ?_⟩
  · exact run_apiStep (run_workerStep (run_workerStep run_uploaded trivial) trivial)
      (.completeSeal _)
  · exact run_workerStep (run_workerStep .refl trivial) trivial
  · rintro ⟨item, hi, hs⟩
    exact hok item (Table.mem_of_get hi) hs

end Mnema
