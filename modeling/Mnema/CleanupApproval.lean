import Mnema.CleanupSelection

/-! A manifest that is executed at once, with nothing changed since it was built. -/

namespace Mnema

namespace CleanupClient

open Cleanup

variable (c : CleanupClient) (now : Time) (w : CleanupWorld) {α : Type}

@[simp] theorem exec_load (f : CleanupDb → CleanupCode α) :
    (Cleanup.op .load >>= f).exec (c.answers now) w = (f w.txn).exec (c.answers now) w := rfl

@[simp] theorem exec_store (d : CleanupDb) (f : Unit → CleanupCode α) :
    (Cleanup.op (.store d) >>= f).exec (c.answers now) w =
      (f ()).exec (c.answers now) { w with txn := d } := rfl

@[simp] theorem exec_commit (f : Unit → CleanupCode α) :
    (Cleanup.op .commit >>= f).exec (c.answers now) w = (f ()).exec (c.answers now) w.commit := rfl

@[simp] theorem exec_utcnow (f : Time → CleanupCode α) :
    (Cleanup.op .utcnow >>= f).exec (c.answers now) w = (f now).exec (c.answers now) w := rfl

@[simp] theorem exec_files (f : Files → CleanupCode α) :
    (Cleanup.op .files >>= f).exec (c.answers now) w = (f c.files).exec (c.answers now) w := rfl

@[simp] theorem exec_delete (i r t : String) (f : DeleteOutcome → CleanupCode α) :
    (Cleanup.op (.deleteToRecentlyDeleted i r t) >>= f).exec (c.answers now) w =
      (f (c.outcome i)).exec (c.answers now)
        { w with calls := w.calls ++ [⟨i, r, t, c.outcome i, w.db⟩] } := rfl

@[simp] theorem exec_clientQuota (f : ICloudQuota → CleanupCode α) :
    (clientQuota >>= f).exec (c.answers now) w = (f c.quota).exec (c.answers now) w := rfl

@[simp] theorem exec_clientAssets (f : List ICloudRemoteAsset → CleanupCode α) :
    (clientAssets >>= f).exec (c.answers now) w = (f c.remotes).exec (c.answers now) w := rfl

@[simp] theorem exec_modify (g : CleanupDb → CleanupDb) (f : Unit → CleanupCode α) :
    (modify g >>= f).exec (c.answers now) w =
      (f ()).exec (c.answers now) { w with txn := g w.txn } := rfl

@[simp] theorem exec_blockIf (condition : Bool) (text : String) (f : Unit → CleanupCode α) :
    (blockIf condition text >>= f).exec (c.answers now) w =
      if condition then (.error (.blocked text), w) else (f ()).exec (c.answers now) w := by
  cases condition <;> rfl

@[simp] theorem exec_ofExcept {β : Type} (r : Except CleanupError β) (f : β → CleanupCode α) :
    (Prog.ofExcept r >>= f).exec (c.answers now) w = match r with
      | .ok a => (f a).exec (c.answers now) w
      | .error e => (.error e, w) := by
  cases r <;> rfl

theorem exec_refreshInventory (f : Unit → CleanupCode α) :
    (refreshInventory >>= f).exec (c.answers now) w =
      match refreshAssets c.remotes now c.remotes w.txn with
      | .ok d => (f ()).exec (c.answers now) { w with txn := d }
      | .error e => (.error e, w) := by
  have hexec : (refreshInventory >>= f).exec (c.answers now) w =
      ((Prog.ofExcept (refreshAssets c.remotes now c.remotes w.txn) >>= fun d =>
        Cleanup.op (.store d)) >>= f).exec (c.answers now) w := rfl
  rw [hexec]
  cases refreshAssets c.remotes now c.remotes w.txn <;> rfl

end CleanupClient

/-- The database after the expiry and the observation that `create_manifest` begins with. -/
def CleanupDb.opened (d : CleanupDb) (quota : ICloudQuota) (now : Time) : CleanupDb :=
  { d.expireManifests now with observations := d.observations ++ [quota] }

/-- What `create_manifest` found where it built a new manifest. -/
structure Built (settings : ICloudSettings) (hashes : CleanupHashes) (c : CleanupClient) (now : Time)
    (before : CleanupDb) (m : ICloudCleanupManifest) (d : CleanupDb) : Prop where
  enabled : settings.capacityReliefEnabled = true
  pressure : ∃ percent, c.quota.usedPercent = .ok percent ∧ ¬percent < settings.triggerPercent
  refreshed : refreshAssets c.remotes now c.remotes (before.opened c.quota now) = .ok d
  fresh : d.manifests.get m.id = none
  selected : ∃ selected, selected = selectAssets settings.maxAssets
      (share c.quota.quotaBytes settings.maxQuotaPercent)
      (c.quota.usedBytes - share c.quota.quotaBytes settings.targetPercent) 0 0
      (d.candidates settings c.files now) ∧ selected ≠ [] ∧
    m = d.manifestOf hashes settings c.quota now selected

/-- The database with the new manifest. -/
def CleanupDb.withManifest (d : CleanupDb) (m : ICloudCleanupManifest) : CleanupDb :=
  CleanupDb.audit { d with manifests := d.manifests.insert m }
    ⟨"icloud_cleanup_manifest_created", none, m.id, none⟩

variable {settings : ICloudSettings} {hashes : CleanupHashes} {c : CleanupClient} {now now' : Time}
  {w t : CleanupWorld} {m : ICloudCleanupManifest}

theorem CleanupDb.get_opened (d : CleanupDb) (quota : ICloudQuota) (now : Time) {id : Nat}
    (h : d.manifests.get id = none) : (d.opened quota now).manifests.get id = none := by
  have hget := Table.get_mapRows (t := d.manifests) (f := fun m =>
    if m.status = .pendingApproval ∧ m.expiresAt ≤ now then { m with status := .expired } else m)
    (fun m => by split <;> rfl) id
  rw [h] at hget
  exact hget

theorem CleanupDb.mem_of_pending {d : CleanupDb} (h : d.pending = some m) : m ∈ d.manifests.rows := by
  have hmem := List.mem_of_head? h
  rw [List.mem_insertionSort] at hmem
  exact (List.mem_filter.mp hmem).1

theorem createManifest_built (hnew : w.txn.manifests.get m.id = none)
    (h : (createManifest settings hashes).exec (c.answers now) w = (.ok (some m), t)) :
    ∃ d, Built settings hashes c now w.txn m d ∧ t = { w with txn := d.withManifest m } := by
  have hnone := w.txn.get_opened c.quota now hnew
  unfold createManifest at h
  rw [CleanupClient.exec_blockIf] at h
  split at h
  · cases h
  rename_i henabled
  rw [CleanupClient.exec_utcnow, CleanupClient.exec_modify, CleanupClient.exec_clientQuota,
    CleanupClient.exec_modify, CleanupClient.exec_ofExcept] at h
  cases hp : c.quota.usedPercent with
  | error e => simp [hp] at h
  | ok percent =>
    simp only [hp] at h
    change Prog.exec _ _ { w with txn := w.txn.opened c.quota now } = _ at h
    split at h
    · cases h
    rename_i htrigger
    rw [CleanupClient.exec_load] at h
    split at h
    · rename_i existing hpending
      obtain ⟨rfl, rfl⟩ : existing = m ∧ _ := by simpa using h
      have hget := Table.get_of_mem (CleanupDb.mem_of_pending hpending)
      rw [hnone] at hget
      cases hget
    · rw [CleanupClient.exec_refreshInventory] at h
      cases hr : refreshAssets c.remotes now c.remotes (w.txn.opened c.quota now) with
      | error e => simp [hr] at h
      | ok d =>
        simp only [hr] at h
        unfold buildManifest at h
        rw [CleanupClient.exec_load, CleanupClient.exec_files] at h
        dsimp only at h
        have hmanifests := CleanupDb.keeps_refreshAssets hr
        rw [← hmanifests] at hnone
        split at h
        · cases h
        rename_i hselected
        split at h
        · rename_i existing hfirst
          obtain ⟨rfl, _⟩ : existing = m ∧ _ := by simpa using h
          rw [Table.get_of_first hfirst] at hnone
          cases hnone
        · rw [CleanupClient.exec_store] at h
          obtain ⟨rfl, rfl⟩ := by simpa using h
          refine ⟨d, ⟨by simpa using henabled, ⟨percent, hp, htrigger⟩, hr, hnone, _, rfl, hselected,
            rfl⟩, rfl⟩

/-- An approval that finds the manifest pending, in time and under pressure is decided by its
entries. -/
theorem exec_approveManifest (hget : w.txn.manifests.get m.id = some m)
    (hstatus : m.status = .pendingApproval) (hexpires : now < m.expiresAt)
    (hmilestone : settings.deletionMilestoneApproved = true)
    (hpressure : ∃ percent, c.quota.usedPercent = .ok percent ∧ ¬percent < settings.triggerPercent) :
    (approveManifest settings hashes m.id m.digest true).exec (c.answers now) w =
      match checkEntries settings hashes w.txn c.files now true c.remotes m
        ⟨0, 0, m.entries.length⟩ m.entries with
      | .ok () => (.ok (m, now), w)
      | .error e => (.error e, w) := by
  obtain ⟨percent, hp, htrigger⟩ := hpressure
  unfold approveManifest
  rw [CleanupClient.exec_blockIf, hmilestone, CleanupClient.exec_load, hget]
  dsimp only
  rw [CleanupClient.exec_blockIf, CleanupClient.exec_utcnow, CleanupClient.exec_blockIf, hstatus]
  simp only [bne_self_eq_false, Bool.not_true, Bool.false_eq_true, if_false, not_le.mpr hexpires]
  rw [CleanupClient.exec_blockIf, if_neg (by simp), CleanupClient.exec_clientQuota,
    CleanupClient.exec_ofExcept, hp]
  dsimp only
  rw [CleanupClient.exec_blockIf, if_neg (by simpa using htrigger), CleanupClient.exec_clientAssets,
    CleanupClient.exec_files, CleanupClient.exec_ofExcept]
  cases checkEntries settings hashes w.txn c.files now true c.remotes m ⟨0, 0, m.entries.length⟩
    m.entries <;> rfl

/-- No request is forgotten. -/
theorem calls_le (c : CleanupClient) (now : Time) {α : Type} (p : CleanupCode α) (w : CleanupWorld) :
    w.calls.length ≤ (p.exec (c.answers now) w).2.calls.length := by
  refine Prog.exec_preserves (I := fun (t : CleanupWorld) => w.calls.length ≤ t.calls.length)
    (fun t o h => ?_) p (Nat.le_refl _)
  cases o with
  | deleteToRecentlyDeleted i r g =>
    show w.calls.length ≤ (t.calls ++ [_]).length
    rw [List.length_append]
    omega
  | _ => exact h

theorem calls_le_bind (c : CleanupClient) (now : Time) {α β : Type} (p : CleanupCode α)
    (f : α → CleanupCode β) (w : CleanupWorld) :
    (p.exec (c.answers now) w).2.calls.length ≤
      ((p >>= f).exec (c.answers now) w).2.calls.length := by
  rw [Prog.exec_bind]
  split
  · rename_i a t hp
    rw [hp]
    exact calls_le c now (f a) t
  · rename_i e t hp
    rw [hp]

theorem calls_lt_deleteEntries (c : CleanupClient) (now : Time) (id : Nat)
    (entry : ICloudCleanupEntry) (rest : List ICloudCleanupEntry) (w : CleanupWorld) :
    w.calls.length < ((deleteEntries id (entry :: rest)).exec (c.answers now) w).2.calls.length := by
  rw [deleteEntries, CleanupClient.exec_delete]
  refine Nat.lt_of_lt_of_le ?_ (calls_le c now _ _)
  show w.calls.length < (w.calls ++ [_]).length
  rw [List.length_append]
  exact Nat.lt_succ_self _

theorem calls_outcome (h : CleanupWorld → (o : CleanupOp) → o.Ans × CleanupWorld) {α : Type}
    (p : CleanupCode α) (w : CleanupWorld) :
    (CleanupWorld.transactions.outcome h p w).2.calls = (p.exec h w).2.calls := by
  unfold Transactions.outcome
  split
  · rename_i hp
    rw [hp]
    rfl
  · rename_i hp
    rw [hp]
    rfl

/-- The call was refused before it requested a deletion. -/
def RefusedAtOnce (w : CleanupWorld) (r : Except CleanupError Unit × CleanupWorld) : Prop :=
  ∃ text, r.1 = .error (.blocked text) ∧ r.2.calls = w.calls

theorem refusedAtOnce_iff (hget : w.txn.manifests.get m.id = some m)
    (hstatus : m.status = .pendingApproval) (hexpires : now < m.expiresAt)
    (hmilestone : settings.deletionMilestoneApproved = true)
    (hpressure : ∃ percent, c.quota.usedPercent = .ok percent ∧ ¬percent < settings.triggerPercent)
    (hentries : m.entries ≠ []) :
    RefusedAtOnce w (CleanupWorld.transactions.outcome (c.answers now)
        (execute settings hashes m.id m.digest true) w) ↔
      ∃ text, checkEntries settings hashes w.txn c.files now true c.remotes m
        ⟨0, 0, m.entries.length⟩ m.entries = .error (.blocked text) := by
  have hexec : (execute settings hashes m.id m.digest true).exec (c.answers now) w = _ :=
    Prog.exec_bind (c.answers now) (approveManifest settings hashes m.id m.digest true) _ w
  rw [exec_approveManifest hget hstatus hexpires hmilestone hpressure] at hexec
  cases hcheck : checkEntries settings hashes w.txn c.files now true c.remotes m
      ⟨0, 0, m.entries.length⟩ m.entries with
  | error e =>
    simp only [hcheck] at hexec
    unfold Transactions.outcome
    rw [hexec]
    constructor
    · rintro ⟨text, h, _⟩
      exact ⟨text, h⟩
    · rintro ⟨text, h⟩
      exact ⟨text, h, rfl⟩
  | ok _ =>
    simp only [hcheck] at hexec
    obtain ⟨entry, rest, hcons⟩ := List.exists_cons_of_ne_nil hentries
    rw [CleanupClient.exec_modify, CleanupClient.exec_commit, hcons] at hexec
    have hasked : w.calls.length <
        ((execute settings hashes m.id m.digest true).exec (c.answers now) w).2.calls.length := by
      rw [hexec]
      refine Nat.lt_of_lt_of_le ?_ (calls_le_bind c now (deleteEntries m.id (entry :: rest)) _ _)
      exact calls_lt_deleteEntries c now m.id entry rest (CleanupWorld.commit { w with txn := _ })
    refine iff_of_false ?_ (by simp)
    rintro ⟨text, _, hcalls⟩
    rw [calls_outcome] at hcalls
    rw [hcalls] at hasked
    exact Nat.lt_irrefl _ hasked

/-- The candidate at rank `i` is selected: the ones before it leave room, and need. -/
structure Taken (settings : ICloudSettings) (quota : ICloudQuota) (candidates : List ICloudAsset)
    (i : Nat) : Prop where
  count : i < settings.maxAssets
  fits : i ≠ 0 → ((candidates.take (i + 1)).map (·.originalSize)).sum ≤
    share quota.quotaBytes settings.maxQuotaPercent
  needed : i ≠ 0 → ((candidates.take i).map (·.originalSize)).sum <
    quota.usedBytes - share quota.quotaBytes settings.targetPercent

/-- Every candidate that is taken is in the inventory and has a component, and the first is no
larger than the byte cap. -/
def Executable (settings : ICloudSettings) (c : CleanupClient) (now : Time) (d : CleanupDb) : Prop :=
  ∀ i a, (d.candidates settings c.files now)[i]? = some a →
    Taken settings c.quota (d.candidates settings c.files now) i →
    d.Deletable c.remotes a ∧
      (i = 0 → a.originalSize ≤ share c.quota.quotaBytes settings.maxQuotaPercent)

theorem executable_iff {d : CleanupDb} {selected : List ICloudAsset}
    (h : selected = selectAssets settings.maxAssets (share c.quota.quotaBytes settings.maxQuotaPercent)
      (c.quota.usedBytes - share c.quota.quotaBytes settings.targetPercent) 0 0
      (d.candidates settings c.files now)) :
    Executable settings c now d ↔ (∀ a ∈ selected, d.Deletable c.remotes a) ∧
      ∀ a, selected.head? = some a →
        a.originalSize ≤ share c.quota.quotaBytes settings.maxQuotaPercent := by
  have htaken : ∀ i a, selected[i]? = some a ↔ (d.candidates settings c.files now)[i]? = some a ∧
      Taken settings c.quota (d.candidates settings c.files now) i := by
    intro i a
    rw [h, getElem?_selectAssets]
    simp only [Nat.zero_add]
    exact and_congr_right fun _ => ⟨fun h => ⟨h.1, h.2.1, h.2.2⟩, fun h => ⟨h.1, h.2, h.3⟩⟩
  constructor
  · intro hall
    refine ⟨fun a ha => ?_, fun a ha => ?_⟩
    · obtain ⟨i, hi⟩ := List.mem_iff_getElem?.mp ha
      obtain ⟨hc, ht⟩ := (htaken i a).mp hi
      exact (hall i a hc ht).1
    · rw [List.head?_eq_getElem?] at ha
      obtain ⟨hc, ht⟩ := (htaken 0 a).mp ha
      exact (hall 0 a hc ht).2 rfl
  · rintro ⟨hall, hfirst⟩ i a hc ht
    have hi := (htaken i a).mpr ⟨hc, ht⟩
    refine ⟨hall a (List.mem_of_getElem? hi), fun hz => ?_⟩
    subst hz
    exact hfirst a (List.head?_eq_getElem? ▸ hi)

theorem entriesOf_withManifest (d : CleanupDb) (m : ICloudCleanupManifest) (position : Nat)
    (selected : List ICloudAsset) :
    (d.withManifest m).entriesOf hashes position selected = d.entriesOf hashes position selected := by
  induction selected generalizing position with
  | nil => rfl
  | cons a selected ih =>
    rw [CleanupDb.entriesOf, CleanupDb.entriesOf, ih]
    rfl

theorem length_entriesOf (d : CleanupDb) (position : Nat) (selected : List ICloudAsset) :
    (d.entriesOf hashes position selected).length = selected.length := by
  induction selected generalizing position with
  | nil => rfl
  | cons a selected ih => simp [CleanupDb.entriesOf, ih]

/-- What a candidate is, still at the time of the execution. -/
theorem selectable_of_candidate {d db : CleanupDb} (hu : db.UniqueAssets)
    (hr : refreshAssets c.remotes now c.remotes (db.opened c.quota now) = .ok d) (hnow : now ≤ now')
    {a : ICloudAsset} (ha : a ∈ d.candidates settings c.files now) :
    Selectable (d.withManifest m) settings c.files now' c.remotes a := by
  obtain ⟨hmem, heligible⟩ := List.mem_filter.mp ha
  rw [List.mem_insertionSort] at hmem
  have hrow := (List.mem_filter.mp hmem).1
  refine ⟨Table.get_of_mem hrow, CleanupDb.eligible_later hnow heligible, ?_⟩
  have hopened : (db.opened c.quota now).UniqueAssets := hu
  exact (CleanupDb.rows_refreshAssets hopened hr a hrow).2

theorem refused_of_built {db d : CleanupDb} {calls : List DeleteCall} (hu : db.UniqueAssets)
    (hb : Built settings hashes c now db m d) (hnow : now ≤ now') (hlimit : now' < now + hours 24)
    (hmilestone : settings.deletionMilestoneApproved = true)
    (hw : w = ⟨d.withManifest m, d.withManifest m, calls⟩) :
    RefusedAtOnce w (CleanupWorld.transactions.outcome (c.answers now')
      (execute settings hashes m.id m.digest true) w) ↔ ¬Executable settings c now d := by
  obtain ⟨selected, hselected, hne, hm⟩ := hb.selected
  have hget : (d.withManifest m).manifests.get m.id = some m := Table.get_insert_self hb.fresh
  have hentries : m.entries = (d.withManifest m).entriesOf hashes 0 selected := by
    rw [entriesOf_withManifest, hm]
    rfl
  have hlen : m.entries.length = selected.length := by
    rw [hentries, length_entriesOf]
  have hnonempty : m.entries ≠ [] := by
    rw [← List.length_pos_iff, hlen, List.length_pos_iff]
    exact hne
  subst hw
  rw [refusedAtOnce_iff hget (by rw [hm]; rfl) (by rw [hm]; exact hlimit) hmilestone hb.pressure
    hnonempty]
  have hcap : m.quotaBytes = c.quota.quotaBytes := by
    rw [hm]
    rfl
  have hcheck := @checkEntries_iff (d.withManifest m) settings hashes c.files _ c.remotes m hb.enabled
    (c.quota.usedBytes - share c.quota.quotaBytes settings.targetPercent) m.entries.length _
    (fun a ha => selectable_of_candidate (m := m) hu hb.refreshed hnow ha) 0 0
  dsimp only at hcheck
  rw [hcap, ← hselected] at hcheck
  obtain ⟨hblocked, hok⟩ := hcheck (by omega)
  rw [← hentries] at hblocked hok
  have hsame : Executable settings c now d ↔ _ := executable_iff hselected
  have hdeletable : ∀ a, (d.withManifest m).Deletable c.remotes a ↔ d.Deletable c.remotes a :=
    fun a => ⟨fun h => ⟨h.listed, h.mapped⟩, fun h => ⟨h.listed, h.mapped⟩⟩
  simp only [hdeletable, Nat.zero_add, true_imp_iff] at hok
  rw [hsame, ← hok]
  rcases hblocked with h | ⟨text, h⟩
  · simp [h]
  · simp [h]

/-- A manifest that was just built is executable exactly if the inventory still has every asset
that the selection took, each with a component, and the first fits the byte cap by itself. -/
theorem executable_at_once {db : CleanupDb} {calls : List DeleteCall} (hu : db.UniqueAssets)
    (hnew : db.manifests.get m.id = none)
    (hcreate : CleanupWorld.transactions.outcome (c.answers now) (createManifest settings hashes)
      ⟨db, db, calls⟩ = (.ok (some m), w))
    (hmilestone : settings.deletionMilestoneApproved = true) (hnow : now ≤ now')
    (hlimit : now' < now + hours 24) :
    ∃ d, refreshAssets c.remotes now c.remotes (db.opened c.quota now) = .ok d ∧
      (¬RefusedAtOnce w (CleanupWorld.transactions.outcome (c.answers now')
        (execute settings hashes m.id m.digest true) w) ↔ Executable settings c now d) := by
  obtain ⟨t, hexec, rfl⟩ : ∃ t, (createManifest settings hashes).exec (c.answers now) ⟨db, db, calls⟩ =
      (.ok (some m), t) ∧ w = t.commit := by
    unfold Transactions.outcome at hcreate
    split at hcreate
    · rename_i a t he
      obtain ⟨ha, hw⟩ := Prod.mk.inj hcreate
      obtain rfl := Except.ok.inj ha
      exact ⟨t, he, hw.symm⟩
    · cases hcreate
  obtain ⟨d, hb, rfl⟩ := createManifest_built hnew hexec
  refine ⟨d, hb.refreshed, ?_⟩
  have hrefused := refused_of_built (w := ⟨d.withManifest m, d.withManifest m, calls⟩) hu hb hnow
    hlimit hmilestone rfl
  exact (not_congr hrefused).trans not_not

def plannedEntry (id position : Nat) (appleAssetId : String) (size : Nat) : ICloudCleanupEntry :=
  { icloudAssetId := id, position := position, appleAssetId := appleAssetId,
    assetRecordName := "record", changeTag := "tag", sizeBytes := size, evidenceDigest := "evidence" }

def plannedManifest (entries : List ICloudCleanupEntry) : ICloudCleanupManifest :=
  { id := 1, digest := "manifest", usedBytes := 190, quotaBytes := 200, targetBytes := 160,
    plannedBytes := (entries.map (·.sizeBytes)).sum, expiresAt := days 101, entries := entries }

theorem executable_at_once_both : ∃ d, refreshAssets confirmFirst.remotes (days 100)
      confirmFirst.remotes (twoItems.opened confirmFirst.quota (days 100)) = .ok d ∧
    (¬RefusedAtOnce twoPlanned (CleanupWorld.transactions.outcome (confirmFirst.answers (days 100))
        (execute reliefSettings constantHashes 1 "manifest" true) twoPlanned) ↔
      Executable reliefSettings confirmFirst (days 100) d) :=
  executable_at_once (m := plannedManifest [plannedEntry 1 0 "first" 10, plannedEntry 2 1 "second" 10])
    (fun a ha => by cases ha) rfl (Prod.ext (by decide +kernel) rfl) rfl (le_refl _) (by decide)

/-- The client before and after `first` was deleted elsewhere. -/
def forgetful : CleanupClient := { confirmFirst with remotes := [] }

/-- The table of assets, as an earlier refresh left it. -/
def twoSeen : CleanupDb :=
  (CleanupWorld.transactions.outcome (confirmFirst.answers (days 100)) refreshInventory
    ⟨twoItems, twoItems, []⟩).2.db

def forgottenPlanned : Except CleanupError (Option ICloudCleanupManifest) × CleanupWorld :=
  CleanupWorld.transactions.outcome (forgetful.answers (days 100))
    (createManifest reliefSettings constantHashes) ⟨twoSeen, twoSeen, []⟩

/-- The only asset is larger than the share of the quota that a run may delete. -/
def oversized : CleanupClient :=
  { confirmFirst with remotes := [⟨"first", "record", "tag", 0, 21, false, 1⟩] }

def oversizedPlanned : Except CleanupError (Option ICloudCleanupManifest) × CleanupWorld :=
  CleanupWorld.transactions.outcome (oversized.answers (days 100))
    (createManifest reliefSettings constantHashes) ⟨twoItems, twoItems, []⟩

/-- Manifests are built that no execution can accept: of assets that the inventory lost, and of
one asset above the cap. -/
theorem built_not_executable :
    (forgottenPlanned.1 =
        .ok (some (plannedManifest [plannedEntry 1 0 "first" 10, plannedEntry 2 1 "second" 10])) ∧
      twoSeen.manifests.get 1 = none ∧
      RefusedAtOnce forgottenPlanned.2 (CleanupWorld.transactions.outcome
        (forgetful.answers (days 100)) (execute reliefSettings constantHashes 1 "manifest" true)
        forgottenPlanned.2)) ∧
    (oversizedPlanned.1 = .ok (some (plannedManifest [plannedEntry 1 0 "first" 21])) ∧
      RefusedAtOnce oversizedPlanned.2 (CleanupWorld.transactions.outcome
        (oversized.answers (days 100)) (execute reliefSettings constantHashes 1 "manifest" true)
        oversizedPlanned.2)) := by
  have hforgotten : (CleanupWorld.transactions.outcome (forgetful.answers (days 100))
      (execute reliefSettings constantHashes 1 "manifest" true) forgottenPlanned.2).2.calls = [] :=
    List.eq_nil_of_length_eq_zero (by decide +kernel)
  have hoversized : (CleanupWorld.transactions.outcome (oversized.answers (days 100))
      (execute reliefSettings constantHashes 1 "manifest" true) oversizedPlanned.2).2.calls = [] :=
    List.eq_nil_of_length_eq_zero (by decide +kernel)
  refine ⟨⟨by decide +kernel, by decide +kernel, ?_⟩, by decide +kernel, ?_⟩
  · refine ⟨"approved iCloud asset is missing or protected", by decide +kernel, hforgotten.trans ?_⟩
    exact (List.eq_nil_of_length_eq_zero (by decide +kernel)).symm
  · refine ⟨"per-run byte deletion limit exceeded", by decide +kernel, hoversized.trans ?_⟩
    exact (List.eq_nil_of_length_eq_zero (by decide +kernel)).symm

end Mnema
