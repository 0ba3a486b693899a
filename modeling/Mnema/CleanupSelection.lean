import Mnema.CleanupAccounting
import Mathlib.Tactic.Linarith
import Mathlib.Algebra.Order.Field.Basic

/-! What `create_manifest` selects, and what `execute` accepts of it. The
selection reads the table of assets; the execution reads the inventory, and
repeats the caps in its gate. -/

namespace Mnema

namespace CleanupDb

/-! ### The refreshed table -/

/-- `apple_asset_id` is unique. -/
def UniqueAssets (d : CleanupDb) : Prop :=
  ∀ a ∈ d.assets.rows, ∀ b ∈ d.assets.rows, a.appleAssetId = b.appleAssetId → a.id = b.id

variable {d d' : CleanupDb} {remotes : List ICloudRemoteAsset} {remote : ICloudRemoteAsset}
  {now : Time}

theorem seen_appleAssetId (d : CleanupDb) (remote : ICloudRemoteAsset) (now : Time) :
    (d.seen remote now).appleAssetId = remote.appleAssetId := by
  unfold seen
  split
  · rename_i asset h
    have hp := Table.pred_of_first h
    simpa [ICloudAsset.update] using hp
  · rfl

theorem seen_id (hu : d.UniqueAssets) {a : ICloudAsset} (ha : a ∈ d.assets.rows)
    (hr : a.appleAssetId = remote.appleAssetId) : a.id = (d.seen remote now).id := by
  unfold seen
  split
  · rename_i asset h
    have hp : asset.appleAssetId = remote.appleAssetId := by simpa using Table.pred_of_first h
    exact hu a ha asset (Table.mem_of_get (Table.get_of_first h)) (hr.trans hp.symm)
  · rename_i h
    have hnone := List.find?_eq_none.mp h a ha
    simp [hr] at hnone

theorem assets_refreshAsset (h : refreshAsset remotes now d remote = .ok d') :
    d'.assets = (d.putAsset (d.seen remote now)).assets := by
  unfold refreshAsset at h
  dsimp only at h
  split at h
  · cases h
    rfl
  · split at h
    · cases h
    · cases h
      rfl

theorem mem_refreshAsset (hu : d.UniqueAssets) (h : refreshAsset remotes now d remote = .ok d')
    {a : ICloudAsset} (ha : a ∈ d'.assets.rows) :
    a = d.seen remote now ∨ (a ∈ d.assets.rows ∧ a.appleAssetId ≠ remote.appleAssetId) := by
  rw [assets_refreshAsset h] at ha
  rcases Table.mem_put ha with rfl | ⟨ha, hne⟩
  · exact .inl rfl
  · rcases Table.mem_insert ha with ha | rfl
    · exact .inr ⟨ha, fun hr => hne (seen_id hu ha hr)⟩
    · exact .inl rfl

theorem unique_refreshAsset (hu : d.UniqueAssets)
    (h : refreshAsset remotes now d remote = .ok d') : d'.UniqueAssets := by
  intro a ha b hb hab
  have hs := d.seen_appleAssetId remote now
  rcases mem_refreshAsset hu h ha with rfl | ⟨ha, hna⟩
  · rcases mem_refreshAsset hu h hb with rfl | ⟨hb, hnb⟩
    · rfl
    · exact absurd (hab.symm.trans hs) hnb
  · rcases mem_refreshAsset hu h hb with rfl | ⟨hb, hnb⟩
    · exact absurd (hab.trans hs) hna
    · exact hu a ha b hb hab

end CleanupDb

/-- The row agrees with the inventory, where that has the asset. -/
def ICloudAsset.Current (remotes : List ICloudRemoteAsset) (a : ICloudAsset) : Prop :=
  ∀ r, currentAsset remotes a.appleAssetId = some r →
    r.assetRecordName = a.assetRecordName ∧ r.changeTag = a.changeTag ∧ r.favorite = a.favorite

theorem currentAsset_cons (remote : ICloudRemoteAsset) (rest : List ICloudRemoteAsset)
    (id : String) :
    currentAsset (remote :: rest) id =
      (currentAsset rest id).or (if remote.appleAssetId = id then some remote else none) := by
  simp only [currentAsset, List.reverse_cons, List.find?_append, List.find?_cons, List.find?_nil]
  by_cases h : remote.appleAssetId = id
  · simp [h]
  · have hne : (remote.appleAssetId == id) = false := by simpa using h
    simp [h, hne]

theorem isSome_currentAsset {remotes : List ICloudRemoteAsset} {id : String} :
    (currentAsset remotes id).isSome ↔ id ∈ remotes.map (·.appleAssetId) := by
  simp [currentAsset]

namespace CleanupDb

variable {d d' : CleanupDb} {remotes : List ICloudRemoteAsset} {now : Time}

/-- The refresh keeps the rows of assets that the inventory lost; the others agree with it. -/
theorem rows_refreshAssets {rest : List ICloudRemoteAsset} (hu : d.UniqueAssets)
    (h : refreshAssets remotes now rest d = .ok d') : ∀ a ∈ d'.assets.rows,
      (currentAsset rest a.appleAssetId = none → a ∈ d.assets.rows) ∧ a.Current rest := by
  induction rest generalizing d with
  | nil =>
    cases h
    intro a ha
    exact ⟨fun _ => ha, fun r hr => by simp [currentAsset] at hr⟩
  | cons remote rest ih =>
    unfold refreshAssets at h
    cases hr : refreshAsset remotes now d remote with
    | error e => simp [hr] at h
    | ok d₁ =>
      rw [hr] at h
      intro a ha
      obtain ⟨hmem, hcurrent⟩ := ih (unique_refreshAsset hu hr) h a ha
      cases hc : currentAsset rest a.appleAssetId with
      | some r =>
        refine ⟨fun hn => ?_, fun r' hr' => ?_⟩
        · rw [currentAsset_cons, hc] at hn
          simp at hn
        · rw [currentAsset_cons, hc] at hr'
          exact hcurrent r' (hc.trans hr')
      | none =>
        rcases mem_refreshAsset hu hr (hmem hc) with rfl | ⟨ha₁, hne⟩
        · have hs := d.seen_appleAssetId remote now
          refine ⟨fun hn => ?_, fun r' hr' => ?_⟩
          · rw [currentAsset_cons, hc, hs] at hn
            simp at hn
          · rw [currentAsset_cons, hc, hs] at hr'
            simp only [Option.none_or, if_true] at hr'
            obtain rfl := Option.some.inj hr'
            unfold seen
            split <;> exact ⟨rfl, rfl, rfl⟩
        · refine ⟨fun _ => ha₁, fun r' hr' => ?_⟩
          rw [currentAsset_cons, hc, if_neg fun h => hne h.symm] at hr'
          simp at hr'

end CleanupDb

/-! ### The gate on an eligible asset -/

theorem foldl_max_le {bound : Time} {times : List Time} (h : ∀ t ∈ times, t ≤ bound) {t : Time}
    (ht : t ≤ bound) : times.foldl max t ≤ bound := by
  induction times generalizing t with
  | nil => exact ht
  | cons x times ih =>
    exact ih (fun y hy => h y (List.mem_cons_of_mem _ hy))
      (max_le ht (h x (List.mem_cons_self ..)))

theorem ArchiveItem.released_later {settings : ICloudSettings} {files : Files} {now now' : Time}
    (hnow : now ≤ now') {item : ArchiveItem} (h : item.released settings files now = true) :
    item.released settings files now' = true := by
  simp only [ArchiveItem.released, Bool.and_eq_true] at h ⊢
  obtain ⟨⟨⟨h, hq⟩, hc⟩, hp⟩ := h
  refine ⟨⟨⟨h, ?_⟩, ?_⟩, hp⟩
  · obtain ⟨t, ht, hle⟩ := (Option.any_eq_true ..).mp hq
    exact (Option.any_eq_true ..).mpr ⟨t, ht, decide_eq_true ((of_decide_eq_true hle).trans hnow)⟩
  · obtain ⟨t, ht, hle⟩ := (Option.any_eq_true ..).mp hc
    exact (Option.any_eq_true ..).mpr ⟨t, ht, decide_eq_true ((of_decide_eq_true hle).trans hnow)⟩

/-- What the gate reads of a released item. -/
structure ArchiveItem.Released (settings : ICloudSettings) (files : Files) (now : Time)
    (item : ArchiveItem) : Prop where
  kopia : item.kopiaVerifiedAt.isSome = true
  remote : item.remoteVerifiedAt.isSome = true
  file : ∃ path, item.nasPath = some path ∧ (files path).regular = true ∧
    (files path).size = item.originalSize ∧ item.plaintextSha256 = some (files path).sha256
  cold : ∃ t, item.coldArchivedAt = some t ∧ t + days settings.quarantineDays ≤ now

theorem ArchiveItem.released_spec {settings : ICloudSettings} {files : Files} {now : Time}
    {item : ArchiveItem} (h : item.released settings files now = true) :
    item.Released settings files now := by
  simp only [ArchiveItem.released, Bool.and_eq_true] at h
  obtain ⟨⟨⟨⟨⟨⟨⟨⟨⟨⟨⟨_, hk⟩, _⟩, hr⟩, _⟩, _⟩, _⟩, _⟩, _⟩, _⟩, hc⟩, hp⟩ := h
  obtain ⟨t, ht, hle⟩ := (Option.any_eq_true ..).mp hc
  obtain ⟨path, hpath, hfile⟩ := (Option.any_eq_true ..).mp hp
  simp only [Bool.and_eq_true, beq_iff_eq] at hfile
  exact ⟨hk, hr, ⟨path, hpath, hfile.1.1.2, hfile.1.2, hfile.2⟩, t, ht, of_decide_eq_true hle⟩

namespace CleanupDb

variable {d : CleanupDb} {settings : ICloudSettings} {files : Files} {now now' : Time}
  {a : ICloudAsset}

theorem eligible_later (hnow : now ≤ now') (h : d.eligible settings files now a = true) :
    d.eligible settings files now' a = true := by
  simp only [eligible, Bool.and_eq_true, List.all_eq_true] at h ⊢
  refine ⟨h.1, fun c hc => ?_⟩
  obtain ⟨item, hi, hr⟩ := (Option.any_eq_true ..).mp (h.2 c hc)
  exact (Option.any_eq_true ..).mpr ⟨item, hi, ArchiveItem.released_later hnow hr⟩

theorem released_of_eligible (h : d.eligible settings files now a = true) :
    ∀ item ∈ d.itemsOf a, item.released settings files now = true := by
  simp only [eligible, Bool.and_eq_true, List.all_eq_true] at h
  intro item hitem
  obtain ⟨c, hc, hget⟩ := List.mem_filterMap.mp hitem
  obtain ⟨item', hi, hr⟩ := (Option.any_eq_true ..).mp (h.2 c hc)
  exact Option.some.inj (hi.symm.trans hget) ▸ hr

theorem items_of_components (h : d.eligible settings files now a = true) :
    d.itemsOf a = [] ↔ d.componentsOf a = [] := by
  simp only [eligible, Bool.and_eq_true, List.all_eq_true] at h
  constructor
  · intro hi
    refine List.eq_nil_iff_forall_not_mem.mpr fun c hc => ?_
    obtain ⟨item, hget, _⟩ := (Option.any_eq_true ..).mp (h.2 c hc)
    have hmem : item ∈ d.itemsOf a := List.mem_filterMap.mpr ⟨c, hc, hget⟩
    rw [hi] at hmem
    cases hmem
  · intro hc
    simp [itemsOf, hc]

/-- Every check of the gate passes on what `_eligible` accepted. -/
theorem checks_of_eligible (h : d.eligible settings files now a = true)
    (hs : settings.capacityReliefEnabled = true) :
    ∀ c ∈ (d.deletionFacts settings files now true a).checks, c.2 = true := by
  have hitems := fun item hi => ArchiveItem.released_spec (released_of_eligible h item hi)
  have hexists : ((d.itemsOf a).all fun i => i.nasPath.any fun p => (files p).regular) = true := by
    refine List.all_eq_true.mpr fun item hi => ?_
    obtain ⟨path, hpath, hr, _, _⟩ := (hitems item hi).file
    simp [hpath, hr]
  have hsize : ((d.itemsOf a).all fun i =>
      i.nasPath.any fun p => (files p).size == i.originalSize) = true := by
    refine List.all_eq_true.mpr fun item hi => ?_
    obtain ⟨path, hpath, _, hz, _⟩ := (hitems item hi).file
    simp [hpath, hz]
  have hsha : ((d.itemsOf a).all fun i => i.plaintextSha256.any (· ≠ "")) = true := by
    refine List.all_eq_true.mpr fun item hi => ?_
    obtain ⟨path, _, _, _, hsha⟩ := (hitems item hi).file
    simp [hsha, (files path).sha256_ne]
  have hmatch : ((d.itemsOf a).all fun i => i.nasPath.any fun p =>
      (files p).regular && i.plaintextSha256 == some (files p).sha256) = true := by
    refine List.all_eq_true.mpr fun item hi => ?_
    obtain ⟨path, hpath, hr, _, hsha⟩ := (hitems item hi).file
    simp [hpath, hr, hsha]
  have hkopia : ((d.itemsOf a).all (·.kopiaVerifiedAt.isSome)) = true :=
    List.all_eq_true.mpr fun item hi => (hitems item hi).kopia
  have hremote : ((d.itemsOf a).all (·.remoteVerifiedAt.isSome)) = true :=
    List.all_eq_true.mpr fun item hi => (hitems item hi).remote
  simp only [deletionFacts, DeletionFacts.checks, hexists, hsize, hsha, hmatch, hkopia, hremote, hs,
    Option.isSome_some]
  decide

/-- Without a component, the quarantine never elapses. -/
theorem quarantine_of_eligible (h : d.eligible settings files now a = true) :
    quarantineBlockers (d.deletionFacts settings files now true a).quarantineExpiresAt now = [] ↔
      d.componentsOf a ≠ [] := by
  have hitems := fun item hi => ArchiveItem.released_spec (released_of_eligible h item hi)
  have hcold : ∀ t ∈ (d.itemsOf a).filterMap (·.coldArchivedAt),
      t ≤ now - days settings.quarantineDays := by
    intro t ht
    obtain ⟨item, hi, hget⟩ := List.mem_filterMap.mp ht
    obtain ⟨t', ht', hle⟩ := (hitems item hi).cold
    obtain rfl := Option.some.inj (ht'.symm.trans hget)
    exact Int.le_sub_right_of_add_le hle
  rw [ne_eq, ← items_of_components h]
  simp only [deletionFacts, quarantineBlockers]
  cases hc : (d.itemsOf a).filterMap (·.coldArchivedAt) with
  | nil =>
    have hempty : d.itemsOf a = [] := by
      refine List.eq_nil_iff_forall_not_mem.mpr fun item hi => ?_
      obtain ⟨t, ht, _⟩ := (hitems item hi).cold
      have hmem : t ∈ (d.itemsOf a).filterMap (·.coldArchivedAt) :=
        List.mem_filterMap.mpr ⟨item, hi, ht⟩
      rw [hc] at hmem
      cases hmem
    have hdecade : (0 : Time) < days 3650 := by decide
    have hquarantine : (0 : Time) ≤ days settings.quarantineDays :=
      Int.mul_nonneg (Int.natCast_nonneg _) (by decide)
    have hlater : now < now + days 3650 + days settings.quarantineDays :=
      Int.lt_of_lt_of_le (Int.lt_add_of_pos_right now hdecade)
        (Int.le_add_of_nonneg_right hquarantine)
    simp [hempty, hlater]
  | cons t times =>
    have hne : d.itemsOf a ≠ [] := by
      intro hempty
      rw [hempty] at hc
      cases hc
    rw [hc] at hcold
    have hle := foldl_max_le (fun x hx => hcold x (List.mem_cons_of_mem _ hx))
      (hcold t (List.mem_cons_self ..))
    have hpast : ¬now < times.foldl max t + days settings.quarantineDays :=
      not_lt_of_ge (Int.add_le_of_le_sub_right hle)
    simp [hne, hpast]

end CleanupDb

/-! ### The entries against the selection -/

theorem limitBlockers_eq_nil {usage : DeletionRunUsage} {settings : ICloudSettings}
    {manifest : ICloudCleanupManifest} {size : Nat} (hn : usage.filesDeleted + 1 ≤ usage.eligibleFiles) :
    limitBlockers usage (entryLimits settings manifest) size = [] ↔
      usage.filesDeleted + 1 ≤ settings.maxAssets ∧
        usage.bytesDeleted + size ≤ share manifest.quotaBytes settings.maxQuotaPercent := by
  have hne : usage.eligibleFiles ≠ 0 := by omega
  have hpercent : ¬(100 : ℚ) < deletedPercent (usage.filesDeleted + 1) usage.eligibleFiles :=
    not_lt.mpr (deletedPercent_le hn)
  simp only [limitBlockers, entryLimits, hne, if_false, hpercent, List.append_nil,
    List.append_eq_nil_iff]
  by_cases hf : settings.maxAssets < usage.filesDeleted + 1
  · have hmany : ¬usage.filesDeleted + 1 ≤ settings.maxAssets := by omega
    simp only [hf, if_true, List.cons_ne_nil, hmany, false_and]
  · by_cases hb : share manifest.quotaBytes settings.maxQuotaPercent < usage.bytesDeleted + size
    · have hlarge : ¬usage.bytesDeleted + size ≤ share manifest.quotaBytes settings.maxQuotaPercent := by
        omega
      simp only [hb, if_true, List.cons_ne_nil, hlarge, and_false]
    · simp only [hf, hb, if_false, and_self, true_iff]
      exact ⟨Nat.le_of_not_lt hf, Nat.le_of_not_lt hb⟩

theorem selectAssets_cons (maxAssets byteCap bytesNeeded selected planned : Nat) (a : ICloudAsset)
    (rest : List ICloudAsset) :
    selectAssets maxAssets byteCap bytesNeeded selected planned (a :: rest) =
      if selected < maxAssets ∧ (selected ≠ 0 → planned + a.originalSize ≤ byteCap) then
        a :: if planned + a.originalSize < bytesNeeded then
          selectAssets maxAssets byteCap bytesNeeded (selected + 1) (planned + a.originalSize) rest
        else []
      else [] := by
  rw [selectAssets]
  by_cases hmax : maxAssets ≤ selected
  · have hnot : ¬selected < maxAssets := by omega
    simp [hmax, hnot]
  · by_cases hcap : selected ≠ 0 ∧ byteCap < planned + a.originalSize
    · have hnot : ¬(selected ≠ 0 → planned + a.originalSize ≤ byteCap) := by omega
      rw [if_neg hmax, if_pos hcap, if_neg fun h => hnot h.2]
    · have hroom : selected < maxAssets ∧ (selected ≠ 0 → planned + a.originalSize ≤ byteCap) := by
        omega
      rw [if_neg hmax, if_neg hcap, if_pos hroom]
      by_cases hneed : bytesNeeded ≤ planned + a.originalSize
      · rw [if_pos hneed, if_neg (by omega)]
      · rw [if_neg hneed, if_pos (by omega)]

/-- What `execute` asks of an asset that the selection does not ensure. -/
structure CleanupDb.Deletable (d : CleanupDb) (remotes : List ICloudRemoteAsset) (a : ICloudAsset) :
    Prop where
  listed : a.appleAssetId ∈ remotes.map (·.appleAssetId)
  mapped : d.componentsOf a ≠ []

section Entries

variable {d : CleanupDb} {settings : ICloudSettings} {hashes : CleanupHashes} {files : Files}
  {now : Time} {remotes : List ICloudRemoteAsset} {manifest : ICloudCleanupManifest}

/-- What the refresh and `_eligible` ensure of a candidate. -/
structure Selectable (d : CleanupDb) (settings : ICloudSettings) (files : Files) (now : Time)
    (remotes : List ICloudRemoteAsset) (a : ICloudAsset) : Prop where
  row : d.assets.get a.id = some a
  eligible : d.eligible settings files now a = true
  current : a.Current remotes

theorem checkEntry_iff (hs : settings.capacityReliefEnabled = true) {a : ICloudAsset}
    (ha : Selectable d settings files now remotes a) {usage : DeletionRunUsage}
    (hn : usage.filesDeleted + 1 ≤ usage.eligibleFiles) (position : Nat) :
    let entry : ICloudCleanupEntry := ⟨a.id, position, a.appleAssetId, a.assetRecordName, a.changeTag,
      a.originalSize, d.evidenceDigest hashes a, none⟩
    (checkEntry settings hashes d files now true remotes manifest usage entry = .ok () ∨
      ∃ text, checkEntry settings hashes d files now true remotes manifest usage entry =
        .error (.blocked text)) ∧
    (checkEntry settings hashes d files now true remotes manifest usage entry = .ok () ↔
      d.Deletable remotes a ∧ usage.filesDeleted + 1 ≤ settings.maxAssets ∧
        usage.bytesDeleted + a.originalSize ≤ share manifest.quotaBytes settings.maxQuotaPercent) := by
  intro entry
  have hdeletable : d.Deletable remotes a ↔
      a.appleAssetId ∈ remotes.map (·.appleAssetId) ∧ d.componentsOf a ≠ [] :=
    ⟨fun h => ⟨h.listed, h.mapped⟩, fun h => ⟨h.1, h.2⟩⟩
  rw [hdeletable, ← isSome_currentAsset]
  unfold checkEntry
  cases hr : currentAsset remotes a.appleAssetId with
  | none => simp
  | some remote =>
    obtain ⟨hrecord, htag, hfavorite⟩ := ha.current remote hr
    have hnot : remote.favorite = false := by
      have he := ha.eligible
      simp only [CleanupDb.eligible, Bool.and_eq_true, Bool.not_eq_true'] at he
      rw [hfavorite]
      exact he.1.1.1
    have hgate := @allowed_iff (d.deletionFacts settings files now true a) usage
      (entryLimits settings manifest) a.originalSize now
    rw [limitBlockers_eq_nil hn, CleanupDb.quarantine_of_eligible ha.eligible,
      iff_true_intro (CleanupDb.checks_of_eligible ha.eligible hs), true_and] at hgate
    simp only [entry, ha.row, hnot, hrecord, htag, ha.eligible]
    by_cases hallowed : (evaluateDeletionGate (d.deletionFacts settings files now true a) usage
        (entryLimits settings manifest) a.originalSize now).allowed = true
    · have := hgate.mp hallowed
      simp [hallowed, this]
    · have := fun h => hallowed (hgate.mpr h)
      simpa [hallowed] using this

theorem checkEntries_cons (usage : DeletionRunUsage) (entry : ICloudCleanupEntry)
    (rest : List ICloudCleanupEntry) :
    checkEntries settings hashes d files now true remotes manifest usage (entry :: rest) =
      (checkEntry settings hashes d files now true remotes manifest usage entry).bind fun _ =>
        checkEntries settings hashes d files now true remotes manifest
          ⟨usage.filesDeleted + 1, usage.bytesDeleted + entry.sizeBytes, usage.eligibleFiles⟩ rest := by
  rw [checkEntries]
  cases checkEntry settings hashes d files now true remotes manifest usage entry <;> rfl

/-- The entries of a selection pass together, the caps included, but for what `Deletable` says of
each and for the size of the very first. -/
theorem checkEntries_iff (hs : settings.capacityReliefEnabled = true) {needed n : Nat}
    {candidates : List ICloudAsset} (hc : ∀ a ∈ candidates, Selectable d settings files now remotes a)
    {selected planned : Nat} :
    let cap := share manifest.quotaBytes settings.maxQuotaPercent
    let taken := selectAssets settings.maxAssets cap needed selected planned candidates
    selected + taken.length ≤ n →
    let result := checkEntries settings hashes d files now true remotes manifest
      ⟨selected, planned, n⟩ (d.entriesOf hashes selected taken)
    (result = .ok () ∨ ∃ text, result = .error (.blocked text)) ∧
    (result = .ok () ↔ (∀ a ∈ taken, d.Deletable remotes a) ∧
      (selected = 0 → ∀ a, taken.head? = some a → planned + a.originalSize ≤ cap)) := by
  induction candidates generalizing selected planned with
  | nil => simp [selectAssets, CleanupDb.entriesOf, checkEntries]
  | cons a rest ih =>
    intro cap taken hn result
    have hselect := hc a (List.mem_cons_self ..)
    have hrest := fun b hb => hc b (List.mem_cons_of_mem _ hb)
    have htaken : taken = _ :=
      selectAssets_cons settings.maxAssets cap needed selected planned a rest
    by_cases hroom : selected < settings.maxAssets ∧
        (selected ≠ 0 → planned + a.originalSize ≤ cap)
    · rw [if_pos hroom] at htaken
      obtain ⟨tail, htail⟩ : ∃ tail, tail = if planned + a.originalSize < needed then
          selectAssets settings.maxAssets cap needed (selected + 1) (planned + a.originalSize) rest
        else [] := ⟨_, rfl⟩
      rw [← htail] at htaken
      have hlen : selected + 1 + tail.length ≤ n := by
        rw [htaken, List.length_cons] at hn
        omega
      have hentry := @checkEntry_iff d settings hashes files now remotes manifest hs _ hselect
        ⟨selected, planned, n⟩ (by dsimp only; omega) selected
      obtain ⟨others, hothers⟩ : ∃ others, others =
          checkEntries settings hashes d files now true remotes manifest
            ⟨selected + 1, planned + a.originalSize, n⟩ (d.entriesOf hashes (selected + 1) tail) :=
        ⟨_, rfl⟩
      have hrec : (others = .ok () ∨ ∃ text, others = .error (.blocked text)) ∧
          (others = .ok () ↔ ∀ b ∈ tail, d.Deletable remotes b) := by
        by_cases hneed : planned + a.originalSize < needed
        · rw [if_pos hneed] at htail
          subst htail hothers
          simpa using ih hrest hlen
        · rw [if_neg hneed] at htail
          subst htail hothers
          simp [CleanupDb.entriesOf, checkEntries]
      obtain ⟨hblocked, hok⟩ := hrec
      have hresult : result = (checkEntry settings hashes d files now true remotes manifest
            ⟨selected, planned, n⟩ ⟨a.id, selected, a.appleAssetId, a.assetRecordName, a.changeTag,
              a.originalSize, d.evidenceDigest hashes a, none⟩).bind fun _ => others := by
        rw [hothers]
        simp only [result, htaken, CleanupDb.entriesOf, checkEntries_cons]
      rw [htaken, List.forall_mem_cons, List.head?_cons]
      rcases hentry with ⟨hentry | ⟨text, hentry⟩, hiff⟩
      · obtain ⟨hdel, _, hcap⟩ := hiff.mp hentry
        rw [hresult, hentry]
        refine ⟨hblocked, hok.trans ⟨fun h => ⟨⟨hdel, h⟩, fun _ b hb => ?_⟩, fun h => h.1.2⟩⟩
        exact Option.some.inj hb ▸ hcap
      · rw [hresult, hentry]
        refine ⟨.inr ⟨text, rfl⟩, ?_⟩
        have hnot : ¬(d.Deletable remotes a ∧ selected + 1 ≤ settings.maxAssets ∧
            planned + a.originalSize ≤ cap) := fun h => by
          have := hiff.mpr h
          rw [hentry] at this
          cases this
        refine iff_of_false (fun h => by cases h) ?_
        rintro ⟨⟨hdel, _⟩, hfirst⟩
        refine hnot ⟨hdel, hroom.1, ?_⟩
        by_cases hz : selected = 0
        · exact hfirst hz a rfl
        · exact hroom.2 hz
    · rw [if_neg hroom] at htaken
      simp [result, htaken, CleanupDb.entriesOf, checkEntries]

end Entries

theorem getElem?_selectAssets {maxAssets byteCap bytesNeeded : Nat} {candidates : List ICloudAsset}
    {selected planned i : Nat} {a : ICloudAsset} :
    (selectAssets maxAssets byteCap bytesNeeded selected planned candidates)[i]? = some a ↔
      candidates[i]? = some a ∧ selected + i < maxAssets ∧
        (selected + i ≠ 0 →
          planned + ((candidates.take (i + 1)).map (·.originalSize)).sum ≤ byteCap) ∧
        (i ≠ 0 → planned + ((candidates.take i).map (·.originalSize)).sum < bytesNeeded) := by
  induction candidates generalizing selected planned i with
  | nil => simp [selectAssets]
  | cons x rest ih =>
    rw [selectAssets_cons]
    by_cases hroom : selected < maxAssets ∧ (selected ≠ 0 → planned + x.originalSize ≤ byteCap)
    · rw [if_pos hroom]
      cases i with
      | zero =>
        have := hroom.2
        simp only [List.getElem?_cons_zero, Nat.add_zero, hroom.1, true_and, List.take_succ_cons,
          List.take_zero, List.map_cons, List.map_nil, List.sum_cons, List.sum_nil, ne_eq,
          not_true_eq_false, false_implies, and_true]
        exact ⟨fun h => ⟨h, this⟩, fun h => h.1⟩
      | succ i =>
        simp only [List.getElem?_cons_succ, List.take_succ_cons, List.map_cons, List.sum_cons]
        by_cases hneed : planned + x.originalSize < bytesNeeded
        · rw [if_pos hneed, ih]
          refine and_congr_right fun _ => ?_
          constructor
          · rintro ⟨hm, hcap, hneeded⟩
            refine ⟨by omega, fun _ => ?_, fun _ => ?_⟩
            · have := hcap (by omega)
              omega
            · by_cases hi : i = 0
              · simpa [hi] using hneed
              · have := hneeded hi
                omega
          · rintro ⟨hm, hcap, hneeded⟩
            refine ⟨by omega, fun _ => ?_, fun _ => ?_⟩
            · have := hcap (by omega)
              omega
            · have := hneeded (by omega)
              omega
        · rw [if_neg hneed]
          simp only [List.getElem?_nil, reduceCtorEq, false_iff]
          rintro ⟨_, _, _, h⟩
          have := h (by omega)
          omega
    · rw [if_neg hroom]
      simp only [List.getElem?_nil, reduceCtorEq, false_iff]
      rintro ⟨_, hm, hcap, _⟩
      refine hroom ⟨by omega, fun hs => ?_⟩
      have := hcap (by omega)
      simp only [List.take_succ_cons, List.map_cons, List.sum_cons] at this
      omega

end Mnema
