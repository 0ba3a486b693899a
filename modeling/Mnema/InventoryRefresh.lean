import Mnema.CleanupSelection

/-! `refresh_inventory` run again. A flush inserts the new components of an asset before it
deletes the old ones, and an archive item may be the component of one asset only. -/

namespace Mnema

/-- The loop of `refresh_inventory`, with `mapped` counted along. -/
def refreshMapped (remotes : List ICloudRemoteAsset) (now : Time) :
    List ICloudRemoteAsset → Nat → CleanupDb → Except CleanupError (Nat × CleanupDb)
  | [], mapped, d => .ok (mapped, d)
  | remote :: rest, mapped, d =>
    match refreshAsset remotes now d remote with
    | .ok d' => refreshMapped remotes now rest
        (if (d.matching remotes remote).isSome then mapped + 1 else mapped) d'
    | .error e => .error e

/-- What `refresh_inventory` returns, with the database it leaves. -/
def inventoryRefresh (d : CleanupDb) (remotes : List ICloudRemoteAsset) (now : Time) :
    Except CleanupError (Nat × CleanupDb) :=
  refreshMapped remotes now remotes 0 d

namespace CleanupDb

variable {d d' d₁ : CleanupDb} {remotes rest : List ICloudRemoteAsset} {remote r : ICloudRemoteAsset}
  {now : Time} {item : ArchiveItem}

/-- The archive items that the refresh maps to an asset. -/
def mappedItems (d : CleanupDb) (remotes : List ICloudRemoteAsset) (remote : ICloudRemoteAsset) :
    List ArchiveItem :=
  (d.matching remotes remote).getD []

theorem matching_congr (h : d'.items = d.items) (remotes : List ICloudRemoteAsset)
    (remote : ICloudRemoteAsset) : d'.matching remotes remote = d.matching remotes remote := by
  unfold matching byToken
  rw [h]

/-- One asset in one equation. -/
theorem refreshAsset_eq (remotes : List ICloudRemoteAsset) (now : Time) (d : CleanupDb)
    (remote : ICloudRemoteAsset) :
    refreshAsset remotes now d remote =
      if (d.mappedItems remotes remote).any fun item => d.components.any (·.archiveItemId == item.id) then
        .error (.other (.integrity "icloud_asset_components.archive_item_id"))
      else .ok { d.putAsset (d.seen remote now) with
        components := d.components.filter (fun c => c.icloudAssetId != (d.seen remote now).id) ++
          (d.mappedItems remotes remote).map fun item => ⟨(d.seen remote now).id, item.id⟩ } := by
  have hm : (d.putAsset (d.seen remote now)).matching remotes remote = d.matching remotes remote :=
    matching_congr rfl remotes remote
  unfold refreshAsset mappedItems
  simp only [hm]
  cases d.matching remotes remote with
  | none => simp [putAsset]
  | some candidates => rfl

theorem items_refreshAsset (h : refreshAsset remotes now d remote = .ok d') : d'.items = d.items := by
  rw [refreshAsset_eq] at h
  split at h
  · cases h
  · cases h
    rfl

theorem items_refreshAssets (h : refreshAssets remotes now rest d = .ok d') : d'.items = d.items := by
  induction rest generalizing d with
  | nil =>
    cases h
    rfl
  | cons remote rest ih =>
    unfold refreshAssets at h
    cases hr : refreshAsset remotes now d remote with
    | error e => simp [hr] at h
    | ok d₁ =>
      rw [hr] at h
      exact (ih h).trans (items_refreshAsset hr)

theorem refreshMapped_eq (remotes : List ICloudRemoteAsset) (now : Time)
    (rest : List ICloudRemoteAsset) (mapped : Nat) (d : CleanupDb) :
    refreshMapped remotes now rest mapped d =
      (refreshAssets remotes now rest d).map fun d' =>
        (mapped + rest.countP fun r => (d.matching remotes r).isSome, d') := by
  induction rest generalizing mapped d with
  | nil => rfl
  | cons remote rest ih =>
    unfold refreshMapped refreshAssets
    cases hr : refreshAsset remotes now d remote with
    | error e => rfl
    | ok d₁ =>
      simp only [ih, matching_congr (items_refreshAsset hr), List.countP_cons]
      cases (d.matching remotes remote).isSome <;> simp [Nat.add_assoc, Nat.add_comm 1]

theorem refreshAssets_append (pre rest : List ICloudRemoteAsset) (d : CleanupDb) :
    refreshAssets remotes now (pre ++ rest) d =
      (refreshAssets remotes now pre d).bind (refreshAssets remotes now rest) := by
  induction pre generalizing d with
  | nil => rfl
  | cons remote pre ih =>
    rw [List.cons_append, refreshAssets, refreshAssets]
    cases refreshAsset remotes now d remote with
    | error e => rfl
    | ok d₁ => exact ih d₁

/-! ### The rows of assets -/

/-- The row of an asset, by its two identifiers. -/
def HasAsset (d : CleanupDb) (appleAssetId : String) (id : Nat) : Prop :=
  ∃ a ∈ d.assets.rows, a.appleAssetId = appleAssetId ∧ a.id = id

theorem HasAsset.unique (hu : d.UniqueAssets) {appleAssetId : String} {i j : Nat}
    (hi : d.HasAsset appleAssetId i) (hj : d.HasAsset appleAssetId j) : i = j := by
  obtain ⟨a, ha, hap, rfl⟩ := hi
  obtain ⟨b, hb, hbp, rfl⟩ := hj
  exact hu a ha b hb (hap.trans hbp.symm)

theorem HasAsset.apart {p q : String} {i j : Nat} (hi : d.HasAsset p i) (hj : d.HasAsset q j)
    (hne : p ≠ q) : i ≠ j := by
  obtain ⟨a, ha, rfl, rfl⟩ := hi
  obtain ⟨b, hb, rfl, rfl⟩ := hj
  intro he
  have hab : a = b := Option.some.inj ((Table.get_of_mem ha).symm.trans (he ▸ Table.get_of_mem hb))
  exact hne (hab ▸ rfl)

theorem mem_assets_of_refreshAsset (h : refreshAsset remotes now d remote = .ok d') :
    d.seen remote now ∈ d'.assets.rows := by
  rw [assets_refreshAsset h]
  exact Table.mem_put_insert _ _

theorem hasAsset_seen (h : refreshAsset remotes now d remote = .ok d') :
    d'.HasAsset remote.appleAssetId (d.seen remote now).id :=
  ⟨_, mem_assets_of_refreshAsset h, seen_appleAssetId d remote now, rfl⟩

/-- A row is seen under its own key only. -/
theorem appleAssetId_of_id_seen {a : ICloudAsset} (ha : a ∈ d.assets.rows)
    (hid : a.id = (d.seen remote now).id) : a.appleAssetId = remote.appleAssetId := by
  unfold seen at hid
  split at hid
  · rename_i asset hf
    have hp : asset.appleAssetId = remote.appleAssetId := by simpa using Table.pred_of_first hf
    have hasset : asset ∈ d.assets.rows := Table.mem_of_get (Table.get_of_first hf)
    have hget := Table.get_of_mem ha
    rw [hid] at hget
    have heq : asset = a := Option.some.inj ((Table.get_of_mem hasset).symm.trans hget)
    exact heq ▸ hp
  · have hle : a.id ≤ (d.assets.rows.map (·.id)).foldl max 0 :=
      le_foldl_max (List.mem_map_of_mem ha)
    have hnew : a.id = d.newAssetId := hid
    unfold newAssetId at hnew
    omega

theorem HasAsset.refreshed (h : refreshAsset remotes now d remote = .ok d') {p : String} {i : Nat}
    (hi : d.HasAsset p i) : d'.HasAsset p i := by
  obtain ⟨a, ha, rfl, rfl⟩ := hi
  by_cases hid : a.id = (d.seen remote now).id
  · have hp := appleAssetId_of_id_seen ha hid
    rw [hp, hid]
    exact hasAsset_seen h
  · refine ⟨a, ?_, rfl, rfl⟩
    rw [assets_refreshAsset h]
    have hget := Table.get_insert_of_get (r := d.seen remote now) (Table.get_of_mem ha)
    exact Table.mem_of_get ((Table.get_put_of_ne hid).trans hget)

/-- What a pass over the inventory keeps and makes of the table of assets. -/
structure Passed (rest : List ICloudRemoteAsset) (d d' : CleanupDb) : Prop where
  items : d'.items = d.items
  unique : d'.UniqueAssets
  kept : ∀ p i, d.HasAsset p i → d'.HasAsset p i
  listed : ∀ r ∈ rest, ∃ i, d'.HasAsset r.appleAssetId i

theorem passed_refreshAssets (hu : d.UniqueAssets) (h : refreshAssets remotes now rest d = .ok d') :
    Passed rest d d' := by
  induction rest generalizing d with
  | nil =>
    cases h
    exact ⟨rfl, hu, fun _ _ hi => hi, fun _ hr => absurd hr List.not_mem_nil⟩
  | cons remote rest ih =>
    unfold refreshAssets at h
    cases hr : refreshAsset remotes now d remote with
    | error e => simp [hr] at h
    | ok d₁ =>
      rw [hr] at h
      have hrest := ih (unique_refreshAsset hu hr) h
      refine ⟨hrest.items.trans (items_refreshAsset hr), hrest.unique,
        fun p i hi => hrest.kept p i (hi.refreshed hr), fun r hmem => ?_⟩
      rcases List.mem_cons.mp hmem with rfl | hmem
      · exact ⟨_, hrest.kept _ _ (hasAsset_seen hr)⟩
      · exact hrest.listed r hmem

/-! ### An inventory without matches -/

/-- No asset of the inventory has the component. -/
def Spares (d : CleanupDb) (rest : List ICloudRemoteAsset) (c : ICloudAssetComponent) : Prop :=
  ∀ r ∈ rest, ∀ i, d.HasAsset r.appleAssetId i → c.icloudAssetId ≠ i

/-- Where nothing is mapped, a pass only takes components away. -/
theorem refreshAssets_unmapped (now : Time) (hu : d.UniqueAssets)
    (hn : ∀ r ∈ rest, d.mappedItems remotes r = []) :
    ∃ d', refreshAssets remotes now rest d = .ok d' ∧
      ∀ c, c ∈ d'.components ↔ c ∈ d.components ∧ d'.Spares rest c := by
  induction rest generalizing d with
  | nil => exact ⟨d, rfl, fun c => by simp [Spares]⟩
  | cons remote rest ih =>
    have hnone := hn remote List.mem_cons_self
    obtain ⟨d₁, hr⟩ : ∃ d₁, refreshAsset remotes now d remote = .ok d₁ := by
      rw [refreshAsset_eq, hnone]
      exact ⟨_, rfl⟩
    have hcomponents : d₁.components =
        d.components.filter fun c => c.icloudAssetId != (d.seen remote now).id := by
      have hr' := hr
      rw [refreshAsset_eq, hnone] at hr'
      cases hr'
      simp
    have hu₁ := unique_refreshAsset hu hr
    have hn₁ : ∀ r ∈ rest, d₁.mappedItems remotes r = [] := by
      intro r hmem
      unfold mappedItems
      rw [matching_congr (items_refreshAsset hr)]
      exact hn r (List.mem_cons_of_mem _ hmem)
    obtain ⟨d', h, hd'⟩ := ih hu₁ hn₁
    have hpassed := passed_refreshAssets hu₁ h
    have hseen := hpassed.kept _ _ (hasAsset_seen hr)
    refine ⟨d', ?_, fun c => ?_⟩
    · rw [refreshAssets, hr]
      exact h
    · rw [hd' c, hcomponents, List.mem_filter]
      constructor
      · rintro ⟨⟨hc, hne⟩, hspares⟩
        refine ⟨hc, fun r hmem i hi => ?_⟩
        rcases List.mem_cons.mp hmem with rfl | hmem
        · rw [hi.unique hpassed.unique hseen]
          simpa using hne
        · exact hspares r hmem i hi
      · rintro ⟨hc, hspares⟩
        have hne := hspares remote List.mem_cons_self _ hseen
        exact ⟨⟨hc, by simpa using hne⟩, fun r hmem => hspares r (List.mem_cons_of_mem _ hmem)⟩

/-! ### An inventory with a match -/

/-- The archive item is a component of the asset. -/
def Occupied (d : CleanupDb) (appleAssetId : String) (item : ArchiveItem) : Prop :=
  ∃ i, d.HasAsset appleAssetId i ∧ ⟨i, item.id⟩ ∈ d.components

theorem occupied_of_mapped (h : refreshAsset remotes now d remote = .ok d')
    (hitem : item ∈ d.mappedItems remotes remote) : d'.Occupied remote.appleAssetId item := by
  refine ⟨_, hasAsset_seen h, ?_⟩
  rw [refreshAsset_eq] at h
  split at h
  · cases h
  · cases h
    exact List.mem_append_right _ (List.mem_map_of_mem hitem)

theorem Occupied.refreshed {p : String} (ho : d.Occupied p item) (hne : remote.appleAssetId ≠ p)
    (h : refreshAsset remotes now d remote = .ok d') : d'.Occupied p item := by
  obtain ⟨i, hi, hc⟩ := ho
  have hi' := hi.refreshed h
  have hapart : i ≠ (d.seen remote now).id := hi'.apart (hasAsset_seen h) (Ne.symm hne)
  refine ⟨i, hi', ?_⟩
  rw [refreshAsset_eq] at h
  split at h
  · cases h
  · cases h
    exact List.mem_append_left _ (List.mem_filter.mpr ⟨hc, by simpa using hapart⟩)

theorem Occupied.pass {p : String} (ho : d.Occupied p item)
    (hne : ∀ r ∈ rest, r.appleAssetId ≠ p) (h : refreshAssets remotes now rest d = .ok d') :
    d'.Occupied p item := by
  induction rest generalizing d with
  | nil =>
    cases h
    exact ho
  | cons remote rest ih =>
    unfold refreshAssets at h
    cases hr : refreshAsset remotes now d remote with
    | error e => simp [hr] at h
    | ok d₁ =>
      rw [hr] at h
      exact ih (ho.refreshed (hne remote List.mem_cons_self) hr)
        (fun r hmem => hne r (List.mem_cons_of_mem _ hmem)) h

/-- The item is inserted for its asset again before its row is deleted. -/
theorem Occupied.refused {p : String} (ho : d.Occupied p item)
    (hitem : item ∈ d.mappedItems remotes remote) :
    refreshAsset remotes now d remote ≠ .ok d' := by
  intro h
  obtain ⟨i, _, hc⟩ := ho
  have hany : ((d.mappedItems remotes remote).any fun item =>
      d.components.any (·.archiveItemId == item.id)) = true :=
    List.any_eq_true.mpr ⟨item, hitem, List.any_eq_true.mpr ⟨_, hc, by simp⟩⟩
  rw [refreshAsset_eq, if_pos hany] at h
  cases h

/-- An asset with matches has its token alone. -/
theorem alone_of_mapped {pre post : List ICloudRemoteAsset} (heq : remotes = pre ++ r :: post)
    (hitem : item ∈ d.mappedItems remotes r) :
    ∀ r' ∈ pre ++ post, r'.appleAssetId ≠ r.appleAssetId := by
  unfold mappedItems matching at hitem
  dsimp only at hitem
  split at hitem
  · rename_i h
    have hone := h.1
    rw [heq, List.countP_append, List.countP_cons] at hone
    have hzero : (pre ++ post).countP (fun r' => assetToken r'.appleAssetId ==
        assetToken r.appleAssetId) = 0 := by
      rw [List.countP_append]
      simp only [beq_self_eq_true, if_true] at hone
      omega
    intro r' hmem hsame
    have hne := List.countP_eq_zero.mp hzero r' hmem
    simp [hsame] at hne
  · cases hitem

theorem refreshAssets_again {now' : Time} {d'' : CleanupDb} (hr : r ∈ remotes)
    (hitem : item ∈ d.mappedItems remotes r) (h : refreshAssets remotes now remotes d = .ok d') :
    refreshAssets remotes now' remotes d' ≠ .ok d'' := by
  intro h'
  obtain ⟨pre, post, heq⟩ := List.append_of_mem hr
  have halone := alone_of_mapped heq hitem
  -- the first pass maps the item at `r`, and the assets after `r` leave it mapped
  have split_pass : ∀ {t : Time} {e e' : CleanupDb}, refreshAssets remotes t remotes e = .ok e' →
      ∃ e₁ e₂, refreshAssets remotes t pre e = .ok e₁ ∧ refreshAsset remotes t e₁ r = .ok e₂ ∧
        refreshAssets remotes t post e₂ = .ok e' := by
    intro t e e' he
    have hsplit : refreshAssets remotes t (pre ++ r :: post) e = .ok e' := heq ▸ he
    rw [refreshAssets_append] at hsplit
    cases h₁ : refreshAssets remotes t pre e with
    | error x => simp [h₁, Except.bind] at hsplit
    | ok e₁ =>
      simp only [h₁, Except.bind, refreshAssets] at hsplit
      cases h₂ : refreshAsset remotes t e₁ r with
      | error x => simp [h₂] at hsplit
      | ok e₂ => exact ⟨e₁, e₂, rfl, h₂, by simpa [h₂] using hsplit⟩
  obtain ⟨d₁, d₂, hpre, hat, hpost⟩ := split_pass h
  obtain ⟨e₁, e₂, hpre', hat', _⟩ := split_pass h'
  have mapped_of_items : ∀ {e : CleanupDb}, e.items = d.items → item ∈ e.mappedItems remotes r := by
    intro e he
    unfold mappedItems
    rwa [matching_congr he]
  have hitems : d'.items = d.items := items_refreshAssets h
  have hfirst := occupied_of_mapped hat (mapped_of_items (items_refreshAssets hpre))
  have hafter := hfirst.pass (fun r' hm => halone r' (List.mem_append_right _ hm)) hpost
  have hagain := hafter.pass (fun r' hm => halone r' (List.mem_append_left _ hm)) hpre'
  exact hagain.refused (mapped_of_items ((items_refreshAssets hpre').trans hitems)) hat'

/-- No asset with a token of its own has exactly its components, one at least, in the archive. -/
def Unmapped (d : CleanupDb) (remotes : List ICloudRemoteAsset) : Prop :=
  ∀ r ∈ remotes, remotes.countP (fun r' => assetToken r'.appleAssetId == assetToken r.appleAssetId) = 1 →
    (d.byToken (assetToken r.appleAssetId)).length = r.expectedComponents → r.expectedComponents = 0

theorem unmapped_iff : d.Unmapped remotes ↔ ∀ r ∈ remotes, d.mappedItems remotes r = [] := by
  refine forall₂_congr fun r _ => ?_
  unfold mappedItems matching
  dsimp only
  split
  · rename_i h
    rw [Option.getD_some, ← List.length_eq_zero_iff]
    exact ⟨fun hz => h.2.trans (hz h.1 h.2), fun hz _ _ => h.2.symm.trans hz⟩
  · rename_i h
    exact ⟨fun _ => rfl, fun _ hone hlen => absurd ⟨hone, hlen⟩ h⟩

/-- The refresh succeeds once more, with the count and the components that are there. -/
def Repeats (d : CleanupDb) (remotes : List ICloudRemoteAsset) (now : Time) (mapped : Nat) : Prop :=
  ∃ d', inventoryRefresh d remotes now = .ok (mapped, d') ∧
    ∀ c, c ∈ d'.components ↔ c ∈ d.components

theorem inventoryRefresh_eq_ok {mapped : Nat} :
    inventoryRefresh d remotes now = .ok (mapped, d') ↔
      refreshAssets remotes now remotes d = .ok d' ∧
        mapped = remotes.countP fun r => (d.matching remotes r).isSome := by
  unfold inventoryRefresh
  rw [refreshMapped_eq, Nat.zero_add]
  cases refreshAssets remotes now remotes d with
  | error e => simp [Except.map]
  | ok e =>
    simp only [Except.map, Except.ok.injEq, Prod.mk.injEq]
    exact ⟨fun ⟨hn, he⟩ => ⟨he, hn.symm⟩, fun ⟨he, hn⟩ => ⟨hn.symm, he⟩⟩

theorem repeats_of_unmapped (hu : d.UniqueAssets) {mapped : Nat}
    (h : inventoryRefresh d remotes now = .ok (mapped, d'))
    (hn : ∀ r ∈ remotes, d.mappedItems remotes r = []) (now' : Time) :
    d'.Repeats remotes now' mapped := by
  obtain ⟨hrun, hmapped⟩ := inventoryRefresh_eq_ok.mp h
  have hfirst := passed_refreshAssets hu hrun
  have hn' : ∀ r ∈ remotes, d'.mappedItems remotes r = [] := by
    intro r hr
    unfold mappedItems
    rw [matching_congr hfirst.items]
    exact hn r hr
  obtain ⟨e, he, hd'⟩ := refreshAssets_unmapped now hu hn
  cases he.symm.trans hrun
  obtain ⟨d'', h', hd''⟩ := refreshAssets_unmapped now' hfirst.unique hn'
  have hsecond := passed_refreshAssets hfirst.unique h'
  refine ⟨d'', inventoryRefresh_eq_ok.mpr ⟨h', ?_⟩, fun c => (hd'' c).trans ⟨And.left, fun hc => ⟨hc, ?_⟩⟩⟩
  · rw [hmapped]
    simp only [matching_congr hfirst.items]
  · intro r hr i hi
    obtain ⟨j, hj⟩ := hfirst.listed r hr
    have hij : i = j := hi.unique hsecond.unique (hsecond.kept _ _ hj)
    rw [hij]
    exact ((hd' c).mp hc).2 r hr j hj

end CleanupDb

/-- The refresh can be repeated exactly where it mapped nothing. -/
theorem refresh_repeats_iff {d d' : CleanupDb} {remotes : List ICloudRemoteAsset} {mapped : Nat}
    (now now' : Time) (hu : d.UniqueAssets) (h : inventoryRefresh d remotes now = .ok (mapped, d')) :
    d'.Repeats remotes now' mapped ↔ d.Unmapped remotes := by
  rw [CleanupDb.unmapped_iff]
  constructor
  · rintro ⟨d'', h', _⟩ r hr
    by_contra hne
    obtain ⟨item, hitem⟩ := List.exists_mem_of_ne_nil _ hne
    exact CleanupDb.refreshAssets_again hr hitem (CleanupDb.inventoryRefresh_eq_ok.mp h).1
      (CleanupDb.inventoryRefresh_eq_ok.mp h').1
  · intro hn
    exact CleanupDb.repeats_of_unmapped hu h hn now'

/-- Two listed assets of two components each, of which one is archived. -/
def halfArchived : List ICloudRemoteAsset :=
  confirmFirst.remotes.map fun remote => { remote with expectedComponents := 2 }

theorem refresh_repeats_halfArchived :
    ∃ d', inventoryRefresh twoItems halfArchived (days 100) = .ok (0, d') ∧
      d'.assets.rows.map (·.appleAssetId) = ["first", "second"] ∧
      d'.Repeats halfArchived (days 101) 0 := by
  have hrows : (inventoryRefresh twoItems halfArchived (days 100)).toOption.map (fun p =>
      (p.1, p.2.assets.rows.map (·.appleAssetId))) = some (0, ["first", "second"]) := by decide +kernel
  cases h : inventoryRefresh twoItems halfArchived (days 100) with
  | error e => simp [h, Except.toOption] at hrows
  | ok p =>
    obtain ⟨mapped, d'⟩ := p
    rw [h] at hrows
    obtain ⟨rfl, hlisted⟩ := Prod.mk.inj (Option.some.inj hrows)
    refine ⟨d', rfl, hlisted, ?_⟩
    have hunmapped : twoItems.Unmapped halfArchived := by
      unfold CleanupDb.Unmapped
      decide +kernel
    exact (refresh_repeats_iff (days 100) (days 101)
      (fun a ha => absurd ha (Table.mem_rows_empty a)) h).mpr hunmapped

/-- Two assets with their items, refreshed twice. -/
def refreshedTwice : Option (Nat × Bool) :=
  match inventoryRefresh twoItems confirmFirst.remotes (days 100) with
  | .ok (mapped, d) =>
    some (mapped, (inventoryRefresh d confirmFirst.remotes (days 100)).toOption.isSome)
  | .error _ => none

theorem second_refresh_fails : ∃ d, inventoryRefresh twoItems confirmFirst.remotes (days 100) = .ok (2, d) ∧
    ¬d.Repeats confirmFirst.remotes (days 100) 2 := by
  have htwice : refreshedTwice = some (2, false) := by decide +kernel
  unfold refreshedTwice at htwice
  cases h : inventoryRefresh twoItems confirmFirst.remotes (days 100) with
  | error e => simp [h] at htwice
  | ok p =>
    rw [h] at htwice
    simp only [Option.some.injEq, Prod.mk.injEq] at htwice
    refine ⟨p.2, congrArg Except.ok (Prod.ext htwice.1 rfl), fun ⟨d', h', _⟩ => ?_⟩
    rw [h'] at htwice
    cases htwice.2

end Mnema
