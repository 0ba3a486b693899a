import Mnema.CleanupApproval

/-! Which candidates a new manifest takes: what it needs, and no more where it needs any. -/

namespace Mnema

/-- The bytes of the first `n` candidates. -/
def bytesOf (candidates : List ICloudAsset) (n : Nat) : Nat :=
  ((candidates.take n).map (·.originalSize)).sum

section Selection

variable {maxAssets byteCap needed : Nat}

theorem selectAssets_prefix (candidates : List ICloudAsset) (selected planned : Nat) :
    (selectAssets maxAssets byteCap needed selected planned candidates).IsPrefix candidates := by
  induction candidates generalizing selected planned with
  | nil => exact List.nil_prefix
  | cons a rest ih =>
    rw [selectAssets_cons]
    by_cases hroom : selected < maxAssets ∧ (selected ≠ 0 → planned + a.originalSize ≤ byteCap)
    · rw [if_pos hroom]
      apply (List.prefix_cons_inj a).mpr
      by_cases hneed : planned + a.originalSize < needed
      · rw [if_pos hneed]
        exact ih _ _
      · rw [if_neg hneed]
        exact List.nil_prefix
    · rw [if_neg hroom]
      exact List.nil_prefix

variable {candidates : List ICloudAsset}

/-- A rank is selected if there is room, and need, for the candidate there. -/
theorem lt_length_selectAssets {i : Nat} :
    i < (selectAssets maxAssets byteCap needed 0 0 candidates).length ↔
      i < candidates.length ∧ i < maxAssets ∧ (i ≠ 0 → bytesOf candidates (i + 1) ≤ byteCap) ∧
        (i ≠ 0 → bytesOf candidates i < needed) := by
  have hget := @getElem?_selectAssets maxAssets byteCap needed candidates 0 0 i
  simp only [Nat.zero_add] at hget
  constructor
  · intro hi
    have hsome := (hget).mp (List.getElem?_eq_getElem hi)
    obtain ⟨hlt, _⟩ := List.getElem?_eq_some_iff.mp hsome.1
    exact ⟨hlt, hsome.2⟩
  · rintro ⟨hlt, hroom⟩
    have hsome := hget.mpr ⟨List.getElem?_eq_getElem hlt, hroom⟩
    exact (List.getElem?_eq_some_iff.mp hsome).1

theorem length_selectAssets_le :
    (selectAssets maxAssets byteCap needed 0 0 candidates).length ≤ maxAssets := by
  by_contra hmore
  have hh := (lt_length_selectAssets.mp (not_le.mp hmore)).2.1
  exact Nat.lt_irrefl _ hh

/-- Nothing that is selected goes beyond the need, the first candidate apart. -/
theorem minimal_iff (h : selectAssets maxAssets byteCap needed 0 0 candidates ≠ []) :
    (∀ k < (selectAssets maxAssets byteCap needed 0 0 candidates).length,
      bytesOf candidates k < needed) ↔ 0 < needed := by
  have hpos := List.length_pos_iff.mpr h
  constructor
  · intro hall
    exact hall 0 hpos
  · intro hneed k hk
    by_cases hz : k = 0
    · rw [hz]
      exact hneed
    · exact (lt_length_selectAssets.mp hk).2.2.2 hz

/-- Where the selection stops early, the next candidate does not fit. -/
theorem maximal {n : Nat}
    (hn : n = (selectAssets maxAssets byteCap needed 0 0 candidates).length)
    (hneed : bytesOf candidates n < needed) (hmore : n < candidates.length) :
    n = maxAssets ∨ byteCap < bytesOf candidates (n + 1) := by
  have hle : n ≤ maxAssets := hn ▸ length_selectAssets_le
  have hstop : ¬n < (selectAssets maxAssets byteCap needed 0 0 candidates).length := by omega
  by_cases hmax : n = maxAssets
  · exact .inl hmax
  · right
    by_contra hfits
    apply hstop
    rw [lt_length_selectAssets]
    exact ⟨hmore, by omega, fun _ => not_lt.mp hfits, fun _ => hneed⟩

end Selection

theorem ICloudAsset.before_total (a b : ICloudAsset) : a.before b ∨ b.before a := by
  unfold ICloudAsset.before
  rcases lt_trichotomy a.createdAtRemote b.createdAtRemote with h | h | h
  · exact .inl (.inl h)
  · rcases String.le_total a.appleAssetId b.appleAssetId with hid | hid
    · exact .inl (.inr ⟨h, hid⟩)
    · exact .inr (.inr ⟨h.symm, hid⟩)
  · exact .inr (.inl h)

theorem ICloudAsset.before_trans {a b c : ICloudAsset} (hab : a.before b) (hbc : b.before c) :
    a.before c := by
  unfold ICloudAsset.before at *
  rcases hab with hab | ⟨hab, hid⟩ <;> rcases hbc with hbc | ⟨hbc, hid'⟩
  · exact .inl (hab.trans hbc)
  · exact .inl (hbc ▸ hab)
  · exact .inl (hab ▸ hbc)
  · exact .inr ⟨hab.trans hbc, String.le_trans hid hid'⟩

instance : Std.Total ICloudAsset.before := ⟨ICloudAsset.before_total⟩

instance : IsTrans ICloudAsset ICloudAsset.before := ⟨fun _ _ _ => ICloudAsset.before_trans⟩

variable {settings : ICloudSettings} {hashes : CleanupHashes} {c : CleanupClient} {now : Time}
  {w t : CleanupWorld} {m : ICloudCleanupManifest} {d : CleanupDb} {files : Files}

theorem CleanupDb.candidates_ordered :
    (d.candidates settings files now).Pairwise ICloudAsset.before :=
  (List.pairwise_insertionSort ICloudAsset.before _).filter _

theorem CleanupDb.candidates_perm :
    (d.candidates settings files now).Perm (d.assets.rows.filter fun a =>
      d.eligible settings files now a &&
        (!a.favorite && a.remotelyDeletedAt.isNone && a.library == "PrimarySync")) := by
  have hh := (List.perm_insertionSort ICloudAsset.before (d.assets.rows.filter fun a =>
    !a.favorite && a.remotelyDeletedAt.isNone && a.library == "PrimarySync")).filter
      (d.eligible settings files now)
  rwa [List.filter_filter] at hh

theorem outcome_ok {α : Type} {p : CleanupCode α} {a : α}
    (h : CleanupWorld.transactions.outcome (c.answers now) p w = (.ok a, t)) :
    ∃ t, p.exec (c.answers now) w = (.ok a, t) := by
  unfold Transactions.outcome at h
  split at h
  · rename_i b t he
    obtain ⟨hb, _⟩ := Prod.mk.inj h
    obtain rfl := Except.ok.inj hb
    exact ⟨t, he⟩
  · cases h

/-- The bytes to delete until the usage is at the target. -/
def bytesNeeded (settings : ICloudSettings) (quota : ICloudQuota) : Nat :=
  quota.usedBytes - share quota.quotaBytes settings.targetPercent

/-- The manifest is of the first `n` candidates, and of fewer than it needs only where these are
all, or the next one breaks a limit. -/
structure TakesFirst (settings : ICloudSettings) (hashes : CleanupHashes) (quota : ICloudQuota)
    (d : CleanupDb) (candidates : List ICloudAsset) (n : Nat) (m : ICloudCleanupManifest) : Prop where
  nonempty : 0 < n
  available : n ≤ candidates.length
  entries : m.entries = d.entriesOf hashes 0 (candidates.take n)
  planned : m.plannedBytes = bytesOf candidates n
  count : n ≤ settings.maxAssets
  enough : bytesNeeded settings quota ≤ m.plannedBytes ∨ n = candidates.length ∨
    n = settings.maxAssets ∨
    share quota.quotaBytes settings.maxQuotaPercent < bytesOf candidates (n + 1)

/-- A new manifest takes the first candidates, and no more of them than it needs exactly if it
needs any: the first candidate is taken before the need is looked at. -/
theorem manifest_selection (hnew : w.txn.manifests.get m.id = none)
    (h : CleanupWorld.transactions.outcome (c.answers now) (createManifest settings hashes) w =
      (.ok (some m), t)) :
    ∃ d n, refreshAssets c.remotes now c.remotes (w.txn.opened c.quota now) = .ok d ∧
      let candidates := d.candidates settings c.files now
      candidates.Perm (d.assets.rows.filter fun a => d.eligible settings c.files now a &&
        (!a.favorite && a.remotelyDeletedAt.isNone && a.library == "PrimarySync")) ∧
      candidates.Pairwise ICloudAsset.before ∧
      TakesFirst settings hashes c.quota d candidates n m ∧
      ((∀ k < n, bytesOf candidates k < bytesNeeded settings c.quota) ↔
        share c.quota.quotaBytes settings.targetPercent < c.quota.usedBytes) := by
  obtain ⟨t, hexec⟩ := outcome_ok h
  obtain ⟨d, hb, _⟩ := createManifest_built hnew hexec
  obtain ⟨selected, hselected, hne, hm⟩ := hb.selected
  have hpre : selected.IsPrefix (d.candidates settings c.files now) :=
    hselected ▸ selectAssets_prefix _ 0 0
  have hle := hpre.length_le
  have htake := List.prefix_iff_eq_take.mp hpre
  have hplanned : m.plannedBytes = bytesOf (d.candidates settings c.files now) selected.length := by
    unfold bytesOf
    rw [hm, ← htake]
    rfl
  have hminimal := minimal_iff (hselected ▸ hne)
  rw [← hselected] at hminimal
  refine ⟨d, selected.length, hb.refreshed, CleanupDb.candidates_perm,
    CleanupDb.candidates_ordered, ?_, ?_⟩
  · refine ⟨List.length_pos_iff.mpr hne, hle, ?_, hplanned, hselected ▸ length_selectAssets_le, ?_⟩
    · rw [← htake, hm]
      rfl
    · by_cases hneed : bytesNeeded settings c.quota ≤ m.plannedBytes
      · exact .inl hneed
      · by_cases hall : selected.length = (d.candidates settings c.files now).length
        · exact .inr (.inl hall)
        · rw [hplanned] at hneed
          exact .inr (.inr (maximal (congrArg List.length hselected) (not_le.mp hneed) (by omega)))
  · rw [bytesNeeded, hminimal]
    omega

/-- Two candidates of ten bytes where thirty are needed. -/
theorem manifest_selection_both : ∃ d n, refreshAssets confirmFirst.remotes (days 100)
      confirmFirst.remotes (twoItems.opened confirmFirst.quota (days 100)) = .ok d ∧
      let candidates := d.candidates reliefSettings confirmFirst.files (days 100)
      candidates.Perm (d.assets.rows.filter fun a =>
        d.eligible reliefSettings confirmFirst.files (days 100) a &&
          (!a.favorite && a.remotelyDeletedAt.isNone && a.library == "PrimarySync")) ∧
      candidates.Pairwise ICloudAsset.before ∧
      TakesFirst reliefSettings constantHashes confirmFirst.quota d candidates n
        (plannedManifest [plannedEntry 1 0 "first" 10, plannedEntry 2 1 "second" 10]) ∧
      ((∀ k < n, bytesOf candidates k < bytesNeeded reliefSettings confirmFirst.quota) ↔
        share 200 80 < 190) :=
  manifest_selection (w := ⟨twoItems, twoItems, []⟩) rfl (Prod.ext (by decide +kernel) rfl)

/-- Usage of 55 percent, which is the trigger's double next to the target's. -/
def atTrigger : CleanupClient := { confirmFirst with quota := ⟨27500000000, 50000000000⟩ }

def narrowSettings : ICloudSettings :=
  { capacityReliefEnabled := true, triggerPercent := 55 + 1 / 2 ^ 47, targetPercent := 55 }

/-- A run at the trigger that takes an asset although nothing is needed. -/
theorem selected_without_need : ∃ m,
    (CleanupWorld.transactions.outcome (atTrigger.answers (days 100))
      (createManifest narrowSettings constantHashes) ⟨twoItems, twoItems, []⟩).1 = .ok (some m) ∧
    twoItems.manifests.get m.id = none ∧ m.entries.map (·.appleAssetId) = ["first"] ∧
    narrowSettings.targetPercent < narrowSettings.triggerPercent ∧
    atTrigger.quota.usedPercent = .ok narrowSettings.triggerPercent ∧
    ∀ candidates, ¬∀ k < m.entries.length,
      bytesOf candidates k < bytesNeeded narrowSettings atTrigger.quota := by
  refine ⟨{ plannedManifest [plannedEntry 1 0 "first" 10] with
    usedBytes := 27500000000, quotaBytes := 50000000000, targetBytes := 27500000000 }, ?_, ?_⟩
  · decide +kernel
  · refine ⟨rfl, rfl, by decide +kernel, by decide +kernel, fun candidates hall => ?_⟩
    have hnone : bytesNeeded narrowSettings atTrigger.quota = 0 := by decide +kernel
    have hh := hall 0 (by decide)
    omega

end Mnema
