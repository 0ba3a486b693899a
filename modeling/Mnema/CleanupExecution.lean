import Mnema.ICloudCleanup

/-! The execution of a cleanup manifest: which deletions it requests, what it
records of them, and why none is requested twice. -/

namespace Mnema

namespace CleanupWorld

section Rules

variable {pre : CleanupWorld → CleanupOp → Prop} {w : CleanupWorld}
  {E : CleanupError → CleanupWorld → Prop}

@[simp] theorem wp_load {Q : CleanupDb → CleanupWorld → Prop} :
    (Cleanup.op .load).wp pre env Q E w ↔ pre w .load ∧ Q w.txn w := by
  refine and_congr_right fun _ => ⟨fun h => h _ _ ⟨rfl, rfl⟩, ?_⟩
  rintro h a w' ⟨rfl, rfl⟩
  exact h

@[simp] theorem wp_store {d : CleanupDb} {Q : Unit → CleanupWorld → Prop} :
    (Cleanup.op (.store d)).wp pre env Q E w ↔
      pre w (.store d) ∧ Q () { w with txn := d } := by
  refine and_congr_right fun _ => ⟨fun h => h () _ rfl, ?_⟩
  rintro h a w' rfl
  exact h

@[simp] theorem wp_commit {Q : Unit → CleanupWorld → Prop} :
    (Cleanup.op .commit).wp pre env Q E w ↔ pre w .commit ∧ Q () w.commit := by
  refine and_congr_right fun _ => ⟨fun h => h () _ rfl, ?_⟩
  rintro h a w' rfl
  exact h

@[simp] theorem wp_delete {i r t : String} {Q : DeleteOutcome → CleanupWorld → Prop} :
    (Cleanup.op (.deleteToRecentlyDeleted i r t)).wp pre env Q E w ↔
      pre w (.deleteToRecentlyDeleted i r t) ∧
        ∀ outcome, Q outcome { w with calls := w.calls ++ [⟨i, r, t, outcome, w.db⟩] } := by
  refine and_congr_right fun _ => ⟨fun h outcome => h outcome _ rfl, ?_⟩
  rintro h a w' rfl
  exact h a

@[simp] theorem wp_utcnow {Q : Time → CleanupWorld → Prop} :
    (Cleanup.op .utcnow).wp pre env Q E w ↔ pre w .utcnow ∧ ∀ now, Q now w := by
  refine and_congr_right fun _ => ⟨fun h now => h now _ rfl, ?_⟩
  rintro h a w' rfl
  exact h a

@[simp] theorem wp_files {Q : Files → CleanupWorld → Prop} :
    (Cleanup.op .files).wp pre env Q E w ↔ pre w .files ∧ ∀ files, Q files w := by
  refine and_congr_right fun _ => ⟨fun h files => h files _ rfl, ?_⟩
  rintro h a w' rfl
  exact h a

theorem wp_clientQuota {Q : ICloudQuota → CleanupWorld → Prop} (hp : pre w .quota)
    (hQ : ∀ quota, Q quota w) (hE : ∀ e, E e w) : Cleanup.clientQuota.wp pre env Q E w := by
  refine (Prog.wp_bind _ _).mpr ⟨hp, ?_⟩
  rintro a w' rfl
  exact (Prog.wp_ofExcept a).mpr ⟨fun quota _ => hQ quota, fun e _ => hE e⟩

theorem wp_clientAssets {Q : List ICloudRemoteAsset → CleanupWorld → Prop} (hp : pre w .assets)
    (hQ : ∀ remotes, Q remotes w) (hE : ∀ e, E e w) : Cleanup.clientAssets.wp pre env Q E w := by
  refine (Prog.wp_bind _ _).mpr ⟨hp, ?_⟩
  rintro a w' rfl
  exact (Prog.wp_ofExcept a).mpr ⟨fun remotes _ => hQ remotes, fun e _ => hE e⟩

@[simp] theorem wp_blockIf {condition : Bool} {text : String} {Q : Unit → CleanupWorld → Prop} :
    (Cleanup.blockIf condition text).wp pre env Q E w ↔
      (condition = true → E (.blocked text) w) ∧ (condition = false → Q () w) := by
  cases condition <;> simp [Cleanup.blockIf]

@[simp] theorem wp_modify {f : CleanupDb → CleanupDb} {Q : Unit → CleanupWorld → Prop} :
    (Cleanup.modify f).wp pre env Q E w ↔
      pre w .load ∧ pre w (.store (f w.txn)) ∧ Q () { w with txn := f w.txn } := by
  simp [Cleanup.modify]

end Rules

end CleanupWorld

/-! ### Manifests that are no longer pending -/

namespace CleanupDb

/-- The manifest exists and does not await approval. -/
def Decided (d : CleanupDb) (id : Nat) : Prop :=
  ∃ m, d.manifests.get id = some m ∧ m.status ≠ .pendingApproval

/-- A manifest that awaits approval has recorded nothing, and its entries are numbered. -/
structure Orderly (d : CleanupDb) : Prop where
  untouched : ∀ m ∈ d.manifests.rows, m.status = .pendingApproval →
    ∀ e ∈ m.entries, e.completedAt = none
  numbered : ∀ m ∈ d.manifests.rows, m.entries.map (·.position) = List.range m.entries.length

/-- What every change of the service keeps. -/
structure Keeps (d d' : CleanupDb) : Prop where
  decided : ∀ id, d.Decided id → d'.Decided id
  orderly : d.Orderly → d'.Orderly

theorem Keeps.refl (d : CleanupDb) : d.Keeps d := ⟨fun _ h => h, fun h => h⟩

theorem Keeps.trans {d₁ d₂ d₃ : CleanupDb} (h : d₁.Keeps d₂) (h' : d₂.Keeps d₃) : d₁.Keeps d₃ :=
  ⟨fun id hd => h'.decided id (h.decided id hd), fun ho => h'.orderly (h.orderly ho)⟩

theorem keeps_of_manifests {d d' : CleanupDb} (h : d'.manifests = d.manifests) : d.Keeps d' := by
  refine ⟨fun id hd => ?_, fun ho => ⟨?_, ?_⟩⟩
  · unfold Decided
    rw [h]
    exact hd
  · rw [h]
    exact ho.untouched
  · rw [h]
    exact ho.numbered

theorem manifests_setRuntime (d : CleanupDb) (key value : String) :
    (d.setRuntime key value).manifests = d.manifests := by
  unfold setRuntime
  split <;> rfl

theorem get_updateManifest (d : CleanupDb) (id : Nat) (f : ICloudCleanupManifest → ICloudCleanupManifest)
    (hf : ∀ m, (f m).id = m.id) (j : Nat) :
    (d.updateManifest id f).manifests.get j =
      if j = id then (d.manifests.get id).map f else d.manifests.get j := by
  unfold updateManifest
  cases hg : d.manifests.get id with
  | none =>
    by_cases hj : j = id
    · simp [hj, hg]
    · simp [hj]
  | some m =>
    obtain rfl := Table.key_of_get hg
    by_cases hj : j = m.id
    · subst hj
      have hput := Table.get_put_self (r := f m) ((hf m).symm ▸ hg)
      simpa [putManifest, hf m] using hput
    · have hne : j ≠ (f m).id := fun h => hj (h.trans (hf m))
      simpa [putManifest, hj] using Table.get_put_of_ne hne

theorem mem_updateManifest {d : CleanupDb} {id : Nat}
    {f : ICloudCleanupManifest → ICloudCleanupManifest} (hf : ∀ m, (f m).id = m.id)
    {x : ICloudCleanupManifest} (hx : x ∈ (d.updateManifest id f).manifests.rows) :
    x ∈ d.manifests.rows ∨ ∃ m ∈ d.manifests.rows, m.id = id ∧ x = f m := by
  have hget := Table.get_of_mem hx
  rw [get_updateManifest d id f hf] at hget
  split at hget
  · obtain ⟨m, hm, he⟩ := Option.map_eq_some_iff.mp hget
    exact .inr ⟨m, Table.mem_of_get hm, Table.key_of_get hm, he.symm⟩
  · exact .inl (Table.mem_of_get hget)

/-- A change of one manifest that does not take it back to approval. -/
theorem keeps_updateManifest {d : CleanupDb} {id : Nat}
    {f : ICloudCleanupManifest → ICloudCleanupManifest} (hf : ∀ m, (f m).id = m.id)
    (hstatus : ∀ m, d.manifests.get id = some m → (f m).status ≠ .pendingApproval)
    (hnum : ∀ m, m.entries.map (·.position) = List.range m.entries.length →
      (f m).entries.map (·.position) = List.range (f m).entries.length) :
    d.Keeps (d.updateManifest id f) := by
  constructor
  · rintro j ⟨m, hm, hs⟩
    unfold Decided
    rw [get_updateManifest d id f hf]
    by_cases hj : j = id
    · subst hj
      exact ⟨f m, by simp [hm], hstatus m hm⟩
    · exact ⟨m, by simp [hj, hm], hs⟩
  · intro ho
    refine ⟨fun x hx hs => ?_, fun x hx => ?_⟩
    · rcases mem_updateManifest hf hx with hx | ⟨m, hm, rfl, rfl⟩
      · exact ho.untouched x hx hs
      · exact absurd hs (hstatus m (Table.get_of_mem hm))
    · rcases mem_updateManifest hf hx with hx | ⟨m, hm, rfl, rfl⟩
      · exact ho.numbered x hx
      · exact hnum m (ho.numbered m hm)

theorem keeps_audit (d : CleanupDb) (event : CleanupAudit) : d.Keeps (d.audit event) :=
  keeps_of_manifests rfl

theorem keeps_observed (d : CleanupDb) (quota : ICloudQuota) :
    d.Keeps { d with observations := d.observations ++ [quota] } :=
  keeps_of_manifests rfl

theorem numbered_complete {m : ICloudCleanupManifest} {position : Nat} {now : Time}
    (h : m.entries.map (·.position) = List.range m.entries.length) :
    (m.complete position now).entries.map (·.position) =
      List.range (m.complete position now).entries.length := by
  have hpos : (m.complete position now).entries.map (·.position) = m.entries.map (·.position) := by
    simp only [ICloudCleanupManifest.complete, List.map_map]
    refine List.map_congr_left fun e _ => ?_
    simp only [Function.comp]
    split <;> rfl
  rw [hpos, h]
  simp [ICloudCleanupManifest.complete]

theorem manifests_complete (d : CleanupDb) (id : Nat) (entry : ICloudCleanupEntry) (now : Time) :
    (d.complete id entry now).manifests =
      (d.updateManifest id fun m => m.complete entry.position now).manifests := by
  unfold complete
  dsimp only
  split <;> rfl

theorem keeps_complete {d : CleanupDb} {id : Nat} (hd : d.Decided id) (entry : ICloudCleanupEntry)
    (now : Time) : d.Keeps (d.complete id entry now) := by
  obtain ⟨m, hm, hs⟩ := hd
  refine .trans (@keeps_updateManifest d id (fun m => m.complete entry.position now)
    (fun _ => rfl) (fun m' hm' => ?_) fun _ => numbered_complete)
    (keeps_of_manifests (manifests_complete d id entry now))
  obtain rfl := Option.some.inj (hm.symm.trans hm')
  exact hs

theorem keeps_manualReview (d : CleanupDb) (id : Nat) (reason : String) :
    d.Keeps (d.manualReview id reason) := by
  refine .trans (@keeps_updateManifest d id (fun m => { m with
    status := if m.entries.any (·.completedAt.isSome) then .partialRun else .manualReview
    failureReason := some reason }) (fun _ => rfl) (fun m _ => ?_) fun _ h => h)
    (keeps_of_manifests ?_)
  · dsimp only
    split <;> simp
  · simp only [manualReview, audit, manifests_setRuntime]

theorem keeps_setStatus (d : CleanupDb) (id : Nat) {f : ICloudCleanupManifest → ICloudCleanupManifest}
    (hid : ∀ m, (f m).id = m.id) (hs : ∀ m, (f m).status ≠ .pendingApproval)
    (he : ∀ m, (f m).entries = m.entries) (event : CleanupAudit) :
    d.Keeps ((d.updateManifest id f).audit event) := by
  refine .trans (keeps_updateManifest hid (fun m _ => hs m) fun m hm => ?_) (keeps_audit _ _)
  rw [he]
  exact hm

theorem keeps_expireManifests (d : CleanupDb) (now : Time) : d.Keeps (d.expireManifests now) := by
  have hget : ∀ id, (d.expireManifests now).manifests.get id = (d.manifests.get id).map fun m =>
      if m.status = .pendingApproval ∧ m.expiresAt ≤ now then { m with status := .expired } else m :=
    fun id => Table.get_mapRows (fun m => by split <;> rfl) id
  constructor
  · rintro id ⟨m, hm, hs⟩
    refine ⟨m, ?_, hs⟩
    rw [hget, hm]
    simp [hs]
  · intro ho
    have hmem : ∀ x ∈ (d.expireManifests now).manifests.rows, ∃ m ∈ d.manifests.rows,
        x.entries = m.entries ∧ (x.status = .pendingApproval → m.status = .pendingApproval) := by
      intro x hx
      obtain ⟨m, hm, rfl⟩ := List.mem_map.mp hx
      refine ⟨m, hm, ?_⟩
      split
      · exact ⟨rfl, fun h => by cases h⟩
      · exact ⟨rfl, fun h => h⟩
    refine ⟨fun x hx hs => ?_, fun x hx => ?_⟩
    · obtain ⟨m, hm, he, hp⟩ := hmem x hx
      rw [he]
      exact ho.untouched m hm (hp hs)
    · obtain ⟨m, hm, he, _⟩ := hmem x hx
      rw [he]
      exact ho.numbered m hm

theorem keeps_refreshAssets {remotes : List ICloudRemoteAsset} {now : Time}
    {rest : List ICloudRemoteAsset} {d d' : CleanupDb}
    (h : refreshAssets remotes now rest d = .ok d') : d'.manifests = d.manifests := by
  induction rest generalizing d with
  | nil =>
    cases h
    rfl
  | cons remote rest ih =>
    unfold refreshAssets at h
    cases hr : refreshAsset remotes now d remote with
    | error e => simp [hr] at h
    | ok d₁ =>
      rw [hr] at h
      refine (ih h).trans ?_
      unfold refreshAsset at hr
      dsimp only at hr
      split at hr
      · cases hr
        rfl
      · split at hr
        · cases hr
        · cases hr
          rfl

theorem positions_entriesOf (d : CleanupDb) (hashes : CleanupHashes) (assets : List ICloudAsset)
    (position : Nat) :
    (d.entriesOf hashes position assets).map (·.position) =
      List.range' position (d.entriesOf hashes position assets).length := by
  induction assets generalizing position with
  | nil => rfl
  | cons a assets ih => simp [entriesOf, ih, List.range'_succ]

theorem untouched_entriesOf (d : CleanupDb) (hashes : CleanupHashes) (assets : List ICloudAsset)
    (position : Nat) : ∀ e ∈ d.entriesOf hashes position assets, e.completedAt = none := by
  induction assets generalizing position with
  | nil => simp [entriesOf]
  | cons a assets ih =>
    intro e he
    rcases List.mem_cons.mp he with rfl | he
    · rfl
    · exact ih _ e he

/-- A new manifest replaces none. -/
theorem keeps_insert (d : CleanupDb) {m : ICloudCleanupManifest}
    (hm : ∀ e ∈ m.entries, e.completedAt = none)
    (hn : m.entries.map (·.position) = List.range m.entries.length) (event : CleanupAudit) :
    d.Keeps (CleanupDb.audit { d with manifests := d.manifests.insert m } event) := by
  constructor
  · rintro id ⟨old, hold, hs⟩
    exact ⟨old, Table.get_insert_of_get hold, hs⟩
  · intro ho
    refine ⟨fun x hx hs => ?_, fun x hx => ?_⟩
    · rcases Table.mem_insert hx with hx | rfl
      · exact ho.untouched x hx hs
      · exact hm
    · rcases Table.mem_insert hx with hx | rfl
      · exact ho.numbered x hx
      · exact hn

end CleanupDb

/-! ### The calls of the service -/

namespace CleanupWorld

/-- Every change that is stored keeps what was decided; nothing is committed or requested. -/
def Quiet (w : CleanupWorld) : CleanupOp → Prop
  | .store d => w.txn.Keeps d
  | .commit => False
  | .deleteToRecentlyDeleted _ _ _ => False
  | _ => True

/-- A commit or a request comes only after the manifest was decided. -/
def Guarded (id : Nat) (w : CleanupWorld) : CleanupOp → Prop
  | .store d => w.txn.Keeps d
  | .commit => w.txn.Decided id
  | .deleteToRecentlyDeleted _ _ _ => w.db.Decided id
  | _ => True

theorem Quiet.guarded {w : CleanupWorld} {o : CleanupOp} (h : w.Quiet o) (id : Nat) :
    w.Guarded id o := by
  cases o <;> first | exact h | exact h.elim

/-- Nothing was committed or requested. -/
structure Unreached (w t : CleanupWorld) : Prop where
  db : t.db = w.db
  calls : t.calls = w.calls

theorem Unreached.refl (w : CleanupWorld) : Unreached w w := ⟨rfl, rfl⟩

variable {w : CleanupWorld}

theorem refreshInventory_wp {t : CleanupWorld} (ht : Unreached w t) {Q : Unit → CleanupWorld → Prop}
    (hQ : ∀ d, d.manifests = t.txn.manifests → Q () { t with txn := d }) :
    refreshInventory.wp Quiet env Q (fun _ t => Unreached w t) t := by
  refine (Prog.wp_bind _ _).mpr (wp_clientAssets trivial (fun remotes => ?_) fun _ => ht)
  simp only [Prog.wp_bind, wp_utcnow, wp_load, Prog.wp_ofExcept, wp_store]
  refine ⟨trivial, fun now => ⟨trivial, fun d hd => ⟨?_, ?_⟩, fun _ _ => ht⟩⟩
  · exact CleanupDb.keeps_of_manifests (CleanupDb.keeps_refreshAssets hd)
  · exact hQ d (CleanupDb.keeps_refreshAssets hd)

theorem buildManifest_wp (settings : ICloudSettings) (hashes : CleanupHashes) (quota : ICloudQuota)
    (now : Time) {t : CleanupWorld} (ht : Unreached w t) :
    (buildManifest settings hashes quota now).wp Quiet env (fun _ t => Unreached w t)
      (fun _ t => Unreached w t) t := by
  simp only [buildManifest, Prog.wp_bind, wp_load, wp_files]
  refine ⟨trivial, trivial, fun files => ?_⟩
  split
  · exact ht
  · split
    · exact ht
    · simp only [Prog.wp_bind, wp_store]
      refine ⟨?_, ht.db, ht.calls⟩
      refine CleanupDb.keeps_insert _ (CleanupDb.untouched_entriesOf _ _ _ _) ?_ _
      rw [List.range_eq_range']
      exact CleanupDb.positions_entriesOf _ _ _ _

theorem createManifest_wp (settings : ICloudSettings) (hashes : CleanupHashes) (w : CleanupWorld) :
    (createManifest settings hashes).wp Quiet env (fun _ t => Unreached w t)
      (fun _ t => Unreached w t) w := by
  simp only [createManifest, Prog.wp_bind, wp_blockIf, wp_utcnow, wp_modify]
  refine ⟨fun _ => .refl w, fun _ => ⟨trivial, fun now => ⟨trivial, ?_, ?_⟩⟩⟩
  · exact CleanupDb.keeps_expireManifests _ now
  refine wp_clientQuota trivial (fun quota => ?_) fun _ => ⟨rfl, rfl⟩
  refine ⟨trivial, CleanupDb.keeps_observed _ quota, ?_⟩
  refine (Prog.wp_ofExcept _).mpr ⟨fun usedPercent _ => ?_, fun _ _ => ⟨rfl, rfl⟩⟩
  split
  · exact ⟨rfl, rfl⟩
  simp only [Prog.wp_bind, wp_load]
  refine ⟨trivial, ?_⟩
  split
  · exact ⟨rfl, rfl⟩
  · refine (Prog.wp_bind _ _).mpr (refreshInventory_wp (w := w) (by exact ⟨rfl, rfl⟩) fun d _ => ?_)
    exact buildManifest_wp settings hashes quota now ⟨rfl, rfl⟩

theorem observeQuota_wp (w : CleanupWorld) :
    observeQuota.wp Quiet env (fun _ t => Unreached w t) (fun _ t => Unreached w t) w := by
  refine (Prog.wp_bind _ _).mpr (wp_clientQuota trivial (fun quota => ?_) fun _ => .refl w)
  exact wp_modify.mpr ⟨trivial, CleanupDb.keeps_observed _ quota, rfl, rfl⟩

theorem approveManifest_wp (settings : ICloudSettings) (hashes : CleanupHashes) (id : Nat)
    (digest : Digest) (gatesReady : Bool) (w : CleanupWorld) :
    (approveManifest settings hashes id digest gatesReady).wp Quiet env
      (fun r t => t = w ∧ w.txn.manifests.get id = some r.1 ∧ r.1.status = .pendingApproval)
      (fun _ t => Unreached w t) w := by
  simp only [approveManifest, Prog.wp_bind, wp_blockIf, wp_load]
  refine ⟨fun _ => .refl w, fun _ => ⟨trivial, ?_⟩⟩
  cases hm : w.txn.manifests.get id with
  | none => exact .refl w
  | some m =>
    simp only [Prog.wp_bind, wp_blockIf, wp_utcnow]
    refine ⟨fun _ => .refl w, fun _ => ⟨trivial, fun now => ⟨fun _ => .refl w, fun hs => ?_⟩⟩⟩
    have hstatus : m.status = .pendingApproval := by simpa using hs
    by_cases he : m.expiresAt ≤ now
    · simp only [he, if_true, Prog.wp_bind, CleanupWorld.wp_modify]
      refine ⟨trivial, CleanupDb.keeps_updateManifest (fun _ => rfl) (fun _ _ => ?_) fun _ h => h, ?_⟩
      · simp
      · exact ⟨rfl, rfl⟩
    · simp only [he, if_false, Prog.wp_bind, wp_blockIf]
      refine ⟨fun _ => .refl w, fun _ => ?_⟩
      refine wp_clientQuota trivial (fun quota => ?_) fun _ => .refl w
      refine (Prog.wp_ofExcept _).mpr ⟨fun usedPercent _ => ?_, fun _ _ => .refl w⟩
      refine ⟨fun _ => .refl w, fun _ => ?_⟩
      refine wp_clientAssets trivial (fun remotes => ?_) fun _ => .refl w
      simp only [wp_files]
      refine ⟨trivial, fun files => (Prog.wp_ofExcept _).mpr ⟨fun _ _ => ?_, fun _ _ => .refl w⟩⟩
      exact ⟨rfl, rfl, hstatus⟩

end CleanupWorld

/-! ### What an execution leaves -/

def ICloudCleanupEntry.request (e : ICloudCleanupEntry) : String × String × String :=
  (e.appleAssetId, e.assetRecordName, e.changeTag)

def DeleteCall.request (c : DeleteCall) : String × String × String :=
  (c.appleAssetId, c.assetRecordName, c.changeTag)

/-- The entries, with those before position `k` completed. -/
def stamp (k : Nat) (completedAt : Nat → Time) (entries : List ICloudCleanupEntry) :
    List ICloudCleanupEntry :=
  entries.map fun (e : ICloudCleanupEntry) =>
    if e.position < k then { e with completedAt := some (completedAt e.position) } else e

/-- The requests are those of the first entries, in order, each made while `EXECUTING` was
durable; the first `k` of them, and no other, were confirmed. -/
structure Requested (id : Nat) (entries : List ICloudCleanupEntry) (k : Nat)
    (calls : List DeleteCall) : Prop where
  requests : calls.map (·.request) = (entries.take calls.length).map (·.request)
  executing : ∀ c ∈ calls, ∃ m, c.committed.manifests.get id = some m ∧ m.status = .executing
  confirmed : ∀ i c, calls[i]? = some c → (c.outcome = .answered true ↔ i < k)

/-- The first `k` entries are completed and their assets marked as deleted; the others are as
they were. -/
structure Recorded (before after : CleanupDb) (m : ICloudCleanupManifest) (k : Nat) : Prop where
  entries : ∃ m' completedAt, after.manifests.get m.id = some m' ∧
    m'.entries = stamp k completedAt m.entries
  assets : ∀ id row, before.assets.get id = some row → ∃ row', after.assets.get id = some row' ∧
    if id ∈ (m.entries.take k).map (·.icloudAssetId)
    then ∃ t, row' = { row with remotelyDeletedAt := some t }
    else row' = row

/-- The whole account of an execution that reached its deletions, `k` of them confirmed. -/
structure Accounting (m : ICloudCleanupManifest) (w w' : CleanupWorld) (k : Nat) : Prop where
  requests : ∃ calls, w'.calls = w.calls ++ calls ∧ Requested m.id m.entries k calls ∧
    ((k = m.entries.length ∧ calls.length = k) ∨ (k < m.entries.length ∧ calls.length = k + 1))
  recorded : Recorded w.db w'.db m k
  status : ∃ m', w'.db.manifests.get m.id = some m' ∧
    m'.status = if k = m.entries.length then .completed
      else if k = 0 then .manualReview else .partialRun
  gate : k ≠ m.entries.length → w'.db.runtimeValue "global_deletion_enabled" = some "false" ∧
    w'.db.runtimeValue "safety_lock" = some "true"

/-- After `k` confirmed deletions, all of them durable. -/
structure InLoop (m : ICloudCleanupManifest) (w t : CleanupWorld) (k : Nat) : Prop where
  idle : t.txn = t.db
  executing : ∃ m', t.db.manifests.get m.id = some m' ∧ m'.status = .executing
  recorded : Recorded w.db t.db m k
  calls : ∃ calls, t.calls = w.calls ++ calls ∧ calls.length = k ∧ Requested m.id m.entries k calls

theorem InLoop.decided {m : ICloudCleanupManifest} {w t : CleanupWorld} {k : Nat}
    (h : InLoop m w t k) : t.db.Decided m.id := by
  obtain ⟨m', hget, hs⟩ := h.executing
  exact ⟨m', hget, by simp [hs]⟩

section Loop

variable {m : ICloudCleanupManifest} {before d : CleanupDb} {k : Nat}

theorem stamp_zero (completedAt : Nat → Time) (entries : List ICloudCleanupEntry) :
    stamp 0 completedAt entries = entries := by
  simp [stamp]

theorem stamp_succ (k : Nat) (completedAt : Nat → Time) (now : Time)
    (entries : List ICloudCleanupEntry) :
    (stamp k completedAt entries).map (fun (e : ICloudCleanupEntry) =>
        if e.position = k then { e with completedAt := some now } else e) =
      stamp (k + 1) (Function.update completedAt k now) entries := by
  simp only [stamp, List.map_map]
  refine List.map_congr_left fun e _ => ?_
  simp only [Function.comp]
  by_cases hlt : e.position < k
  · have hne : e.position ≠ k := by omega
    have hle : e.position < k + 1 := by omega
    simp [hlt, hne, hle]
  · by_cases heq : e.position = k
    · simp [heq]
    · have hle : ¬e.position < k + 1 := by omega
      simp [hlt, heq, hle]

theorem position_of_numbered (h : m.entries.map (·.position) = List.range m.entries.length)
    {entry : ICloudCleanupEntry} (he : m.entries[k]? = some entry) : entry.position = k := by
  have hk : (m.entries.map (·.position))[k]? = some entry.position := by simp [he]
  rw [h, List.getElem?_range] at hk
  · exact (Option.some.inj hk).symm
  · exact (List.getElem?_eq_some_iff.mp he).1

theorem get_complete (d : CleanupDb) (id : Nat) (entry : ICloudCleanupEntry) (now : Time) :
    (d.complete id entry now).manifests.get id =
      (d.manifests.get id).map fun m => m.complete entry.position now := by
  have hget := d.get_updateManifest id (fun m => m.complete entry.position now) (fun _ => rfl) id
  rw [if_pos rfl] at hget
  rw [d.manifests_complete id entry now]
  exact hget

theorem asset_complete (d : CleanupDb) (id : Nat) (entry : ICloudCleanupEntry) (now : Time) (a : Nat) :
    (d.complete id entry now).assets.get a =
      if a = entry.icloudAssetId then
        (d.assets.get a).map fun row => { row with remotelyDeletedAt := some now }
      else d.assets.get a := by
  have hassets : ∀ f, (d.updateManifest id f).assets = d.assets := by
    intro f
    unfold CleanupDb.updateManifest
    split <;> rfl
  unfold CleanupDb.complete
  dsimp only
  rw [hassets]
  cases hg : d.assets.get entry.icloudAssetId with
  | none =>
    dsimp only
    rw [hassets]
    by_cases ha : a = entry.icloudAssetId
    · simp [ha, hg]
    · simp [ha]
  | some row =>
    have hid := Table.key_of_get hg
    dsimp only
    by_cases ha : a = entry.icloudAssetId
    · subst ha
      rw [← hid] at hg ⊢
      simp [Table.get_put, hg]
    · simp [Table.get_put, hid, ha]

/-- One more confirmed deletion. -/
theorem recorded_complete (hn : m.entries.map (·.position) = List.range m.entries.length)
    (h : Recorded before d m k) {entry : ICloudCleanupEntry} (he : m.entries[k]? = some entry)
    (now : Time) : Recorded before (d.complete m.id entry now) m (k + 1) := by
  have hpos := position_of_numbered hn he
  constructor
  · obtain ⟨m', completedAt, hget, hentries⟩ := h.entries
    refine ⟨m'.complete entry.position now, Function.update completedAt k now, ?_, ?_⟩
    · rw [get_complete, hget]
      rfl
    · rw [ICloudCleanupManifest.complete, hentries, hpos]
      exact stamp_succ k completedAt now m.entries
  · intro id row hrow
    obtain ⟨row', hrow', hcase⟩ := h.assets id row hrow
    have htake : m.entries.take (k + 1) = m.entries.take k ++ [entry] := by
      rw [List.take_add_one, he]
      rfl
    rw [asset_complete, htake, List.map_append, List.map_singleton]
    by_cases hid : id = entry.icloudAssetId
    · subst hid
      refine ⟨{ row' with remotelyDeletedAt := some now }, by simp [hrow'], ?_⟩
      rw [if_pos (List.mem_append_right _ (List.mem_singleton.mpr rfl))]
      refine ⟨now, ?_⟩
      split at hcase
      · obtain ⟨t, rfl⟩ := hcase
        rfl
      · rw [hcase]
    · refine ⟨row', by simp [hid, hrow'], ?_⟩
      by_cases hmem : id ∈ (m.entries.take k).map (·.icloudAssetId)
      · rw [if_pos hmem] at hcase
        rw [if_pos (List.mem_append_left _ hmem)]
        exact hcase
      · have hnot : id ∉ (m.entries.take k).map (·.icloudAssetId) ++ [entry.icloudAssetId] := by
          rw [List.mem_append, List.mem_singleton]
          exact not_or.mpr ⟨hmem, hid⟩
        rw [if_neg hmem] at hcase
        rw [if_neg hnot]
        exact hcase

/-- One more request, confirmed or the last. -/
theorem requested_snoc {calls : List DeleteCall} (h : Requested m.id m.entries k calls)
    (hlen : calls.length = k) {entry : ICloudCleanupEntry} (he : m.entries[k]? = some entry)
    {d : CleanupDb} (hd : ∃ m', d.manifests.get m.id = some m' ∧ m'.status = .executing)
    (outcome : DeleteOutcome) {j : Nat} (hj : j = if outcome = .answered true then k + 1 else k) :
    Requested m.id m.entries j (calls ++ [⟨entry.appleAssetId, entry.assetRecordName, entry.changeTag,
      outcome, d⟩]) := by
  constructor
  · rw [List.length_append, List.length_singleton, List.take_add_one, hlen, he, List.map_append,
      List.map_append, h.requests, hlen]
    rfl
  · intro c hc
    rcases List.mem_append.mp hc with hc | hc
    · exact h.executing c hc
    · obtain rfl := List.mem_singleton.mp hc
      exact hd
  · intro i c hc
    by_cases hi : i < calls.length
    · rw [List.getElem?_append_left hi] at hc
      refine (h.confirmed i c hc).trans ⟨fun h => ?_, fun _ => hlen ▸ hi⟩
      rw [hj]
      split <;> omega
    · rw [List.getElem?_append_right (by omega)] at hc
      have hlast : i - calls.length = 0 := by
        have := (List.getElem?_eq_some_iff.mp hc).1
        rw [List.length_singleton] at this
        omega
      rw [hlast] at hc
      obtain rfl := Option.some.inj hc
      rw [hj]
      by_cases ho : outcome = .answered true
      · simp only [ho, if_true, true_iff]
        omega
      · simp only [ho, if_false, false_iff]
        omega

theorem recorded_of_same {d' : CleanupDb} (h : Recorded before d m k)
    (hm : ∀ m', d.manifests.get m.id = some m' →
      ∃ m'', d'.manifests.get m.id = some m'' ∧ m''.entries = m'.entries)
    (ha : d'.assets = d.assets) : Recorded before d' m k := by
  constructor
  · obtain ⟨m', completedAt, hget, he⟩ := h.entries
    obtain ⟨m'', hget', he'⟩ := hm m' hget
    exact ⟨m'', completedAt, hget', he'.trans he⟩
  · rw [ha]
    exact h.assets

theorem get_setStatus (d : CleanupDb) (id : Nat) {f : ICloudCleanupManifest → ICloudCleanupManifest}
    (hf : ∀ m, (f m).id = m.id) {m' : ICloudCleanupManifest} (h : d.manifests.get id = some m')
    (event : CleanupAudit) :
    ((d.updateManifest id f).audit event).manifests.get id = some (f m') := by
  have hget := d.get_updateManifest id f hf id
  rw [if_pos rfl, h] at hget
  exact hget

theorem assets_updateManifest (d : CleanupDb) (id : Nat)
    (f : ICloudCleanupManifest → ICloudCleanupManifest) :
    (d.updateManifest id f).assets = d.assets := by
  unfold CleanupDb.updateManifest
  split <;> rfl

theorem assets_setRuntime (d : CleanupDb) (key value : String) :
    (d.setRuntime key value).assets = d.assets := by
  unfold CleanupDb.setRuntime
  split <;> rfl

theorem runtimeValue_setRuntime (d : CleanupDb) (key value : String) (other : String) :
    (d.setRuntime key value).runtimeValue other =
      if other = key then some value else d.runtimeValue other := by
  unfold CleanupDb.setRuntime CleanupDb.runtimeValue
  by_cases hany : d.runtime.any (·.1 == key) = true
  · have hkeys : ((fun (s : String × String) => s.1 == other) ∘
        fun (s : String × String) => if s.1 == key then (key, value) else s) = (·.1 == other) := by
      funext s
      by_cases hs : s.1 = key <;> simp [hs]
    simp only [hany, if_true, List.find?_map, hkeys, Option.map_map]
    cases hf : d.runtime.find? (·.1 == other) with
    | none =>
      by_cases ho : other = key
      · obtain ⟨s, hs, hk⟩ := List.any_eq_true.mp hany
        exact absurd (ho ▸ hk) (List.find?_eq_none.mp hf s hs)
      · simp [ho]
    | some s =>
      have hs : s.1 = other := by simpa using List.find?_some hf
      by_cases ho : other = key
      · simp [hs, ho]
      · simp [hs, ho]
  · have hnone : d.runtime.find? (·.1 == key) = none := by
      rw [List.find?_eq_none]
      exact fun s hs hk => hany (List.any_eq_true.mpr ⟨s, hs, hk⟩)
    simp only [hany, Bool.false_eq_true, if_false, List.find?_append]
    by_cases ho : other = key
    · simp [ho, hnone]
    · have hne : key ≠ other := fun h => ho h.symm
      simp [ho, hne]

theorem any_stamp (hk : k ≤ m.entries.length) (completedAt : Nat → Time)
    (hn : m.entries.map (·.position) = List.range m.entries.length)
    (hu : ∀ e ∈ m.entries, e.completedAt = none) :
    (stamp k completedAt m.entries).any (·.completedAt.isSome) = decide (k ≠ 0) := by
  by_cases hz : k = 0
  · subst hz
    rw [stamp_zero]
    simpa using hu
  · have hlt : 0 < m.entries.length := by omega
    have hpos : (m.entries[0]).position = 0 :=
      position_of_numbered hn (List.getElem?_eq_getElem hlt)
    have hmem : ({ m.entries[0] with completedAt := some (completedAt 0) } : ICloudCleanupEntry) ∈
        stamp k completedAt m.entries := by
      refine List.mem_map.mpr ⟨m.entries[0], List.getElem_mem hlt, ?_⟩
      have hk : 0 < k := by omega
      simp [hpos, hk]
    have hany : (stamp k completedAt m.entries).any (·.completedAt.isSome) = true :=
      List.any_eq_true.mpr ⟨_, hmem, rfl⟩
    rw [hany]
    simp [hz]

variable {w t : CleanupWorld}

/-- A deletion that is not confirmed ends the execution. -/
theorem reviewManifest_wp (hu : ∀ e ∈ m.entries, e.completedAt = none)
    (hn : m.entries.map (·.position) = List.range m.entries.length) (h : InLoop m w t k)
    {entry : ICloudCleanupEntry} (he : m.entries[k]? = some entry) {outcome : DeleteOutcome}
    (ho : outcome ≠ .answered true) (reason : String) {Q : Unit → CleanupWorld → Prop} :
    (reviewManifest m.id reason).wp (CleanupWorld.Guarded m.id) CleanupWorld.env Q
      (fun _ t' => ∃ k < m.entries.length, Accounting m w t' k)
      { t with calls := t.calls ++ [⟨entry.appleAssetId, entry.assetRecordName, entry.changeTag,
        outcome, t.db⟩] } := by
  have hlt := (List.getElem?_eq_some_iff.mp he).1
  simp only [reviewManifest, Prog.wp_bind, CleanupWorld.wp_modify, CleanupWorld.wp_commit,
    Prog.wp_throw]
  have hkeeps := t.txn.keeps_manualReview m.id reason
  have hdecided : t.txn.Decided m.id := h.idle ▸ h.decided
  refine ⟨trivial, hkeeps, hkeeps.decided _ hdecided, k, hlt, ?_⟩
  have hsame : (t.txn.manualReview m.id reason).assets = t.db.assets := by
    simp only [CleanupDb.manualReview, CleanupDb.audit, assets_setRuntime, assets_updateManifest,
      h.idle]
  obtain ⟨m', completedAt, hget, hentries⟩ := h.recorded.entries
  have hreview : ∃ m'', (t.txn.manualReview m.id reason).manifests.get m.id = some m'' ∧
      m''.entries = m'.entries ∧ m''.status = if k = 0 then .manualReview else .partialRun := by
    have hstatus := get_setStatus t.txn m.id (f := fun m => { m with
      status := if m.entries.any (·.completedAt.isSome) then .partialRun else .manualReview
      failureReason := some reason }) (fun _ => rfl) (h.idle ▸ hget)
      ⟨"icloud_cleanup_manual_review", none, m.id, some reason⟩
    have hmanifests : (t.txn.manualReview m.id reason).manifests =
        (t.txn.updateManifest m.id fun m => { m with
          status := if m.entries.any (·.completedAt.isSome) then .partialRun else .manualReview
          failureReason := some reason }).manifests := by
      simp only [CleanupDb.manualReview, CleanupDb.audit, CleanupDb.manifests_setRuntime]
    refine ⟨{ m' with
      status := if m'.entries.any (·.completedAt.isSome) then .partialRun else .manualReview
      failureReason := some reason }, (congrArg (·.get m.id) hmanifests).trans hstatus, rfl, ?_⟩
    show (if m'.entries.any (·.completedAt.isSome) then _ else _) = _
    rw [hentries, any_stamp hlt.le completedAt hn hu]
    by_cases hz : k = 0 <;> simp [hz]
  constructor
  · obtain ⟨calls, hcalls, hlen, hreq⟩ := h.calls
    refine ⟨calls ++ [_], ?_, requested_snoc hreq hlen he h.executing outcome (if_neg ho).symm, ?_⟩
    · simp [CleanupWorld.commit, hcalls]
    · exact .inr ⟨hlt, by simp [hlen]⟩
  · refine recorded_of_same h.recorded (fun m₁ hm₁ => ?_) hsame
    obtain ⟨m'', hm'', he'', _⟩ := hreview
    obtain rfl := Option.some.inj (hget.symm.trans hm₁)
    exact ⟨m'', hm'', he''⟩
  · obtain ⟨m'', hm'', _, hs''⟩ := hreview
    refine ⟨m'', hm'', ?_⟩
    rw [if_neg (by omega), hs'']
  · intro _
    have hvalue : ∀ key, (t.txn.manualReview m.id reason).runtimeValue key =
        ((CleanupDb.setRuntime _ "global_deletion_enabled" "false").setRuntime "safety_lock"
          "true").runtimeValue key := fun _ => rfl
    simp only [CleanupWorld.commit, hvalue, runtimeValue_setRuntime]
    exact ⟨by simp, by simp⟩

theorem deleteEntries_wp (hu : ∀ e ∈ m.entries, e.completedAt = none)
    (hn : m.entries.map (·.position) = List.range m.entries.length) (rest : List ICloudCleanupEntry)
    (hrest : m.entries.drop k = rest) (hk : k ≤ m.entries.length) (h : InLoop m w t k) :
    (deleteEntries m.id rest).wp (CleanupWorld.Guarded m.id) CleanupWorld.env
      (fun _ t' => InLoop m w t' m.entries.length) (fun _ t' => ∃ k < m.entries.length, Accounting m w t' k) t := by
  induction rest generalizing k t with
  | nil =>
    have hlen : k = m.entries.length := by
      have := List.drop_eq_nil_iff.mp hrest
      omega
    exact hlen ▸ h
  | cons entry rest ih =>
    have he : m.entries[k]? = some entry := by
      rw [← List.head?_drop, hrest]
      rfl
    have hlt := (List.getElem?_eq_some_iff.mp he).1
    refine (Prog.wp_bind _ _).mpr (CleanupWorld.wp_delete.mpr ⟨h.decided, fun outcome => ?_⟩)
    split
    case h_1 type => exact reviewManifest_wp hu hn h he (by simp) type
    case h_2 => exact reviewManifest_wp hu hn h he (by simp) _
    case h_3 =>
      simp only [Prog.wp_bind, CleanupWorld.wp_utcnow, CleanupWorld.wp_modify, CleanupWorld.wp_commit]
      have hdecided : t.txn.Decided m.id := h.idle ▸ h.decided
      have hkeeps := fun now => CleanupDb.keeps_complete hdecided entry now
      refine ⟨trivial, fun now => ⟨trivial, hkeeps now, (hkeeps now).decided _ hdecided, ?_⟩⟩
      · have hdrop : m.entries.drop (k + 1) = rest := by
          rw [← List.tail_drop, hrest]
          rfl
        refine ih hdrop hlt ⟨rfl, ?_, ?_, ?_⟩
        · obtain ⟨m', hget, hs⟩ := h.executing
          refine ⟨m'.complete entry.position now, ?_, hs⟩
          have := get_complete t.txn m.id entry now
          rw [h.idle, hget] at this
          rw [← h.idle] at this
          exact this
        · have hrec := recorded_complete hn h.recorded he now
          rw [← h.idle] at hrec
          exact hrec
        · obtain ⟨calls, hcalls, hlen, hreq⟩ := h.calls
          refine ⟨calls ++ [_], ?_, ?_, requested_snoc hreq hlen he h.executing _ (if_pos rfl).symm⟩
          · simp [CleanupWorld.commit, hcalls]
          · simp [hlen]

/-- The deletions start from a manifest whose `EXECUTING` was committed. -/
theorem inLoop_start (hidle : w.txn = w.db) (hm : w.db.manifests.get m.id = some m) (now : Time)
    (event : CleanupAudit) :
    InLoop m w (CleanupWorld.commit { w with txn := CleanupDb.audit (w.txn.updateManifest m.id
      fun m => { m with status := .executing, approvedAt := some now }) event }) 0 := by
  have hget := get_setStatus w.txn m.id (f := fun m =>
    { m with status := .executing, approvedAt := some now }) (fun _ => rfl) (hidle ▸ hm) event
  refine ⟨rfl, ⟨_, hget, rfl⟩, ⟨⟨_, fun _ => 0, hget, ?_⟩, fun a row hrow => ⟨row, ?_, ?_⟩⟩, ?_⟩
  · rw [stamp_zero]
  · show (w.txn.updateManifest m.id _).assets.get a = some row
    rw [assets_updateManifest, hidle]
    exact hrow
  · simp
  · exact ⟨[], by simp [CleanupWorld.commit], rfl, rfl, by simp, by simp⟩

/-- The manifest is completed once every deletion was confirmed. -/
theorem accounting_completed (h : InLoop m w t m.entries.length) (now : Time)
    (event : CleanupAudit) :
    Accounting m w (CleanupWorld.commit { t with txn := CleanupDb.audit (t.txn.updateManifest m.id
      fun m => { m with status := .completed, completedAt := some now }) event })
      m.entries.length := by
  obtain ⟨m', hm', hs'⟩ := h.executing
  have hget := get_setStatus t.txn m.id (f := fun m =>
    { m with status := .completed, completedAt := some now }) (fun _ => rfl) (h.idle ▸ hm') event
  constructor
  · obtain ⟨calls, hcalls, hlen, hreq⟩ := h.calls
    exact ⟨calls, hcalls, hreq, .inl ⟨rfl, hlen⟩⟩
  · refine recorded_of_same h.recorded (fun m₁ hm₁ => ?_) ?_
    · obtain rfl := Option.some.inj (hm'.symm.trans hm₁)
      exact ⟨_, hget, rfl⟩
    · show (t.txn.updateManifest m.id _).assets = t.db.assets
      rw [assets_updateManifest, h.idle]
  · exact ⟨_, hget, by simp⟩
  · intro hne
    exact absurd rfl hne

/-- An execution is refused before anything is committed, or accounts for what it did. -/
theorem execute_wp (hidle : w.txn = w.db) (ho : w.db.Orderly) (settings : ICloudSettings)
    (hashes : CleanupHashes) (id : Nat) (digest : Digest) (gatesReady : Bool) :
    (execute settings hashes id digest gatesReady).wp (CleanupWorld.Guarded id) CleanupWorld.env
      (fun _ t => ∃ m, w.db.manifests.get id = some m ∧ m.status = .pendingApproval ∧
        Accounting m w t.commit m.entries.length)
      (fun _ t => CleanupWorld.Unreached w t ∨ ∃ m k, w.db.manifests.get id = some m ∧
        m.status = .pendingApproval ∧ k < m.entries.length ∧ Accounting m w t k) w := by
  have happrove := CleanupWorld.approveManifest_wp settings hashes id digest gatesReady w
  refine (Prog.wp_bind _ _).mpr (happrove.mono (fun _ _ h => h.guarded id) ?_ fun _ _ h => .inl h)
  rintro ⟨m, now⟩ t ⟨rfl, hm, hs⟩
  obtain rfl := Table.key_of_get hm
  have hget : t.db.manifests.get m.id = some m := hidle ▸ hm
  have hmem := Table.mem_of_get hget
  have hkeeps := CleanupDb.keeps_setStatus t.txn m.id
    (f := fun m => { m with status := .executing, approvedAt := some now }) (fun _ => rfl)
    (fun _ => by simp) (fun _ => rfl) ⟨"icloud_cleanup_approved", none, m.id, none⟩
  have hstart := inLoop_start hidle hget now ⟨"icloud_cleanup_approved", none, m.id, none⟩
  simp only [Prog.wp_bind, CleanupWorld.wp_modify, CleanupWorld.wp_commit, CleanupWorld.wp_utcnow]
  refine ⟨trivial, hkeeps, hstart.decided, ?_⟩
  have hloop := deleteEntries_wp (ho.untouched m hmem hs) (ho.numbered m hmem) m.entries rfl
    (Nat.zero_le _) hstart
  refine hloop.mono (fun _ _ h => h) ?_ ?_
  · rintro _ t' h
    refine ⟨trivial, fun now => ⟨trivial, ?_, m, hget, hs, accounting_completed h now _⟩⟩
    exact CleanupDb.keeps_setStatus _ _
      (f := fun m => { m with status := .completed, completedAt := some now }) (fun _ => rfl)
      (fun _ => by simp) (fun _ => rfl) ⟨"icloud_cleanup_completed", none, m.id, none⟩
  · rintro _ t' ⟨k, hk, h⟩
    exact .inr ⟨m, k, hget, hs, hk, h⟩

end Loop

end Mnema
