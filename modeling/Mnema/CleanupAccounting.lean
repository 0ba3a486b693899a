import Mnema.CleanupExecution

/-! Runs of the cleanup: any calls of the service, one after another, while the
rest of the program works on the same database. -/

namespace Mnema

/-- What can happen to the cleanup's part of the database. `create_manifest` is also called in
a session that goes on after it raised. -/
inductive CleanupStep : CleanupWorld → CleanupWorld → Prop where
  | observed {w w' : CleanupWorld} {r : Option (Except CleanupError Unit)}
      (h : CleanupWorld.transactions.Ends observeQuota w r w') : CleanupStep w w'
  | refreshed {w w' : CleanupWorld} {r : Option (Except CleanupError Unit)}
      (h : CleanupWorld.transactions.Ends refreshInventory w r w') : CleanupStep w w'
  | created {w w' : CleanupWorld} {settings : ICloudSettings} {hashes : CleanupHashes}
      {r : Option (Except CleanupError (Option ICloudCleanupManifest))}
      (h : CleanupWorld.transactions.Ends (createManifest settings hashes) w r w') : CleanupStep w w'
  | caught {w t : CleanupWorld} {settings : ICloudSettings} {hashes : CleanupHashes}
      {e : CleanupError}
      (h : Prog.Steps CleanupWorld.env (w, createManifest settings hashes) (t, .raise e)) :
      CleanupStep w t.commit
  | executed {w w' : CleanupWorld} {settings : ICloudSettings} {hashes : CleanupHashes} {id : Nat}
      {digest : Digest} {gatesReady : Bool} {r : Option (Except CleanupError Unit)}
      (h : CleanupWorld.transactions.Ends (execute settings hashes id digest gatesReady) w r w') :
      CleanupStep w w'
  | elsewhere {w : CleanupWorld} {d : CleanupDb} (hm : d.manifests = w.db.manifests)
      (ha : d.assets = w.db.assets) : CleanupStep w { w with db := d, txn := d }

abbrev CleanupRun : CleanupWorld → CleanupWorld → Prop := Relation.ReflTransGen CleanupStep

namespace CleanupWorld

def initial : CleanupWorld := ⟨{}, {}, []⟩

/-- Between two calls: nothing is left uncommitted, and the manifests are in order. -/
structure Settled (w : CleanupWorld) : Prop where
  idle : w.txn = w.db
  orderly : w.db.Orderly

theorem settled_initial : initial.Settled := by
  refine ⟨rfl, ⟨fun m hm => ?_, fun m hm => ?_⟩⟩ <;> cases hm

variable {w w' t : CleanupWorld} {α : Type} {r : Option (Except CleanupError α)} {id : Nat}

/-- What a transaction leaves of the manifests: the decided ones stay decided. -/
structure Moved (w w' : CleanupWorld) : Prop where
  idle : w'.txn = w'.db
  keeps : w.db.Keeps w'.db

theorem Moved.settled (h : Moved w w') (hw : w.Settled) : w'.Settled :=
  ⟨h.idle, h.keeps.orderly hw.orderly⟩

/-- Within a transaction, both views of the database keep what was committed before it. -/
structure Kept (w t : CleanupWorld) : Prop where
  db : w.db.Keeps t.db
  txn : w.db.Keeps t.txn

theorem Kept.refl (h : w.txn = w.db) : Kept w w := ⟨.refl _, h ▸ .refl _⟩

theorem Kept.step {o : CleanupOp} {a : o.Ans} {t' : CleanupWorld} (hg : t.Guarded id o)
    (h : Kept w t) (he : env t o a t') : Kept w t' := by
  cases o with
  | load => exact he.2 ▸ h
  | store d =>
    obtain rfl := he
    exact ⟨h.db, h.txn.trans hg⟩
  | commit =>
    obtain rfl := he
    exact ⟨h.txn, h.txn⟩
  | deleteToRecentlyDeleted i r g =>
    obtain rfl := he
    exact ⟨h.db, h.txn⟩
  | utcnow => exact he ▸ h
  | files => exact he ▸ h
  | quota => exact he ▸ h
  | assets => exact he ▸ h

/-- A request is made, and anything committed, only for a manifest that was decided. -/
def Reached (id : Nat) (w t : CleanupWorld) : Prop := Unreached w t ∨ t.db.Decided id

theorem Reached.step {o : CleanupOp} {a : o.Ans} {t' : CleanupWorld} (hg : t.Guarded id o)
    (h : Reached id w t) (he : env t o a t') : Reached id w t' := by
  cases o with
  | load => exact he.2 ▸ h
  | store d =>
    obtain rfl := he
    exact h.imp (fun h => ⟨h.db, h.calls⟩) fun h => h
  | commit =>
    obtain rfl := he
    exact .inr hg
  | deleteToRecentlyDeleted i r g =>
    obtain rfl := he
    exact .inr hg
  | utcnow => exact he ▸ h
  | files => exact he ▸ h
  | quota => exact he ▸ h
  | assets => exact he ▸ h

theorem kept_of_steps {p q : CleanupCode α} {Q : α → CleanupWorld → Prop}
    {E : CleanupError → CleanupWorld → Prop} (hw : w.txn = w.db)
    (hp : p.wp (Guarded id) env Q E w) (h : Prog.Steps env (w, p) (t, q)) : Kept w t :=
  hp.along (fun _ _ _ _ hg h he => h.step hg he) (.refl hw) h

/-- A transaction that keeps to the guard moves the world, whichever way it ends. -/
theorem moved_of_guarded {p : CleanupCode α} {Q : α → CleanupWorld → Prop}
    {E : CleanupError → CleanupWorld → Prop} (hw : w.txn = w.db)
    (hp : p.wp (Guarded id) env Q E w) (h : transactions.Ends p w r w') : Moved w w' := by
  cases h with
  | returned hs => exact ⟨rfl, (kept_of_steps hw hp hs).txn⟩
  | raised hs => exact ⟨rfl, (kept_of_steps hw hp hs).db⟩
  | cut hs => exact ⟨rfl, (kept_of_steps hw hp hs).db⟩

theorem wp_guarded {p : CleanupCode α} {Q : α → CleanupWorld → Prop}
    {E : CleanupError → CleanupWorld → Prop} (hp : p.wp Quiet env Q E w) :
    p.wp (Guarded 0) env Q E w :=
  hp.mono (fun _ _ h => h.guarded 0) (fun _ _ h => h) fun _ _ h => h

theorem Settled.step (hw : w.Settled) (h : CleanupStep w w') : Moved w w' := by
  cases h with
  | observed h => exact moved_of_guarded hw.idle (wp_guarded (observeQuota_wp w)) h
  | refreshed h =>
    have hp := refreshInventory_wp (.refl w) (Q := fun _ t => Unreached w t) fun _ _ => ⟨rfl, rfl⟩
    exact moved_of_guarded hw.idle (wp_guarded hp) h
  | created h => exact moved_of_guarded hw.idle (wp_guarded (createManifest_wp _ _ w)) h
  | caught h =>
    have hkept := kept_of_steps hw.idle (wp_guarded (createManifest_wp _ _ w)) h
    exact ⟨rfl, hkept.txn⟩
  | executed h => exact moved_of_guarded hw.idle (execute_wp hw.idle hw.orderly ..) h
  | elsewhere hm _ => exact ⟨rfl, CleanupDb.keeps_of_manifests hm⟩

theorem Settled.run (hw : w.Settled) (h : CleanupRun w w') : Moved w w' := by
  induction h with
  | refl => exact ⟨hw.idle, .refl _⟩
  | tail _ hs ih =>
    have hmoved := (ih.settled hw).step hs
    exact ⟨hmoved.idle, ih.keeps.trans hmoved.keeps⟩

/-- A decided manifest is not executed. -/
theorem execute_decided (hw : w.txn = w.db) (hd : w.db.Decided id) (settings : ICloudSettings)
    (hashes : CleanupHashes) (digest : Digest) (gatesReady : Bool) :
    (execute settings hashes id digest gatesReady).wp Quiet env (fun _ _ => False)
      (fun _ t => Unreached w t) w := by
  refine (Prog.wp_bind _ _).mpr ?_
  refine (approveManifest_wp settings hashes id digest gatesReady w).post ?_
  rintro ⟨m, now⟩ t ⟨_, hm, hs⟩
  obtain ⟨m', hm', hs'⟩ := hd
  rw [hw] at hm
  obtain rfl := Option.some.inj (hm.symm.trans hm')
  exact absurd hs hs'

theorem calls_of_quiet {p q : CleanupCode α} {Q : α → CleanupWorld → Prop}
    {E : CleanupError → CleanupWorld → Prop} (hp : p.wp Quiet env Q E w)
    (h : Prog.Steps env (w, p) (t, q)) : t.calls = w.calls := by
  refine hp.along (I := fun t => t.calls = w.calls) (fun s o a s' hq hs he => ?_) rfl h
  cases o with
  | load => exact he.2 ▸ hs
  | commit => exact hq.elim
  | deleteToRecentlyDeleted i r g => exact hq.elim
  | store d =>
    obtain rfl := he
    exact hs
  | utcnow => exact he ▸ hs
  | files => exact he ▸ hs
  | quota => exact he ▸ hs
  | assets => exact he ▸ hs

theorem calls_of_decided (hw : w.txn = w.db) (hd : w.db.Decided id) {settings : ICloudSettings}
    {hashes : CleanupHashes} {digest : Digest} {gatesReady : Bool}
    {r : Option (Except CleanupError Unit)}
    (h : transactions.Ends (execute settings hashes id digest gatesReady) w r w') :
    w'.calls = w.calls := by
  have hp := execute_decided hw hd settings hashes digest gatesReady
  cases h with
  | returned hs =>
    have hcalls := calls_of_quiet hp hs
    exact hcalls
  | raised hs =>
    have hcalls := calls_of_quiet hp hs
    exact hcalls
  | cut hs =>
    have hcalls := calls_of_quiet hp hs
    exact hcalls

end CleanupWorld

open CleanupWorld

variable {w w' t : CleanupWorld} {settings : ICloudSettings} {hashes : CleanupHashes} {id : Nat}
  {digest : Digest} {gatesReady : Bool}

/-- The account speaks of what is durable, and of the requests. -/
theorem Accounting.rollback {m : ICloudCleanupManifest} {k : Nat} (h : Accounting m w t k) :
    Accounting m w t.rollback k := ⟨h.requests, h.recorded, h.status, h.gate⟩

theorem Accounting.decided {m : ICloudCleanupManifest} {k : Nat} (h : Accounting m w t k) :
    t.db.Decided m.id := by
  obtain ⟨m', hm', hs'⟩ := h.status
  refine ⟨m', hm', ?_⟩
  rw [hs']
  split
  · simp
  · split <;> simp

/-- How an execution of a settled database ends. -/
theorem execute_ends (hw : w.Settled) {r : Option (Except CleanupError Unit)}
    (h : transactions.Ends (execute settings hashes id digest gatesReady) w r w') :
    (Unreached w w' ∧ r ≠ some (.ok ())) ∨ (r = none ∧ w'.db.Decided id) ∨
      ∃ m k, w.db.manifests.get id = some m ∧ m.status = .pendingApproval ∧ Accounting m w w' k ∧
        (r = some (.ok ()) ∧ k = m.entries.length ∨
          (∃ e, r = some (.error e)) ∧ k < m.entries.length) := by
  have hp := execute_wp hw.idle hw.orderly settings hashes id digest gatesReady
  cases h with
  | returned hs =>
    obtain ⟨m, hm, hpending, ha⟩ := hp.steps hs
    exact .inr (.inr ⟨m, _, hm, hpending, ha, .inl ⟨rfl, rfl⟩⟩)
  | raised hs =>
    rcases hp.steps hs with h | ⟨m, k, hm, hpending, hk, ha⟩
    · exact .inl ⟨⟨h.db, h.calls⟩, by simp⟩
    · exact .inr (.inr ⟨m, k, hm, hpending, ha.rollback, .inr ⟨⟨_, rfl⟩, hk⟩⟩)
  | cut hs =>
    rcases hp.along (fun _ _ _ _ hg h he => Reached.step hg h he) (.inl (.refl w)) hs with h | h
    · exact .inl ⟨⟨h.db, h.calls⟩, by simp⟩
    · exact .inr (.inl ⟨rfl, h⟩)

/-- An execution is refused before it did anything, or it accounts for every deletion it
requested, and the manifest is never executed again. -/
theorem execution_accounted (hw : CleanupRun initial w) {r : Option (Except CleanupError Unit)}
    (h : transactions.Ends (execute settings hashes id digest gatesReady) w r w') :
    (Unreached w w' ∧ r ≠ some (.ok ())) ∨
      (∀ result, r = some result → ∃ m k, w.db.manifests.get id = some m ∧
        m.entries.map (·.position) = List.range m.entries.length ∧
        (∀ e ∈ m.entries, e.completedAt = none) ∧ Accounting m w w' k ∧
        (result = .ok () ↔ k = m.entries.length)) ∧
      ∀ w₁ w₂ settings hashes digest gatesReady r, CleanupRun w' w₁ →
        transactions.Ends (execute settings hashes id digest gatesReady) w₁ r w₂ →
        w₂.calls = w₁.calls := by
  have hsettled := (settled_initial.run hw).settled settled_initial
  have hmoved := hsettled.step (.executed h)
  have hlater : w'.db.Decided id → ∀ w₁ w₂ settings hashes digest gatesReady r, CleanupRun w' w₁ →
      transactions.Ends (execute settings hashes id digest gatesReady) w₁ r w₂ →
      w₂.calls = w₁.calls := by
    intro hd w₁ w₂ settings hashes digest gatesReady r hrun hends
    have hmoved₁ := (hmoved.settled hsettled).run hrun
    exact calls_of_decided hmoved₁.idle (hmoved₁.keeps.decided id hd) hends
  rcases execute_ends hsettled h with h | ⟨rfl, hd⟩ | ⟨m, k, hm, hs, ha, hr⟩
  · exact .inl h
  · exact .inr ⟨fun _ h => by simp at h, hlater hd⟩
  · have hmem := Table.mem_of_get hm
    have hid := Table.key_of_get hm
    refine .inr ⟨fun result hres => ?_, hlater (hid ▸ ha.decided)⟩
    refine ⟨m, k, hm, hsettled.orderly.numbered m hmem, hsettled.orderly.untouched m hmem hs, ha, ?_⟩
    rcases hr with ⟨rfl, rfl⟩ | ⟨⟨e, rfl⟩, hk⟩
    · obtain rfl := Option.some.inj hres
      simp
    · obtain rfl := Option.some.inj hres
      have hne : k ≠ m.entries.length := hk.ne
      simp [hne]

/-! ### A partial run -/

/-- An item whose archival evidence is complete and old. -/
def releasedItem (id : Nat) (sourceIdentifier : String) : ArchiveItem :=
  { id := id, sourceProvider := "icloud_photos", sourceIdentifier := sourceIdentifier,
    originalPath := sourceIdentifier, originalSize := 10, originalModifiedAt := 0,
    sourceVersion := "1", state := .archived, plaintextSha256 := some "sha", nasPath := some ["a"],
    kopiaSnapshotId := some "snapshot", kopiaVerifiedAt := some 0,
    remoteProvider := some "scaleway-glacier", remoteBucket := some "bucket",
    remoteObjectIdentifier := some "object", encryptionMode := some "rclone-crypt",
    remoteSize := some 10, remoteVerifiedAt := some 0, coldArchivedAt := some 0,
    quarantineExpiresAt := some 0 }

/-- The client knows two assets, and confirms the deletion of the first. -/
def confirmFirst : CleanupClient :=
  { quota := ⟨190, 200⟩
    remotes := [⟨"first", "record", "tag", 0, 10, false, 1⟩,
      ⟨"second", "record", "tag", 0, 10, false, 1⟩]
    files := fun _ => ⟨false, true, 10, "sha", by decide⟩
    outcome := fun i => if i = "first" then .answered true else .raised "ICloudControlError" }

def reliefSettings : ICloudSettings :=
  { capacityReliefEnabled := true, deletionMilestoneApproved := true, maxQuotaPercent := 10 }

def constantHashes : CleanupHashes := ⟨fun _ => "evidence", fun _ => "manifest"⟩

/-- Two archived items, discovered before the cleanup runs. -/
def twoItems : CleanupDb :=
  { items := (Table.empty.insert (releasedItem 1 "IMG_Zmlyc3Q.jpg")).insert
      (releasedItem 2 "IMG_c2Vjb25.jpg") }

def twoPlanned : CleanupWorld :=
  (CleanupWorld.transactions.outcome (confirmFirst.answers (days 100)) (createManifest reliefSettings constantHashes)
    { CleanupWorld.initial with db := twoItems, txn := twoItems }).2

def firstDeleted : Except CleanupError Unit × CleanupWorld :=
  CleanupWorld.transactions.outcome (confirmFirst.answers (days 100))
    (execute reliefSettings constantHashes 1 "manifest" true) twoPlanned

theorem run_twoPlanned : CleanupRun CleanupWorld.initial twoPlanned :=
  (Relation.ReflTransGen.single (.elsewhere (d := twoItems) rfl rfl)).tail
    (.created (Transactions.ends_outcome (confirmFirst.env_answers (days 100)) _ _))

theorem execution_accounted_partial :
    ∃ m k, twoPlanned.db.manifests.get 1 = some m ∧ Accounting m twoPlanned firstDeleted.2 k ∧
      k ≠ m.entries.length ∧ firstDeleted.2.calls.map (·.appleAssetId) = ["first", "second"] := by
  have hcalls : firstDeleted.2.calls.map (·.appleAssetId) = ["first", "second"] := by
    decide +kernel
  have hends := Transactions.ends_outcome (confirmFirst.env_answers (days 100))
    (execute reliefSettings constantHashes 1 "manifest" true) twoPlanned
  rcases execution_accounted run_twoPlanned hends with ⟨h, _⟩ | ⟨h, _⟩
  · have hnone : firstDeleted.2.calls = twoPlanned.calls := h.calls
    have hempty : twoPlanned.calls.map (·.appleAssetId) = [] := by decide +kernel
    rw [← hnone, hcalls] at hempty
    cases hempty
  · obtain ⟨m, k, hm, _, _, ha, hk⟩ := h _ rfl
    refine ⟨m, k, hm, ha, fun heq => ?_, hcalls⟩
    have hok : firstDeleted.1 = .ok () := hk.mpr heq
    have herror : firstDeleted.1 ≠ .ok () := by decide +kernel
    exact herror hok

end Mnema
