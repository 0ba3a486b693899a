import Mnema.CleanupAccounting
import Mnema.Recovery

/-! A cleanup that dies between a deletion request and the record of its outcome, and what
runs after it without an operator. -/

namespace Mnema

namespace CleanupDb

/-- Both gates, as the approval command reads them. -/
def gateOpen (d : CleanupDb) : Bool :=
  (d.runtimeValue "global_deletion_enabled").getD "false" == "true" &&
    (d.runtimeValue "safety_lock").getD "true" == "false"

/-- `completed_at` records a confirmed deletion, and `failure_reason` any other outcome. -/
def outcomeRecorded (d : CleanupDb) (id position : Nat) : Bool :=
  (d.manifests.get id).any fun m => m.failureReason.isSome ||
    m.entries.any fun e => e.position == position && e.completedAt.isSome

def Executing (d : CleanupDb) (id : Nat) : Prop :=
  ∃ m, d.manifests.get id = some m ∧ m.status = .executing

/-- No execution was left in the middle while the gate is open. -/
def Resolved (d : CleanupDb) : Prop :=
  d.gateOpen = false ∨ ∀ m ∈ d.manifests.rows, m.status ≠ .executing

end CleanupDb

/-- What a restart makes of an item; `awaiting` tells the items of uploads that are still live. -/
def ArchiveItem.restarted (awaiting : ArchiveItem → Bool) (item : ArchiveItem) : ArchiveItem :=
  if item.state = .deleting then { item with state := .manualReview }
  else if item.state ∈ retryAfterRestart ∧ awaiting item = false then
    { item with state := .failedRetryable }
  else item

theorem ArchiveItem.restarted_id (awaiting : ArchiveItem → Bool) (item : ArchiveItem) :
    (item.restarted awaiting).id = item.id := by
  unfold restarted
  split
  · rfl
  · split <;> rfl

/-- A restart of the worker: it reconciles the items, or pauses deletion where the startup
checks fail. -/
def CleanupDb.restarted (d : CleanupDb) (healthy : Bool) (awaiting : ArchiveItem → Bool) : CleanupDb :=
  if healthy then
    { d with items := d.items.mapRows (·.restarted awaiting) (ArchiveItem.restarted_id awaiting) }
  else (d.setRuntime "global_deletion_enabled" "false").setRuntime "safety_lock" "true"

/-- What happens without an operator. An execution begins in a database that `allowed` accepts,
with the gates that are stored there. -/
inductive UnattendedStep (allowed : CleanupDb → Prop) : CleanupWorld → CleanupWorld → Prop where
  | restarted {w : CleanupWorld} (healthy : Bool) (awaiting : ArchiveItem → Bool) :
      UnattendedStep allowed w { w with
        db := w.db.restarted healthy awaiting
        txn := w.db.restarted healthy awaiting }
  | created {w w' : CleanupWorld} {settings : ICloudSettings} {hashes : CleanupHashes}
      {r : Option (Except CleanupError (Option ICloudCleanupManifest))}
      (h : CleanupWorld.transactions.Ends (createManifest settings hashes) w r w') :
      UnattendedStep allowed w w'
  | caught {w t : CleanupWorld} {settings : ICloudSettings} {hashes : CleanupHashes}
      {e : CleanupError}
      (h : Prog.Steps CleanupWorld.env (w, createManifest settings hashes) (t, .raise e)) :
      UnattendedStep allowed w t.commit
  | executed {w w' : CleanupWorld} {settings : ICloudSettings} {hashes : CleanupHashes} {id : Nat}
      {digest : Digest} {ready : Bool} {r : Option (Except CleanupError Unit)} (ha : allowed w.db)
      (h : CleanupWorld.transactions.Ends
        (execute settings hashes id digest (ready && w.db.gateOpen)) w r w') :
      UnattendedStep allowed w w'

abbrev Unattended (allowed : CleanupDb → Prop) : CleanupWorld → CleanupWorld → Prop :=
  Relation.ReflTransGen (UnattendedStep allowed)

/-! ### The execution that dies -/

/-- The manifest is in execution, or the reason that ended its execution is there. -/
def CleanupDb.Marked (d : CleanupDb) (id : Nat) : Prop :=
  ∃ m, d.manifests.get id = some m ∧ (m.status = .executing ∨ m.failureReason.isSome)

theorem CleanupDb.Executing.marked {d : CleanupDb} {id : Nat} (h : d.Executing id) : d.Marked id := by
  obtain ⟨m, hm, hs⟩ := h
  exact ⟨m, hm, .inl hs⟩

theorem CleanupDb.marked_manualReview {d : CleanupDb} {id : Nat} (h : d.Executing id)
    (reason : String) : (d.manualReview id reason).Marked id := by
  obtain ⟨m, hm, _⟩ := h
  have hget := get_setStatus d id (f := fun m => { m with
    status := if m.entries.any (·.completedAt.isSome) then .partialRun else .manualReview
    failureReason := some reason }) (fun _ => rfl) hm ⟨"icloud_cleanup_manual_review", none, id, some reason⟩
  refine ⟨{ m with
    status := if m.entries.any (·.completedAt.isSome) then .partialRun else .manualReview
    failureReason := some reason }, ?_, .inr rfl⟩
  simp only [CleanupDb.manualReview, CleanupDb.audit, CleanupDb.manifests_setRuntime]
  exact hget

theorem CleanupDb.executing_complete {d : CleanupDb} {id : Nat} (h : d.Executing id)
    (entry : ICloudCleanupEntry) (now : Time) : (d.complete id entry now).Executing id := by
  obtain ⟨m, hm, hs⟩ := h
  refine ⟨m.complete entry.position now, ?_, hs⟩
  rw [get_complete, hm]
  rfl

namespace CleanupWorld

variable {w w' t : CleanupWorld} {settings : ICloudSettings} {hashes : CleanupHashes} {id : Nat}
  {digest : Digest}

/-- What is committed is marked, and requests are made under a mark that is durable. -/
def Announced (id : Nat) (w : CleanupWorld) : CleanupOp → Prop
  | .commit => w.txn.Marked id
  | .deleteToRecentlyDeleted _ _ _ => w.db.Marked id
  | _ => True

theorem deleteEntries_announced (entries : List ICloudCleanupEntry) (h : t.txn.Executing id)
    (hidle : t.txn = t.db) :
    (deleteEntries id entries).wp (Announced id) env (fun _ t => t.txn.Executing id)
      (fun _ _ => True) t := by
  induction entries generalizing t with
  | nil => exact h
  | cons entry rest ih =>
    have hreview : ∀ reason (t : CleanupWorld) {Q : Unit → CleanupWorld → Prop}, t.txn.Executing id →
        (reviewManifest id reason).wp (Announced id) env Q (fun _ _ => True) t := by
      intro reason t Q h
      simp only [reviewManifest, Prog.wp_bind, wp_modify, wp_commit, Prog.wp_throw]
      exact ⟨trivial, trivial, CleanupDb.marked_manualReview h reason, trivial⟩
    refine (Prog.wp_bind _ _).mpr (wp_delete.mpr ⟨(hidle ▸ h).marked, fun outcome => ?_⟩)
    split
    case h_1 type => exact hreview type _ h
    case h_2 => exact hreview _ _ h
    case h_3 =>
      simp only [Prog.wp_bind, wp_utcnow, wp_modify, wp_commit]
      refine ⟨trivial, fun now => ?_⟩
      have hcomplete := CleanupDb.executing_complete h entry now
      exact ⟨trivial, trivial, hcomplete.marked, ih hcomplete rfl⟩

theorem execute_announced (settings : ICloudSettings) (hashes : CleanupHashes) (id : Nat)
    (digest : Digest) (gatesReady : Bool) (w : CleanupWorld) :
    (execute settings hashes id digest gatesReady).wp (Announced id) env (fun _ _ => True)
      (fun _ _ => True) w := by
  have hquiet : ∀ (s : CleanupWorld) o, s.Quiet o → s.Announced id o := by
    intro s o h
    cases o <;> trivial
  have happrove := approveManifest_wp settings hashes id digest gatesReady w
  refine (Prog.wp_bind _ _).mpr (happrove.mono hquiet ?_ fun _ _ _ => trivial)
  rintro ⟨m, now⟩ t ⟨rfl, hm, _⟩
  have hget := get_setStatus t.txn id (f := fun m =>
    { m with status := .executing, approvedAt := some now }) (fun _ => rfl) hm
    ⟨"icloud_cleanup_approved", none, id, none⟩
  simp only [Prog.wp_bind, wp_modify, wp_commit, wp_utcnow]
  refine ⟨trivial, trivial, CleanupDb.Executing.marked ⟨_, hget, rfl⟩, ?_⟩
  refine (deleteEntries_announced m.entries ⟨_, hget, rfl⟩ rfl).post fun _ t' _ => ?_
  exact ⟨trivial, fun now => ⟨trivial, trivial, trivial⟩⟩

/-- Whatever an execution has committed or requested, its manifest shows it. -/
theorem unreached_or_marked {gatesReady : Bool} {q : CleanupCode Unit}
    (h : Prog.Steps env (w, execute settings hashes id digest gatesReady) (t, q)) :
    Unreached w t ∨ t.db.Marked id := by
  refine (execute_announced settings hashes id digest gatesReady w).along
    (I := fun t => Unreached w t ∨ t.db.Marked id) (fun s o a s' hg hs he => ?_) (.inl (.refl w)) h
  cases o with
  | load => exact he.2 ▸ hs
  | store d =>
    obtain rfl := he
    exact hs.imp (fun h => ⟨h.db, h.calls⟩) fun h => h
  | commit =>
    obtain rfl := he
    exact .inr hg
  | deleteToRecentlyDeleted i r g =>
    obtain rfl := he
    exact .inr hg
  | utcnow => exact he ▸ hs
  | files => exact he ▸ hs
  | quota => exact he ▸ hs
  | assets => exact he ▸ hs

/-- A request without a recorded outcome leaves its manifest in execution. -/
theorem executing_of_unrecorded {gatesReady : Bool} {i : Nat}
    (h : transactions.Ends (execute settings hashes id digest gatesReady) w none w')
    (hissued : w.calls.length + i < w'.calls.length) (hunknown : w'.db.outcomeRecorded id i = false) :
    w'.db.Executing id := by
  cases h with
  | @cut q t hs =>
    rcases unreached_or_marked hs with h | ⟨m, hm, hmark⟩
    · have hcalls := congrArg List.length h.calls
      simp only [transactions, rollback] at hissued
      omega
    · have hnone := hunknown
      unfold CleanupDb.outcomeRecorded at hnone
      have hget : (transactions.rollback t).db.manifests.get id = some m := hm
      rw [hget, Option.any_some, Bool.or_eq_false_iff] at hnone
      refine ⟨m, hm, hmark.resolve_right fun hreason => ?_⟩
      rw [hnone.1] at hreason
      cases hreason

/-! ### What runs afterwards -/

/-- A plan is stored, and leaves alone what is in execution. -/
def Planning (w : CleanupWorld) : CleanupOp → Prop
  | .store d => ∀ id, w.txn.Executing id → d.Executing id
  | .commit => False
  | .deleteToRecentlyDeleted _ _ _ => False
  | _ => True

theorem executing_congr {d d' : CleanupDb} (h : d'.manifests = d.manifests) (id : Nat)
    (hd : d.Executing id) : d'.Executing id := by
  unfold CleanupDb.Executing
  rw [h]
  exact hd

theorem executing_expireManifests (d : CleanupDb) (now : Time) (id : Nat) (hd : d.Executing id) :
    (d.expireManifests now).Executing id := by
  obtain ⟨m, hm, hs⟩ := hd
  refine ⟨m, ?_, hs⟩
  have hget := Table.get_mapRows (t := d.manifests) (f := fun m =>
    if m.status = .pendingApproval ∧ m.expiresAt ≤ now then { m with status := .expired } else m)
    (fun m => by split <;> rfl) id
  refine hget.trans ?_
  rw [hm]
  simp [hs]

theorem buildManifest_planning (settings : ICloudSettings) (hashes : CleanupHashes)
    (quota : ICloudQuota) (now : Time) (t : CleanupWorld) :
    (buildManifest settings hashes quota now).wp Planning env (fun _ _ => True) (fun _ _ => True) t := by
  simp only [buildManifest, Prog.wp_bind, wp_load, wp_files]
  refine ⟨trivial, trivial, fun files => ?_⟩
  split
  · trivial
  · split
    · trivial
    · simp only [Prog.wp_bind, wp_store]
      refine ⟨?_, trivial⟩
      rintro id ⟨m, hm, hs⟩
      exact ⟨m, Table.get_insert_of_get hm, hs⟩

theorem createManifest_planning (settings : ICloudSettings) (hashes : CleanupHashes)
    (w : CleanupWorld) :
    (createManifest settings hashes).wp Planning env (fun _ _ => True) (fun _ _ => True) w := by
  simp only [createManifest, Prog.wp_bind, wp_blockIf, wp_utcnow, wp_modify]
  refine ⟨fun _ => trivial, fun _ => ⟨trivial, fun now => ⟨trivial, ?_, ?_⟩⟩⟩
  · exact executing_expireManifests _ now
  refine wp_clientQuota trivial (fun quota => ?_) fun _ => trivial
  refine ⟨trivial, fun id => executing_congr rfl id, ?_⟩
  refine (Prog.wp_ofExcept _).mpr ⟨fun usedPercent _ => ?_, fun _ _ => trivial⟩
  split
  · trivial
  simp only [Prog.wp_bind, wp_load]
  refine ⟨trivial, ?_⟩
  split
  · trivial
  · refine (Prog.wp_bind _ _).mpr ((Prog.wp_bind _ _).mpr (wp_clientAssets trivial ?_ fun _ => trivial))
    intro remotes
    simp only [Prog.wp_bind, wp_utcnow, wp_load, Prog.wp_ofExcept, wp_store]
    refine ⟨trivial, fun now' => ⟨trivial, fun d hd => ⟨?_, ?_⟩, fun _ _ => trivial⟩⟩
    · exact fun id => executing_congr (CleanupDb.keeps_refreshAssets hd) id
    · exact buildManifest_planning settings hashes quota now _

/-- What is in execution stays so in both views, and nothing is requested. -/
structure Held (w t : CleanupWorld) : Prop where
  db : ∀ id, w.db.Executing id → t.db.Executing id
  txn : ∀ id, w.db.Executing id → t.txn.Executing id
  calls : t.calls = w.calls

theorem Held.refl (h : w.txn = w.db) : Held w w := ⟨fun _ hd => hd, fun _ hd => h ▸ hd, rfl⟩

theorem Held.step {o : CleanupOp} {a : o.Ans} {t' : CleanupWorld} (hp : t.Planning o)
    (h : Held w t) (he : env t o a t') : Held w t' := by
  cases o with
  | load => exact he.2 ▸ h
  | store d =>
    obtain rfl := he
    exact ⟨h.db, fun id hd => hp id (h.txn id hd), h.calls⟩
  | commit => exact hp.elim
  | deleteToRecentlyDeleted i r g => exact hp.elim
  | utcnow => exact he ▸ h
  | files => exact he ▸ h
  | quota => exact he ▸ h
  | assets => exact he ▸ h

theorem held_createManifest (hw : w.txn = w.db) {q : CleanupCode (Option ICloudCleanupManifest)}
    (h : Prog.Steps env (w, createManifest settings hashes) (t, q)) : Held w t :=
  (createManifest_planning settings hashes w).along (fun _ _ _ _ hp h he => h.step hp he) (.refl hw) h

/-- With a closed gate nothing is approved. -/
theorem approveManifest_closed (settings : ICloudSettings) (hashes : CleanupHashes) (id : Nat)
    (digest : Digest) (w : CleanupWorld) :
    (approveManifest settings hashes id digest false).wp Quiet env (fun _ _ => False)
      (fun _ _ => True) w := by
  simp only [approveManifest, Prog.wp_bind, wp_blockIf, wp_load]
  refine ⟨fun _ => trivial, fun _ => ⟨trivial, ?_⟩⟩
  cases hm : w.txn.manifests.get id with
  | none => trivial
  | some m =>
    simp only [Prog.wp_bind, wp_blockIf, wp_utcnow]
    refine ⟨fun _ => trivial, fun _ => ⟨trivial, fun now => ⟨fun _ => trivial, fun hs => ?_⟩⟩⟩
    by_cases he : m.expiresAt ≤ now
    · simp only [he, if_true, Prog.wp_bind, wp_modify]
      exact ⟨trivial, CleanupDb.keeps_updateManifest (fun _ => rfl) (fun _ _ => by simp) fun _ h => h,
        trivial⟩
    · simp only [he, if_false, Prog.wp_bind, wp_blockIf]
      exact ⟨fun _ => trivial, fun h => absurd h (by decide)⟩

theorem unreached_of_closed {q : CleanupCode Unit}
    (h : Prog.Steps env (w, execute settings hashes id digest false) (t, q)) :
    Unreached w t ∧ ∀ a, q ≠ .ret a := by
  have hp : (execute settings hashes id digest false).wp Quiet env (fun _ _ => False)
      (fun _ _ => True) w :=
    (Prog.wp_bind _ _).mpr ((approveManifest_closed settings hashes id digest w).post
      fun _ _ h => h.elim)
  refine ⟨⟨?_, calls_of_quiet hp h⟩, fun a hq => ?_⟩
  · refine hp.along (I := fun t => t.db = w.db) (fun s o a s' hq hs he => ?_) rfl h
    cases o with
    | load => exact he.2 ▸ hs
    | commit => exact hq.elim
    | deleteToRecentlyDeleted i r g => exact hq.elim
    | store d =>
      obtain rfl := he
      exact hs
    | utcnow => exact he ▸ hs
    | files => exact he ▸ hs
    | quota => exact he ▸ hs
    | assets => exact he ▸ hs
  · subst hq
    exact hp.steps h

/-- Between two steps: the manifest is in execution, and the requests are those of `w`. -/
structure Waiting (id : Nat) (w t : CleanupWorld) : Prop where
  idle : t.txn = t.db
  executing : t.db.Executing id
  calls : t.calls = w.calls

theorem Waiting.of_held {t' : CleanupWorld} (h : Waiting id w t) (hh : Held t t') {d : CleanupDb}
    (hd : d = t'.db ∨ d = t'.txn) : Waiting id w ⟨d, d, t'.calls⟩ := by
  refine ⟨rfl, ?_, hh.calls.trans h.calls⟩
  rcases hd with rfl | rfl
  · exact hh.db id h.executing
  · exact hh.txn id h.executing

theorem manifests_restarted (d : CleanupDb) (healthy : Bool) (awaiting : ArchiveItem → Bool) :
    (d.restarted healthy awaiting).manifests = d.manifests := by
  unfold CleanupDb.restarted
  split
  · rfl
  · rw [CleanupDb.manifests_setRuntime, CleanupDb.manifests_setRuntime]

theorem Waiting.step {t' : CleanupWorld} (h : Waiting id w t)
    (hs : UnattendedStep CleanupDb.Resolved t t') : Waiting id w t' := by
  cases hs with
  | restarted healthy awaiting =>
    exact ⟨rfl, executing_congr (manifests_restarted t.db healthy awaiting) id h.executing, h.calls⟩
  | created hc =>
    cases hc with
    | returned hs => exact h.of_held (held_createManifest h.idle hs) (.inr rfl)
    | raised hs => exact h.of_held (held_createManifest h.idle hs) (.inl rfl)
    | cut hs => exact h.of_held (held_createManifest h.idle hs) (.inl rfl)
  | caught hs => exact h.of_held (held_createManifest h.idle hs) (.inr rfl)
  | @executed _ settings hashes id' digest ready r ha he =>
    have hclosed : (ready && t.db.gateOpen) = false := by
      obtain ⟨m, hm, hstatus⟩ := h.executing
      rcases ha with hgate | hnone
      · rw [hgate, Bool.and_false]
      · exact absurd hstatus (hnone m (Table.mem_of_get hm))
    rw [hclosed] at he
    have hkept : ∀ (s : CleanupWorld), Unreached t s → Waiting id w s.rollback := by
      intro s hu
      refine ⟨rfl, ?_, hu.calls.trans h.calls⟩
      have hdb : s.rollback.db = t.db := hu.db
      rw [hdb]
      exact h.executing
    cases he with
    | returned hs => exact absurd rfl ((unreached_of_closed hs).2 _)
    | raised hs => exact hkept _ (unreached_of_closed hs).1
    | cut hs => exact hkept _ (unreached_of_closed hs).1

theorem Waiting.run {t' : CleanupWorld} (h : Waiting id w t)
    (hs : Unattended CleanupDb.Resolved t t') : Waiting id w t' := by
  induction hs with
  | refl => exact h
  | tail _ hstep ih => exact ih.step hstep

theorem idle_of_ends {gatesReady : Bool} {r : Option (Except CleanupError Unit)}
    (h : transactions.Ends (execute settings hashes id digest gatesReady) w r w') : w'.txn = w'.db := by
  cases h <;> rfl

end CleanupWorld

open CleanupWorld

/-- While an outcome is unknown nothing more is requested, as long as no execution begins with
the gate open and a manifest still in execution. -/
theorem unknown_outcome_held {w w₁ w₂ : CleanupWorld} {settings : ICloudSettings}
    {hashes : CleanupHashes} {id i : Nat} {digest : Digest} {ready : Bool}
    (hdeath : CleanupWorld.transactions.Ends
      (execute settings hashes id digest (ready && w.db.gateOpen)) w none w₁)
    (hissued : w.calls.length + i < w₁.calls.length)
    (hunknown : w₁.db.outcomeRecorded id i = false)
    (hrun : Unattended CleanupDb.Resolved w₁ w₂) : w₂.calls = w₁.calls := by
  have hexecuting := executing_of_unrecorded hdeath hissued hunknown
  have hstart : Waiting id w₁ w₁ := ⟨idle_of_ends hdeath, hexecuting, rfl⟩
  exact (hstart.run hrun).calls

/-! ### A second manifest -/

def openItems : CleanupDb :=
  { twoItems with runtime := [("global_deletion_enabled", "true"), ("safety_lock", "false")] }

theorem sha_ne_empty : "sha" ≠ "" := by decide

/-- The account is at its trigger, and one photo is enough to relieve it. -/
def listing (remotes : List ICloudRemoteAsset) : CleanupClient :=
  { quota := ⟨90, 100⟩
    remotes := remotes
    files := fun _ => ⟨false, true, 10, "sha", sha_ne_empty⟩
    outcome := fun _ => .answered true }

/-- The manifests of different photos have different digests. -/
def firstAssetHashes : CleanupHashes :=
  ⟨fun _ => "evidence", fun content => (content.assets.head?.map (·.1)).getD ""⟩

def newPhoto : CleanupClient := listing [⟨"first", "record", "tag", 1, 10, false, 1⟩]

def oldPhoto : CleanupClient := listing [⟨"second", "record", "tag", 0, 10, false, 1⟩]

def openPlanned : CleanupWorld :=
  (CleanupWorld.transactions.outcome (newPhoto.answers (days 100))
    (createManifest reliefSettings firstAssetHashes) ⟨openItems, openItems, []⟩).2

/-- The process dies with the answer to its only request. -/
def diedAfterRequest : CleanupWorld :=
  ((execute reliefSettings firstAssetHashes 1 "first" (true && openPlanned.db.gateOpen)).execFor
    (newPhoto.answers (days 100)) 9 openPlanned).1.rollback

/-- The photo left the inventory, and an older one came into it. -/
def plannedAgain : CleanupWorld :=
  (CleanupWorld.transactions.outcome (oldPhoto.answers (days 100))
    (createManifest reliefSettings firstAssetHashes) diedAfterRequest).2

def deletedAgain : CleanupWorld :=
  (CleanupWorld.transactions.outcome (oldPhoto.answers (days 100))
    (execute reliefSettings firstAssetHashes 2 "second" (true && plannedAgain.db.gateOpen))
    plannedAgain).2

theorem died_after_request : CleanupWorld.transactions.Ends
    (execute reliefSettings firstAssetHashes 1 "first" (true && openPlanned.db.gateOpen)) openPlanned
    none diedAfterRequest :=
  .cut (Prog.execFor_steps (newPhoto.env_answers (days 100)) 9 _ openPlanned)

theorem request_after_unknown_outcome :
    CleanupRun CleanupWorld.initial openPlanned ∧
    CleanupWorld.transactions.Ends
      (execute reliefSettings firstAssetHashes 1 "first" (true && openPlanned.db.gateOpen)) openPlanned
      none diedAfterRequest ∧
    openPlanned.calls.length + 0 < diedAfterRequest.calls.length ∧
    Unattended (fun _ => True) diedAfterRequest deletedAgain ∧
    diedAfterRequest.db.outcomeRecorded 1 0 = false ∧ deletedAgain.db.outcomeRecorded 1 0 = false ∧
    deletedAgain.calls.map (·.appleAssetId) = ["first", "second"] := by
  refine ⟨?_, died_after_request, by decide +kernel, ?_, by decide +kernel, by decide +kernel,
    by decide +kernel⟩
  · exact (Relation.ReflTransGen.single (.elsewhere (d := openItems) rfl rfl)).tail
      (.created (Transactions.ends_outcome (newPhoto.env_answers (days 100)) _ _))
  · exact (Relation.ReflTransGen.single
      (.created (Transactions.ends_outcome (oldPhoto.env_answers (days 100)) _ _))).tail
      (.executed trivial (Transactions.ends_outcome (oldPhoto.env_answers (days 100)) _ _))

/-- A restart that finds the disks unhealthy, before the second manifest is executed. -/
def pausedByRestart : CleanupWorld :=
  ⟨plannedAgain.db.restarted false fun _ => false, plannedAgain.db.restarted false fun _ => false,
    plannedAgain.calls⟩

theorem unknown_outcome_held_paused :
    (CleanupWorld.transactions.outcome (oldPhoto.answers (days 100))
      (execute reliefSettings firstAssetHashes 2 "second" (true && pausedByRestart.db.gateOpen))
      pausedByRestart).2.calls = diedAfterRequest.calls := by
  refine unknown_outcome_held (i := 0) died_after_request (by decide +kernel) (by decide +kernel) ?_
  refine .tail (.tail (.single (.created (Transactions.ends_outcome (oldPhoto.env_answers (days 100))
    (createManifest reliefSettings firstAssetHashes) _))) (.restarted false fun _ => false)) ?_
  exact .executed (.inl (by decide +kernel))
    (Transactions.ends_outcome (oldPhoto.env_answers (days 100)) _ _)

end Mnema
