import Mnema.ItemTree
import Mnema.Leases
import Mnema.SealedUploads

/-! `_process_file_provider_job` in any number of workers. Between the statements of
`lease`, and between the transactions of a worker, the other workers, the heartbeats and
the recovery of expired leases go on. -/

namespace Mnema

def leaseSeconds : Int := 120

def baseBackoffSeconds : Int := 5

/-- The end of a worker's transaction, after `archive`. -/
def completeJob (uuid5 : String → String) (workerId : String) (job : Job) : Flow Unit := do
  match ← db (.getItem job.payload.archiveItemId) with
  | none => throw (.runtime "queued File Provider archive item is missing")
  | some archive => do
    promoteUpload archive job.payload.fileProviderItemId
    let _ ← projectVerifiedArchives uuid5
    match ← db (.getJob job.id) with
    | none => throw (.runtime "queued File Provider job is missing")
    | some active => db (.saveJob (active.succeed workerId).2)

/-- The transaction of the exception handler. -/
def reportFailure (workerId : String) (job : Job) (message : String) : Flow Unit := do
  match ← db (.getJob job.id) with
  | none => pure ()
  | some active => do
    let now ← ext .utcnow
    let failed := (active.fail workerId message baseBackoffSeconds now).2
    db (.saveJob failed)
    if failed.maxAttempts ≤ failed.attempts then
      markUploadFailed job.payload.fileProviderItemId ("archive_failed:job-" ++ toString job.id)
    else pure ()

/-- The answers of the queue at the time `now`. -/
def QueueDb.env (now : Time) : Prog.Env QueueDb QueueOp QueueOp.Ans := fun q o a q' =>
  (a, q') = QueueDb.step now q o

/-- Where a worker is in `_process_file_provider_job`. -/
inductive WorkerPhase where
  | idle
  | leasing (rest : QueueCode (Option Job))
  | archiving (job : Job)
  | failing (job : Job) (message : String)

/-- A handler that was run: the database before and after its transaction. -/
structure FailureReport where
  workerId : String
  job : Job
  before : Db
  after : Db

namespace FailureReport

/-- The handler turned the item to `FAILED`. -/
def TurnedFailed (r : FailureReport) : Prop :=
  ∃ item, r.after.fpItems.get r.job.payload.fileProviderItemId = some item ∧
    item.status = .failed ∧ r.before.fpItems.get r.job.payload.fileProviderItemId ≠ some item

/-- Its `fail` call moved the job, leased to this worker, to `MANUAL_REVIEW`. -/
def MovedToReview (r : FailureReport) : Prop :=
  ∃ found moved, r.before.jobs.get r.job.id = some found ∧ found.owns r.workerId = true ∧
    r.after.jobs.get r.job.id = some moved ∧ moved.status = .manualReview

end FailureReport

structure WorkerWorld (σ : Type) where
  world : World σ
  heartbeats : Table WorkerHeartbeat String WorkerHeartbeat.workerId
  workers : String → WorkerPhase
  reports : List FailureReport

namespace WorkerWorld

variable {σ : Type}

def queue (s : WorkerWorld σ) : QueueDb := ⟨s.world.db.jobs, s.heartbeats⟩

def setQueue (s : WorkerWorld σ) (q : QueueDb) : WorkerWorld σ :=
  { s with
    world := { s.world with
      db := { s.world.db with jobs := q.jobs }
      txn := { s.world.txn with jobs := q.jobs } }
    heartbeats := q.heartbeats }

def setWorker (s : WorkerWorld σ) (workerId : String) (phase : WorkerPhase) : WorkerWorld σ :=
  { s with workers := Function.update s.workers workerId phase }

/-- The handler finds its job still leased to the worker, or with attempts left. -/
def ReportsInTime (s : WorkerWorld σ) (workerId : String) (job : Job) : Prop :=
  ∀ found, s.world.db.jobs.get job.id = some found →
    found.owns workerId = true ∨ found.attempts < found.maxAttempts

end WorkerWorld

/-- One step of a worker, of its heartbeat, of a recovery, or of the rest of the program.
`G` restricts the handlers that may run. -/
inductive WorkerStep {σ : Type} (X : ExtEnv σ) (uuid5 : String → String)
    (adapterLimit globalLimit : Nat) (G : WorkerWorld σ → String → Job → Prop) :
    WorkerWorld σ → WorkerWorld σ → Prop where
  | began {s : WorkerWorld σ} {w : String} (h : s.workers w = .idle) :
      WorkerStep X uuid5 adapterLimit globalLimit G s (s.setWorker w
        (.leasing (lease w "file_provider" leaseSeconds adapterLimit globalLimit)))
  | queried {s : WorkerWorld σ} {w : String} {p p' : QueueCode (Option Job)} {q : QueueDb}
      {now : Time} (h : s.workers w = .leasing p)
      (hs : Prog.Step (QueueDb.env now) (s.queue, p) (q, p')) :
      WorkerStep X uuid5 adapterLimit globalLimit G s ((s.setQueue q).setWorker w (.leasing p'))
  | leased {s : WorkerWorld σ} {w : String} {job : Job}
      (h : s.workers w = .leasing (.ret (some job))) :
      WorkerStep X uuid5 adapterLimit globalLimit G s (s.setWorker w (.archiving job))
  | archived {s : WorkerWorld σ} {w : String} {job : Job} {world : World σ}
      (h : s.workers w = .archiving job) (hi : world.Idle)
      (hj : world.db.jobs = s.world.db.jobs) (hf : world.db.fpItems = s.world.db.fpItems) :
      WorkerStep X uuid5 adapterLimit globalLimit G s { s with world := world }
  | completed {s : WorkerWorld σ} {w : String} {job : Job} {world : World σ}
      (h : s.workers w = .archiving job)
      (he : (transactions X).Ends (completeJob uuid5 w job) s.world (some (.ok ())) world) :
      WorkerStep X uuid5 adapterLimit globalLimit G s ({ s with world := world }.setWorker w .idle)
  | raised {s : WorkerWorld σ} {w : String} {job : Job} (h : s.workers w = .archiving job)
      (message : String) :
      WorkerStep X uuid5 adapterLimit globalLimit G s (s.setWorker w (.failing job message))
  | reported {s : WorkerWorld σ} {w : String} {job : Job} {message : String} {world : World σ}
      (h : s.workers w = .failing job message) (hG : G s w job)
      (he : (transactions X).Ends (reportFailure w job message) s.world (some (.ok ())) world) :
      WorkerStep X uuid5 adapterLimit globalLimit G s
        ({ s with
          world := world
          reports := s.reports ++ [FailureReport.mk w job s.world.db world.db] }.setWorker w .idle)
  -- no job was leased, an exception ended the worker, or it was killed and started again
  | returned {s : WorkerWorld σ} (w : String) :
      WorkerStep X uuid5 adapterLimit globalLimit G s (s.setWorker w .idle)
  | heartbeat {s : WorkerWorld σ} {w : String} {job : Job} {message : String}
      (h : s.workers w = .archiving job ∨ s.workers w = .failing job message) (now : Time) :
      WorkerStep X uuid5 adapterLimit globalLimit G s
        (s.setQueue (s.queue.run now (.heartbeat job.id w leaseSeconds)).2)
  | recovered {s : WorkerWorld σ} (now : Time) :
      WorkerStep X uuid5 adapterLimit globalLimit G s
        (s.setQueue (s.queue.run now (.recoverExpired none)).2)
  -- the API, which adds jobs, and whatever else writes to the database but not to its jobs
  | elsewhere {s : WorkerWorld σ} {world : World σ} (hi : world.Idle)
      (hj : ∀ id job, s.world.db.jobs.get id = some job → world.db.jobs.get id = some job) :
      WorkerStep X uuid5 adapterLimit globalLimit G s { s with world := world }

abbrev WorkerRun {σ : Type} (X : ExtEnv σ) (uuid5 : String → String) (adapterLimit globalLimit : Nat)
    (G : WorkerWorld σ → String → Job → Prop) :=
  Relation.ReflTransGen (WorkerStep X uuid5 adapterLimit globalLimit G)

/-! ### The transactions of a worker -/

section Transactions

variable {σ : Type} {X : ExtEnv σ} {w w' : World σ} {uuid5 : String → String} {workerId : String}
  {job : Job} {message : String}

theorem SameOutside_bind {α β : Type} {p : Flow α} (hp : InTree p) {f : α → Flow β}
    {Q : β → World σ → Prop} {E : PyError → World σ → Prop}
    (hf : ∀ a t, w.SameOutside t → (f a).wp (fun _ _ => True) (World.env X) Q E t)
    (hE : ∀ e t, E e t) : (p >>= f).wp (fun _ _ => True) (World.env X) Q E w :=
  (Prog.wp_bind _ _).mpr ((sameOutside_wp hp w).mono (fun _ _ h => h) hf fun e t _ => hE e t)

/-- The transaction that completes a job writes no other job. -/
theorem completeJob_wp (uuid5 : String → String) (workerId : String) (job : Job) (w : World σ) :
    (completeJob uuid5 workerId job).wp (fun _ _ => True) (World.env X)
      (fun _ t => ∃ active, w.txn.jobs.get job.id = some active ∧
        t.txn.jobs = w.txn.jobs.put (active.succeed workerId).2) (fun _ _ => True) w := by
  unfold completeJob
  rw [Prog.wp_bind, wp_db_ok rfl]
  refine ⟨trivial, ?_⟩
  cases w.txn.items.get job.payload.archiveItemId with
  | none => trivial
  | some archive =>
    refine SameOutside_bind (inTree_promoteUpload _ _) (fun _ t ht => ?_) fun _ _ => trivial
    refine SameOutside_bind (inTree_projectVerifiedArchives _) (fun _ t' ht' => ?_) fun _ _ => trivial
    have hjobs : t'.txn.jobs = w.txn.jobs := (ht.trans ht').jobs
    rw [Prog.wp_bind, wp_db_ok rfl]
    refine ⟨trivial, ?_⟩
    rw [hjobs]
    cases hget : w.txn.jobs.get job.id with
    | none => trivial
    | some active =>
      refine (wp_db_ok (o := .saveJob _) rfl).mpr ⟨trivial, active, rfl, ?_⟩
      show t'.txn.jobs.put _ = _
      rw [hjobs]

theorem fail_attempts (active : Job) (workerId message : String) (base : Int) (now : Time) :
    (active.fail workerId message base now).2.attempts = active.attempts ∧
      (active.fail workerId message base now).2.maxAttempts = active.maxAttempts := by
  rcases active.fail_cases workerId message base now with
    ⟨_, he⟩ | ⟨_, he⟩ | ⟨_, _, he⟩ | ⟨_, _, _, he⟩ <;> rw [he] <;> exact ⟨rfl, rfl⟩

/-- The handler writes what `fail` makes of the job, and the item only where no attempt is left. -/
theorem reportFailure_wp (workerId : String) (job : Job) (message : String) (w : World σ) :
    (reportFailure workerId job message).wp (fun _ _ => True) (World.env X)
      (fun _ t => (w.txn.jobs.get job.id = none ∧ t.txn = w.txn) ∨
        ∃ active now, w.txn.jobs.get job.id = some active ∧
          t.txn.jobs = w.txn.jobs.put (active.fail workerId message baseBackoffSeconds now).2 ∧
          (active.maxAttempts ≤ active.attempts ∨ t.txn.fpItems = w.txn.fpItems))
      (fun _ _ => True) w := by
  unfold reportFailure
  rw [Prog.wp_bind, wp_db_ok rfl]
  refine ⟨trivial, ?_⟩
  cases hget : w.txn.jobs.get job.id with
  | none => exact .inl ⟨rfl, rfl⟩
  | some active =>
    refine (Prog.wp_bind _ _).mpr (wp_ext.mpr ⟨trivial, fun now x _ _ => ?_, fun _ _ _ _ => trivial⟩)
    rw [Prog.wp_bind]
    refine (wp_db_ok (o := .saveJob _) rfl).mpr ⟨trivial, ?_⟩
    obtain ⟨hattempts, hmax⟩ := fail_attempts active workerId message baseBackoffSeconds now
    split
    · rename_i hleft
      rw [hattempts, hmax] at hleft
      refine (sameOutside_wp (inTree_markUploadFailed _ _) _).mono (fun _ _ h => h) ?_
        fun _ _ _ => trivial
      intro _ t ht
      exact .inr ⟨active, now, rfl, ht.jobs, .inl hleft⟩
    · exact .inr ⟨active, now, rfl, rfl, .inr rfl⟩

end Transactions

/-! ### Runs -/

section Runs

variable {σ : Type} {X : ExtEnv σ} {uuid5 : String → String} {al gl : Nat}
  {G : WorkerWorld σ → String → Job → Prop} {s s' : WorkerWorld σ}

/-- The job `id` is in the table and has succeeded. -/
def Db.Succeeded (d : Db) (id : Nat) : Prop :=
  ∃ job, d.jobs.get id = some job ∧ job.status = .succeeded

theorem Db.Succeeded.put {d d' : Db} {id : Nat} (h : d.Succeeded id) {now : Time} {c : QueueCall}
    {old new : Job} (hget : d.jobs.get old.id = some old) (hm : JobMove now c old new)
    (hd : d'.jobs = d.jobs.put new) : d'.Succeeded id := by
  obtain ⟨job, hjob, hs⟩ := h
  obtain ⟨row, hrow, hmove⟩ := QueueDb.get_setJob_cases (q := ⟨d.jobs, .empty⟩) hget hm hjob
  refine ⟨row, ?_, (Job.settled_move (.inl hs) hmove).trans hs⟩
  rw [hd]
  exact hrow

theorem Db.Succeeded.run {d : Db} {id : Nat} (h : d.Succeeded id) (now : Time) (c : QueueCall)
    {q : QueueDb} (hq : q.jobs = d.jobs) :
    ({ d with jobs := (q.run now c).2.jobs } : Db).Succeeded id := by
  obtain ⟨job, hjob, hs⟩ := h
  obtain ⟨row, hrow, hmove⟩ := QueueDb.run_get (hq ▸ hjob) now c
  exact ⟨row, hrow, (Job.settled_move (.inl hs) hmove).trans hs⟩

/-- A query of `lease` takes no job that has succeeded. -/
theorem Db.Succeeded.query {d : Db} {id : Nat} (h : d.Succeeded id) (now : Time) (o : QueueOp)
    {q : QueueDb} (hq : q.jobs = d.jobs) :
    ({ d with jobs := (QueueDb.step now q o).2.jobs } : Db).Succeeded id := by
  obtain ⟨job, hjob, hs⟩ := h
  cases o with
  | claim jobId workerId at' expires =>
    simp only [QueueDb.step]
    cases hget : q.jobs.get jobId with
    | none => exact ⟨job, hq ▸ hjob, hs⟩
    | some found =>
      by_cases hw : found.waiting = true
      · simp only [hw, if_true]
        obtain rfl := Table.key_of_get hget
        have hm : JobMove at' (.lease workerId "" (expires - at') 0 0) found
            (found.claim workerId at' (at' + (expires - at'))) := .claimed hw
        rw [← Int.add_sub_assoc, Int.add_comm, Int.add_sub_cancel] at hm
        exact Db.Succeeded.put (d := { d with jobs := q.jobs }) ⟨job, hq ▸ hjob, hs⟩ hget hm rfl
      · simp only [hw]
        exact ⟨job, hq ▸ hjob, hs⟩
  | _ => exact ⟨job, hq ▸ hjob, hs⟩

theorem db_of_returned {p : Flow Unit} {w w' : World σ}
    (he : (transactions X).Ends p w (some (.ok ())) w') {Q : Unit → World σ → Prop}
    (hp : p.wp (fun _ _ => True) (World.env X) Q (fun _ _ => True) w) :
    w'.Idle ∧ ∃ t, Q () t ∧ w'.db = t.txn := by
  obtain ⟨t, -, hend⟩ := he.holds hp (I := fun _ => True) (fun _ _ _ _ _ _ _ => trivial) trivial
  rcases hend with ⟨-, hnot⟩ | ⟨a, -, hq, rfl⟩
  · exact absurd rfl (hnot ())
  · exact ⟨⟨rfl, rfl⟩, t, hq, rfl⟩

theorem idle_setQueue (h : s.world.Idle) (q : QueueDb) : (s.setQueue q).world.Idle :=
  ⟨by show { s.world.txn with jobs := q.jobs } = { s.world.db with jobs := q.jobs }; rw [h.txn],
    h.pend⟩

theorem idle_step (h : s.world.Idle) (hs : WorkerStep X uuid5 al gl G s s') : s'.world.Idle := by
  cases hs with
  | queried _ _ | heartbeat _ _ | recovered _ => exact idle_setQueue h _
  | archived _ hi _ _ | elsewhere hi _ => exact hi
  | completed _ he => exact (db_of_returned he (completeJob_wp _ _ _ _)).1
  | reported _ _ he => exact (db_of_returned he (reportFailure_wp _ _ _ _)).1
  | _ => exact h

theorem succeeded_step {id : Nat} (hi : s.world.Idle) (h : s.world.db.Succeeded id)
    (hs : WorkerStep X uuid5 al gl G s s') : s'.world.db.Succeeded id := by
  cases hs with
  | began _ | leased _ | raised _ _ | returned _ => exact h
  | queried _ hs =>
    cases hs with
    | call he =>
      have hq := congrArg Prod.snd he
      simp only at hq
      subst hq
      exact h.query _ _ rfl
  | heartbeat _ now => exact h.run now _ rfl
  | recovered now => exact h.run now _ rfl
  | archived _ _ hj _ =>
    obtain ⟨job, hjob, hs⟩ := h
    exact ⟨job, hj ▸ hjob, hs⟩
  | elsewhere _ hj =>
    obtain ⟨job, hjob, hs⟩ := h
    exact ⟨job, hj _ _ hjob, hs⟩
  | completed _ he =>
    obtain ⟨-, t, ⟨active, hget, hjobs⟩, hdb⟩ := db_of_returned he (completeJob_wp _ _ _ _)
    rw [hi.txn] at hget hjobs
    obtain hid := Table.key_of_get hget
    exact h.put (hid.symm ▸ hget) (active.succeed_move 0 _) (hdb ▸ hjobs)
  | reported _ _ he =>
    obtain ⟨-, t, hcase, hdb⟩ := db_of_returned he (reportFailure_wp _ _ _ _)
    rw [hi.txn] at hcase
    rcases hcase with ⟨-, htxn⟩ | ⟨active, now, hget, hjobs, -⟩
    · exact (hdb.trans htxn) ▸ h
    · obtain hid := Table.key_of_get hget
      exact h.put (hid.symm ▸ hget) (active.fail_move now _ _ _) (hdb ▸ hjobs)

/-- The handler in time: where it marks the item failed, its `fail` moved the job. -/
theorem movedToReview_of_inTime {w w' : World σ} {workerId message : String} {job : Job}
    (hi : w.Idle)
    (hG : ∀ found, w.db.jobs.get job.id = some found →
      found.owns workerId = true ∨ found.attempts < found.maxAttempts)
    (he : (transactions X).Ends (reportFailure workerId job message) w (some (.ok ())) w')
    (hf : (FailureReport.mk workerId job w.db w'.db).TurnedFailed) :
    (FailureReport.mk workerId job w.db w'.db).MovedToReview := by
  obtain ⟨item, hitem, -, hne⟩ := hf
  obtain ⟨-, t, hcase, hdb⟩ := db_of_returned he (reportFailure_wp _ _ _ _)
  rw [hi.txn] at hcase
  simp only at hitem hne
  rw [hdb] at hitem
  rcases hcase with ⟨-, htxn⟩ | ⟨active, now, hget, hjobs, hleft⟩
  · exact absurd (htxn ▸ hitem) hne
  have hmax : active.maxAttempts ≤ active.attempts := by
    rcases hleft with hmax | hsame
    · exact hmax
    · exact absurd (hsame ▸ hitem) hne
  have howns : active.owns workerId = true := by
    rcases hG active hget with ho | hlt
    · exact ho
    · exact absurd hmax (Nat.not_le.mpr hlt)
  rcases active.fail_cases workerId message baseBackoffSeconds now with
    ⟨hno, _⟩ | ⟨hno, _⟩ | ⟨-, -, hfail⟩ | ⟨_, hlt, _⟩
  · simp [howns] at hno
  · simp [howns] at hno
  · obtain hid := Table.key_of_get hget
    refine ⟨active, _, hget, howns, ?_, (congrArg (fun r => Job.status r.2) hfail)⟩
    show w'.db.jobs.get job.id = _
    rw [hdb, hjobs, ← hid]
    have hsame := (active.fail_move now workerId message baseBackoffSeconds).same.1
    exact QueueDb.get_setJob (q := ⟨w.db.jobs, .empty⟩) (hid.symm ▸ hget) _ hsame
  · exact absurd hmax (Nat.not_le.mpr hlt)

/-- What a handler in time does, as the steps of a run see it. -/
theorem reports_step (hi : s.world.Idle)
    (hs : WorkerStep X uuid5 al gl WorkerWorld.ReportsInTime s s') :
    ∃ new, s'.reports = s.reports ++ new ∧
      ∀ r ∈ new, r.before = s.world.db ∧ (r.TurnedFailed → r.MovedToReview) := by
  cases hs with
  | reported _ hG he =>
    refine ⟨_, rfl, fun r hr => ?_⟩
    obtain rfl := List.mem_singleton.mp hr
    exact ⟨rfl, movedToReview_of_inTime hi hG he⟩
  | _ => exact ⟨[], (List.append_nil _).symm, fun _ hr => absurd hr List.not_mem_nil⟩

theorem idle_run (h : s.world.Idle) (hr : WorkerRun X uuid5 al gl G s s') : s'.world.Idle := by
  induction hr with
  | refl => exact h
  | tail _ hs ih => exact idle_step ih hs

theorem reports_run (hi : s.world.Idle)
    (hr : WorkerRun X uuid5 al gl WorkerWorld.ReportsInTime s s') :
    ∃ new, s'.reports = s.reports ++ new ∧ (∀ r ∈ new, r.TurnedFailed → r.MovedToReview) ∧
      ∀ id, s.world.db.Succeeded id →
        s'.world.db.Succeeded id ∧ ∀ r ∈ new, r.before.Succeeded id := by
  induction hr with
  | refl =>
    exact ⟨[], (List.append_nil _).symm, fun _ hr => absurd hr List.not_mem_nil,
      fun _ h => ⟨h, fun _ hr => absurd hr List.not_mem_nil⟩⟩
  | tail hr hs ih =>
    obtain ⟨new, hreports, hmoved, hkept⟩ := ih
    have hidle := idle_run hi hr
    obtain ⟨last, hlast, hin⟩ := reports_step hidle hs
    refine ⟨new ++ last, by rw [hlast, hreports, List.append_assoc], fun r hr => ?_, fun id h => ?_⟩
    · rcases List.mem_append.mp hr with hr | hr
      · exact hmoved r hr
      · exact (hin r hr).2
    · obtain ⟨hnow, hbefore⟩ := hkept id h
      refine ⟨succeeded_step hidle hnow hs, fun r hr => ?_⟩
      rcases List.mem_append.mp hr with hr | hr
      · exact hbefore r hr
      · exact (hin r hr).1 ▸ hnow

/-- A handler that moved its job found it running. -/
theorem not_movedToReview_of_succeeded {r : FailureReport} (h : r.before.Succeeded r.job.id) :
    ¬ r.MovedToReview := by
  rintro ⟨found, -, hget, howns, -, -⟩
  obtain ⟨job, hjob, hs⟩ := h
  obtain rfl := Option.some.inj (hget.symm.trans hjob)
  simp [(Job.running_of_owns howns).1] at hs

/-- In every run whose handlers are in time: an item is marked failed only by a worker whose own
`fail` moved the job to `MANUAL_REVIEW`, and never for a job that some worker has completed. -/
theorem failed_only_by_owner (hi : s.world.Idle) (h0 : s.reports = [])
    (hr : WorkerRun X uuid5 al gl WorkerWorld.ReportsInTime s s') :
    (∀ r ∈ s'.reports, r.TurnedFailed → r.MovedToReview) ∧
      ∀ t, WorkerRun X uuid5 al gl WorkerWorld.ReportsInTime s' t →
        ∃ later, t.reports = s'.reports ++ later ∧
          ∀ r ∈ later, s'.world.db.Succeeded r.job.id → ¬ r.TurnedFailed := by
  obtain ⟨new, hreports, hmoved, -⟩ := reports_run hi hr
  refine ⟨fun r hm => hmoved r ?_, fun t ht => ?_⟩
  · rw [hreports, h0] at hm
    exact hm
  · obtain ⟨later, hlater, hmoved, hkept⟩ := reports_run (idle_run hi hr) ht
    refine ⟨later, hlater, fun r hm hs hf => ?_⟩
    exact not_movedToReview_of_succeeded ((hkept r.job.id hs).2 r hm) (hmoved r hm hf)

end Runs

/-! ### On the host -/

section Host

variable {uuid5 : String → String} {al gl : Nat} {G : WorkerWorld Host → String → Job → Prop}
  {s₀ s : WorkerWorld Host} {w : String} {job : Job}

namespace WorkerWorld

/-- `lease` with nothing in between. -/
def leasing (s : WorkerWorld Host) (w : String) (al gl : Nat) (now : Time) : WorkerWorld Host :=
  match (lease w "file_provider" leaseSeconds al gl).exec (QueueDb.step now) s.queue with
  | (.ok (some job), q) => (s.setQueue q).setWorker w (.archiving job)
  | _ => s

/-- The worker is killed, and its lease expires and is recovered. -/
def dying (s : WorkerWorld Host) (w : String) (now : Time) : WorkerWorld Host :=
  let s := s.setWorker w .idle
  s.setQueue (s.queue.run now (.recoverExpired none)).2

def archiving (s : WorkerWorld Host) (wf : ArchiveWorkflow) (id : Nat) : WorkerWorld Host :=
  match s.world.db.items.get id with
  | some item => { s with world := (s.world.transact (wf.archive item)).2 }
  | none => s

/-- The job that a worker holds at its `except`. -/
def held (s : WorkerWorld Host) (w : String) : Option Job :=
  match s.workers w with
  | .archiving job => some job
  | _ => none

def completing (s : WorkerWorld Host) (uuid5 : String → String) (w : String) (job : Job) :
    WorkerWorld Host :=
  { s with world := (s.world.transact (completeJob uuid5 w job)).2 }.setWorker w .idle

def reporting (s : WorkerWorld Host) (w : String) (job : Job) (message : String) :
    WorkerWorld Host :=
  let world := (s.world.transact (reportFailure w job message)).2
  { s with
    world := world
    reports := s.reports ++ [FailureReport.mk w job s.world.db world.db] }.setWorker w .idle

theorem archiving_of_held {s : WorkerWorld Host} {w : String} {job : Job}
    (h : s.held w = some job) : s.workers w = .archiving job := by
  unfold held at h
  split at h
  · rename_i he
    exact Option.some.inj h ▸ he
  · simp at h

theorem setQueue_setWorker (s : WorkerWorld Host) (w : String) (phase phase' : WorkerPhase)
    (q q' : QueueDb) : (((s.setQueue q).setWorker w phase).setQueue q').setWorker w phase' =
      (s.setQueue q').setWorker w phase' := by
  simp [setQueue, setWorker, Function.update_idem]

theorem setQueue_queue {s : WorkerWorld Host} (h : s.world.Idle) : s.setQueue s.queue = s := by
  have ht := h.txn
  obtain ⟨⟨db, txn, pend, log, ext⟩, heartbeats, workers, reports⟩ := s
  simp only at ht
  subst ht
  rfl

end WorkerWorld

open WorkerWorld

theorem queried_steps {now : Time} {p p' : QueueCode (Option Job)} {q : QueueDb}
    (hi : s.world.Idle)
    (hs : Prog.Steps (QueueDb.env now) (s.queue, p) (q, p')) :
    WorkerRun (Host.env .plain) uuid5 al gl G (s.setWorker w (.leasing p))
      ((s.setQueue q).setWorker w (.leasing p')) := by
  generalize hd : (q, p') = d at hs
  induction hs generalizing q p' with
  | refl =>
    obtain ⟨rfl, rfl⟩ := Prod.mk.inj hd
    rw [setQueue_queue hi]
  | @tail between _ _ hs ih =>
    subst hd
    obtain ⟨q₁, p₁⟩ := between
    refine (ih rfl).tail ?_
    rw [← setQueue_setWorker s w (.leasing p₁) (.leasing p') q₁ q]
    exact .queried (Function.update_self ..) hs

theorem run_leasing (hi : s.world.Idle) (hw : s.workers w = .idle) (now : Time) :
    WorkerRun (Host.env .plain) uuid5 al gl G s (s.leasing w al gl now) := by
  unfold leasing
  split
  case h_2 => exact .refl
  case h_1 job q he =>
    have henv : ∀ q o, QueueDb.env now q o (QueueDb.step now q o).1 (QueueDb.step now q o).2 :=
      fun _ _ => rfl
    have hs := Prog.exec_steps henv (lease w "file_provider" leaseSeconds al gl) s.queue
    rw [he] at hs
    have hbegan : WorkerStep (Host.env .plain) uuid5 al gl G s _ := .began hw
    refine .tail (.head hbegan (queried_steps hi hs)) ?_
    have hlast : (s.setQueue q).setWorker w (.archiving job) =
        ((s.setQueue q).setWorker w (.leasing (.ret (some job)))).setWorker w (.archiving job) := by
      simp [setWorker, Function.update_idem]
    rw [hlast]
    exact .leased (Function.update_self ..)

theorem run_dying (now : Time) :
    WorkerRun (Host.env .plain) uuid5 al gl G s (s.dying w now) :=
  (Relation.ReflTransGen.single (.returned w)).tail (.recovered now)

theorem run_archiving (wf : ArchiveWorkflow) (id : Nat) (hw : s.workers w = .archiving job)
    (hj : (s.archiving wf id).world.db.jobs.rows = s.world.db.jobs.rows)
    (hf : (s.archiving wf id).world.db.fpItems.rows = s.world.db.fpItems.rows) :
    WorkerRun (Host.env .plain) uuid5 al gl G s (s.archiving wf id) := by
  unfold archiving at hj hf ⊢
  split
  case h_2 => exact .refl
  case h_1 item hi =>
    simp only [hi] at hj hf
    refine .single (.archived hw ?_ (Table.ext hj) (Table.ext hf))
    unfold World.transact Transactions.outcome
    split <;> exact ⟨rfl, rfl⟩

theorem run_completing (hw : s.held w = some job)
    (hok : (s.world.transact (completeJob uuid5 w job)).1 = .ok ()) :
    WorkerRun (Host.env .plain) uuid5 al gl G s (s.completing uuid5 w job) := by
  refine .single (.completed (archiving_of_held hw) ?_)
  have he := Transactions.ends_outcome (M := transactions (Host.env .plain)) onHost_id
    (completeJob uuid5 w job) s.world
  exact hok ▸ he

theorem run_reporting (hw : s.held w = some job) (message : String)
    (hG : G (s.setWorker w (.failing job message)) w job)
    (hok : (s.world.transact (reportFailure w job message)).1 = .ok ()) :
    WorkerRun (Host.env .plain) uuid5 al gl G s (s.reporting w job message) := by
  have he := Transactions.ends_outcome (M := transactions (Host.env .plain)) onHost_id
    (reportFailure w job message) s.world
  have hraised : WorkerStep (Host.env .plain) uuid5 al gl G s
      (s.setWorker w (.failing job message)) := .raised (archiving_of_held hw) message
  have hlast : s.reporting w job message =
      { (s.setWorker w (.failing job message)) with
        world := (s.world.transact (reportFailure w job message)).2
        reports := s.reports ++ [FailureReport.mk w job s.world.db
          (s.world.transact (reportFailure w job message)).2.db] }.setWorker w .idle := by
    simp [reporting, setWorker, Function.update_idem]
  rw [hlast]
  exact .tail (.single hraised) (.reported (Function.update_self ..) hG (hok ▸ he))

/-- Each time it leases a job, the worker dies before it is done. -/
def WorkerWorld.deaths (s : WorkerWorld Host) (w : String) (al gl : Nat) :
    List Time → WorkerWorld Host
  | [] => s
  | now :: later => ((s.leasing w al gl now).dying w (now + 121)).deaths w al gl later

theorem run_deaths (hi : s.world.Idle) (hw : s.workers w = .idle) (times : List Time) :
    WorkerRun (Host.env .plain) uuid5 al gl G s (s.deaths w al gl times) ∧
      (s.deaths w al gl times).workers w = .idle := by
  induction times generalizing s with
  | nil => exact ⟨.refl, hw⟩
  | cons now later ih =>
    have hr : WorkerRun (Host.env .plain) uuid5 al gl G s
        ((s.leasing w al gl now).dying w (now + 121)) :=
      (run_leasing hi hw now).trans (run_dying _)
    obtain ⟨hlater, hidle⟩ := ih (idle_run hi hr) (Function.update_self ..)
    exact ⟨hr.trans hlater, hidle⟩

theorem workers_leasing {w' : String} (h : w' ≠ w) (now : Time) :
    (s.leasing w al gl now).workers w' = s.workers w' := by
  unfold leasing
  split
  · exact Function.update_of_ne h _ _
  · rfl

theorem workers_deaths {w' : String} (h : w' ≠ w) (times : List Time) :
    (s.deaths w al gl times).workers w' = s.workers w' := by
  induction times generalizing s with
  | nil => rfl
  | cons now later ih =>
    have hdied : ((s.leasing w al gl now).dying w (now + 121)).workers w' =
        (s.leasing w al gl now).workers w' := Function.update_of_ne h _ _
    exact (ih (s := (s.leasing w al gl now).dying w (now + 121))).trans
      (hdied.trans (workers_leasing h now))

end Host

/-- The job of the sealed upload, and no worker yet. -/
def sealedJob : WorkerWorld Host := ⟨sealedFirst.1, .empty, fun _ => .idle, []⟩

theorem idle_sealedJob : sealedJob.world.Idle := by
  show (apiStep uploaded (completeSeal plainSettings "1")).1.Idle
  unfold apiStep World.transact Transactions.outcome
  split <;> exact ⟨rfl, rfl⟩

/-- After four deaths the worker holds the last lease. -/
def lastLease : WorkerWorld Host :=
  (sealedJob.deaths "a" 1 1 [0, 121, 242, 363]).leasing "a" 1 1 484

/-- It fails there, and its handler moves the job and marks the item. -/
theorem failed_only_by_owner_lastLease : ∃ s, WorkerRun (Host.env .plain) id 1 1
    WorkerWorld.ReportsInTime sealedJob s ∧ ∃ r ∈ s.reports, r.TurnedFailed ∧ r.MovedToReview := by
  obtain ⟨job, hheld, hok, hin, item, hi, hs, hne⟩ : ∃ job, job ∈ lastLease.held "a" ∧
      (lastLease.world.transact (reportFailure "a" job "e")).1 = .ok () ∧
      ((lastLease.world.db.jobs.get job.id).all fun found => found.owns "a") = true ∧
      ∃ item, item ∈ (lastLease.reporting "a" job "e").world.db.fpItems.get
          job.payload.fileProviderItemId ∧
        item.status = .failed ∧
        lastLease.world.db.fpItems.get job.payload.fileProviderItemId ≠ some item := by
    decide +kernel
  obtain ⟨hdeaths, hidle⟩ := @run_deaths id 1 1 WorkerWorld.ReportsInTime _ "a" idle_sealedJob rfl
    [0, 121, 242, 363]
  have hrun : WorkerRun (Host.env .plain) id 1 1 WorkerWorld.ReportsInTime sealedJob
      (lastLease.reporting "a" job "e") := by
    refine (hdeaths.trans (run_leasing (idle_run idle_sealedJob hdeaths) hidle 484)).trans ?_
    refine run_reporting hheld "e" (fun found hf => .inl ?_) hok
    have hf : lastLease.world.db.jobs.get job.id = some found := hf
    simpa [hf] using hin
  have hmem : FailureReport.mk "a" job lastLease.world.db
      (lastLease.reporting "a" job "e").world.db ∈ (lastLease.reporting "a" job "e").reports :=
    List.mem_append_right _ (List.mem_singleton_self _)
  have hf : (FailureReport.mk "a" job lastLease.world.db
      (lastLease.reporting "a" job "e").world.db).TurnedFailed := ⟨item, hi, hs, hne⟩
  exact ⟨_, hrun, _, hmem, hf, (failed_only_by_owner idle_sealedJob rfl hrun).1 _ hmem hf⟩

/-- The worker has the fourth lease. -/
def fourthLease : WorkerWorld Host :=
  (sealedJob.deaths "a" 1 1 [0, 121, 242]).leasing "a" 1 1 363

/-- It lost the lease while it worked, and another worker took the last. -/
def takenOver : WorkerWorld Host :=
  (fourthLease.setQueue (fourthLease.queue.run 484 (.recoverExpired none)).2).leasing "b" 1 1 484

def uploadWorkflow : ArchiveWorkflow :=
  { plainWorkflow with
    activeRoot := plainSettings.activeRoot
    stagingRoot := plainSettings.stagingRoot }

/-- The other worker archived the item. -/
def archivedByOther : WorkerWorld Host := takenOver.archiving uploadWorkflow 1

theorem run_takenOver : WorkerRun (Host.env .plain) id 1 1 (fun _ _ _ => True) sealedJob
    takenOver := by
  obtain ⟨hdeaths, hidle⟩ := @run_deaths id 1 1 (fun _ _ _ => True) _ "a" idle_sealedJob rfl
    [0, 121, 242]
  have hfourth := hdeaths.trans (run_leasing (idle_run idle_sealedJob hdeaths) hidle 363)
  have hother : fourthLease.workers "b" = .idle :=
    (workers_leasing (by decide) 363).trans (workers_deaths (by decide) _)
  have hrecovered := hfourth.tail (.recovered 484)
  exact hrecovered.trans (run_leasing (idle_run idle_sealedJob hrecovered) hother 484)

/-- The other worker completes the job, which makes the item `READY`; then the first worker
fails, and its handler turns the item to `FAILED`. -/
theorem failed_by_former_owner : ∃ s r, WorkerRun (Host.env .plain) id 1 1 (fun _ _ _ => True)
    sealedJob s ∧ r ∈ s.reports ∧ r.TurnedFailed ∧ ¬ r.MovedToReview ∧
    r.before.Succeeded r.job.id ∧
    ∃ item, r.before.fpItems.get r.job.payload.fileProviderItemId = some item ∧
      item.status = .ready := by
  obtain ⟨leased, hleased, hjobs, hfiles, done, hdone, hcomplete, job, hheld, hok,
      ⟨found, hfound, hs⟩, ⟨item, hitem, hready⟩, failed, hfailed, hstatus⟩ :
      ∃ leased, leased ∈ takenOver.held "b" ∧
        archivedByOther.world.db.jobs.rows = takenOver.world.db.jobs.rows ∧
        archivedByOther.world.db.fpItems.rows = takenOver.world.db.fpItems.rows ∧
      ∃ done, done ∈ archivedByOther.held "b" ∧
        (archivedByOther.world.transact (completeJob id "b" done)).1 = .ok () ∧
      ∃ job, job ∈ (archivedByOther.completing id "b" done).held "a" ∧
        ((archivedByOther.completing id "b" done).world.transact
          (reportFailure "a" job "e")).1 = .ok () ∧
        (∃ found, found ∈ (archivedByOther.completing id "b" done).world.db.jobs.get job.id ∧
          found.status = .succeeded) ∧
        (∃ item, item ∈ (archivedByOther.completing id "b" done).world.db.fpItems.get
          job.payload.fileProviderItemId ∧ item.status = .ready) ∧
        ∃ failed, failed ∈ ((archivedByOther.completing id "b" done).reporting "a" job
          "e").world.db.fpItems.get job.payload.fileProviderItemId ∧ failed.status = .failed := by
    decide +kernel
  have hcompleted : WorkerRun (Host.env .plain) id 1 1 (fun _ _ _ => True) sealedJob
      (archivedByOther.completing id "b" done) := by
    refine (run_takenOver.trans ?_).trans (run_completing hdone hcomplete)
    exact run_archiving uploadWorkflow 1 (WorkerWorld.archiving_of_held hleased) hjobs hfiles
  have hsucceeded : (archivedByOther.completing id "b" done).world.db.Succeeded job.id :=
    ⟨found, hfound, hs⟩
  refine ⟨(archivedByOther.completing id "b" done).reporting "a" job "e", _,
    hcompleted.trans (run_reporting hheld "e" trivial hok),
    List.mem_append_right _ (List.mem_singleton_self _), ⟨failed, hfailed, hstatus, ?_⟩,
    not_movedToReview_of_succeeded hsucceeded, hsucceeded, item, hitem, hready⟩
  intro hsame
  have hsame : some item = some failed := hitem.symm.trans hsame
  rw [Option.some.inj hsame, hstatus] at hready
  exact absurd hready (by decide)

end Mnema
