import Mnema.Queue
import Mathlib.Data.List.Induction

/-! What one call of the queue can do to a job, and what follows for every
sequence of calls: who may change a lease, and how often a job is leased. -/

namespace Mnema

namespace QueueDb

section Step

variable (now : Time) (q : QueueDb)

@[simp] theorem step_utcnow : step now q .utcnow = (now, q) := rfl

@[simp] theorem step_runningJobs (at' : Time) :
    step now q (.runningJobs at') = (q.runningJobs at', q) := rfl

@[simp] theorem step_candidate (adapter : String) (at' : Time) :
    step now q (.candidate adapter at') = (q.candidate adapter at', q) := rfl

@[simp] theorem step_refresh (id : Nat) : step now q (.refresh id) = (q.jobs.get id, q) := rfl

theorem step_claim {job : Job} (h : q.jobs.get job.id = some job) (hw : job.waiting = true)
    (workerId : String) (at' expires : Time) :
    step now q (.claim job.id workerId at' expires) =
      (1, q.setJob (job.claim workerId at' expires)) := by
  simp [step, h, hw]

end Step

theorem get_setJob {q : QueueDb} {old : Job} (h : q.jobs.get old.id = some old) (new : Job)
    (hid : new.id = old.id) : (q.setJob new).jobs.get old.id = some new := by
  rw [← hid] at h ⊢
  exact Table.get_put_self h

theorem get_of_candidate {q : QueueDb} {adapter : String} {now : Time} {job : Job}
    (h : q.candidate adapter now = some job) :
    q.jobs.get job.id = some job ∧ job.leasable adapter now = true := by
  have hm := List.mem_of_mem_head? (h ▸ Option.mem_some_self job)
  rw [List.mem_insertionSort, List.mem_filter] at hm
  exact ⟨Table.get_of_mem hm.1, hm.2⟩

theorem waiting_of_leasable {adapter : String} {now : Time} {job : Job}
    (h : job.leasable adapter now = true) : job.waiting = true := by
  simp only [Job.leasable, Bool.and_eq_true] at h
  exact h.1.2

/-- A lease on its own answers nothing and changes nothing, or claims its candidate. -/
theorem run_lease (q : QueueDb) (now : Time) (workerId adapter : String) (leaseSeconds : Int)
    (adapterLimit globalLimit : Nat) :
    q.run now (.lease workerId adapter leaseSeconds adapterLimit globalLimit) = (.job none, q) ∨
      ∃ job, q.jobs.get job.id = some job ∧ job.waiting = true ∧
        q.run now (.lease workerId adapter leaseSeconds adapterLimit globalLimit) =
          (.job (some (job.claim workerId now (now + leaseSeconds))),
            q.setJob (job.claim workerId now (now + leaseSeconds))) := by
  simp only [run, lease, queueOp, Prog.exec_op_bind, step_utcnow, step_runningJobs]
  by_cases hg : globalLimit ≤ (q.runningJobs now).length
  · simp [hg]
  by_cases ha : adapterLimit ≤ (q.runningJobs now).countP (fun job => job.adapter == adapter)
  · simp [hg, ha]
  cases hc : q.candidate adapter now with
  | none => simp [hg, ha, hc]
  | some job =>
    obtain ⟨hget, hl⟩ := get_of_candidate hc
    have hw := waiting_of_leasable hl
    have hput := get_setJob hget (job.claim workerId now (now + leaseSeconds)) rfl
    refine .inr ⟨job, hget, hw, ?_⟩
    simp [hg, ha, hc, step_claim now q hget hw, hput]

end QueueDb

/-! ### Moves of one job -/

/-- What a call at the time `now` may do to the row `old`. -/
inductive JobMove (now : Time) : QueueCall → Job → Job → Prop where
  | kept {c : QueueCall} {old : Job} : JobMove now c old old
  | claimed {w adapter : String} {seconds : Int} {al gl : Nat} {old : Job}
      (h : old.waiting = true) :
      JobMove now (.lease w adapter seconds al gl) old (old.claim w now (now + seconds))
  | renewed {w : String} {seconds : Int} {old : Job} (h : old.owns w = true) :
      JobMove now (.heartbeat old.id w seconds) old
        { old with heartbeatAt := some now, leaseExpiresAt := some (now + seconds) }
  | succeeded {w : String} {old : Job} (h : old.owns w = true) :
      JobMove now (.succeed old.id w) old
        { old with status := .succeeded, leaseOwner := none, leaseExpiresAt := none }
  | noted {w message : String} {base : Int} {old : Job} (h : old.owns w = false) :
      JobMove now (.fail old.id w message base) old { old with lastError := some message }
  | reviewed {w message : String} {base : Int} {old : Job} (h : old.owns w = true)
      (hm : old.maxAttempts ≤ old.attempts) :
      JobMove now (.fail old.id w message base) old
        { old with
          lastError := some message, leaseOwner := none, leaseExpiresAt := none
          status := .manualReview }
  | retried {w message : String} {base : Int} {old : Job} (h : old.owns w = true)
      (hm : old.attempts < old.maxAttempts) (availableAt : Time) :
      JobMove now (.fail old.id w message base) old
        { old with
          lastError := some message, leaseOwner := none, leaseExpiresAt := none
          status := .retry, availableAt := availableAt }
  | reclaimed {at' : Option Time} {old : Job} (h : old.expired (at'.getD now) = true) :
      JobMove now (.recoverExpired at') old (old.reclaim (at'.getD now))

namespace Job

theorem heartbeat_move {now : Time} {job renewed : Job} {w : String} {seconds : Int}
    (h : job.heartbeat w seconds now = .ok renewed) :
    JobMove now (.heartbeat job.id w seconds) job renewed := by
  unfold heartbeat at h
  split at h
  · cases h
  · rename_i hn
    have ho : job.owns w = true := by simpa [owns] using hn
    cases h
    exact .renewed ho

theorem succeed_cases (job : Job) (w : String) :
    (job.owns w = false ∧ job.succeed w = (false, job)) ∨
      (job.owns w = true ∧ job.succeed w =
        (true, { job with status := .succeeded, leaseOwner := none, leaseExpiresAt := none })) := by
  cases ho : job.owns w with
  | false => exact .inl ⟨rfl, by simp [succeed, ho]⟩
  | true => exact .inr ⟨rfl, by simp [succeed, ho]⟩

/-- A failure reported without the lease is at most noted; with it, the job is retried until
its attempts are used up. -/
theorem fail_cases (job : Job) (w message : String) (base : Int) (now : Time) :
    (job.owns w = false ∧ job.fail w message base now = (false, job)) ∨
    (job.owns w = false ∧
      job.fail w message base now = (false, { job with lastError := some message })) ∨
    (job.owns w = true ∧ job.maxAttempts ≤ job.attempts ∧ job.fail w message base now =
      (true, { job with
        lastError := some message, leaseOwner := none, leaseExpiresAt := none
        status := .manualReview })) ∨
    (job.owns w = true ∧ job.attempts < job.maxAttempts ∧ ∃ availableAt,
      job.fail w message base now =
        (true, { job with
          lastError := some message, leaseOwner := none, leaseExpiresAt := none
          status := .retry, availableAt := availableAt })) := by
  have hnoted : ({ job with lastError := some message } : Job).owns w = job.owns w := rfl
  cases ho : job.owns w with
  | false =>
    by_cases hf : (job.leaseOwner.isSome && job.leaseOwner != some w) = true
    · exact .inl ⟨rfl, by simp [fail, hf]⟩
    · exact .inr (.inl ⟨rfl, by simp only [fail, hf, hnoted, ho]; rfl⟩)
  | true =>
    have hf : (job.leaseOwner.isSome && job.leaseOwner != some w) = false := by
      simp only [owns, Bool.and_eq_true, beq_iff_eq] at ho
      simp [ho.2]
    by_cases hm : job.maxAttempts ≤ job.attempts
    · refine .inr (.inr (.inl ⟨rfl, hm, ?_⟩))
      simp only [fail, hf, hnoted, ho, hm]
      rfl
    · refine .inr (.inr (.inr ⟨rfl, Nat.lt_of_not_le hm,
        now + 2 ^ min (job.attempts - 1) 10 * base, ?_⟩))
      simp only [fail, hf, hnoted, ho, hm]
      rfl

theorem succeed_move (now : Time) (job : Job) (w : String) :
    JobMove now (.succeed job.id w) job (job.succeed w).2 := by
  rcases job.succeed_cases w with ⟨_, he⟩ | ⟨ho, he⟩
  · exact he ▸ .kept
  · exact he ▸ .succeeded ho

theorem fail_move (now : Time) (job : Job) (w message : String) (base : Int) :
    JobMove now (.fail job.id w message base) job (job.fail w message base now).2 := by
  rcases job.fail_cases w message base now with
    ⟨_, he⟩ | ⟨ho, he⟩ | ⟨ho, hm, he⟩ | ⟨ho, hm, availableAt, he⟩
  · exact he ▸ .kept
  · exact he ▸ .noted ho
  · exact he ▸ .reviewed ho hm
  · exact he ▸ .retried ho hm availableAt

end Job

/-- What no call changes of a job. -/
theorem JobMove.same {now : Time} {c : QueueCall} {old new : Job} (h : JobMove now c old new) :
    new.id = old.id ∧ new.adapter = old.adapter ∧ new.payload = old.payload ∧
      new.idempotencyKey = old.idempotencyKey ∧ new.maxAttempts = old.maxAttempts := by
  cases h <;> exact ⟨rfl, rfl, rfl, rfl, rfl⟩

namespace QueueDb

theorem get_setJob_cases {q : QueueDb} {now : Time} {c : QueueCall} {job new : Job}
    (hget : q.jobs.get job.id = some job) (hmove : JobMove now c job new) {id : Nat} {old : Job}
    (h : q.jobs.get id = some old) :
    ∃ row, (q.setJob new).jobs.get id = some row ∧ JobMove now c old row := by
  have hid := hmove.same.1
  by_cases he : id = job.id
  · subst he
    obtain rfl : job = old := Option.some.inj (hget.symm.trans h)
    exact ⟨new, get_setJob hget new hid, hmove⟩
  · have hne : id ≠ new.id := fun hn => he (hn.trans hid)
    exact ⟨old, (Table.get_put_of_ne hne).trans h, .kept⟩

theorem get_setJob_none {q : QueueDb} {job : Job} {id : Nat} (h : q.jobs.get id = none) :
    (q.setJob job).jobs.get id = none := by
  simp only [setJob, Table.get_put, h]
  split <;> rfl

theorem jobs_beat (q : QueueDb) (job : Job) (w : String) (now : Time) :
    (q.beat job w now).jobs = q.jobs := by
  unfold beat
  split <;> rfl

/-- Every job is still there after a call, moved as the call allows. -/
theorem run_get {q : QueueDb} {id : Nat} {old : Job} (h : q.jobs.get id = some old) (now : Time)
    (c : QueueCall) :
    ∃ new, (q.run now c).2.jobs.get id = some new ∧ JobMove now c old new := by
  cases c with
  | enqueue request =>
    refine ⟨old, ?_, .kept⟩
    simp only [run, enqueue]
    split
    · exact h
    · exact Table.get_insert_of_get h
  | lease w adapter seconds al gl =>
    rcases q.run_lease now w adapter seconds al gl with he | ⟨job, hget, hw, he⟩
    · exact ⟨old, by rw [he]; exact h, .kept⟩
    · rw [he]
      exact get_setJob_cases hget (.claimed hw) h
  | heartbeat jobId w seconds =>
    simp only [run]
    cases hget : q.jobs.get jobId with
    | none => exact ⟨old, h, .kept⟩
    | some job =>
      obtain rfl := Table.key_of_get hget
      cases hb : job.heartbeat w seconds now with
      | error e => exact ⟨old, by simp only [hb]; exact h, .kept⟩
      | ok renewed =>
        simp only [hb, jobs_beat]
        exact get_setJob_cases hget (Job.heartbeat_move hb) h
  | succeed jobId w =>
    simp only [run]
    cases hget : q.jobs.get jobId with
    | none => exact ⟨old, h, .kept⟩
    | some job =>
      obtain rfl := Table.key_of_get hget
      exact get_setJob_cases hget (job.succeed_move now w) h
  | fail jobId w message base =>
    simp only [run]
    cases hget : q.jobs.get jobId with
    | none => exact ⟨old, h, .kept⟩
    | some job =>
      obtain rfl := Table.key_of_get hget
      exact get_setJob_cases hget (job.fail_move now w message base) h
  | recoverExpired at' =>
    simp only [run, recoverExpired, Table.get_mapRows, h, Option.map_some]
    by_cases he : old.expired (at'.getD now) = true
    · exact ⟨_, by rw [if_pos he], .reclaimed he⟩
    · exact ⟨old, by rw [if_neg he], .kept⟩

/-- A job as `enqueue` adds it. -/
structure Fresh (q : QueueDb) (c : QueueCall) (job : Job) : Prop where
  enqueued : ∃ request, c = .enqueue request ∧ job.maxAttempts = request.maxAttempts
  id : job.id = q.newJobId
  status : job.status = .pending
  owner : job.leaseOwner = none
  expiry : job.leaseExpiresAt = none
  attempts : job.attempts = 0
  key : ∀ other ∈ q.jobs.rows, other.idempotencyKey ≠ job.idempotencyKey

/-- A job that was not there before a call is the one it enqueued. -/
theorem run_new {q : QueueDb} {id : Nat} (h : q.jobs.get id = none) {now : Time} {c : QueueCall}
    {new : Job} (hn : (q.run now c).2.jobs.get id = some new) : Fresh q c new := by
  cases c with
  | enqueue request =>
    simp only [run, enqueue] at hn
    split at hn
    · exact absurd (h.symm.trans hn) (by simp)
    · next hf =>
      rcases Table.mem_insert (Table.mem_of_get hn) with hm | rfl
      · have hold := Table.get_of_mem hm
        rw [Table.key_of_get hn, h] at hold
        cases hold
      · refine ⟨⟨request, rfl, rfl⟩, rfl, rfl, rfl, rfl, rfl, fun other ho hk => ?_⟩
        have := List.find?_eq_none.mp hf other ho
        exact this (by simp [hk])
  | lease w adapter seconds al gl =>
    rcases q.run_lease now w adapter seconds al gl with he | ⟨job, hget, hw, he⟩
    · rw [he] at hn
      exact absurd (h.symm.trans hn) (by simp)
    · rw [he, get_setJob_none h] at hn
      cases hn
  | heartbeat jobId w seconds =>
    simp only [run] at hn
    cases hget : q.jobs.get jobId with
    | none => simp [hget, h] at hn
    | some job =>
      cases hb : job.heartbeat w seconds now with
      | error e => simp [hget, hb, h] at hn
      | ok renewed => simp [hget, hb, jobs_beat, get_setJob_none h] at hn
  | succeed jobId w =>
    simp only [run] at hn
    cases hget : q.jobs.get jobId with
    | none => simp [hget, h] at hn
    | some job => simp [hget, get_setJob_none h] at hn
  | fail jobId w message base =>
    simp only [run] at hn
    cases hget : q.jobs.get jobId with
    | none => simp [hget, h] at hn
    | some job => simp [hget, get_setJob_none h] at hn
  | recoverExpired at' => simp [run, recoverExpired, Table.get_mapRows, h] at hn

theorem mem_run {q : QueueDb} {now : Time} {c : QueueCall} {job : Job}
    (h : job ∈ (q.run now c).2.jobs.rows) :
    (∃ old ∈ q.jobs.rows, JobMove now c old job) ∨ Fresh q c job := by
  have hget := Table.get_of_mem h
  cases ho : q.jobs.get job.id with
  | none => exact .inr (run_new ho hget)
  | some old =>
    obtain ⟨new, hnew, hmove⟩ := run_get ho now c
    obtain rfl : new = job := Option.some.inj (hnew.symm.trans hget)
    exact .inl ⟨old, Table.mem_of_get ho, hmove⟩

theorem runAll_append (q : QueueDb) (xs ys : List (Time × QueueCall)) :
    q.runAll (xs ++ ys) = (q.runAll xs).runAll ys :=
  List.foldl_append

theorem runAll_snoc (q : QueueDb) (xs : List (Time × QueueCall)) (c : Time × QueueCall) :
    q.runAll (xs ++ [c]) = ((q.runAll xs).run c.1 c.2).2 :=
  q.runAll_append xs [c]

/-- What fresh jobs satisfy and every move keeps holds of each job of each run. -/
theorem runAll_holds {I : Job → Prop}
    (hfresh : ∀ q c job, Fresh q c job → I job)
    (hmove : ∀ now c old new, I old → JobMove now c old new → I new)
    (calls : List (Time × QueueCall)) : ∀ job ∈ (runAll {} calls).jobs.rows, I job := by
  induction calls using List.reverseRecOn with
  | nil => exact fun job h => absurd h List.not_mem_nil
  | append_singleton calls c ih =>
    intro job h
    rw [runAll_snoc] at h
    rcases mem_run h with ⟨old, ho, hm⟩ | hf
    · exact hmove c.1 c.2 old job (ih old ho) hm
    · exact hfresh _ _ _ hf

end QueueDb

/-! ### Lease safety -/

namespace Job

/-- A job is running exactly when it has a lease owner and a lease expiry, and has both or
neither. -/
structure Consistent (job : Job) : Prop where
  owner : job.status = .running ↔ job.leaseOwner.isSome
  expiry : job.status = .running ↔ job.leaseExpiresAt.isSome

def Settled (job : Job) : Prop := job.status = .succeeded ∨ job.status = .manualReview

/-- The two versions of a row carry the same lease. -/
structure SameLease (old new : Job) : Prop where
  status : new.status = old.status
  owner : new.leaseOwner = old.leaseOwner
  expiry : new.leaseExpiresAt = old.leaseExpiresAt

theorem SameLease.refl (job : Job) : job.SameLease job := ⟨rfl, rfl, rfl⟩

theorem running_of_owns {job : Job} {w : String} (h : job.owns w = true) :
    job.status = .running ∧ job.leaseOwner = some w := by
  simpa [owns] using h

theorem status_of_waiting {job : Job} (h : job.waiting = true) :
    job.status = .pending ∨ job.status = .retry := by
  simpa [waiting] using h

theorem running_of_expired {job : Job} {now : Time} (h : job.expired now = true) :
    job.status = .running := by
  simp only [expired, Bool.and_eq_true, beq_iff_eq] at h
  exact h.1

theorem consistent_move {now : Time} {c : QueueCall} {old new : Job} (h : old.Consistent)
    (hm : JobMove now c old new) : new.Consistent := by
  cases hm with
  | kept => exact h
  | claimed _ => exact ⟨by simp [claim], by simp [claim]⟩
  | renewed ho => exact ⟨h.owner, by simp [(running_of_owns ho).1]⟩
  | succeeded _ => exact ⟨by simp, by simp⟩
  | noted _ => exact ⟨h.owner, h.expiry⟩
  | reviewed _ _ => exact ⟨by simp, by simp⟩
  | retried _ _ _ => exact ⟨by simp, by simp⟩
  | reclaimed _ => exact ⟨by simp [reclaim], by simp [reclaim]⟩

theorem settled_move {now : Time} {c : QueueCall} {old new : Job} (h : old.Settled)
    (hm : JobMove now c old new) : new.status = old.status := by
  have hrun : old.status ≠ .running := by rcases h with h | h <;> simp [h]
  cases hm with
  | kept => rfl
  | noted _ => rfl
  | claimed hw => rcases h with h | h <;> rcases status_of_waiting hw with hw | hw <;> simp [h] at hw
  | renewed ho => rfl
  | succeeded ho => exact absurd (running_of_owns ho).1 hrun
  | reviewed ho _ => exact absurd (running_of_owns ho).1 hrun
  | retried ho _ _ => exact absurd (running_of_owns ho).1 hrun
  | reclaimed he => exact absurd (running_of_expired he) hrun

end Job

/-- The worker that makes a call. -/
def QueueCall.worker : QueueCall → Option String
  | .lease w _ _ _ _ => some w
  | .heartbeat _ w _ => some w
  | .succeed _ w => some w
  | .fail _ w _ _ => some w
  | .enqueue _ => none
  | .recoverExpired _ => none

namespace QueueDb

/-- A call that ends the lease of `w` on a job: a recovery that reclaims it, or a report of
`w` itself. -/
def Releases (q : QueueDb) (w : String) (id : Nat) (now : Time) : QueueCall → Prop
  | .recoverExpired at' => ∃ job, q.jobs.get id = some job ∧ job.expired (at'.getD now) = true
  | .succeed job v => job = id ∧ v = w
  | .fail job v _ _ => job = id ∧ v = w
  | _ => False

/-- Runs with no call that ends the lease of `w` on the job. -/
inductive Holding (w : String) (id : Nat) (q : QueueDb) : QueueDb → Prop where
  | refl : Holding w id q q
  | tail {r : QueueDb} (h : Holding w id q r) {now : Time} {c : QueueCall}
      (hc : ¬r.Releases w id now c) : Holding w id q (r.run now c).2

/-- A call that does not end the lease keeps it, and only `w` changes it. -/
theorem held_step {q : QueueDb} {w : String} {id : Nat} {old : Job}
    (hget : q.jobs.get id = some old) (ho : old.owns w = true) {now : Time} {c : QueueCall}
    (hc : ¬q.Releases w id now c) :
    ∃ new, (q.run now c).2.jobs.get id = some new ∧ new.owns w = true ∧
      (c.worker ≠ some w → old.SameLease new) := by
  obtain ⟨new, hnew, hm⟩ := run_get hget now c
  obtain ⟨hs, hw⟩ := Job.running_of_owns ho
  have hid := Table.key_of_get hget
  refine ⟨new, hnew, ?_⟩
  have other : ∀ {v : String}, old.owns v = true → v = w := fun hv =>
    Option.some.inj ((Job.running_of_owns hv).2.symm.trans hw)
  cases hm with
  | kept => exact ⟨ho, fun _ => .refl _⟩
  | noted _ => exact ⟨ho, fun _ => ⟨rfl, rfl, rfl⟩⟩
  | claimed hwait => rcases Job.status_of_waiting hwait with h | h <;> simp [h] at hs
  | renewed hv =>
    obtain rfl := other hv
    exact ⟨ho, fun hne => absurd rfl hne⟩
  | succeeded hv => exact absurd ⟨hid, other hv⟩ hc
  | reviewed hv _ => exact absurd ⟨hid, other hv⟩ hc
  | retried hv _ _ => exact absurd ⟨hid, other hv⟩ hc
  | reclaimed he => exact absurd ⟨old, hget, he⟩ hc

theorem held_run {q r : QueueDb} {w : String} {id : Nat} {old : Job}
    (hget : q.jobs.get id = some old) (ho : old.owns w = true) (h : Holding w id q r) :
    ∃ row, r.jobs.get id = some row ∧ row.owns w = true := by
  induction h with
  | refl => exact ⟨old, hget, ho⟩
  | tail _ hc ih =>
    obtain ⟨row, hrow, hrow'⟩ := ih
    obtain ⟨new, hnew, hn, _⟩ := held_step hrow hrow' hc
    exact ⟨new, hnew, hn⟩

/-- The row that a lease answers is in the table, leased to the worker. -/
theorem leased_of_run {q : QueueDb} {now : Time} {w adapter : String} {seconds : Int}
    {al gl : Nat} {job : Job} (h : (q.run now (.lease w adapter seconds al gl)).1 = .job (some job)) :
    (q.run now (.lease w adapter seconds al gl)).2.jobs.get job.id = some job ∧
      job.owns w = true := by
  rcases q.run_lease now w adapter seconds al gl with he | ⟨old, hget, _, he⟩
  · rw [he] at h
    cases h
  · rw [he] at h ⊢
    cases h
    exact ⟨get_setJob hget _ rfl, by simp [Job.owns, Job.claim]⟩

theorem settled_run {q : QueueDb} {job : Job} (hget : q.jobs.get job.id = some job)
    (hs : job.Settled) (later : List (Time × QueueCall)) :
    ∃ row, (q.runAll later).jobs.get job.id = some row ∧ row.status = job.status := by
  induction later using List.reverseRecOn with
  | nil => exact ⟨job, hget, rfl⟩
  | append_singleton later c ih =>
    obtain ⟨row, hrow, hst⟩ := ih
    have hrs : row.Settled := by
      unfold Job.Settled
      rw [hst]
      exact hs
    obtain ⟨new, hnew, hm⟩ := run_get hrow c.1 c.2
    rw [runAll_snoc]
    exact ⟨new, hnew, (Job.settled_move hrs hm).trans hst⟩

/-- One job for each idempotency key. -/
def OneEach (q : QueueDb) : Prop :=
  ∀ a ∈ q.jobs.rows, ∀ b ∈ q.jobs.rows, a.idempotencyKey = b.idempotencyKey → a = b

theorem oneEach_run {q : QueueDb} (h : q.OneEach) (now : Time) (c : QueueCall) :
    (q.run now c).2.OneEach := by
  intro a ha b hb hk
  have eq_of_id : a.id = b.id → a = b := fun hid =>
    Option.some.inj ((Table.get_of_mem ha).symm.trans (hid ▸ Table.get_of_mem hb))
  rcases mem_run ha with ⟨olda, hoa, hma⟩ | hfa <;> rcases mem_run hb with ⟨oldb, hob, hmb⟩ | hfb
  · obtain ⟨hida, _, _, hka, _⟩ := hma.same
    obtain ⟨hidb, _, _, hkb, _⟩ := hmb.same
    obtain rfl := h olda hoa oldb hob (hka.symm.trans (hk.trans hkb))
    exact eq_of_id (hida.trans hidb.symm)
  · obtain ⟨_, _, _, hka, _⟩ := hma.same
    exact absurd (hka.symm.trans hk) (hfb.key olda hoa)
  · obtain ⟨_, _, _, hkb, _⟩ := hmb.same
    exact absurd (hkb.symm.trans hk.symm) (hfa.key oldb hob)
  · exact eq_of_id (hfa.id.trans hfb.id.symm)

theorem oneEach_runAll (calls : List (Time × QueueCall)) : (runAll {} calls).OneEach := by
  induction calls using List.reverseRecOn with
  | nil => exact fun a h => absurd h List.not_mem_nil
  | append_singleton calls c ih =>
    rw [runAll_snoc]
    exact oneEach_run ih c.1 c.2

/-- A report that returns `False` leaves every lease and every availability as it was. -/
theorem same_of_false {q : QueueDb} {now : Time} {c : QueueCall}
    (h : (q.run now c).1 = .done false) {id : Nat} {old : Job} (hget : q.jobs.get id = some old) :
    ∃ new, (q.run now c).2.jobs.get id = some new ∧ old.SameLease new ∧
      new.availableAt = old.availableAt := by
  obtain ⟨new, hnew, hm⟩ := run_get hget now c
  refine ⟨new, hnew, ?_⟩
  obtain rfl := Table.key_of_get hget
  have owned : ∀ w, old.owns w = true → c ≠ .succeed old.id w ∧ ∀ m b, c ≠ .fail old.id w m b := by
    intro w ho
    refine ⟨?_, fun m b => ?_⟩
    · rintro rfl
      rcases old.succeed_cases w with ⟨hn, _⟩ | ⟨_, he⟩
      · simp [ho] at hn
      · simp [run, hget, he] at h
    · rintro rfl
      rcases old.fail_cases w m b now with ⟨hn, _⟩ | ⟨hn, _⟩ | ⟨_, _, he⟩ | ⟨_, _, t, he⟩
      · simp [ho] at hn
      · simp [ho] at hn
      · simp [run, hget, he] at h
      · simp [run, hget, he] at h
  cases hm with
  | kept => exact ⟨.refl _, rfl⟩
  | noted _ => exact ⟨⟨rfl, rfl, rfl⟩, rfl⟩
  | succeeded ho => exact absurd rfl (owned _ ho).1
  | reviewed ho _ => exact absurd rfl ((owned _ ho).2 _ _)
  | retried ho _ _ => exact absurd rfl ((owned _ ho).2 _ _)
  | claimed hw =>
    rename_i w adapter seconds al gl
    rcases q.run_lease now w adapter seconds al gl with he | ⟨_, _, _, he⟩ <;>
      simp [he] at h
  | renewed ho =>
    rename_i w seconds
    cases hb : old.heartbeat w seconds now <;> simp [run, hget, hb] at h
  | reclaimed _ => simp [run] at h

end QueueDb

/-- Whatever the calls before, a job is running exactly when it has an owner and an expiry; a
lease stays as its worker has it until a recovery reclaims the job or the worker reports; a job
that is settled stays so; there is one job for each key; and a report that returns `False`
changes no lease and no availability. -/
theorem lease_safety (calls : List (Time × QueueCall)) :
    (∀ job ∈ (QueueDb.runAll {} calls).jobs.rows, job.Consistent) ∧
    (∀ now w adapter seconds al gl job,
      ((QueueDb.runAll {} calls).run now (.lease w adapter seconds al gl)).1 = .job (some job) →
      ∀ q, QueueDb.Holding w job.id
          ((QueueDb.runAll {} calls).run now (.lease w adapter seconds al gl)).2 q →
        ∃ row, q.jobs.get job.id = some row ∧ row.owns w = true ∧
          ∀ now c, ¬q.Releases w job.id now c → c.worker ≠ some w →
            ∃ new, (q.run now c).2.jobs.get job.id = some new ∧ row.SameLease new) ∧
    (∀ job ∈ (QueueDb.runAll {} calls).jobs.rows, job.Settled → ∀ later,
      ∃ row, (QueueDb.runAll {} (calls ++ later)).jobs.get job.id = some row ∧
        row.status = job.status) ∧
    (QueueDb.runAll {} calls).OneEach ∧
    (∀ now c, ((QueueDb.runAll {} calls).run now c).1 = .done false →
      ∀ job ∈ (QueueDb.runAll {} calls).jobs.rows,
        ∃ row, ((QueueDb.runAll {} calls).run now c).2.jobs.get job.id = some row ∧
          job.SameLease row ∧ row.availableAt = job.availableAt) := by
  refine ⟨?_, ?_, ?_, QueueDb.oneEach_runAll calls, ?_⟩
  · refine QueueDb.runAll_holds (fun q c job hf => ?_) (fun _ _ _ _ => Job.consistent_move) calls
    exact ⟨by simp [hf.status, hf.owner], by simp [hf.status, hf.expiry]⟩
  · intro now w adapter seconds al gl job hl q hq
    obtain ⟨hget, ho⟩ := QueueDb.leased_of_run hl
    obtain ⟨row, hrow, hown⟩ := QueueDb.held_run hget ho hq
    refine ⟨row, hrow, hown, fun now c hc hne => ?_⟩
    obtain ⟨new, hnew, _, hsame⟩ := QueueDb.held_step hrow hown hc
    exact ⟨new, hnew, hsame hne⟩
  · intro job hj hs later
    rw [QueueDb.runAll_append]
    exact QueueDb.settled_run (Table.get_of_mem hj) hs later
  · exact fun now c h job hj => QueueDb.same_of_false h (Table.get_of_mem hj)

/-! ### Attempts -/

namespace QueueDb

/-- The job that a call leased, going by its answer. -/
def leasedJob : QueueCall → QueueAnswer → Option Nat
  | .lease _ _ _ _ _, .job (some job) => some job.id
  | _, _ => none

/-- How often the calls lease the job. -/
def leases (id : Nat) (q : QueueDb) : List (Time × QueueCall) → Nat
  | [] => 0
  | c :: rest =>
    (if leasedJob c.2 (q.run c.1 c.2).1 = some id then 1 else 0) + (q.run c.1 c.2).2.leases id rest

theorem leases_append (id : Nat) (q : QueueDb) (xs ys : List (Time × QueueCall)) :
    q.leases id (xs ++ ys) = q.leases id xs + (q.runAll xs).leases id ys := by
  induction xs generalizing q with
  | nil => simp [leases, runAll]
  | cons c xs ih =>
    have := ih (q.run c.1 c.2).2
    simp only [List.cons_append, leases, this, Nat.add_assoc]
    rfl

theorem leases_snoc (id : Nat) (q : QueueDb) (xs : List (Time × QueueCall))
    (c : Time × QueueCall) :
    q.leases id (xs ++ [c]) = q.leases id xs +
      if leasedJob c.2 ((q.runAll xs).run c.1 c.2).1 = some id then 1 else 0 := by
  rw [leases_append]
  rfl

/-- Only a lease of the job counts an attempt. -/
theorem attempts_run {q : QueueDb} {id : Nat} {old : Job} (hget : q.jobs.get id = some old)
    (now : Time) (c : QueueCall) :
    ∃ new, (q.run now c).2.jobs.get id = some new ∧ JobMove now c old new ∧
      new.attempts = old.attempts + if leasedJob c (q.run now c).1 = some id then 1 else 0 := by
  obtain ⟨new, hnew, hm⟩ := run_get hget now c
  refine ⟨new, hnew, hm, ?_⟩
  cases c with
  | lease w adapter seconds al gl =>
    rcases q.run_lease now w adapter seconds al gl with he | ⟨job, hjob, _, he⟩
    · rw [he] at hnew ⊢
      obtain rfl := Option.some.inj (hget.symm.trans hnew)
      simp [leasedJob]
    · rw [he] at hnew ⊢
      have hleased : leasedJob (.lease w adapter seconds al gl)
          (.job (some (job.claim w now (now + seconds)))) = some job.id := rfl
      rw [hleased]
      by_cases hid : job.id = id
      · subst hid
        obtain rfl := Option.some.inj (hget.symm.trans hjob)
        have hput := get_setJob hget (old.claim w now (now + seconds)) rfl
        obtain rfl := Option.some.inj (hput.symm.trans hnew)
        simp [Job.claim]
      · have hne : id ≠ (job.claim w now (now + seconds)).id := fun h => hid h.symm
        have hsame := (Table.get_put_of_ne hne).trans hget
        obtain rfl := Option.some.inj (hsame.symm.trans hnew)
        simp [hid]
  | _ => cases hm <;> simp [leasedJob, Job.reclaim]

theorem leasedJob_of_none {q : QueueDb} {id : Nat} (h : q.jobs.get id = none) (now : Time)
    (c : QueueCall) : leasedJob c (q.run now c).1 ≠ some id := by
  cases c with
  | lease w adapter seconds al gl =>
    rcases q.run_lease now w adapter seconds al gl with he | ⟨job, hjob, _, he⟩
    · simp [he, leasedJob]
    · rw [he]
      intro hid
      obtain rfl : job.id = id := Option.some.inj hid
      cases h.symm.trans hjob
  | _ => simp [leasedJob]

/-- A recovery does not reclaim the job once its attempts are used up. -/
def inTime (id : Nat) (q : QueueDb) (now : Time) : QueueCall → Bool
  | .recoverExpired at' =>
    (q.jobs.get id).all fun job => !job.expired (at'.getD now) || decide (job.attempts < job.maxAttempts)
  | _ => true

/-- No recovery of the run does. -/
def reclaimsInTime (id : Nat) (q : QueueDb) : List (Time × QueueCall) → Bool
  | [] => true
  | c :: rest => q.inTime id c.1 c.2 && (q.run c.1 c.2).2.reclaimsInTime id rest

theorem reclaimsInTime_snoc {id : Nat} {q : QueueDb} {calls : List (Time × QueueCall)}
    {c : Time × QueueCall} (h : q.reclaimsInTime id (calls ++ [c]) = true) :
    q.reclaimsInTime id calls = true ∧ (q.runAll calls).inTime id c.1 c.2 = true := by
  induction calls generalizing q with
  | nil => simpa [reclaimsInTime, runAll] using h
  | cons d calls ih =>
    simp only [List.cons_append, reclaimsInTime, Bool.and_eq_true] at h ⊢
    have := ih h.2
    exact ⟨⟨h.1, this.1⟩, this.2⟩

/-- The attempts of a job that may be leased at all. -/
structure Job.InBounds (job : Job) : Prop where
  most : job.attempts ≤ job.maxAttempts
  waiting : job.waiting = true → job.attempts < job.maxAttempts

theorem inBounds_move {now : Time} {c : QueueCall} {old new : Job} (h : Job.InBounds old)
    (hm : JobMove now c old new)
    (hc : ∀ at', c = .recoverExpired at' → old.expired (at'.getD now) = true →
      old.attempts < old.maxAttempts) : Job.InBounds new := by
  cases hm with
  | kept => exact h
  | claimed hw =>
    have := h.waiting hw
    exact ⟨this, fun hw => by simp [Job.claim, Job.waiting] at hw⟩
  | renewed _ => exact ⟨h.most, h.waiting⟩
  | succeeded _ => exact ⟨h.most, fun hw => by simp [Job.waiting] at hw⟩
  | noted _ => exact ⟨h.most, h.waiting⟩
  | reviewed _ _ => exact ⟨h.most, fun hw => by simp [Job.waiting] at hw⟩
  | retried _ hlt _ => exact ⟨h.most, fun _ => hlt⟩
  | reclaimed he => exact ⟨h.most, fun _ => hc _ rfl he⟩

theorem leases_eq_attempts (id : Nat) (calls : List (Time × QueueCall)) :
    (∀ job, (runAll {} calls).jobs.get id = some job → leases id {} calls = job.attempts) ∧
      ((runAll {} calls).jobs.get id = none → leases id {} calls = 0) := by
  induction calls using List.reverseRecOn with
  | nil => exact ⟨fun job h => (by cases h), fun _ => rfl⟩
  | append_singleton calls c ih =>
    rw [runAll_snoc, leases_snoc]
    cases ho : (runAll {} calls).jobs.get id with
    | none =>
      have hno := leasedJob_of_none ho c.1 c.2
      have hz := ih.2 ho
      refine ⟨fun job hj => ?_, fun _ => ?_⟩
      · rw [(run_new ho hj).attempts, hz, if_neg hno]
      · rw [hz, if_neg hno]
    | some old =>
      obtain ⟨new, hnew, _, hat⟩ := attempts_run ho c.1 c.2
      refine ⟨fun job hj => ?_, fun hn => ?_⟩
      · obtain rfl := Option.some.inj (hnew.symm.trans hj)
        rw [ih.1 old ho, hat]
      · cases hnew.symm.trans hn

theorem inBounds_runAll {id : Nat} {calls : List (Time × QueueCall)}
    (h : reclaimsInTime id {} calls = true) :
    ∀ job, (runAll {} calls).jobs.get id = some job → 1 ≤ job.maxAttempts → Job.InBounds job := by
  induction calls using List.reverseRecOn with
  | nil => exact fun job hj => (by cases hj)
  | append_singleton calls c ih =>
    intro job hj hmax
    obtain ⟨hbefore, hin⟩ := reclaimsInTime_snoc h
    rw [runAll_snoc] at hj
    cases ho : (runAll {} calls).jobs.get id with
    | none =>
      have hf := run_new ho hj
      exact ⟨by rw [hf.attempts]; exact Nat.zero_le _, fun _ => by rw [hf.attempts]; exact hmax⟩
    | some old =>
      obtain ⟨new, hnew, hm⟩ := run_get ho c.1 c.2
      obtain rfl : new = job := Option.some.inj (hnew.symm.trans hj)
      have hold := ih hbefore old ho (hm.same.2.2.2.2 ▸ hmax)
      refine inBounds_move hold hm fun at' hc he => ?_
      rw [hc] at hin
      simpa [inTime, ho, he] using hin

end QueueDb

/-- In every run that reclaims a job only while it has attempts left, the job is leased at most
`max_attempts` times and its counter stays within them. -/
theorem attempts_of_reclaimsInTime {id : Nat} {calls : List (Time × QueueCall)}
    (h : QueueDb.reclaimsInTime id {} calls = true) {job : Job}
    (hjob : (QueueDb.runAll {} calls).jobs.get id = some job) (hmax : 1 ≤ job.maxAttempts) :
    QueueDb.leases id {} calls ≤ job.maxAttempts ∧ job.attempts ≤ job.maxAttempts := by
  have hb := (QueueDb.inBounds_runAll h job hjob hmax).most
  exact ⟨(QueueDb.leases_eq_attempts id calls).1 job hjob ▸ hb, hb⟩

/-- A job that may be tried `n` times. -/
def oneJob (n : Nat) : JobRequest :=
  { kind := "archive_upload", adapter := "file_provider", payload := ⟨1, "i"⟩,
    idempotencyKey := "k", maxAttempts := n }

/-- A worker dies on the first of two attempts; another fails on the second. -/
def retriedOnce : List (Time × QueueCall) :=
  [(0, .enqueue (oneJob 2)), (0, .lease "w" "file_provider" 60 1 1), (61, .recoverExpired none),
    (61, .lease "v" "file_provider" 60 1 1), (62, .fail 1 "v" "boom" 5)]

theorem attempts_of_reclaimsInTime_retriedOnce :
    ∃ job, (QueueDb.runAll {} retriedOnce).jobs.get 1 = some job ∧ 1 ≤ job.maxAttempts ∧
      QueueDb.leases 1 {} retriedOnce ≤ job.maxAttempts ∧ job.attempts ≤ job.maxAttempts := by
  have hget : ∃ job, (QueueDb.runAll {} retriedOnce).jobs.get 1 = some job ∧ 1 ≤ job.maxAttempts := by
    decide
  obtain ⟨job, hjob, hmax⟩ := hget
  exact ⟨job, hjob, hmax, attempts_of_reclaimsInTime (by decide) hjob hmax⟩

/-- A worker dies holding the only attempt; the job is leased again. -/
theorem leased_beyond_max :
    ∃ calls : List (Time × QueueCall), ∃ job, (QueueDb.runAll {} calls).jobs.get 1 = some job ∧
      1 ≤ job.maxAttempts ∧ job.maxAttempts < QueueDb.leases 1 {} calls ∧
      job.maxAttempts < job.attempts :=
  ⟨[(0, .enqueue (oneJob 1)), (0, .lease "w" "file_provider" 60 1 1), (61, .recoverExpired none),
      (61, .lease "w" "file_provider" 60 1 1)], by decide⟩

end Mnema
