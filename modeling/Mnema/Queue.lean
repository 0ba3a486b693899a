import Mnema.Models
import Mnema.Lib.Prog
import Mathlib.Data.List.Sort
import Mathlib.Algebra.Group.Int.Defs

/-! The durable job queue. `lease` is a program whose reads and claim are single
operations, so that other calls may fall between them. -/

namespace Mnema

structure WorkerHeartbeat where
  workerId : String
  adapter : String
  heartbeatAt : Time
deriving DecidableEq, Repr

/-- The tables that the queue works on. -/
structure QueueDb where
  jobs : Table Job Nat Job.id := .empty
  heartbeats : Table WorkerHeartbeat String WorkerHeartbeat.workerId := .empty

namespace Job

/-- `status == RUNNING and lease_expires_at > now`; a null never compares. -/
def unexpired (now : Time) (job : Job) : Bool :=
  job.status == .running && job.leaseExpiresAt.any fun e => decide (now < e)

/-- `status == RUNNING and lease_expires_at < now`. -/
def expired (now : Time) (job : Job) : Bool :=
  job.status == .running && job.leaseExpiresAt.any fun e => decide (e < now)

def waiting (job : Job) : Bool := job.status == .pending || job.status == .retry

def leasable (adapter : String) (now : Time) (job : Job) : Bool :=
  job.adapter == adapter && job.waiting && decide (job.availableAt ≤ now)

/-- `order_by(Job.available_at, Job.id)`. -/
def before (a b : Job) : Prop :=
  a.availableAt < b.availableAt ∨ (a.availableAt = b.availableAt ∧ a.id ≤ b.id)

instance : DecidableRel before := fun a b => by unfold before; infer_instance

/-- `_owns`. -/
def owns (job : Job) (workerId : String) : Bool :=
  job.status == .running && job.leaseOwner == some workerId

/-- The values of the claim update. -/
def claim (job : Job) (workerId : String) (now expires : Time) : Job :=
  { job with
    status := .running
    leaseOwner := some workerId
    leaseExpiresAt := some expires
    heartbeatAt := some now
    attempts := job.attempts + 1 }

/-- The values of the recovery update. -/
def reclaim (job : Job) (now : Time) : Job :=
  { job with
    status := .retry
    leaseOwner := none
    leaseExpiresAt := none
    availableAt := now
    lastError := some "lease expired; recovered after interruption" }

/-- What `heartbeat` does to the job; its row of `worker_heartbeats` apart. -/
def heartbeat (job : Job) (workerId : String) (leaseSeconds : Int) (now : Time) :
    Except PyError Job :=
  if job.status ≠ .running ∨ job.leaseOwner ≠ some workerId then
    .error (.runtime "worker does not own job lease")
  else .ok { job with heartbeatAt := some now, leaseExpiresAt := some (now + leaseSeconds) }

def succeed (job : Job) (workerId : String) : Bool × Job :=
  if !job.owns workerId then (false, job)
  else (true, { job with status := .succeeded, leaseOwner := none, leaseExpiresAt := none })

/-- `message` is the redacted text of the error. A job that is owned was leased, so that
`attempts - 1` is not negative. -/
def fail (job : Job) (workerId message : String) (baseBackoffSeconds : Int) (now : Time) :
    Bool × Job :=
  if job.leaseOwner.isSome && job.leaseOwner != some workerId then (false, job)
  else
    let job := { job with lastError := some message }
    if !job.owns workerId then (false, job)
    else
      let job := { job with leaseOwner := none, leaseExpiresAt := none }
      if job.maxAttempts ≤ job.attempts then (true, { job with status := .manualReview })
      else
        (true, { job with
          status := .retry
          availableAt := now + 2 ^ min (job.attempts - 1) 10 * baseBackoffSeconds })

end Job

/-! ### Leasing -/

inductive QueueOp where
  | utcnow
  | runningJobs (now : Time)
  | candidate (adapter : String) (now : Time)
  | claim (id : Nat) (workerId : String) (now expires : Time)
  | refresh (id : Nat)
deriving DecidableEq

@[reducible] def QueueOp.Ans : QueueOp → Type
  | utcnow => Time
  | runningJobs _ => List Job
  | candidate _ _ => Option Job
  | claim _ _ _ _ => Nat
  | refresh _ => Option Job

abbrev QueueCode (α : Type) := Prog QueueOp QueueOp.Ans PyError α

def queueOp (o : QueueOp) : QueueCode o.Ans := .op o

def lease (workerId adapter : String) (leaseSeconds : Int) (adapterLimit globalLimit : Nat) :
    QueueCode (Option Job) := do
  let now ← queueOp .utcnow
  let runningGlobal ← queueOp (.runningJobs now)
  if globalLimit ≤ runningGlobal.length then return none
  if adapterLimit ≤ runningGlobal.countP (fun job => job.adapter == adapter) then return none
  match ← queueOp (.candidate adapter now) with
  | none => return none
  | some candidate => do
    let rowcount ← queueOp (.claim candidate.id workerId now (now + leaseSeconds))
    if rowcount ≠ 1 then return none
    match ← queueOp (.refresh candidate.id) with
    | some job => return some job
    | none => throw (.runtime "could not refresh instance")

namespace QueueDb

def newJobId (q : QueueDb) : Nat := (q.jobs.rows.map (·.id)).foldl max 0 + 1

def setJob (q : QueueDb) (job : Job) : QueueDb := { q with jobs := q.jobs.put job }

def runningJobs (q : QueueDb) (now : Time) : List Job := q.jobs.rows.filter (·.unexpired now)

def candidate (q : QueueDb) (adapter : String) (now : Time) : Option Job :=
  ((q.jobs.rows.filter (·.leasable adapter now)).insertionSort Job.before).head?

/-- What one operation answers at the time `now`. -/
def step (now : Time) (q : QueueDb) : (o : QueueOp) → o.Ans × QueueDb
  | .utcnow => (now, q)
  | .runningJobs at' => (q.runningJobs at', q)
  | .candidate adapter at' => (q.candidate adapter at', q)
  | .claim id workerId at' expires =>
    match q.jobs.get id with
    | some job =>
      if job.waiting then (1, q.setJob (job.claim workerId at' expires)) else (0, q)
    | none => (0, q)
  | .refresh id => (q.jobs.get id, q)

end QueueDb

/-! ### Calls as one step -/

structure JobRequest where
  kind : String
  adapter : String
  payload : JobPayload
  idempotencyKey : String
  maxAttempts : Nat := 5

/-- A call of the queue. Those that take a job load it by its id first; where there is none
they are not made. -/
inductive QueueCall where
  | enqueue (request : JobRequest)
  | lease (workerId adapter : String) (leaseSeconds : Int) (adapterLimit globalLimit : Nat)
  | heartbeat (id : Nat) (workerId : String) (leaseSeconds : Int)
  | succeed (id : Nat) (workerId : String)
  | fail (id : Nat) (workerId message : String) (baseBackoffSeconds : Int)
  | recoverExpired (now : Option Time)

inductive QueueAnswer where
  | job (job : Option Job)
  | done (result : Bool)
  | count (rows : Nat)
  | raised (error : PyError)
  | noCall
deriving DecidableEq

namespace QueueDb

def enqueue (q : QueueDb) (request : JobRequest) (now : Time) : Job × QueueDb :=
  match q.jobs.first fun job => job.idempotencyKey == request.idempotencyKey with
  | some existing => (existing, q)
  | none =>
    let job : Job :=
      { id := q.newJobId, kind := request.kind, adapter := request.adapter,
        payload := request.payload, idempotencyKey := request.idempotencyKey,
        maxAttempts := request.maxAttempts, availableAt := now }
    (job, { q with jobs := q.jobs.insert job })

/-- The row of `worker_heartbeats`, added where it is missing. -/
def beat (q : QueueDb) (job : Job) (workerId : String) (now : Time) : QueueDb :=
  match q.heartbeats.get workerId with
  | some heartbeat => { q with heartbeats := q.heartbeats.put { heartbeat with heartbeatAt := now } }
  | none => { q with heartbeats := q.heartbeats.insert ⟨workerId, job.adapter, now⟩ }

/-- `recover_expired`, with the number of jobs it took back. -/
def recoverExpired (q : QueueDb) (now : Time) : Nat × QueueDb :=
  (q.jobs.rows.countP (·.expired now),
    { q with
      jobs := q.jobs.mapRows (fun job => if job.expired now then job.reclaim now else job)
        (fun job => by split <;> rfl) })

/-- A call made at the time `now`, with no other call in between. -/
def run (q : QueueDb) (now : Time) : QueueCall → QueueAnswer × QueueDb
  | .enqueue request => (.job (some (q.enqueue request now).1), (q.enqueue request now).2)
  | .lease workerId adapter leaseSeconds adapterLimit globalLimit =>
    match (lease workerId adapter leaseSeconds adapterLimit globalLimit).exec (QueueDb.step now) q
    with
    | (.ok job, q) => (.job job, q)
    | (.error e, q) => (.raised e, q)
  | .heartbeat id workerId leaseSeconds =>
    match q.jobs.get id with
    | none => (.noCall, q)
    | some job =>
      match job.heartbeat workerId leaseSeconds now with
      | .ok renewed => (.job (some renewed), (q.setJob renewed).beat renewed workerId now)
      | .error e => (.raised e, q)
  | .succeed id workerId =>
    match q.jobs.get id with
    | none => (.noCall, q)
    | some job => (.done (job.succeed workerId).1, q.setJob (job.succeed workerId).2)
  | .fail id workerId message base =>
    match q.jobs.get id with
    | none => (.noCall, q)
    | some job =>
      (.done (job.fail workerId message base now).1, q.setJob (job.fail workerId message base now).2)
  | .recoverExpired at' =>
    (.count (q.recoverExpired (at'.getD now)).1, (q.recoverExpired (at'.getD now)).2)

/-- The calls in order, each at its own time. -/
def runAll (q : QueueDb) (calls : List (Time × QueueCall)) : QueueDb :=
  calls.foldl (fun q c => (q.run c.1 c.2).2) q

end QueueDb

end Mnema
