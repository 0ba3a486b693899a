import Mnema.Leases
import Mnema.Lib.Pool

/-! The concurrency limits of `lease`. The claim update protects one row; the
limits speak of a set of rows that was read before it. -/

namespace Mnema

/-- `overtaken i` records that a claim of another call took effect since `i` last read the
running jobs. -/
structure LeaseState (ι : Type) where
  queue : QueueDb
  clock : Time
  overtaken : ι → Bool

namespace LeaseState

variable {ι : Type} [DecidableEq ι]

def running (s : LeaseState ι) : List Job := s.queue.runningJobs s.clock

/-- The running jobs with an unexpired lease keep to the limits. -/
structure Within (adapterLimit globalLimit : Nat) (s : LeaseState ι) : Prop where
  globally : s.running.length ≤ globalLimit
  each : ∀ adapter, s.running.countP (fun job => job.adapter == adapter) ≤ adapterLimit

/-- The two checks of `lease`, on the jobs that run now. -/
structure Room (adapterLimit globalLimit : Nat) (s : LeaseState ι) (adapter : String) : Prop where
  globally : s.running.length < globalLimit
  here : s.running.countP (fun job => job.adapter == adapter) < adapterLimit

def note (s : LeaseState ι) (i : ι) : (o : QueueOp) → o.Ans → ι → Bool
  | .runningJobs _, _ => Function.update s.overtaken i false
  | .claim _ _ _ _, rowcount => fun j => if rowcount = 1 ∧ j ≠ i then true else s.overtaken j
  | _, _ => s.overtaken

def answer (i : ι) (s : LeaseState ι) (o : QueueOp) : o.Ans × LeaseState ι :=
  ((s.queue.step s.clock o).1,
    { s with
      queue := (s.queue.step s.clock o).2
      overtaken := s.note i o (s.queue.step s.clock o).1 })

end LeaseState

/-- Calls of `lease` by any number of workers, one operation at a time, while the clock runs. -/
def leasePool {ι : Type} [DecidableEq ι] (adapterLimit globalLimit : Nat)
    (G : ι → LeaseState ι → QueueOp → Prop) :
    Pool (LeaseState ι) ι QueueOp QueueOp.Ans PyError (Option Job) where
  env := fun i s o a s' => (a, s') = s.answer i o ∧ G i s o
  start := fun _ _ p => ∃ workerId adapter leaseSeconds,
    p = lease workerId adapter leaseSeconds adapterLimit globalLimit
  drift := fun s s' => s.clock ≤ s'.clock ∧ s' = { s with clock := s'.clock }

namespace LeaseState

variable {ι : Type} {al gl : Nat}

instance (s : LeaseState ι) (adapter : String) : Decidable (s.Room al gl adapter) :=
  decidable_of_iff (s.running.length < gl ∧
      s.running.countP (fun job => job.adapter == adapter) < al)
    ⟨fun h => ⟨h.1, h.2⟩, fun h => ⟨h.globally, h.here⟩⟩

/-- A claim that another call's claim has overtaken still finds room. -/
def admitted (al gl : Nat) (i : ι) (s : LeaseState ι) : QueueOp → Bool
  | .claim id _ _ _ => (s.queue.jobs.get id).all fun job =>
      !job.waiting || !s.overtaken i || decide (s.Room al gl job.adapter)
  | _ => true

/-- A claim that none has overtaken finds room, because the call looked. -/
def Looked (al gl : Nat) (i : ι) (s : LeaseState ι) : QueueOp → Prop
  | .claim id _ _ _ => ∀ job, s.queue.jobs.get id = some job →
      s.overtaken i = false → s.Room al gl job.adapter
  | _ => True

/-- While no claim of another call takes effect, the jobs stay as thread `i` read them. -/
def untouched (i : ι) : Rely (LeaseState ι) where
  allows := fun s t => s.clock ≤ t.clock ∧
    (t.overtaken i = false → s.overtaken i = false ∧ t.queue.jobs = s.queue.jobs)
  refl := fun _ => ⟨le_refl _, fun h => ⟨h, rfl⟩⟩
  trans := fun h h' => ⟨h.1.trans h'.1, fun ho =>
    ⟨(h.2 (h'.2 ho).1).1, (h'.2 ho).2.trans (h.2 (h'.2 ho).1).2⟩⟩

theorem running_later {q : QueueDb} {now later : Time} (h : now ≤ later) :
    (q.runningJobs later).Sublist (q.runningJobs now) := by
  refine List.monotone_filter_right _ fun job hj => ?_
  simp only [Job.unexpired, Bool.and_eq_true, Option.any_eq_true, decide_eq_true_eq] at hj ⊢
  obtain ⟨hs, e, he, hlt⟩ := hj
  exact ⟨hs, e, he, lt_of_le_of_lt h hlt⟩

/-- A call that found room and was not overtaken has it still when it claims. -/
theorem room_of_checks {i : ι} {s t : LeaseState ι} {now : Time} {adapter : String}
    (hr : (untouched i).allows s t) (hnow : now ≤ s.clock) (ho : t.overtaken i = false)
    (hg : (s.queue.runningJobs now).length < gl)
    (ha : (s.queue.runningJobs now).countP (fun job => job.adapter == adapter) < al) :
    t.Room al gl adapter := by
  have hjobs := (hr.2 ho).2
  have hrun : t.queue.runningJobs now = s.queue.runningJobs now := by
    simp only [QueueDb.runningJobs, hjobs]
  have hsub : t.running.Sublist (s.queue.runningJobs now) :=
    hrun ▸ running_later (hnow.trans hr.1)
  exact ⟨hsub.length_le.trans_lt hg, hsub.countP_le.trans_lt ha⟩

theorem length_running (s : LeaseState ι) :
    s.running.length = s.queue.jobs.rows.countP (·.unexpired s.clock) :=
  List.countP_eq_length_filter.symm

theorem countP_running (s : LeaseState ι) (adapter : String) :
    s.running.countP (fun job => job.adapter == adapter) =
      s.queue.jobs.rows.countP (fun job => job.adapter == adapter && job.unexpired s.clock) :=
  List.countP_filter

/-- Leases only expire while the clock runs. -/
theorem within_later {s : LeaseState ι} (h : s.Within al gl) {later : Time} (hl : s.clock ≤ later) :
    Within al gl { s with clock := later } := by
  have hsub : (s.queue.runningJobs later).Sublist s.running := running_later hl
  exact ⟨hsub.length_le.trans h.globally, fun adapter => hsub.countP_le.trans (h.each adapter)⟩

theorem within_setJob {s : LeaseState ι} (new : Job) (h : s.Within al gl)
    (hroom : s.Room al gl new.adapter) (overtaken : ι → Bool) :
    Within al gl { s with queue := s.queue.setJob new, overtaken := overtaken } := by
  constructor
  · have hput := s.queue.jobs.countP_put_le new (·.unexpired s.clock)
    have hlt := hroom.globally
    rw [length_running] at hlt ⊢
    refine hput.trans ?_
    split <;> omega
  · intro adapter
    have hput := s.queue.jobs.countP_put_le new
      (fun job => job.adapter == adapter && job.unexpired s.clock)
    rw [countP_running]
    refine hput.trans ?_
    by_cases ha : new.adapter = adapter
    · subst ha
      have hlt := hroom.here
      rw [countP_running] at hlt
      split <;> omega
    · have hle := h.each adapter
      rw [countP_running] at hle
      simpa [ha] using hle

variable [DecidableEq ι] {G : ι → LeaseState ι → QueueOp → Prop}

/-- One operation of a call, from any state that the others may leave. -/
theorem under_queueOp {i : ι} {s : LeaseState ι} {o : QueueOp} {f : o.Ans → QueueCode (Option Job)}
    (h : ∀ t, (untouched i).allows s t → Looked al gl i t o ∧
      (f (t.queue.step t.clock o).1).under (untouched i) (Looked al gl i)
        ((leasePool al gl G).env i) (fun _ _ => True) (fun _ _ => True) (t.answer i o).2) :
    (queueOp o >>= f).under (untouched i) (Looked al gl i) ((leasePool al gl G).env i)
      (fun _ _ => True) (fun _ _ => True) s := by
  refine Prog.under_bind fun t ht => ⟨(h t ht).1, fun a t' he u hu => ?_⟩
  obtain ⟨ha, ht'⟩ := Prod.mk.inj he.1
  subst ha ht'
  exact (h t ht).2.stable hu

theorem under_of_noClaim {i : ι} {s : LeaseState ι} {p : QueueCode (Option Job)}
    (h : p.Calls (fun o => ∀ id w now e, o ≠ .claim id w now e) (fun _ => True) fun _ => True) :
    p.under (untouched i) (Looked al gl i) ((leasePool al gl G).env i) (fun _ _ => True)
      (fun _ _ => True) s := by
  refine h.under fun t o ho => ?_
  cases o with
  | claim id w now e => exact absurd rfl (ho id w now e)
  | _ => trivial

/-- Whatever the others do, a call claims with room for the job or is overtaken. -/
theorem under_lease (i : ι) (s : LeaseState ι) (workerId adapter : String) (leaseSeconds : Int) :
    (lease workerId adapter leaseSeconds al gl).under (untouched i) (Looked al gl i)
      ((leasePool al gl G).env i) (fun _ _ => True) (fun _ _ => True) s := by
  have nothing : ∀ {t : LeaseState ι}, (return none : QueueCode (Option Job)).under (untouched i)
      (Looked al gl i) ((leasePool al gl G).env i) (fun _ _ => True) (fun _ _ => True) t :=
    fun _ _ => trivial
  refine under_queueOp fun t₁ _ => ⟨trivial, ?_⟩
  refine under_queueOp fun t₂ h₂ => ⟨trivial, ?_⟩
  by_cases hg : gl ≤ (t₂.queue.runningJobs t₁.clock).length
  · simp only [QueueDb.step_utcnow, QueueDb.step_runningJobs, hg, if_true]
    exact nothing
  by_cases ha : al ≤ (t₂.queue.runningJobs t₁.clock).countP (fun job => job.adapter == adapter)
  · simp only [QueueDb.step_utcnow, QueueDb.step_runningJobs, hg, if_false, ha, if_true]
    exact nothing
  simp only [QueueDb.step_utcnow, QueueDb.step_runningJobs, hg, ha, if_false]
  refine under_queueOp fun t₃ h₃ => ⟨trivial, ?_⟩
  simp only [QueueDb.step_candidate]
  cases hc : t₃.queue.candidate adapter t₁.clock with
  | none => exact nothing
  | some job =>
    refine under_queueOp fun t₄ h₄ => ⟨fun row hrow ho => ?_, under_of_noClaim ?_⟩
    · -- Not overtaken: the row is the candidate, and the jobs are those that were counted.
      obtain ⟨hget, hl⟩ := QueueDb.get_of_candidate hc
      have hjobs : t₄.queue.jobs = t₃.queue.jobs := (h₄.2 ho).2
      rw [hjobs] at hrow
      obtain rfl := Option.some.inj (hget.symm.trans hrow)
      have hadapter : job.adapter = adapter := by
        simp only [Job.leasable, Bool.and_eq_true, beq_iff_eq] at hl
        exact hl.1.1
      rw [hadapter]
      exact room_of_checks ((untouched i).trans h₃ h₄) h₂.1 ho (Nat.lt_of_not_le hg)
        (Nat.lt_of_not_le ha)
    · split
      · trivial
      · refine ⟨fun _ _ _ _ => by simp, fun row => ?_⟩
        cases row <;> trivial

/-- One operation of thread `i`: the limits hold on, and the others see it as they rely on. -/
theorem answer_keeps {i : ι} {s : LeaseState ι} {o : QueueOp} (h : s.Within al gl)
    (hl : Looked al gl i s o) (ha : admitted al gl i s o = true) :
    (s.answer i o).2.Within al gl ∧ ∀ j, j ≠ i → (untouched j).allows s (s.answer i o).2 := by
  cases o with
  | utcnow => exact ⟨h, fun j _ => (untouched j).refl s⟩
  | candidate => exact ⟨h, fun j _ => (untouched j).refl s⟩
  | refresh => exact ⟨h, fun j _ => (untouched j).refl s⟩
  | runningJobs now =>
    refine ⟨⟨h.globally, h.each⟩, fun j hj => ⟨le_refl _, fun ho => ?_⟩⟩
    have hnote : (s.answer i (.runningJobs now)).2.overtaken j = s.overtaken j := by
      simp [answer, note, hj]
    exact ⟨hnote.symm.trans ho, rfl⟩
  | claim id workerId now expires =>
    by_cases hw : ∃ job, s.queue.jobs.get id = some job ∧ job.waiting = true
    · obtain ⟨job, hget, hw⟩ := hw
      obtain rfl := Table.key_of_get hget
      have hstep := QueueDb.step_claim s.clock s.queue hget hw workerId now expires
      have hroom : s.Room al gl job.adapter := by
        cases ho : s.overtaken i with
        | false => exact hl job hget ho
        | true => simpa [admitted, hget, hw, ho] using ha
      refine ⟨?_, fun j hj => ⟨le_refl _, fun ho => ?_⟩⟩
      · simp only [answer, hstep]
        exact within_setJob (job.claim workerId now expires) h hroom _
      · simp [answer, hstep, note, hj] at ho
    · have hstep : QueueDb.step s.clock s.queue (.claim id workerId now expires) = (0, s.queue) := by
        simp only [QueueDb.step]
        split
        · next job hget =>
          have hn : ¬job.waiting = true := fun hj => hw ⟨job, hget, hj⟩
          rw [if_neg hn]
        · rfl
      have hsame : (s.answer i (.claim id workerId now expires)).2 = s := by
        simp [answer, hstep, note]
      rw [hsame]
      exact ⟨h, fun j _ => (untouched j).refl s⟩

end LeaseState

/-- No call has begun. -/
def idle {ι : Type} : ι → QueueCode (Option Job) := fun _ => .ret none

/-- From jobs within the limits, the limits hold in every state of every run in which a claim
that was overtaken by another call's claim still finds room. -/
theorem limits_of_admitted {ι : Type} [DecidableEq ι] {al gl : Nat} {s : LeaseState ι}
    (hs : s.Within al gl) {c : Pool.Config (LeaseState ι) ι QueueOp QueueOp.Ans PyError (Option Job)}
    (h : (leasePool al gl fun i s o => LeaseState.admitted al gl i s o = true).Steps (s, idle) c) :
    c.1.running.length ≤ gl ∧
      ∀ adapter, c.1.running.countP (fun job => job.adapter == adapter) ≤ al := by
  suffices hrun : c.1.Within al gl from ⟨hrun.globally, hrun.each⟩
  have hidle : (leasePool al gl fun i s o => LeaseState.admitted al gl i s o = true).Sound
      LeaseState.untouched (LeaseState.Looked al gl) (s, idle) := fun i _ _ => trivial
  refine (Pool.invariant_of_rely ?_ ?_ ?_ hs hidle h).1
  · rintro i s o a s' hw hl ⟨he, ha⟩
    obtain ⟨_, rfl⟩ := Prod.mk.inj he
    exact LeaseState.answer_keeps hw hl ha
  · rintro i s p _ ⟨workerId, adapter, leaseSeconds, rfl⟩
    exact LeaseState.under_lease i s workerId adapter leaseSeconds
  · rintro s s' hw ⟨hclock, he⟩
    rw [he]
    exact ⟨LeaseState.within_later hw hclock, fun j => ⟨hclock, fun ho => ⟨ho, rfl⟩⟩⟩

/-! ### Two workers -/

/-- Two jobs that may be leased, and none running. -/
def twoJobs : QueueDb :=
  QueueDb.runAll {} [(0, .enqueue { oneJob 5 with idempotencyKey := "a" }),
    (0, .enqueue { oneJob 5 with idempotencyKey := "b" })]

def twoWorkers : LeaseState Bool := ⟨twoJobs, 0, fun _ => false⟩

/-- Both workers have called `lease`, with limits of one. -/
def called : Bool → QueueCode (Option Job) :=
  fun i => lease (if i then "w" else "v") "file_provider" 60 1 1

theorem called_steps (G : Bool → LeaseState Bool → QueueOp → Prop) :
    (leasePool 1 1 G).Steps (twoWorkers, idle) (twoWorkers, called) := by
  have hf : (leasePool 1 1 G).Step (twoWorkers, idle)
      (twoWorkers, Function.update idle false (called false)) := .start rfl ⟨_, _, _, rfl⟩
  have ht : (leasePool 1 1 G).Step (twoWorkers, Function.update idle false (called false))
      (twoWorkers, Function.update (Function.update idle false (called false)) true (called true)) :=
    .start rfl ⟨_, _, _, rfl⟩
  have hall : Function.update (Function.update idle false (called false)) true (called true) =
      called := by
    funext i
    cases i <;> rfl
  exact hall ▸ Relation.ReflTransGen.tail (.single hf) ht

theorem within_twoWorkers : twoWorkers.Within 1 1 :=
  ⟨by decide, fun _ => le_trans List.countP_le_length (by decide)⟩

/-- One worker claims, and the other looks at the running jobs only after that. -/
theorem limits_of_admitted_inTurn : ∃ c, (leasePool 1 1 fun i s o =>
      LeaseState.admitted 1 1 i s o = true).Steps (twoWorkers, idle) c ∧
    c.1.running.length = 1 ∧ c.1.running.length ≤ 1 ∧
      ∀ adapter, c.1.running.countP (fun job => job.adapter == adapter) ≤ 1 := by
  have hplay := Pool.play_steps
    (M := leasePool 1 1 fun i s o => LeaseState.admitted 1 1 i s o = true)
    (h := LeaseState.answer) (LeaseState.admitted 1 1) (fun i s o ho => ⟨rfl, ho⟩)
    [true, true, true, true, true, false, false] (twoWorkers, called) (by decide)
  have hsteps := (called_steps _).trans hplay
  exact ⟨_, hsteps, by decide, limits_of_admitted within_twoWorkers hsteps⟩

/-- Both workers look before either claims: two jobs run under a limit of one. -/
theorem both_claims_admitted : ∃ c, (leasePool 1 1 fun _ _ _ => True).Steps (twoWorkers, idle) c ∧
    twoWorkers.Within 1 1 ∧ 1 < c.1.running.length := by
  have hplay := Pool.play_steps (M := leasePool 1 1 fun _ _ _ => True) (h := LeaseState.answer)
    (fun _ _ _ => true) (fun i s o _ => ⟨rfl, trivial⟩)
    [true, true, false, false, true, true, false, false] (twoWorkers, called) (by decide)
  exact ⟨_, (called_steps _).trans hplay, within_twoWorkers, by decide⟩

end Mnema
