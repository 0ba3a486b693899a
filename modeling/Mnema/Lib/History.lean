import Mnema.Lib.Pool
import Mnema.Lib.Trace

/-! Tasks that run together, with the history of their calls as the only state. What a call may
be answered depends on the calls before it. -/

structure Tasks.Entry (ι Op : Type) (Ans : Op → Type) where
  task : ι
  op : Op
  answer : Ans op

abbrev History (ι Op : Type) (Ans : Op → Type) := List (Tasks.Entry ι Op Ans)

structure Tasks (ι Op : Type) (Ans : Op → Type) (ε α : Type) where
  program : ι → Prog Op Ans ε α
  allows : History ι Op Ans → ι → (o : Op) → Ans o → Prop

namespace Tasks

variable {ι Op ε α : Type} {Ans : Op → Type} (T : Tasks ι Op Ans ε α)

def pool : Pool (History ι Op Ans) ι Op Ans ε α where
  env i log o a log' := T.allows log i o a ∧ log' = log ++ [⟨i, o, a⟩]
  start _ _ _ := False
  drift _ _ := False

/-- `trace` was made by task `i` in `log`. -/
def MadeIn (log : History ι Op Ans) (i : ι) (trace : Prog.Trace Ans) : Prop :=
  ∀ c ∈ trace, ⟨i, c.1, c.2⟩ ∈ log

/-- Every call was allowed after what came before it, and its task had made calls that lead to it. -/
def Explained (pre : ι → Prog.Trace Ans → Op → Prop) (log : History ι Op Ans) : Prop :=
  ∀ before e after, log = before ++ e :: after →
    T.allows before e.task e.op e.answer ∧ ∃ trace, MadeIn before e.task trace ∧ pre e.task trace e.op

variable {T} {pre : ι → Prog.Trace Ans → Op → Prop} {log log' : History ι Op Ans} {i : ι}
  {trace : Prog.Trace Ans}

theorem MadeIn.mono (h : MadeIn log i trace) (hl : log <+: log') : MadeIn log' i trace :=
  fun c hc => hl.subset (h c hc)

theorem MadeIn.snoc (h : MadeIn log i trace) (o : Op) (a : Ans o) :
    MadeIn (log ++ [⟨i, o, a⟩]) i (trace ++ [⟨o, a⟩]) := by
  intro c hc
  rcases List.mem_append.mp hc with hc | hc
  · exact List.mem_append_left _ (h c hc)
  · rw [List.mem_singleton.mp hc]
    exact List.mem_append_right _ List.mem_cons_self

/-- Calls of a task that had made none in `before` came after it. -/
theorem MadeIn.of_append {before after : History ι Op Ans} (h : MadeIn (before ++ after) i trace)
    (hi : ∀ e ∈ before, e.task ≠ i) : MadeIn after i trace := by
  intro c hc
  rcases List.mem_append.mp (h c hc) with hb | ha
  · exact absurd rfl (hi _ hb)
  · exact ha

theorem explained_nil : T.Explained pre [] := by
  intro before e after h
  cases before <;> cases h

theorem Explained.snoc {o : Op} {a : Ans o} (h : T.Explained pre log) (ha : T.allows log i o a)
    (ht : MadeIn log i trace) (hp : pre i trace o) : T.Explained pre (log ++ [⟨i, o, a⟩]) := by
  intro before e after hlog
  rcases List.eq_nil_or_concat after with rfl | ⟨rest, last, rfl⟩
  · obtain ⟨rfl, he⟩ := List.append_inj' hlog rfl
    obtain ⟨rfl, -⟩ := List.cons.inj he
    exact ⟨ha, trace, ht, hp⟩
  · have hl : log ++ [⟨i, o, a⟩] = (before ++ e :: rest) ++ [last] := by simpa using hlog
    exact h before e rest (List.append_inj' hl rfl).1

/-- The rest of the history is only ever added to. -/
def growing : Rely (History ι Op Ans) where
  allows := fun log log' => log <+: log'
  refl := List.prefix_refl
  trans := List.IsPrefix.trans

/-- What holds of the calls of one program holds of them among others. -/
theorem under_of_records {p : Prog Op Ans ε α} {pre : Prog.Trace Ans → Op → Prop}
    (h : p.wp pre Prog.recording (fun _ _ => True) (fun _ _ => True) trace) (ht : MadeIn log i trace) :
    p.under growing (fun log o => ∃ trace, MadeIn log i trace ∧ pre trace o) (T.pool.env i)
      (fun _ _ => True) (fun _ _ => True) log := by
  induction p generalizing trace log with
  | ret a => exact fun _ _ => trivial
  | raise e => exact fun _ _ => trivial
  | call o k ih =>
    intro log₁ hl
    have ht₁ := ht.mono hl
    refine ⟨⟨trace, ht₁, h.1⟩, fun a log₂ henv => ?_⟩
    obtain ⟨-, rfl⟩ := henv
    exact ih a (h.2 a _ rfl) (ht₁.snoc o a)

variable [DecidableEq ι]

variable (T) in
/-- The histories of the tasks, each of which runs once. -/
def Reachable (log : History ι Op Ans) : Prop :=
  ∃ tasks, T.pool.Steps ([], T.program) (log, tasks)

theorem Reachable.explained (h : T.Reachable log)
    (hpre : ∀ i, (T.program i).wp (pre i) Prog.recording (fun _ _ => True) (fun _ _ => True) []) :
    T.Explained pre log := by
  obtain ⟨tasks, hsteps⟩ := h
  have hsound : T.pool.Sound (fun _ => growing)
      (fun i log o => ∃ trace, MadeIn log i trace ∧ pre i trace o) ([], T.program) := by
    intro i
    exact under_of_records (hpre i) fun c hc => absurd hc List.not_mem_nil
  refine (Pool.invariant_of_rely (I := T.Explained pre) ?_ ?_ ?_ explained_nil hsound hsteps).1
  · intro i log o a log' hI hp henv
    obtain ⟨ha, rfl⟩ := henv
    obtain ⟨trace, ht, hp⟩ := hp
    exact ⟨hI.snoc ha ht hp, fun _ _ => List.prefix_append ..⟩
  · intro i log p _ hp
    exact hp.elim
  · intro _ _ _ hd
    exact hd.elim

variable (T) in
/-- The history in which the tasks move in `order`, with the answers given. -/
def played (answer : History ι Op Ans → ι → (o : Op) → Ans o) (order : List ι) : History ι Op Ans :=
  (Pool.play (fun i log o => (answer log i o, log ++ [⟨i, o, answer log i o⟩])) order
    ([], T.program)).1

theorem reachable_played {answer : History ι Op Ans → ι → (o : Op) → Ans o}
    (h : ∀ log i o, T.allows log i o (answer log i o)) (order : List ι) :
    T.Reachable (T.played answer order) := by
  have hall : ∀ (order : List ι) (c : Pool.Config (History ι Op Ans) ι Op Ans ε α),
      Pool.allowed (fun _ _ _ => true) (fun i log o => (answer log i o, log ++ [⟨i, o, answer log i o⟩]))
        order c = true := by
    intro order
    induction order with
    | nil => exact fun _ => rfl
    | cons i order ih =>
      intro c
      rw [Pool.allowed, ih, Bool.and_true]
      cases c.2 i <;> rfl
  exact ⟨_, Pool.play_steps (M := T.pool) (fun _ _ _ => true) (fun i log o _ => ⟨h log i o, rfl⟩) order
    ([], T.program) (hall order _)⟩

end Tasks
