import Mnema.Lib.Transactions

/-! Calls made one after another, in sessions that do not overlap. A session
stays open between calls; closing it commits, and an abort at any point, in the
middle of a call or between two, rolls back. -/

structure Sessions (S Op : Type) (Ans : Op → Type) (ε : Type) extends Transactions S Op Ans where
  start : S → Prog Op Ans ε Unit → Prop

namespace Sessions

variable {S Op ε : Type} {Ans : Op → Type} (M : Sessions S Op Ans ε)

/-- A state, and the call in progress. -/
abbrev Config (_ : Sessions S Op Ans ε) : Type := S × Option (Prog Op Ans ε Unit)

inductive Next : M.Config → M.Config → Prop where
  | call {s : S} {p : Prog Op Ans ε Unit} (h : M.start s p) : Next (s, none) (s, some p)
  | step {s s' : S} {p p' : Prog Op Ans ε Unit} (h : Prog.Step M.env (s, p) (s', p')) :
      Next (s, some p) (s', some p')
  | returned {s : S} : Next (s, some (.ret ())) (s, none)
  | raised {s : S} {e : ε} : Next (s, some (.raise e)) (s, none)
  | closed {s : S} : Next (s, none) (M.commit s, none)
  | aborted {s : S} {p : Option (Prog Op Ans ε Unit)} : Next (s, p) (M.rollback s, none)

def Reachable (s₀ : S) (c : M.Config) : Prop := Relation.ReflTransGen M.Next (s₀, none) c

/-- `C` is what the calls' operations respect, `K` what holds between calls and
`I` what holds at every point. -/
structure Invariant (C : S → Op → Prop) (K I : S → Prop) : Prop where
  calls : ∀ s p, I s → K s → M.start s p → p.wp C M.env (fun _ => K) (fun _ => K) s
  step : ∀ s o a s', C s o → I s → M.env s o a s' → I s'
  commit : ∀ s, I s → K s → I (M.commit s) ∧ K (M.commit s)
  rollback : ∀ s, I s → I (M.rollback s) ∧ K (M.rollback s)

variable {M} {C : S → Op → Prop} {K I : S → Prop} {s₀ s : S}

/-- What is known of a configuration: `K` between calls, the specification within one. -/
def Holds (M : Sessions S Op Ans ε) (C : S → Op → Prop) (K I : S → Prop) (c : M.Config) : Prop :=
  I c.1 ∧ match c.2 with
    | none => K c.1
    | some p => p.wp C M.env (fun _ => K) (fun _ => K) c.1

theorem Invariant.next (h : M.Invariant C K I) {c d : M.Config} (hc : M.Holds C K I c)
    (hn : M.Next c d) : M.Holds C K I d := by
  cases hn with
  | call hs => exact ⟨hc.1, h.calls _ _ hc.1 hc.2 hs⟩
  | step hs =>
    refine ⟨?_, hc.2.step hs⟩
    cases hs with
    | call he => exact h.step _ _ _ _ hc.2.1 hc.1 he
  | returned => exact hc
  | raised => exact hc
  | closed => exact h.commit _ hc.1 hc.2
  | aborted => exact h.rollback _ hc.1

theorem Invariant.reachable (h : M.Invariant C K I) (hI : I s₀) (hK : K s₀) {c : M.Config}
    (hr : M.Reachable s₀ c) : M.Holds C K I c := by
  induction hr with
  | refl => exact ⟨hI, hK⟩
  | tail _ hn ih => exact h.next ih hn

theorem Invariant.holds (h : M.Invariant C K I) (hI : I s₀) (hK : K s₀) {c : M.Config}
    (hr : M.Reachable s₀ c) : I c.1 :=
  (h.reachable hI hK hr).1

theorem Invariant.between (h : M.Invariant C K I) (hI : I s₀) (hK : K s₀)
    (hr : M.Reachable s₀ (s, none)) : K s :=
  (h.reachable hI hK hr).2

/-! ### Runs -/

theorem Reachable.refl : M.Reachable s₀ (s₀, none) := Relation.ReflTransGen.refl

theorem Reachable.close (h : M.Reachable s₀ (s, none)) : M.Reachable s₀ (M.commit s, none) :=
  h.tail .closed

theorem Reachable.abort {p : Option (Prog Op Ans ε Unit)} (h : M.Reachable s₀ (s, p)) :
    M.Reachable s₀ (M.rollback s, none) :=
  h.tail .aborted

theorem Reachable.steps {p : Prog Op Ans ε Unit} (h : M.Reachable s₀ (s, none))
    (hs : M.start s p) {d : S × Prog Op Ans ε Unit} (hd : Prog.Steps M.env (s, p) d) :
    M.Reachable s₀ (d.1, some d.2) := by
  have hp : M.Reachable s₀ (s, some p) := h.tail (.call hs)
  induction hd with
  | refl => exact hp
  | tail _ hd ih => exact ih.tail (.step hd)

theorem Reachable.ended {p : Prog Op Ans ε Unit} (h : M.Reachable s₀ (s, none))
    (hs : M.start s p) {r : Except ε Unit} {s' : S}
    (hp : Prog.Steps M.env (s, p) (s', Prog.ofExcept r)) : M.Reachable s₀ (s', none) := by
  have hr := h.steps hs hp
  cases r with
  | ok a => exact hr.tail .returned
  | error e => exact hr.tail .raised

/-- A call that runs to its end against fixed answers. -/
theorem Reachable.exec {p : Prog Op Ans ε Unit} (h : M.Reachable s₀ (s, none))
    (hs : M.start s p) {f : S → (o : Op) → Ans o × S}
    (hf : ∀ s o, M.env s o (f s o).1 (f s o).2) : M.Reachable s₀ ((p.exec f s).2, none) :=
  h.ended hs (Prog.exec_steps hf p s)

/-- The same where the environment allows only the calls that pass `ok`. -/
theorem Reachable.exec_of_respects {p : Prog Op Ans ε Unit} (h : M.Reachable s₀ (s, none))
    (hs : M.start s p) {ok : S → Op → Bool} {f : S → (o : Op) → Ans o × S}
    (hf : ∀ s o, ok s o = true → M.env s o (f s o).1 (f s o).2)
    (hp : p.respects ok f s = true) : M.Reachable s₀ ((p.exec f s).2, none) :=
  h.ended hs (Prog.exec_steps_of_respects hf p s hp)

/-- A call cut off after some of its operations. -/
theorem Reachable.cut {p : Prog Op Ans ε Unit} (h : M.Reachable s₀ (s, none))
    (hs : M.start s p) {f : S → (o : Op) → Ans o × S}
    (hf : ∀ s o, M.env s o (f s o).1 (f s o).2) (n : Nat) :
    M.Reachable s₀ ((p.execFor f n s).1, some (p.execFor f n s).2) :=
  h.steps hs (Prog.execFor_steps hf n p s)

end Sessions
