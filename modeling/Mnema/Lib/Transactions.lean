import Mnema.Lib.Prog

/-! A program run in a transaction of its own: a return commits, an exception or
being cut off rolls back. -/

structure Transactions (S Op : Type) (Ans : Op → Type) where
  env : Prog.Env S Op Ans
  commit : S → S
  rollback : S → S

namespace Transactions

variable {S Op ε α : Type} {Ans : Op → Type} (M : Transactions S Op Ans)

/-- How the transaction of `p` may end: with a result, or with `none` where it was cut off. -/
inductive Ends (p : Prog Op Ans ε α) (s : S) : Option (Except ε α) → S → Prop where
  | returned {a : α} {t : S} (h : Prog.Steps M.env (s, p) (t, .ret a)) :
      Ends p s (some (.ok a)) (M.commit t)
  | raised {e : ε} {t : S} (h : Prog.Steps M.env (s, p) (t, .raise e)) :
      Ends p s (some (.error e)) (M.rollback t)
  | cut {q : Prog Op Ans ε α} {t : S} (h : Prog.Steps M.env (s, p) (t, q)) :
      Ends p s none (M.rollback t)

/-- Where the execution of `p` against fixed answers ends. -/
def outcome (h : S → (o : Op) → Ans o × S) (p : Prog Op Ans ε α) (s : S) : Except ε α × S :=
  match p.exec h s with
  | (.ok a, t) => (.ok a, M.commit t)
  | (.error e, t) => (.error e, M.rollback t)

variable {M} {p : Prog Op Ans ε α} {s s' : S} {r : Option (Except ε α)}

theorem ends_outcome {h : S → (o : Op) → Ans o × S} (henv : ∀ s o, M.env s o (h s o).1 (h s o).2)
    (p : Prog Op Ans ε α) (s : S) :
    M.Ends p s (some (M.outcome h p s).1) (M.outcome h p s).2 := by
  have hs := Prog.exec_steps henv p s
  unfold outcome
  split
  case h_1 he =>
    rw [he] at hs
    exact .returned hs
  case h_2 he =>
    rw [he] at hs
    exact .raised hs

/-- What the operations keep, and what a specification says of the result, hold of the state
in which a transaction ends. -/
theorem Ends.holds (h : M.Ends p s r s') {C : S → Op → Prop} {I : S → Prop} {Q : α → S → Prop}
    (hp : p.wp C M.env Q (fun _ _ => True) s)
    (hstep : ∀ s o a s', C s o → I s → M.env s o a s' → I s') (hI : I s) :
    ∃ t, I t ∧ ((s' = M.rollback t ∧ ∀ a, r ≠ some (.ok a)) ∨
      ∃ a, r = some (.ok a) ∧ Q a t ∧ s' = M.commit t) := by
  have hall : ∀ t (q : Prog Op Ans ε α), Prog.Steps M.env (s, p) (t, q) →
      q.wp (fun t o => C t o ∧ I t) M.env (fun a t => Q a t ∧ I t) (fun _ t => True ∧ I t) t ∧
        I t := by
    intro t q hq
    have hw := (hp.frame hstep hI).steps hq
    refine ⟨hw, ?_⟩
    cases q with
    | ret a => exact hw.2
    | raise e => exact hw.2
    | call o k => exact hw.1.2
  cases h with
  | returned h =>
    obtain ⟨hw, hI⟩ := hall _ _ h
    exact ⟨_, hI, .inr ⟨_, rfl, hw.1, rfl⟩⟩
  | raised h => exact ⟨_, (hall _ _ h).2, .inl ⟨rfl, fun a ha => by simp at ha⟩⟩
  | cut h => exact ⟨_, (hall _ _ h).2, .inl ⟨rfl, fun a ha => by simp at ha⟩⟩

end Transactions
