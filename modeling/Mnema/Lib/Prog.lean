import Mathlib.Logic.Relation

/-! Programs as trees of operation calls. A program may return, raise, or call
an operation and continue with its answer. An interleaving, a crash or an
abort cuts a run between two calls, so every point of a run is visible. -/

inductive Prog (Op : Type) (Ans : Op → Type) (ε α : Type) : Type where
  | ret (a : α)
  | raise (e : ε)
  | call (o : Op) (k : Ans o → Prog Op Ans ε α)

namespace Prog

variable {Op : Type} {Ans : Op → Type} {ε α β S : Type}

def bind : Prog Op Ans ε α → (α → Prog Op Ans ε β) → Prog Op Ans ε β
  | .ret a, f => f a
  | .raise e, _ => .raise e
  | .call o k, f => .call o (fun a => (k a).bind f)

/-- `try p except`, with the handler given every exception. -/
def handle : Prog Op Ans ε α → (ε → Prog Op Ans ε α) → Prog Op Ans ε α
  | .ret a, _ => .ret a
  | .raise e, h => h e
  | .call o k, h => .call o (fun a => (k a).handle h)

instance : Monad (Prog Op Ans ε) where
  pure := .ret
  bind := .bind

instance : MonadExcept ε (Prog Op Ans ε) where
  throw := .raise
  tryCatch := .handle

def op (o : Op) : Prog Op Ans ε (Ans o) := .call o .ret

def ofExcept : Except ε α → Prog Op Ans ε α
  | .ok a => .ret a
  | .error e => .raise e

/-- Runs `p` for its effects. -/
def void (p : Prog Op Ans ε α) : Prog Op Ans ε Unit := p.bind (fun _ => .ret ())

/-! ### Small steps -/

/-- The answers an operation may get in a state, and the state it leaves. -/
abbrev Env (S Op : Type) (Ans : Op → Type) := S → (o : Op) → Ans o → S → Prop

inductive Step (env : Env S Op Ans) : S × Prog Op Ans ε α → S × Prog Op Ans ε α → Prop where
  | call {s s' : S} {o : Op} {k : Ans o → Prog Op Ans ε α} {a : Ans o} (h : env s o a s') :
      Step env (s, .call o k) (s', k a)

abbrev Steps (env : Env S Op Ans) :
    S × Prog Op Ans ε α → S × Prog Op Ans ε α → Prop :=
  Relation.ReflTransGen (Step env)

theorem Step.bind {env : Env S Op Ans} {c d : S × Prog Op Ans ε α}
    (h : Step env c d) (f : α → Prog Op Ans ε β) :
    Step env (c.1, c.2.bind f) (d.1, d.2.bind f) := by
  cases h with
  | call h => exact Step.call h

theorem Steps.bind {env : Env S Op Ans} {c d : S × Prog Op Ans ε α}
    (h : Steps env c d) (f : α → Prog Op Ans ε β) :
    Steps env (c.1, c.2.bind f) (d.1, d.2.bind f) :=
  h.lift (fun c : S × Prog Op Ans ε α => (c.1, c.2.bind f)) (fun _ _ hs => hs.bind f)

/-! ### Specifications -/

/-- From `s`, every call is made under `pre`, every return satisfies `Q` and
every exception `E`, whatever the environment answers. -/
def wp (pre : S → Op → Prop) (env : Env S Op Ans) (Q : α → S → Prop) (E : ε → S → Prop) :
    Prog Op Ans ε α → S → Prop
  | .ret a, s => Q a s
  | .raise e, s => E e s
  | .call o k, s => pre s o ∧ ∀ a s', env s o a s' → (k a).wp pre env Q E s'

section Rules

variable {pre pre' : S → Op → Prop} {env : Env S Op Ans}
  {Q Q' : α → S → Prop} {E E' : ε → S → Prop} {s s' : S}

@[simp] theorem wp_ret (a : α) : (ret a : Prog Op Ans ε α).wp pre env Q E s ↔ Q a s := Iff.rfl

@[simp] theorem wp_pure (a : α) :
    (pure a : Prog Op Ans ε α).wp pre env Q E s ↔ Q a s := Iff.rfl

@[simp] theorem wp_raise (e : ε) :
    (raise e : Prog Op Ans ε α).wp pre env Q E s ↔ E e s := Iff.rfl

@[simp] theorem wp_throw (e : ε) :
    (throw e : Prog Op Ans ε α).wp pre env Q E s ↔ E e s := Iff.rfl

@[simp] theorem wp_op (o : Op) {Q : Ans o → S → Prop} :
    (op o : Prog Op Ans ε (Ans o)).wp pre env Q E s ↔
      pre s o ∧ ∀ a s', env s o a s' → Q a s' := Iff.rfl

theorem wp_bind_iff (p : Prog Op Ans ε α) (f : α → Prog Op Ans ε β) {Q : β → S → Prop} :
    (p.bind f).wp pre env Q E s ↔ p.wp pre env (fun a t => (f a).wp pre env Q E t) E s := by
  induction p generalizing s with
  | ret a => rfl
  | raise e => rfl
  | call o k ih =>
    refine and_congr_right fun _ => forall_congr' fun a => forall_congr' fun t => ?_
    exact imp_congr_right fun _ => ih a

@[simp] theorem wp_bind (p : Prog Op Ans ε α) (f : α → Prog Op Ans ε β) {Q : β → S → Prop} :
    (p >>= f).wp pre env Q E s ↔ p.wp pre env (fun a t => (f a).wp pre env Q E t) E s :=
  wp_bind_iff p f

@[simp] theorem wp_void (p : Prog Op Ans ε α) {Q : Unit → S → Prop} :
    p.void.wp pre env Q E s ↔ p.wp pre env (fun _ => Q ()) E s :=
  wp_bind_iff p _

theorem wp_handle_iff (p : Prog Op Ans ε α) (h : ε → Prog Op Ans ε α) :
    (p.handle h).wp pre env Q E s ↔ p.wp pre env Q (fun e t => (h e).wp pre env Q E t) s := by
  induction p generalizing s with
  | ret a => rfl
  | raise e => rfl
  | call o k ih =>
    refine and_congr_right fun _ => forall_congr' fun a => forall_congr' fun t => ?_
    exact imp_congr_right fun _ => ih a

@[simp] theorem wp_tryCatch (p : Prog Op Ans ε α) (h : ε → Prog Op Ans ε α) :
    (tryCatch p h).wp pre env Q E s ↔ p.wp pre env Q (fun e t => (h e).wp pre env Q E t) s :=
  wp_handle_iff p h

@[simp] theorem wp_ofExcept (r : Except ε α) :
    (ofExcept r : Prog Op Ans ε α).wp pre env Q E s ↔
      (∀ a, r = .ok a → Q a s) ∧ (∀ e, r = .error e → E e s) := by
  cases r <;> simp [ofExcept]

@[simp] theorem wp_ofExcept_ok (a : α) :
    (ofExcept (.ok a) : Prog Op Ans ε α).wp pre env Q E s ↔ Q a s := Iff.rfl

@[simp] theorem wp_ofExcept_error (e : ε) :
    (ofExcept (.error e) : Prog Op Ans ε α).wp pre env Q E s ↔ E e s := Iff.rfl

theorem wp.mono {p : Prog Op Ans ε α} (h : p.wp pre env Q E s)
    (hpre : ∀ s o, pre s o → pre' s o) (hQ : ∀ a s, Q a s → Q' a s)
    (hE : ∀ e s, E e s → E' e s) : p.wp pre' env Q' E' s := by
  induction p generalizing s with
  | ret a => exact hQ a s h
  | raise e => exact hE e s h
  | call o k ih => exact ⟨hpre s o h.1, fun a t ht => ih a (h.2 a t ht)⟩

/-- A specification holds of every environment that does less. -/
theorem wp.restrict {env' : Env S Op Ans} {p : Prog Op Ans ε α} (h : p.wp pre env Q E s)
    (henv : ∀ s o a s', env' s o a s' → env s o a s') : p.wp pre env' Q E s := by
  induction p generalizing s with
  | ret a => exact h
  | raise e => exact h
  | call o k ih => exact ⟨h.1, fun a t ht => ih a (h.2 a t (henv s o a t ht))⟩

theorem wp.post {p : Prog Op Ans ε α} (h : p.wp pre env Q E s)
    (hQ : ∀ a s, Q a s → Q' a s) : p.wp pre env Q' E s :=
  h.mono (fun _ _ hp => hp) hQ (fun _ _ he => he)

theorem wp.and {p : Prog Op Ans ε α} (h : p.wp pre env Q E s) (h' : p.wp pre env Q' E' s) :
    p.wp pre env (fun a t => Q a t ∧ Q' a t) (fun e t => E e t ∧ E' e t) s := by
  induction p generalizing s with
  | ret a => exact ⟨h, h'⟩
  | raise e => exact ⟨h, h'⟩
  | call o k ih => exact ⟨h.1, fun a t ht => ih a (h.2 a t ht) (h'.2 a t ht)⟩

/-- Where a program ends, one assertion may stand for another. -/
theorem wp_congr {R : α → S → Prop} {p : Prog Op Ans ε α} (hr : p.wp pre env R (fun _ _ => True) s)
    (h : ∀ a t, R a t → (Q a t ↔ Q' a t)) : p.wp pre env Q E s ↔ p.wp pre env Q' E s := by
  constructor
  · intro hq
    exact (hr.and hq).mono (fun _ _ hp => hp) (fun a t ht => (h a t ht.1).mp ht.2) fun _ _ he => he.2
  · intro hq
    exact (hr.and hq).mono (fun _ _ hp => hp) (fun a t ht => (h a t ht.1).mpr ht.2) fun _ _ he => he.2

/-- An assertion that every allowed call preserves may be added to a specification. -/
theorem wp.frame {p : Prog Op Ans ε α} (h : p.wp pre env Q E s) {I : S → Prop}
    (hstep : ∀ s o a s', pre s o → I s → env s o a s' → I s') (hI : I s) :
    p.wp (fun t o => pre t o ∧ I t) env (fun a t => Q a t ∧ I t) (fun e t => E e t ∧ I t) s := by
  induction p generalizing s with
  | ret a => exact ⟨h, hI⟩
  | raise e => exact ⟨h, hI⟩
  | call o k ih =>
    exact ⟨⟨h.1, hI⟩, fun a t ht => ih a (h.2 a t ht) (hstep s o a t h.1 hI ht)⟩

/-- Nothing is promised of any program. -/
theorem wp_true (p : Prog Op Ans ε α) (s : S) :
    p.wp (fun _ _ => True) env (fun _ _ => True) (fun _ _ => True) s := by
  induction p generalizing s with
  | ret a => trivial
  | raise e => trivial
  | call o k ih => exact ⟨trivial, fun a t _ => ih a t⟩

theorem wp.step {c d : S × Prog Op Ans ε α} (h : c.2.wp pre env Q E c.1) (hs : Step env c d) :
    d.2.wp pre env Q E d.1 := by
  cases hs with
  | call he => exact h.2 _ _ he

/-- What a specification promises holds at every point of every run. -/
theorem wp.steps {c d : S × Prog Op Ans ε α} (h : c.2.wp pre env Q E c.1)
    (hs : Steps env c d) : d.2.wp pre env Q E d.1 := by
  induction hs with
  | refl => exact h
  | tail _ hd ih => exact ih.step hd

/-- An assertion that every allowed call preserves holds at every point of every run. -/
theorem wp.along {p q : Prog Op Ans ε α} (h : p.wp pre env Q E s) {I : S → Prop}
    (hstep : ∀ s o a s', pre s o → I s → env s o a s' → I s') (hI : I s)
    (hs : Steps env (s, p) (s', q)) : I s' := by
  have hw := (h.frame hstep hI).steps hs
  cases q with
  | ret a => exact hw.2
  | raise e => exact hw.2
  | call o k => exact hw.1.2

/-- A specification under an environment that already allows for what happens in between. -/
theorem wp.rely {p : Prog Op Ans ε α} {R : S → S → Prop}
    (h : p.wp (fun _ _ => True) env Q E s) (henv : ∀ o a t, env s' o a t → env s o a t)
    (hs : R s s') (hQ : ∀ a s s', R s s' → Q a s → Q a s')
    (hE : ∀ e s s', R s s' → E e s → E e s') : p.wp (fun _ _ => True) env Q E s' := by
  cases p with
  | ret a => exact hQ a s s' hs h
  | raise e => exact hE e s s' hs h
  | call o k => exact ⟨trivial, fun a t ht => h.2 a t (henv o a t ht)⟩

theorem wp.pre_of_call {o : Op} {k : Ans o → Prog Op Ans ε α}
    (h : (call o k).wp pre env Q E s) : pre s o := h.1

end Rules

/-! ### The calls a program can make -/

/-- Every call satisfies `P`, every return `Q` and every exception `E`, in any state. -/
def Calls (P : Op → Prop) (Q : α → Prop) (E : ε → Prop) : Prog Op Ans ε α → Prop
  | .ret a => Q a
  | .raise e => E e
  | .call o k => P o ∧ ∀ a, (k a).Calls P Q E

section Calls

variable {P : Op → Prop} {Q Q' : α → Prop} {E E' : ε → Prop}

@[simp] theorem calls_ret (a : α) : (ret a : Prog Op Ans ε α).Calls P Q E ↔ Q a := Iff.rfl

@[simp] theorem calls_pure (a : α) : (pure a : Prog Op Ans ε α).Calls P Q E ↔ Q a := Iff.rfl

@[simp] theorem calls_raise (e : ε) : (raise e : Prog Op Ans ε α).Calls P Q E ↔ E e := Iff.rfl

@[simp] theorem calls_throw (e : ε) : (throw e : Prog Op Ans ε α).Calls P Q E ↔ E e := Iff.rfl

@[simp] theorem calls_call (o : Op) (k : Ans o → Prog Op Ans ε α) :
    (call o k).Calls P Q E ↔ P o ∧ ∀ a, (k a).Calls P Q E := Iff.rfl

@[simp] theorem calls_ite {c : Prop} [Decidable c] (p q : Prog Op Ans ε α) :
    (if c then p else q).Calls P Q E ↔ (c → p.Calls P Q E) ∧ (¬c → q.Calls P Q E) := by
  split <;> simp [*]

@[simp] theorem calls_bind (p : Prog Op Ans ε α) (f : α → Prog Op Ans ε β) {Q : β → Prop} :
    (p >>= f).Calls P Q E ↔ p.Calls P (fun a => (f a).Calls P Q E) E := by
  change (p.bind f).Calls P Q E ↔ _
  induction p with
  | ret a => rfl
  | raise e => rfl
  | call o k ih => exact and_congr_right fun _ => forall_congr' ih

@[simp] theorem calls_tryCatch (p : Prog Op Ans ε α) (h : ε → Prog Op Ans ε α) :
    (tryCatch p h).Calls P Q E ↔ p.Calls P Q (fun e => (h e).Calls P Q E) := by
  change (p.handle h).Calls P Q E ↔ _
  induction p with
  | ret a => rfl
  | raise e => rfl
  | call o k ih => exact and_congr_right fun _ => forall_congr' ih

@[simp] theorem calls_ofExcept (r : Except ε α) :
    (ofExcept r : Prog Op Ans ε α).Calls P Q E ↔
      (∀ a, r = .ok a → Q a) ∧ (∀ e, r = .error e → E e) := by
  cases r <;> simp [ofExcept]

theorem Calls.mono {p : Prog Op Ans ε α} (h : p.Calls P Q E) (hQ : ∀ a, Q a → Q' a)
    (hE : ∀ e, E e → E' e) : p.Calls P Q' E' := by
  induction p with
  | ret a => exact hQ a h
  | raise e => exact hE e h
  | call o k ih => exact ⟨h.1, fun a => ih a (h.2 a)⟩

theorem Calls.seq {p : Prog Op Ans ε α} {f : α → Prog Op Ans ε β} {Q : β → Prop}
    (hp : p.Calls P (fun _ => True) (fun _ => True)) (hf : ∀ a, (f a).Calls P Q fun _ => True) :
    (p >>= f).Calls P Q fun _ => True :=
  (calls_bind _ _).mpr (hp.mono (fun a _ => hf a) fun _ _ => trivial)

theorem Calls.imp {P' : Op → Prop} {p : Prog Op Ans ε α} (h : p.Calls P Q E)
    (hP : ∀ o, P o → P' o) : p.Calls P' Q E := by
  induction p with
  | ret a => exact h
  | raise e => exact h
  | call o k ih => exact ⟨hP o h.1, fun a => ih a (h.2 a)⟩

/-- What every possible call preserves holds wherever the program goes. -/
theorem Calls.wp {p : Prog Op Ans ε α} (h : p.Calls P Q E) {I : S → Prop}
    {pre : S → Op → Prop} {env : Env S Op Ans} (hpre : ∀ s o, P o → I s → pre s o)
    (hstep : ∀ s o a s', P o → I s → env s o a s' → I s') {s : S} (hI : I s) :
    p.wp pre env (fun a t => Q a ∧ I t) (fun e t => E e ∧ I t) s := by
  induction p generalizing s with
  | ret a => exact ⟨h, hI⟩
  | raise e => exact ⟨h, hI⟩
  | call o k ih =>
    exact ⟨hpre s o h.1 hI, fun a t ht => ih a (h.2 a) (hstep s o a t h.1 hI ht)⟩

/-- What every possible call satisfies may be added to a specification. -/
theorem wp.and_calls {Q : α → S → Prop} {E : ε → S → Prop} {pre : S → Op → Prop}
    {env : Env S Op Ans} {s : S} {p : Prog Op Ans ε α} (h : p.wp pre env Q E s)
    (hc : p.Calls P (fun _ => True) (fun _ => True)) :
    p.wp (fun t o => pre t o ∧ P o) env Q E s := by
  induction p generalizing s with
  | ret a => exact h
  | raise e => exact h
  | call o k ih => exact ⟨⟨h.1, hc.1⟩, fun a t ht => ih a (h.2 a t ht) (hc.2 a)⟩

theorem Calls.steps {env : Env S Op Ans} {c d : S × Prog Op Ans ε α} (h : c.2.Calls P Q E)
    (hs : Steps env c d) : d.2.Calls P Q E := by
  induction hs with
  | refl => exact h
  | tail _ hd ih =>
    cases hd with
    | call _ => exact ih.2 _

end Calls

/-! ### Execution against a fixed environment -/

def exec (h : S → (o : Op) → Ans o × S) : Prog Op Ans ε α → S → Except ε α × S
  | .ret a, s => (.ok a, s)
  | .raise e, s => (.error e, s)
  | .call o k, s => (k (h s o).1).exec h (h s o).2

@[simp] theorem exec_pure (h : S → (o : Op) → Ans o × S) (a : α) (s : S) :
    (pure a : Prog Op Ans ε α).exec h s = (.ok a, s) := rfl

@[simp] theorem exec_throw (h : S → (o : Op) → Ans o × S) (e : ε) (s : S) :
    (throw e : Prog Op Ans ε α).exec h s = (.error e, s) := rfl

@[simp] theorem exec_op_bind (h : S → (o : Op) → Ans o × S) (o : Op)
    (f : Ans o → Prog Op Ans ε α) (s : S) :
    ((op o : Prog Op Ans ε (Ans o)) >>= f).exec h s = (f (h s o).1).exec h (h s o).2 := rfl

theorem exec_bind (h : S → (o : Op) → Ans o × S) (p : Prog Op Ans ε α)
    (f : α → Prog Op Ans ε β) (s : S) :
    (p >>= f).exec h s = match p.exec h s with
      | (.ok a, t) => (f a).exec h t
      | (.error e, t) => (.error e, t) := by
  show (p.bind f).exec h s = _
  induction p generalizing s with
  | ret a => rfl
  | raise e => rfl
  | call o k ih => exact ih (h s o).1 (h s o).2

/-- What every answer preserves holds at the end. -/
theorem exec_preserves {h : S → (o : Op) → Ans o × S} {I : S → Prop}
    (hstep : ∀ s o, I s → I (h s o).2) (p : Prog Op Ans ε α) {s : S} (hs : I s) :
    I (p.exec h s).2 := by
  induction p generalizing s with
  | ret a => exact hs
  | raise e => exact hs
  | call o k ih => exact ih (h s o).1 (hstep s o hs)

/-- The state and the rest of the program after at most `n` calls. -/
def execFor (h : S → (o : Op) → Ans o × S) : Nat → Prog Op Ans ε α → S → S × Prog Op Ans ε α
  | n + 1, .call o k, s => (k (h s o).1).execFor h n (h s o).2
  | _, p, s => (s, p)

theorem execFor_steps {env : Env S Op Ans} {h : S → (o : Op) → Ans o × S}
    (henv : ∀ s o, env s o (h s o).1 (h s o).2) (n : Nat) (p : Prog Op Ans ε α) (s : S) :
    Steps env (s, p) (p.execFor h n s) := by
  induction n generalizing p s with
  | zero => cases p <;> exact .refl
  | succ n ih =>
    cases p with
    | ret a => exact .refl
    | raise e => exact .refl
    | call o k => exact .head (Step.call (henv s o)) (ih (k (h s o).1) (h s o).2)

/-- Whether every call of the execution passes `ok`. -/
def respects (ok : S → Op → Bool) (h : S → (o : Op) → Ans o × S) : Prog Op Ans ε α → S → Bool
  | .call o k, s => ok s o && (k (h s o).1).respects ok h (h s o).2
  | _, _ => true

/-- An execution is a run of every environment that allows its calls. -/
theorem exec_steps_of_respects {env : Env S Op Ans} {ok : S → Op → Bool}
    {h : S → (o : Op) → Ans o × S} (henv : ∀ s o, ok s o = true → env s o (h s o).1 (h s o).2)
    (p : Prog Op Ans ε α) (s : S) (hp : p.respects ok h s = true) :
    Steps env (s, p) ((p.exec h s).2, ofExcept (p.exec h s).1) := by
  induction p generalizing s with
  | ret a => exact .refl
  | raise e => exact .refl
  | call o k ih =>
    simp only [respects, Bool.and_eq_true] at hp
    exact .head (Step.call (henv s o hp.1)) (ih (h s o).1 (h s o).2 hp.2)

theorem execFor_steps_of_respects {env : Env S Op Ans} {ok : S → Op → Bool}
    {h : S → (o : Op) → Ans o × S} (henv : ∀ s o, ok s o = true → env s o (h s o).1 (h s o).2)
    (n : Nat) (p : Prog Op Ans ε α) (s : S) (hp : p.respects ok h s = true) :
    Steps env (s, p) (p.execFor h n s) := by
  induction n generalizing p s with
  | zero => cases p <;> exact .refl
  | succ n ih =>
    cases p with
    | ret a => exact .refl
    | raise e => exact .refl
    | call o k =>
      simp only [respects, Bool.and_eq_true] at hp
      exact .head (Step.call (henv s o hp.1)) (ih (k (h s o).1) (h s o).2 hp.2)

theorem exec_steps {env : Env S Op Ans} {h : S → (o : Op) → Ans o × S}
    (henv : ∀ s o, env s o (h s o).1 (h s o).2) (p : Prog Op Ans ε α) (s : S) :
    Steps env (s, p) ((p.exec h s).2, ofExcept (p.exec h s).1) := by
  induction p generalizing s with
  | ret a => exact .refl
  | raise e => exact .refl
  | call o k ih => exact .head (Step.call (henv s o)) (ih (h s o).1 (h s o).2)

end Prog
