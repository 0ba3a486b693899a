import Mathlib.Logic.Basic

/-! Programs that change a state and may raise. What was changed before an exception stays changed. -/

abbrev Effect (σ ε α : Type) := EStateM ε σ α

namespace Effect

variable {σ ε α β : Type}

/-- Raises, if there is something to raise. -/
def attempt : Option ε → Effect σ ε Unit
  | none => pure ()
  | some e => throw e

def ofResult : Except ε α → Effect σ ε α
  | .ok a => pure a
  | .error e => throw e

/-- Changes the state, or raises and leaves it. -/
def change (f : σ → Except ε σ) : Effect σ ε Unit := fun s =>
  match f s with
  | .ok t => .ok () t
  | .error e => .error e s

def onlyIf (c : Bool) (p : Effect σ ε Unit) : Effect σ ε Unit := if c then p else pure ()

@[simp] theorem onlyIf_true (p : Effect σ ε Unit) : onlyIf true p = p := rfl

@[simp] theorem onlyIf_false (p : Effect σ ε Unit) : onlyIf false p = pure () := rfl

/-- A return satisfies `Q`, an exception `E`. -/
def wp (p : Effect σ ε α) (Q : α → σ → Prop) (E : ε → σ → Prop) (s : σ) : Prop :=
  match p.run s with
  | .ok a t => Q a t
  | .error e t => E e t

section Rules

variable {p : Effect σ ε α} {Q Q' : α → σ → Prop} {E E' : ε → σ → Prop} {s : σ}

@[simp] theorem wp_pure (a : α) : wp (pure a : Effect σ ε α) Q E s ↔ Q a s := Iff.rfl

@[simp] theorem wp_throw (e : ε) : wp (throw e : Effect σ ε α) Q E s ↔ E e s := Iff.rfl

@[simp] theorem wp_get {Q : σ → σ → Prop} : wp (get : Effect σ ε σ) Q E s ↔ Q s s := Iff.rfl

@[simp] theorem wp_modify (f : σ → σ) {Q : Unit → σ → Prop} :
    wp (modify f : Effect σ ε Unit) Q E s ↔ Q () (f s) := Iff.rfl

@[simp] theorem wp_bind (f : α → Effect σ ε β) {Q : β → σ → Prop} :
    wp (p >>= f) Q E s ↔ wp p (fun a t => wp (f a) Q E t) E s := by
  show (match EStateM.run (EStateM.bind p f) s with
    | .ok a t => Q a t
    | .error e t => E e t) ↔ _
  unfold wp EStateM.run EStateM.bind
  cases p s <;> rfl

@[simp] theorem wp_tryCatch (h : ε → Effect σ ε α) :
    wp (tryCatch p h) Q E s ↔ wp p Q (fun e t => wp (h e) Q E t) s := by
  show (match EStateM.run (EStateM.tryCatch p h) s with
    | .ok a t => Q a t
    | .error e t => E e t) ↔ _
  unfold wp EStateM.run EStateM.tryCatch
  cases p s <;> rfl

/-- Where it does not matter what is raised. -/
theorem wp_attempt_const (fault : Option ε) {Q : Unit → σ → Prop} {P : σ → Prop} :
    wp (attempt fault : Effect σ ε Unit) Q (fun _ => P) s ↔ (fault ≠ none → P s) ∧ (fault = none → Q () s) := by
  cases fault <;> simp [attempt]

theorem wp_ofResult (r : Except ε α) :
    wp (ofResult r : Effect σ ε α) Q E s ↔ (∀ e, r = .error e → E e s) ∧ ∀ a, r = .ok a → Q a s := by
  cases r <;> simp [ofResult]

theorem wp_change (f : σ → Except ε σ) {Q : Unit → σ → Prop} :
    wp (change f) Q E s ↔ (∀ e, f s = .error e → E e s) ∧ ∀ t, f s = .ok t → Q () t := by
  unfold wp change EStateM.run
  cases hf : f s <;> simp [hf]

theorem wp_ite {c : Prop} [Decidable c] {q : Effect σ ε α} :
    wp (if c then p else q) Q E s ↔ (c → wp p Q E s) ∧ (¬c → wp q Q E s) := by
  by_cases h : c <;> simp [h]

theorem wp.mono (h : wp p Q E s) (hQ : ∀ a t, Q a t → Q' a t) (hE : ∀ e t, E e t → E' e t) : wp p Q' E' s := by
  unfold wp at h ⊢
  cases hrun : p.run s with
  | ok a t =>
    rw [hrun] at h
    exact hQ a t h
  | error e t =>
    rw [hrun] at h
    exact hE e t h

end Rules

/-- An exception leaves a state that is, as far as `same` can tell, the one before. -/
def Atomic (same : σ → σ → Prop) (p : Effect σ ε α) (s : σ) : Prop := wp p (fun _ _ => True) (fun _ t => same s t) s

end Effect
