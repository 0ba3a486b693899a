import Mnema.Lib.Prog
import Mathlib.Logic.Function.Basic

/-! Threads that run programs over one state. Between two calls of a thread the
others may move; what they leave alone is its rely relation. -/

/-- What may happen to the state between two calls of a thread. -/
structure Rely (S : Type) where
  allows : S → S → Prop
  refl : ∀ s, allows s s
  trans : ∀ {s t u}, allows s t → allows t u → allows s u

namespace Prog

variable {S Op ε α β : Type} {Ans : Op → Type} {R : Rely S} {pre : S → Op → Prop}
  {env : Env S Op Ans} {Q : α → S → Prop} {E : ε → S → Prop} {s t : S}

/-- `wp` of a program whose every call may find the state changed as `R` allows. -/
def under (R : Rely S) (pre : S → Op → Prop) (env : Env S Op Ans) (Q : α → S → Prop)
    (E : ε → S → Prop) : Prog Op Ans ε α → S → Prop
  | .ret a, s => ∀ t, R.allows s t → Q a t
  | .raise e, s => ∀ t, R.allows s t → E e t
  | .call o k, s => ∀ t, R.allows s t →
      pre t o ∧ ∀ a t', env t o a t' → (k a).under R pre env Q E t'

/-- What others do keeps a specification. -/
theorem under.stable {p : Prog Op Ans ε α} (h : p.under R pre env Q E s) (hr : R.allows s t) :
    p.under R pre env Q E t := by
  cases p <;> exact fun u hu => h u (R.trans hr hu)

theorem under.call_now {o : Op} {k : Ans o → Prog Op Ans ε α}
    (h : (call o k).under R pre env Q E s) :
    pre s o ∧ ∀ a t, env s o a t → (k a).under R pre env Q E t :=
  h s (R.refl s)

theorem under_bind {p : Prog Op Ans ε α} {f : α → Prog Op Ans ε β} {Q : β → S → Prop}
    (h : p.under R pre env (fun a t => (f a).under R pre env Q E t) E s) :
    (p >>= f).under R pre env Q E s := by
  change (p.bind f).under R pre env Q E s
  induction p generalizing s with
  | ret a => exact h s (R.refl s)
  | raise e => exact h
  | call o k ih => exact fun t ht => ⟨(h t ht).1, fun a u hu => ih a ((h t ht).2 a u hu)⟩

/-- A program that makes only calls under a precondition that always holds. -/
theorem Calls.under {P : Op → Prop} {p : Prog Op Ans ε α}
    (h : p.Calls P (fun _ => True) (fun _ => True)) (hpre : ∀ t o, P o → pre t o) :
    p.under R pre env (fun _ _ => True) (fun _ _ => True) s := by
  induction p generalizing s with
  | ret a => exact fun _ _ => trivial
  | raise e => exact fun _ _ => trivial
  | call o k ih => exact fun t _ => ⟨hpre t o h.1, fun a u _ => ih a (h.2 a)⟩

/-- Whether the program has ended. -/
def ended : Prog Op Ans ε α → Bool
  | .call _ _ => false
  | _ => true

end Prog

/-- Programs of threads `ι` over a state, started as `start` allows where the last one ended;
`drift` is what happens without them. -/
structure Pool (S ι Op : Type) (Ans : Op → Type) (ε α : Type) where
  env : ι → Prog.Env S Op Ans
  start : ι → S → Prog Op Ans ε α → Prop
  drift : S → S → Prop

namespace Pool

variable {S ι Op ε α : Type} {Ans : Op → Type} [DecidableEq ι]

abbrev Config (S ι Op : Type) (Ans : Op → Type) (ε α : Type) := S × (ι → Prog Op Ans ε α)

inductive Step (M : Pool S ι Op Ans ε α) :
    Config S ι Op Ans ε α → Config S ι Op Ans ε α → Prop where
  | call {s s' : S} {ts : ι → Prog Op Ans ε α} {i : ι} {o : Op} {k : Ans o → Prog Op Ans ε α}
      {a : Ans o} (hi : ts i = .call o k) (h : M.env i s o a s') :
      Step M (s, ts) (s', Function.update ts i (k a))
  | start {s : S} {ts : ι → Prog Op Ans ε α} {i : ι} {p : Prog Op Ans ε α}
      (hi : (ts i).ended = true) (h : M.start i s p) :
      Step M (s, ts) (s, Function.update ts i p)
  | drift {s s' : S} {ts : ι → Prog Op Ans ε α} (h : M.drift s s') : Step M (s, ts) (s', ts)

abbrev Steps (M : Pool S ι Op Ans ε α) :
    Config S ι Op Ans ε α → Config S ι Op Ans ε α → Prop :=
  Relation.ReflTransGen M.Step

section Invariant

variable {M : Pool S ι Op Ans ε α} {I : S → Prop} {R : ι → Rely S} {pre : ι → S → Op → Prop}
  {c d : Config S ι Op Ans ε α}

/-- Every thread keeps its specification. -/
def Sound (M : Pool S ι Op Ans ε α) (R : ι → Rely S) (pre : ι → S → Op → Prop)
    (c : Config S ι Op Ans ε α) : Prop :=
  ∀ i, (c.2 i).under (R i) (pre i) (M.env i) (fun _ _ => True) (fun _ _ => True) c.1

/-- Threads that keep the invariant and what the others rely on, call by call, may run
together. -/
theorem invariant_of_rely
    (hcall : ∀ i s o a s', I s → pre i s o → M.env i s o a s' →
      I s' ∧ ∀ j, j ≠ i → (R j).allows s s')
    (hstart : ∀ i s p, I s → M.start i s p →
      p.under (R i) (pre i) (M.env i) (fun _ _ => True) (fun _ _ => True) s)
    (hdrift : ∀ s s', I s → M.drift s s' → I s' ∧ ∀ j, (R j).allows s s')
    (hI : I c.1) (hc : M.Sound R pre c) (h : M.Steps c d) : I d.1 ∧ M.Sound R pre d := by
  induction h with
  | refl => exact ⟨hI, hc⟩
  | tail _ hs ih =>
    obtain ⟨hI, hc⟩ := ih
    cases hs with
    | @call s s' ts i o k a hi he =>
      have hw := hc i
      simp only [hi] at hw
      obtain ⟨hp, hk⟩ := hw.call_now
      obtain ⟨hI', hR⟩ := hcall i s o a s' hI hp he
      refine ⟨hI', fun j => ?_⟩
      by_cases hj : j = i
      · subst hj
        simpa only [Function.update_self] using hk a s' he
      · simpa only [Function.update_of_ne hj] using (hc j).stable (hR j hj)
    | @start s ts i p hi hp =>
      refine ⟨hI, fun j => ?_⟩
      by_cases hj : j = i
      · subst hj
        simpa only [Function.update_self] using hstart j s p hI hp
      · simpa only [Function.update_of_ne hj] using hc j
    | drift hd =>
      obtain ⟨hI', hR⟩ := hdrift _ _ hI hd
      exact ⟨hI', fun j => (hc j).stable (hR j)⟩

end Invariant

/-! ### Schedules -/

/-- One call of thread `i`, answered by `h`; nothing where it makes none. -/
def turn (h : ι → S → (o : Op) → Ans o × S) (i : ι) (c : Config S ι Op Ans ε α) :
    Config S ι Op Ans ε α :=
  match c.2 i with
  | .call o k => ((h i c.1 o).2, Function.update c.2 i (k (h i c.1 o).1))
  | _ => c

def play (h : ι → S → (o : Op) → Ans o × S) (order : List ι) (c : Config S ι Op Ans ε α) :
    Config S ι Op Ans ε α :=
  order.foldl (fun c i => turn h i c) c

/-- Whether `ok` allows every call of the schedule. -/
def allowed (ok : ι → S → Op → Bool) (h : ι → S → (o : Op) → Ans o × S) :
    List ι → Config S ι Op Ans ε α → Bool
  | [], _ => true
  | i :: order, c =>
    (match c.2 i with
      | .call o _ => ok i c.1 o
      | _ => true) && allowed ok h order (turn h i c)

/-- A schedule is a run of every pool that allows its calls. -/
theorem play_steps {M : Pool S ι Op Ans ε α} {h : ι → S → (o : Op) → Ans o × S}
    (ok : ι → S → Op → Bool)
    (henv : ∀ i s o, ok i s o = true → M.env i s o (h i s o).1 (h i s o).2) (order : List ι)
    (c : Config S ι Op Ans ε α) (hok : allowed ok h order c = true) :
    M.Steps c (play h order c) := by
  induction order generalizing c with
  | nil => exact .refl
  | cons i order ih =>
    simp only [allowed, Bool.and_eq_true] at hok
    refine .trans ?_ (ih (turn h i c) hok.2)
    have hcall := hok.1
    unfold turn
    split
    · next o k hi =>
      rw [hi] at hcall
      exact .single (.call hi (henv i c.1 o hcall))
    · exact .refl

end Pool
