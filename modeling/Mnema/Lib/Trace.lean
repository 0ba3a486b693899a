import Mnema.Lib.Prog

/-! Traces: the calls a program makes and the answers it gets, where anything may be answered. -/

namespace Prog

variable {Op ε α : Type} {Ans : Op → Type}

/-- Calls in the order in which they are made, each with its answer. -/
abbrev Trace (Ans : Op → Type) : Type := List ((o : Op) × Ans o)

def recording : Env (Trace Ans) Op Ans := fun trace o a trace' => trace' = trace ++ [⟨o, a⟩]

/-- `p` makes the calls of the trace and ends as `r`. -/
def Traces (p : Prog Op Ans ε α) (trace : Trace Ans) (r : Except ε α) : Prop :=
  Steps recording ([], p) (trace, ofExcept r)

/-- Whatever is answered, `p` returns under `Q` or raises under `E`, where both see the trace. -/
def Records (p : Prog Op Ans ε α) (Q : α → Trace Ans → Prop) (E : ε → Trace Ans → Prop)
    (trace : Trace Ans) : Prop :=
  p.wp (fun _ _ => True) recording Q E trace

variable {p : Prog Op Ans ε α} {Q Q' : α → Trace Ans → Prop} {E E' : ε → Trace Ans → Prop}
  {trace : Trace Ans}

theorem Records.mono (h : p.Records Q E trace) (hQ : ∀ a t, Q a t → Q' a t)
    (hE : ∀ e t, E e t → E' e t) : p.Records Q' E' trace :=
  wp.mono h (fun _ _ hp => hp) hQ hE

theorem records_op_bind {β : Type} {o : Op} {f : Ans o → Prog Op Ans ε β} {Q : β → Trace Ans → Prop}
    {E : ε → Trace Ans → Prop} :
    (op o >>= f).Records Q E trace ↔ ∀ a, (f a).Records Q E (trace ++ [⟨o, a⟩]) := by
  unfold Records
  rw [wp_bind, wp_op]
  constructor
  · intro h a
    exact h.2 a _ rfl
  · intro h
    exact ⟨trivial, fun a t ht => ht ▸ h a⟩

theorem Records.of_returns (h : p.Records Q E []) {a : α} (ht : p.Traces trace (.ok a)) : Q a trace :=
  wp.steps (c := ([], p)) (d := (trace, .ret a)) h ht

theorem Records.of_raises (h : p.Records Q E []) {e : ε} (ht : p.Traces trace (.error e)) :
    E e trace :=
  wp.steps (c := ([], p)) (d := (trace, .raise e)) h ht

end Prog
