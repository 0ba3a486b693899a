import Mathlib.Logic.Function.Basic

/-! Stores of values under keys, and stores in which a key is written once. -/

abbrev Store (κ α : Type) := κ → Option α

namespace Store

variable {κ α : Type}

def empty : Store κ α := fun _ => none

/-- Whatever `s` holds, `s'` holds under the same key. -/
def Keeps (s s' : Store κ α) : Prop := ∀ k v, s k = some v → s' k = some v

theorem Keeps.refl (s : Store κ α) : s.Keeps s := fun _ _ h => h

theorem Keeps.trans {s₁ s₂ s₃ : Store κ α} (h : s₁.Keeps s₂) (h' : s₂.Keeps s₃) : s₁.Keeps s₃ :=
  fun k v hv => h' k v (h k v hv)

variable [DecidableEq κ]

def put (s : Store κ α) (k : κ) (v : α) : Store κ α := Function.update s k (some v)

def erase (s : Store κ α) (k : κ) : Store κ α := Function.update s k none

/-- Writes under a key that holds nothing yet. -/
def putNew (s : Store κ α) (k : κ) (v : α) : Store κ α := if (s k).isSome then s else s.put k v

@[simp] theorem put_self (s : Store κ α) (k : κ) (v : α) : s.put k v k = some v :=
  Function.update_self ..

theorem put_of_ne (s : Store κ α) {k j : κ} (h : j ≠ k) (v : α) : s.put k v j = s j :=
  Function.update_of_ne h ..

theorem put_put (s : Store κ α) (k : κ) (v w : α) : (s.put k v).put k w = s.put k w :=
  Function.update_idem ..

theorem put_of_some {s : Store κ α} {k : κ} {v : α} (h : s k = some v) : s.put k v = s := by
  rw [put, ← h, Function.update_eq_self]

@[simp] theorem erase_self (s : Store κ α) (k : κ) : s.erase k k = none := Function.update_self ..

theorem erase_of_ne (s : Store κ α) {k j : κ} (h : j ≠ k) : s.erase k j = s j :=
  Function.update_of_ne h ..

theorem erase_of_none {s : Store κ α} {k : κ} (h : s k = none) : s.erase k = s := by
  funext j
  by_cases hj : j = k
  · rw [hj, erase_self, h]
  · exact s.erase_of_ne hj

end Store
