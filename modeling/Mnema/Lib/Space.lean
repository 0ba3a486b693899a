import Mathlib.Algebra.BigOperators.Group.List.Basic
import Mathlib.Algebra.GroupWithZero.Nat

/-! Space on a disk: steps that take it, give it back or ask whether there is enough, and the
least free space in which a sequence of steps never falls short. -/

inductive SpaceUse where
  | require (n : Nat)
  | write (n : Nat)
  | release (n : Nat)
deriving DecidableEq

namespace SpaceUse

/-- What is free after the steps. -/
def after : Nat → List SpaceUse → Nat
  | free, [] => free
  | free, .require _ :: rest => after free rest
  | free, .write n :: rest => after (free - n) rest
  | free, .release n :: rest => after (free + n) rest

/-- No step finds less free space than it needs. -/
def Fits : Nat → List SpaceUse → Prop
  | _, [] => True
  | free, .require n :: rest => n ≤ free ∧ Fits free rest
  | free, .write n :: rest => n ≤ free ∧ Fits (free - n) rest
  | free, .release n :: rest => Fits (free + n) rest

instance decidableFits : ∀ free uses, Decidable (Fits free uses)
  | _, [] => isTrue trivial
  | free, .require n :: rest =>
    have := decidableFits free rest
    inferInstanceAs (Decidable (n ≤ free ∧ Fits free rest))
  | free, .write n :: rest =>
    have := decidableFits (free - n) rest
    inferInstanceAs (Decidable (n ≤ free ∧ Fits (free - n) rest))
  | free, .release n :: rest => decidableFits (free + n) rest

/-- Writes one after another. -/
def writes (sizes : List Nat) : List SpaceUse := sizes.map .write

variable {free : Nat} {a b rest : List SpaceUse} {sizes : List Nat}

theorem after_append : after free (a ++ b) = after (after free a) b := by
  induction a generalizing free with
  | nil => rfl
  | cons u a ih => cases u <;> exact ih

theorem fits_append : Fits free (a ++ b) ↔ Fits free a ∧ Fits (after free a) b := by
  induction a generalizing free with
  | nil => simp [Fits, after]
  | cons u a ih =>
    cases u with
    | require n => simp only [List.cons_append, Fits, after, ih, and_assoc]
    | write n => simp only [List.cons_append, Fits, after, ih, and_assoc]
    | release n => simp only [List.cons_append, Fits, after, ih]

theorem after_writes : after free (writes sizes) = free - sizes.sum := by
  induction sizes generalizing free with
  | nil => rfl
  | cons n sizes ih =>
    have hh := @ih (free - n)
    simp only [writes, List.map_cons, after, List.sum_cons] at hh ⊢
    rw [hh]
    omega

theorem fits_writes : Fits free (writes sizes) ↔ sizes.sum ≤ free := by
  induction sizes generalizing free with
  | nil => simp [writes, Fits]
  | cons n sizes ih =>
    have hh := @ih (free - n)
    simp only [writes, List.map_cons, Fits, List.sum_cons] at hh ⊢
    rw [hh]
    omega

/-- Space that is taken for a while: the files of a directory that is removed in the end. -/
def temporary (required : Nat) (body : List SpaceUse) (left : Nat) : List SpaceUse :=
  (if required = 0 then [] else [.require required]) ++ body ++ [.release left]

theorem fits_temporary {required left : Nat} {body : List SpaceUse} :
    Fits free (temporary required body left) ↔ required ≤ free ∧ Fits free body := by
  by_cases hr : required = 0
  · simp [temporary, hr, fits_append, Fits]
  · simp [temporary, hr, fits_append, Fits]

theorem after_temporary {required left : Nat} {body : List SpaceUse} :
    after free (temporary required body left) = after free body + left := by
  by_cases hr : required = 0
  · simp [temporary, hr, after_append, after]
  · simp [temporary, hr, after_append, after]

/-- Steps that give back what they take, and some more, repeated over a list: the demands do not
add up, and what was given back before is there. -/
theorem fits_flatMap {ι : Type} {uses : ι → List SpaceUse} {gain : ι → Nat} {items : List ι}
    (h : ∀ i free, Fits free (uses i) → after free (uses i) = free + gain i) :
    Fits free (items.flatMap uses) ↔
      ∀ pre i post, items = pre ++ i :: post → Fits (free + (pre.map gain).sum) (uses i) := by
  induction items generalizing free with
  | nil => simp [Fits]
  | cons i items ih =>
    rw [List.flatMap_cons, fits_append]
    constructor
    · rintro ⟨hfits, hrest⟩ pre j post hitems
      rw [h i free hfits] at hrest
      cases pre with
      | nil =>
        obtain ⟨rfl, -⟩ := List.cons.inj hitems
        exact hfits
      | cons k pre =>
        obtain ⟨rfl, hrest'⟩ := List.cons.inj hitems
        have hj := ih.mp hrest pre j post hrest'
        rwa [List.map_cons, List.sum_cons, ← Nat.add_assoc]
    · intro hall
      have hfits : Fits free (uses i) := hall [] i items rfl
      refine ⟨hfits, ?_⟩
      rw [h i free hfits]
      refine ih.mpr fun pre j post hitems => ?_
      have hj := hall (i :: pre) j post (by rw [hitems, List.cons_append])
      rwa [List.map_cons, List.sum_cons, ← Nat.add_assoc] at hj

end SpaceUse
