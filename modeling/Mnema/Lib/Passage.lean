import Mathlib.Data.List.Chain
import Mathlib.Data.List.Induction

/-! Walks through a relation, and the stations that no walk can leave out. -/

namespace Passage

variable {α : Type} (R : α → α → Prop)

/-- The steps lead from one point to the other. -/
def Walk : α → List (α × α) → α → Prop
  | s, [], t => s = t
  | s, e :: rest, t => e.1 = s ∧ R s e.2 ∧ Walk e.2 rest t

/-- Each station can be entered only from the one before it, or from itself. -/
def Gated (stations : List α) : Prop := stations.IsChain fun a b => ∀ s, R s b → s = a ∨ s = b

/-- The points that the steps move to; a step that stays is none. -/
def moves [DecidableEq α] (steps : List (α × α)) : List α :=
  (steps.filter fun e => e.1 ≠ e.2).map Prod.snd

variable {R} {s t : α} {steps : List (α × α)}

theorem Walk.of_snoc {e : α × α} (h : Walk R s (steps ++ [e]) t) : Walk R s steps e.1 ∧ R e.1 e.2 ∧ e.2 = t := by
  induction steps generalizing s with
  | nil =>
    obtain ⟨rfl, hr, ht⟩ := h
    exact ⟨rfl, hr, ht⟩
  | cons x rest ih =>
    obtain ⟨hx, hr, hrest⟩ := h
    obtain ⟨hwalk, hlast⟩ := ih hrest
    exact ⟨⟨hx, hr, hwalk⟩, hlast⟩

variable [DecidableEq α]

theorem moves_snoc_of_eq {e : α × α} (h : e.1 = e.2) : moves (steps ++ [e]) = moves steps := by
  simp [moves, h]

theorem moves_snoc_of_ne {e : α × α} (h : e.1 ≠ e.2) : moves (steps ++ [e]) = moves steps ++ [e.2] := by
  simp [moves, h]

/-- A walk from outside to a station ends with the stations before it, one after another. -/
theorem Gated.suffix {stations before after : List α} (hg : Gated R stations) (hs : s ∉ stations)
    (hw : Walk R s steps t) (ht : stations = before ++ t :: after) : before ++ [t] <:+ moves steps := by
  induction steps using List.reverseRecOn generalizing before after t with
  | nil =>
    have hst : s = t := hw
    exact absurd (by simp [ht, hst]) hs
  | append_singleton steps e ih =>
    obtain ⟨hwalk, hr, rfl⟩ := hw.of_snoc
    by_cases he : e.1 = e.2
    · rw [moves_snoc_of_eq he]
      exact ih (he ▸ hwalk) ht
    · rw [moves_snoc_of_ne he]
      cases before using List.reverseRecOn with
      | nil => exact List.suffix_append _ _
      | append_singleton before a =>
        have hstations : stations = before ++ a :: e.2 :: after := by simpa using ht
        have hgate : ∀ u, R u e.2 → u = a ∨ u = e.2 := by
          rw [Gated, hstations] at hg
          exact (List.isChain_append_cons_cons.mp hg).2.1
        have ha : e.1 = a := (hgate e.1 hr).resolve_right he
        obtain ⟨first, hfirst⟩ := ih (ha ▸ hwalk) hstations
        exact ⟨first, by simp [← hfirst]⟩

end Passage
