import Mnema.AuditTrail
import Mnema.Lib.Passage

/-! The stages of an item since it was queued last. A failure leads back to `QUEUED`, and from there
every stage can be entered only from the one before it. -/

namespace Mnema

/-- From the queue to the deletion at the source. -/
def stages : List ArchiveState := (linear.drop 2).dropLast

theorem gated_stages : Passage.Gated (fun s t => validTransition s t = true) stages := by
  unfold Passage.Gated
  decide +kernel

/-- The states that an audit trail moves to. -/
def moved (events : List AuditEvent) : List ArchiveState :=
  Passage.moves (events.map fun e => (e.fromState, e.toState))

theorem walk_of_trail {events : List AuditEvent} {s t : ArchiveState} (h : Trail s events t) :
    Passage.Walk (fun s t => validTransition s t = true) s (events.map fun e => (e.fromState, e.toState)) t := by
  induction events generalizing s with
  | nil => exact h
  | cons e rest ih =>
    obtain ⟨hfrom, hv, hrest⟩ := h
    exact ⟨hfrom, hv, ih hrest⟩

/-- In every run: the committed audit trail of an item in a stage ends with the stages from the
queue to it, each entered once and in their order. -/
theorem stages_in_order {σ : Type} {X : ExtEnv σ} {x : σ} {c : (runs X (Call anyItem) anyOp).Config}
    (h : (runs X (Call anyItem) anyOp).Reachable (World.fresh x) c) {row : ArchiveItem}
    (hrow : row ∈ c.1.db.items.rows) {before after : List ArchiveState}
    (hstage : stages = before ++ row.state :: after) :
    before ++ [row.state] <:+ moved (c.1.db.transitions row.id) := by
  have htrail : Trail .discovered (c.1.db.transitions row.id) row.state := (audited_of_reachable h).db.trail row hrow
  have hout : ArchiveState.discovered ∉ stages := by decide
  exact gated_stages.suffix hout (walk_of_trail htrail) hstage

theorem stages_in_order_archivedOnce : ∃ row ∈ archivedOnce.db.items.rows, ∃ before after,
    stages = before ++ row.state :: after ∧ before ≠ [] ∧
      before ++ [row.state] <:+ moved (archivedOnce.db.transitions row.id) := by
  have hrow : ∃ row ∈ archivedOnce.db.items.rows, row.state = .quarantined := by decide
  obtain ⟨row, hrow, hstate⟩ := hrow
  have hstage : stages = stages.take 12 ++ row.state :: stages.drop 13 := by
    rw [hstate]
    decide
  exact ⟨row, hrow, _, _, hstage, by decide, stages_in_order reachable_archivedOnce hrow hstage⟩

end Mnema
