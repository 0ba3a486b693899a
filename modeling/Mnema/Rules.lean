import Mnema.Recovery
import Mnema.Lib.Sessions

/-! Rules for the operations: what a program may assume after each of them, and
which parts of a world each of them leaves alone. -/

namespace Mnema

namespace World

variable {σ : Type} {w : World σ} {row : ArchiveItem} {event : AuditEvent} {o : ExtOp}
  {a : Except PyError o.Res} {x : σ} {d : Db}

@[simp] theorem txn_answered : (w.answered o a x).txn = w.txn := rfl
@[simp] theorem db_answered : (w.answered o a x).db = w.db := rfl
@[simp] theorem pend_answered : (w.answered o a x).pend = w.pend := rfl
@[simp] theorem log_answered : (w.answered o a x).log = w.log ++ observe o a := rfl

@[simp] theorem db_flush : (w.flush row event).db = w.db := rfl
@[simp] theorem items_flush : (w.flush row event).txn.items = w.txn.items.put row := rfl
@[simp] theorem pend_flush : (w.flush row event).pend = w.pend ++ [row] := rfl
@[simp] theorem log_flush : (w.flush row event).log = w.log := rfl

@[simp] theorem db_write : (w.write row).db = w.db := rfl
@[simp] theorem items_write : (w.write row).txn.items = w.txn.items.put row := rfl
@[simp] theorem pend_write : (w.write row).pend = w.pend ++ [row] := rfl
@[simp] theorem log_write : (w.write row).log = w.log := rfl

@[simp] theorem db_addItem : (w.addItem row).db = w.db := rfl
@[simp] theorem items_addItem : (w.addItem row).txn.items =
    w.txn.items.insert { row with id := w.txn.newItemId } := rfl
@[simp] theorem pend_addItem : (w.addItem row).pend =
    w.pend ++ [{ row with id := w.txn.newItemId }] := rfl
@[simp] theorem log_addItem : (w.addItem row).log = w.log := rfl

@[simp] theorem db_commit : w.commit.db = w.txn := rfl
@[simp] theorem txn_commit : w.commit.txn = w.txn := rfl
@[simp] theorem pend_commit : w.commit.pend = [] := rfl
@[simp] theorem log_commit : w.commit.log = w.log ++ w.pend.map .committed := rfl

@[simp] theorem db_rollback : w.rollback.db = w.db := rfl
@[simp] theorem txn_rollback : w.rollback.txn = w.db := rfl
@[simp] theorem pend_rollback : w.rollback.pend = [] := rfl
@[simp] theorem log_rollback : w.rollback.log = w.log := rfl

@[simp] theorem db_setTxn : (w.setTxn d).db = w.db := rfl
@[simp] theorem txn_setTxn : (w.setTxn d).txn = d := rfl
@[simp] theorem pend_setTxn : (w.setTxn d).pend = w.pend := rfl
@[simp] theorem log_setTxn : (w.setTxn d).log = w.log := rfl

/-- The item rows of two worlds are the same, durable and open. -/
structure SameRows (w w' : World σ) : Prop where
  db : w'.db.items = w.db.items
  txn : w'.txn.items = w.txn.items
  pend : w'.pend = w.pend

theorem SameRows.refl (w : World σ) : w.SameRows w := ⟨rfl, rfl, rfl⟩

theorem SameRows.trans {w₁ w₂ w₃ : World σ} (h : w₁.SameRows w₂) (h' : w₂.SameRows w₃) :
    w₁.SameRows w₃ :=
  ⟨h'.db.trans h.db, h'.txn.trans h.txn, h'.pend.trans h.pend⟩

theorem sameRows_answered : w.SameRows (w.answered o a x) := ⟨rfl, rfl, rfl⟩

theorem sameRows_setUpload (id : String) (f : FileProviderUpload → FileProviderUpload) :
    w.SameRows (w.setUpload id f) := by
  unfold setUpload
  split <;> exact ⟨rfl, rfl, rfl⟩

theorem log_setUpload (id : String) (f : FileProviderUpload → FileProviderUpload) :
    (w.setUpload id f).log = w.log := by
  unfold setUpload
  split <;> rfl

end World

/-- The database operations that may change what an item row holds, or make it durable. -/
def DbOp.writesItem : DbOp → Bool
  | .addItem _ | .flush _ _ | .save _ | .commit => true
  | _ => false

theorem World.sameRows_dbStep {σ : Type} {w : World σ} {o : DbOp} (h : o.writesItem = false) :
    w.SameRows (w.dbStep o).2 ∧ (w.dbStep o).2.log = w.log := by
  cases o with
  | addItem _ | flush _ _ | save _ | commit => simp [DbOp.writesItem] at h
  | setUploadStatus id st => exact ⟨sameRows_setUpload id _, log_setUpload id _⟩
  | setReceivedSize id n => exact ⟨sameRows_setUpload id _, log_setUpload id _⟩
  | addUpload _ | addFpItem _ | saveFpItem _ =>
    simp only [World.dbStep]
    split <;> exact ⟨⟨rfl, rfl, rfl⟩, rfl⟩
  | _ => exact ⟨⟨rfl, rfl, rfl⟩, rfl⟩

theorem World.env_db {σ : Type} {X : ExtEnv σ} {w w' : World σ} {o : DbOp}
    {a : Except PyError o.Res} :
    World.env X w (.db o) a w' ↔ a = (w.dbStep o).1 ∧ w' = (w.dbStep o).2 :=
  Prod.ext_iff

/-- Nothing observed is ever forgotten. -/
theorem World.log_grows {σ : Type} {X : ExtEnv σ} {w w' : World σ} {o : Op} {a : o.Ans}
    (h : World.env X w o a w') : ∃ es, w'.log = w.log ++ es := by
  cases o with
  | ext o =>
    obtain ⟨x, _, _, rfl⟩ := h
    exact ⟨_, rfl⟩
  | db o =>
    rw [(World.env_db.mp h).2]
    cases hq : o.writesItem with
    | false => exact ⟨[], by rw [(World.sameRows_dbStep hq).2, List.append_nil]⟩
    | true =>
      cases o with
      | flush row event => exact ⟨[], by simp [World.dbStep]⟩
      | save row => exact ⟨[], by simp [World.dbStep]⟩
      | addItem row =>
        refine ⟨[], ?_⟩
        simp only [World.dbStep]
        split <;> simp
      | commit => exact ⟨_, rfl⟩
      | _ => simp [DbOp.writesItem] at hq

/-! ### Specifications of the primitives -/

section Rules

variable {σ α : Type} {X : ExtEnv σ} {pre : World σ → Op → Prop} {w : World σ}
  {E : PyError → World σ → Prop}

theorem wp_db {o : DbOp} {Q : o.Res → World σ → Prop} :
    (db o).wp pre (World.env X) Q E w ↔
      pre w (.db o) ∧ (∀ a, (w.dbStep o).1 = .ok a → Q a (w.dbStep o).2) ∧
        ∀ e, (w.dbStep o).1 = .error e → E e (w.dbStep o).2 := by
  refine and_congr_right fun _ => ⟨fun h => ?_, fun h a w' he => ?_⟩
  · exact Prog.wp_ofExcept _ |>.mp (h _ _ rfl)
  · obtain ⟨rfl, rfl⟩ := Prod.mk.inj he
    exact Prog.wp_ofExcept _ |>.mpr h

theorem wp_db_ok {o : DbOp} {a : o.Res} {w' : World σ} {Q : o.Res → World σ → Prop}
    (h : w.dbStep o = (.ok a, w')) :
    (db o).wp pre (World.env X) Q E w ↔ pre w (.db o) ∧ Q a w' := by
  rw [wp_db, h]
  simp

theorem wp_ext {o : ExtOp} {Q : o.Res → World σ → Prop} :
    (ext o).wp pre (World.env X) Q E w ↔
      pre w (.ext o) ∧
      (∀ a x, X w.ext o (.ok a) x → honest o (.ok a) → Q a (w.answered o (.ok a) x)) ∧
      ∀ e x, X w.ext o (.error e) x → honest o (.error e) →
        E e (w.answered o (.error e) x) := by
  refine and_congr_right fun _ => ⟨fun h => ⟨fun a x hx hh => ?_, fun e x hx hh => ?_⟩, ?_⟩
  · exact h (.ok a) _ ⟨x, hx, hh, rfl⟩
  · exact h (.error e) _ ⟨x, hx, hh, rfl⟩
  · rintro ⟨hok, herr⟩ (e | a) _ ⟨x, hx, hh, rfl⟩
    · exact herr e x hx hh
    · exact hok a x hx hh

theorem wp_flush {row : ArchiveItem} {event : AuditEvent} {Q : Unit → World σ → Prop} :
    (db (.flush row event)).wp pre (World.env X) Q E w ↔
      pre w (.db (.flush row event)) ∧ Q () (w.flush row event) :=
  wp_db_ok rfl

theorem wp_save {row : ArchiveItem} {Q : Unit → World σ → Prop} :
    (db (.save row)).wp pre (World.env X) Q E w ↔
      pre w (.db (.save row)) ∧ Q () (w.write row) :=
  wp_db_ok rfl

theorem wp_commit {Q : Unit → World σ → Prop} :
    (db .commit).wp pre (World.env X) Q E w ↔ pre w (.db .commit) ∧ Q () w.commit :=
  wp_db_ok rfl

theorem wp_raiseIf {failed : Bool} {error : PyError} {Q : Unit → World σ → Prop} :
    (raiseIf failed error).wp pre (World.env X) Q E w ↔
      (failed = false → Q () w) ∧ (failed = true → E error w) := by
  cases failed <;> simp [raiseIf]

theorem wp_require {value : Option α} {Q : α → World σ → Prop} :
    (require value).wp pre (World.env X) Q E w ↔
      (∀ a, value = some a → Q a w) ∧ (value = none → E (.assertion "") w) := by
  cases value <;> simp [require]

theorem wp_transitionItem {item : ArchiveItem} {target : ArchiveState} {actor : String}
    {Q : ArchiveItem → World σ → Prop} :
    (transitionItem item target actor).wp pre (World.env X) Q E w ↔
      (validTransition item.state target = true →
        pre w (.db (.flush { item with state := target }
          ⟨item.id, "state_transition", item.state, target, actor⟩)) ∧
        Q { item with state := target } (w.flush { item with state := target }
          ⟨item.id, "state_transition", item.state, target, actor⟩)) ∧
      (validTransition item.state target = false → E (.invalidTransition
        ("invalid archive transition: " ++ item.state.value ++ " -> " ++ target.value)) w) := by
  unfold transitionItem validateTransition
  cases hv : validTransition item.state target <;> simp [Prog.ofExcept, wp_flush]

end Rules

section Calls

variable {α : Type} {P : Op → Prop} {E : PyError → Prop}

@[simp] theorem calls_raiseIf {failed : Bool} {error : PyError} {Q : Unit → Prop} :
    (raiseIf failed error).Calls P Q E ↔ (failed = false → Q ()) ∧ (failed = true → E error) := by
  cases failed <;> simp [raiseIf]

@[simp] theorem calls_require {value : Option α} {Q : α → Prop} :
    (require value).Calls P Q E ↔
      (∀ a, value = some a → Q a) ∧ (value = none → E (.assertion "")) := by
  cases value <;> simp [require]

end Calls

end Mnema
