import Mnema.Lib.Effect
import Mnema.Lib.Store

/-! Scripts of checks and writes: what they have written when the first check fails. -/

/-- A check that raises if there is something to raise, or a write. -/
inductive Item (κ α ε : Type) where
  | check (fault : Option ε)
  | put (key : κ) (content : α)

abbrev Script (κ α ε : Type) := List (Item κ α ε)

namespace Script

variable {κ α ε σ : Type}

/-- Some check fails. -/
def fails : Script κ α ε → Bool
  | [] => false
  | .check none :: rest => fails rest
  | .check (some _) :: _ => true
  | .put _ _ :: rest => fails rest

/-- The last content that is written under each key before a check fails. -/
def written [DecidableEq κ] : Script κ α ε → Store κ α → Store κ α
  | [], store => store
  | .check none :: rest, store => written rest store
  | .check (some _) :: _, store => store
  | .put key content :: rest, store => written rest (store.put key content)

/-- Whatever is written before a check fails is what was there. -/
def Repeats [DecidableEq κ] (script : Script κ α ε) (store : Store κ α) : Prop :=
  ∀ key content, written script Store.empty key = some content → store key = some content

/-- The keys of all writes. -/
def keys : Script κ α ε → List κ
  | [] => []
  | .check _ :: rest => keys rest
  | .put key _ :: rest => key :: keys rest

/-- The keys that are written before a check fails. -/
def done : Script κ α ε → List κ
  | [] => []
  | .check none :: rest => done rest
  | .check (some _) :: _ => []
  | .put key _ :: rest => key :: done rest

theorem done_prefix_keys (script : Script κ α ε) : done script <+: keys script := by
  induction script with
  | nil => exact List.prefix_rfl
  | cons item rest ih =>
    cases item with
    | check fault =>
      cases fault with
      | none => exact ih
      | some e => exact List.nil_prefix
    | put key content => exact List.cons_prefix_cons.mpr ⟨rfl, ih⟩

theorem keys_append (script other : Script κ α ε) : keys (script ++ other) = keys script ++ keys other := by
  induction script with
  | nil => rfl
  | cons item rest ih => cases item <;> simp [keys, ih]

section Written

variable [DecidableEq κ] {script : Script κ α ε} {store : Store κ α}

theorem written_eq_or (script : Script κ α ε) (store : Store κ α) (key : κ) :
    written script store key = (written script Store.empty key).or (store key) := by
  induction script generalizing store with
  | nil => rfl
  | cons item rest ih =>
    cases item with
    | check fault =>
      cases fault with
      | none => exact ih store
      | some e => rfl
    | put other content =>
      show written rest (store.put other content) key = (written rest (Store.empty.put other content) key).or _
      rw [ih (store.put other content), ih (Store.empty.put other content), Option.or_assoc]
      congr 1
      by_cases hkey : key = other
      · rw [hkey, Store.put_self, Store.put_self]
        rfl
      · rw [Store.put_of_ne _ hkey, Store.put_of_ne _ hkey]
        rfl

theorem mem_keys_of_written {key : κ} {content : α} (h : written script Store.empty key = some content) :
    key ∈ keys script := by
  induction script with
  | nil => cases h
  | cons item rest ih =>
    cases item with
    | check fault =>
      cases fault with
      | none => exact ih h
      | some e => cases h
    | put other added =>
      by_cases hkey : key = other
      · rw [hkey]
        exact List.mem_cons_self
      · have hrest : written rest (Store.empty.put other added) key = some content := h
        rw [written_eq_or, Store.put_of_ne _ hkey, Store.empty, Option.or_none] at hrest
        exact List.mem_cons_of_mem other (ih hrest)

/-- A script changes nothing exactly if it repeats what is there. -/
theorem written_eq_iff : (∀ key ∈ keys script, written script store key = store key) ↔ Repeats script store := by
  constructor
  · intro h key content hcontent
    have heq := h key (mem_keys_of_written hcontent)
    rw [written_eq_or, hcontent] at heq
    exact heq.symm
  · intro h key _
    rw [written_eq_or]
    cases hcontent : written script Store.empty key with
    | none => rfl
    | some content =>
      rw [h key content hcontent]
      rfl

theorem written_of_not_mem_done {key : κ} (h : key ∉ done script) : written script store key = store key := by
  induction script generalizing store with
  | nil => rfl
  | cons item rest ih =>
    cases item with
    | check fault =>
      cases fault with
      | none => exact ih h
      | some e => rfl
    | put other content =>
      rw [done, List.mem_cons, not_or] at h
      show written rest (store.put other content) key = store key
      rw [ih h.2, Store.put_of_ne _ h.1]

theorem written_of_mem_done {key : κ} (h : key ∈ done script) :
    ∃ content, .put key content ∈ script ∧ written script store key = some content := by
  induction script generalizing store with
  | nil => cases h
  | cons item rest ih =>
    cases item with
    | check fault =>
      cases fault with
      | none =>
        obtain ⟨content, hmem, hwritten⟩ := @ih store h
        exact ⟨content, List.mem_cons_of_mem _ hmem, hwritten⟩
      | some e => cases h
    | put other added =>
      by_cases hrest : key ∈ done rest
      · obtain ⟨content, hmem, hwritten⟩ := @ih (store.put other added) hrest
        exact ⟨content, List.mem_cons_of_mem _ hmem, hwritten⟩
      · have hkey : key = other := (List.mem_cons.mp h).resolve_right hrest
        refine ⟨added, hkey ▸ List.mem_cons_self, ?_⟩
        show written rest (store.put other added) key = some added
        rw [written_of_not_mem_done hrest, hkey, Store.put_self]

/-! ### Undoing -/

section Undo

variable (usable : α → Prop) [DecidablePred usable] (old : Store κ α)

/-- Puts back under each key what was there, up to the first that cannot be used. -/
def undo : List κ → Store κ α → Store κ α
  | [], store => store
  | key :: rest, store =>
    match old key with
    | none => undo rest (store.erase key)
    | some content => if usable content then undo rest (store.put key content) else store

variable {usable old} {ks others : List κ}

theorem undo_self (ks : List κ) : undo usable old ks old = old := by
  induction ks with
  | nil => rfl
  | cons key rest ih =>
    rw [undo]
    cases hold : old key with
    | none =>
      rw [Store.erase_of_none hold]
      exact ih
    | some content =>
      by_cases husable : usable content
      · simp only [husable, if_true]
        rw [Store.put_of_some hold]
        exact ih
      · simp only [husable, if_false]

/-- What cannot be used is not put back. -/
theorem undo_of_not_usable {key : κ} {content : α} (hold : old key = some content) (hnot : ¬usable content) :
    undo usable old ks store key = store key := by
  induction ks generalizing store with
  | nil => rfl
  | cons other rest ih =>
    rw [undo]
    cases hother : old other with
    | none =>
      have hne : key ≠ other := by
        rintro rfl
        rw [hold] at hother
        cases hother
      exact ih.trans (Store.erase_of_ne _ hne)
    | some added =>
      by_cases husable : usable added
      · have hne : key ≠ other := by
          rintro rfl
          rw [hold] at hother
          cases hother
          exact hnot husable
        simp only [husable, if_true]
        exact ih.trans (Store.put_of_ne _ hne added)
      · simp only [husable, if_false]

/-- If only keys with usable contents were changed, everything is put back. -/
theorem undo_of_usable (hchanged : ∀ key, key ∉ ks → store key = old key)
    (husable : ∀ key ∈ ks, ∀ content, old key = some content → usable content) :
    undo usable old (ks ++ others) store = old := by
  induction ks generalizing store with
  | nil =>
    have hstore : store = old := funext fun key => hchanged key List.not_mem_nil
    rw [hstore]
    exact undo_self others
  | cons key rest ih =>
    rw [List.cons_append, undo]
    have hrest := fun other hother => husable other (List.mem_cons_of_mem key hother)
    cases hold : old key with
    | none =>
      apply ih _ hrest
      intro other hother
      by_cases hkey : other = key
      · rw [hkey, Store.erase_self, hold]
      · rw [Store.erase_of_ne _ hkey]
        exact hchanged other (by simp [hkey, hother])
    | some content =>
      simp only [husable key List.mem_cons_self content hold, if_true]
      apply ih _ hrest
      intro other hother
      by_cases hkey : other = key
      · rw [hkey, Store.put_self, hold]
      · rw [Store.put_of_ne _ hkey]
        exact hchanged other (by simp [hkey, hother])

/-- A script is undone exactly if it has only overwritten what can be used. -/
theorem undo_written_iff (hkeys : done script <+: ks) (hputs : ∀ key content, .put key content ∈ script → usable content) :
    (∀ key ∈ ks, undo usable old ks (written script old) key = old key) ↔
      ∀ key ∈ done script, ∀ content, old key = some content → usable content := by
  constructor
  · intro h key hkey content hold
    by_contra hnot
    have hundone := h key (hkeys.subset hkey)
    rw [undo_of_not_usable hold hnot] at hundone
    obtain ⟨added, hmem, hwritten⟩ := @written_of_mem_done _ _ _ _ script old key hkey
    rw [hwritten, hold] at hundone
    cases hundone
    exact hnot (hputs key _ hmem)
  · intro h key _
    obtain ⟨others, rfl⟩ := hkeys
    rw [undo_of_usable (fun _ => written_of_not_mem_done) h]

end Undo

end Written

/-! ### Scripts as programs -/

section Perform

variable (put : κ → α → σ → σ)

def perform : Script κ α ε → Effect σ ε Unit
  | [] => pure ()
  | .check fault :: rest => do
    Effect.attempt fault
    perform rest
  | .put key content :: rest => do
    modify (put key content)
    perform rest

theorem perform_append (script other : Script κ α ε) :
    perform put (script ++ other) = (do perform put script; perform put other) := by
  induction script with
  | nil => simp [perform]
  | cons item rest ih => cases item <;> simp [perform, ih]

/-- A program that writes into a part of the state leaves there what the script has written. -/
theorem wp_perform [DecidableEq κ] {withStore : Store κ α → σ → σ} {store : σ → Store κ α}
    (hstore : ∀ f s, store (withStore f s) = f) (hset : ∀ f g s, withStore g (withStore f s) = withStore g s)
    (hself : ∀ s, withStore (store s) s = s) (script : Script κ α ε) {s : σ} {Q : Unit → σ → Prop} {P : σ → Prop} :
    Effect.wp (perform (fun key content s => withStore ((store s).put key content) s) script) Q (fun _ => P) s ↔
      (script.fails = true → P (withStore (written script (store s)) s)) ∧
        (script.fails = false → Q () (withStore (written script (store s)) s)) := by
  induction script generalizing s with
  | nil => simp [perform, fails, written, hself]
  | cons item rest ih =>
    cases item with
    | check fault =>
      cases fault with
      | none =>
        simp only [perform, Effect.attempt, Effect.wp_bind, Effect.wp_pure]
        exact ih
      | some e => simp [perform, Effect.attempt, fails, written, hself]
    | put key content =>
      simp only [perform, Effect.wp_bind, Effect.wp_modify]
      rw [ih, hstore, hset]
      rfl

end Perform

end Script
