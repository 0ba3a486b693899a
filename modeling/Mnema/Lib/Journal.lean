import Mathlib.Data.List.Sort
import Mathlib.Data.List.Induction
import Mathlib.Logic.Function.Basic

/-! A keyed store with a journal of its changes, and a replica that is fed from the
journal page by page. A page carries the present values of its keys, not those at the
time of the entry. -/

structure Entry (κ : Type) where
  sequence : Nat
  key : κ
  deleted : Bool

structure Journal (κ ν : Type) where
  store : κ → Option ν
  log : List (Entry κ)

namespace Journal

variable {κ ν : Type} {f g h : Journal κ ν}

/-- No entry of `l` is about `k`. -/
def Apart (k : κ) (l : List (Entry κ)) : Prop := ∀ e ∈ l, e.key ≠ k

theorem apart_append {k : κ} {l l' : List (Entry κ)} : Apart k (l ++ l') ↔ Apart k l ∧ Apart k l' :=
  List.forall_mem_append

/-- The last entry about a key tells whether the store has it, and every key of the store
has an entry. -/
structure Coherent (f : Journal κ ν) : Prop where
  increasing : (0 :: f.log.map (·.sequence)).Pairwise (· < ·)
  absent : ∀ k, Apart k f.log → f.store k = none
  recorded : ∀ pre e post, f.log = pre ++ e :: post → Apart e.key post →
    (e.deleted = true ↔ f.store e.key = none)

/-- `g` has further entries, and one of them for every key whose value changed. -/
def Extends (f g : Journal κ ν) : Prop :=
  ∃ new, g.log = f.log ++ new ∧ ∀ k, Apart k new → g.store k = f.store k

theorem Extends.refl (f : Journal κ ν) : f.Extends f :=
  ⟨[], (List.append_nil _).symm, fun _ _ => rfl⟩

theorem Extends.trans (hf : f.Extends g) (hg : g.Extends h) : f.Extends h := by
  obtain ⟨new, hlog, hstore⟩ := hf
  obtain ⟨new', hlog', hstore'⟩ := hg
  refine ⟨new ++ new', by rw [hlog', hlog, List.append_assoc], fun k hk => ?_⟩
  obtain ⟨hk, hk'⟩ := apart_append.mp hk
  exact (hstore' k hk').trans (hstore k hk)

/-! ### Pages -/

/-- The sequence number up to which `sent` reaches. -/
def reached (sent : List (Entry κ)) : Nat := (sent.getLast?.map (·.sequence)).getD 0

/-- What is left of a coherent journal after the sequence number reached. -/
theorem Coherent.after_reached (hf : f.Coherent) {sent rest : List (Entry κ)}
    (hlog : f.log = sent ++ rest) :
    (∀ e ∈ sent, e.sequence ≤ reached sent) ∧ ∀ e ∈ rest, reached sent < e.sequence := by
  have hinc := hf.increasing
  rw [hlog, List.map_append] at hinc
  obtain ⟨hpos, hinc⟩ := List.pairwise_cons.mp hinc
  obtain ⟨hsent, -, hcross⟩ := List.pairwise_append.mp hinc
  rcases List.eq_nil_or_concat sent with rfl | ⟨init, last, rfl⟩
  · refine ⟨fun _ he => absurd he List.not_mem_nil, fun e he => ?_⟩
    exact hpos _ (List.mem_append_right _ (List.mem_map_of_mem he))
  · have hreached : reached (init ++ [last]) = last.sequence := by
      simp [reached]
    rw [List.concat_eq_append] at *
    rw [hreached]
    refine ⟨fun e he => ?_, fun e he => ?_⟩
    · rcases List.mem_append.mp he with he | he
      · rw [List.map_append] at hsent
        have hlt := (List.pairwise_append.mp hsent).2.2 _ (List.mem_map_of_mem he) last.sequence
          (by simp)
        omega
      · rw [List.mem_singleton.mp he]
    · exact hcross _ (List.mem_map_of_mem (List.mem_append_right _ (List.mem_singleton_self _))) _
        (List.mem_map_of_mem he)

/-- A page of the entries that follow `sent`: the value of each is the present one, unless a
later entry is about the same key. -/
def Serves (f : Journal κ ν) (sent : List (Entry κ)) (page : List (Entry κ × Option ν)) : Prop :=
  ∃ rest, f.log = sent ++ page.map (·.1) ++ rest ∧
    ∀ r ∈ page, Apart r.1.key rest → r.2 = f.store r.1.key

theorem Serves.later {sent : List (Entry κ)} {page : List (Entry κ × Option ν)}
    (hp : f.Serves sent page) (h : f.Extends g) : g.Serves sent page := by
  obtain ⟨rest, hlog, hvalue⟩ := hp
  obtain ⟨new, hlog', hstore⟩ := h
  refine ⟨rest ++ new, by rw [hlog', hlog, List.append_assoc], fun r hr hk => ?_⟩
  obtain ⟨hk, hk'⟩ := apart_append.mp hk
  exact (hvalue r hr hk).trans (hstore _ hk').symm

end Journal

/-! ### Replicas -/

/-- The map that a client keeps, and the entries it has been sent. -/
structure Replica (κ ν : Type) where
  view : κ → Option ν
  sent : List (Entry κ)

namespace Replica

variable {κ ν : Type} {f g : Journal κ ν} {r : Replica κ ν}

/-- The replica has the present value of every key that no pending entry is about. -/
def Follows (r : Replica κ ν) (f : Journal κ ν) : Prop :=
  ∃ rest, f.log = r.sent ++ rest ∧ ∀ k, Journal.Apart k rest → r.view k = f.store k

theorem Follows.later (hr : r.Follows f) (h : f.Extends g) : r.Follows g := by
  obtain ⟨rest, hlog, hview⟩ := hr
  obtain ⟨new, hlog', hstore⟩ := h
  refine ⟨rest ++ new, by rw [hlog', hlog, List.append_assoc], fun k hk => ?_⟩
  obtain ⟨hk, hk'⟩ := Journal.apart_append.mp hk
  exact (hview k hk).trans (hstore k hk').symm

theorem Follows.empty (hf : f.Coherent) : (⟨fun _ => none, []⟩ : Replica κ ν).Follows f :=
  ⟨f.log, rfl, fun k hk => (hf.absent k hk).symm⟩

/-- A replica that has been sent every entry is a copy of the store. -/
theorem Follows.caught_up (hr : r.Follows f) (hsent : r.sent.length = f.log.length) :
    r.view = f.store := by
  obtain ⟨rest, hlog, hview⟩ := hr
  have hrest : rest = [] := by
    have hlen := congrArg List.length hlog
    rw [List.length_append] at hlen
    exact List.length_eq_zero_iff.mp (by omega)
  funext k
  exact hview k (hrest ▸ fun _ he => absurd he List.not_mem_nil)

variable [DecidableEq κ]

def removeAll (view : κ → Option ν) (keys : List κ) : κ → Option ν :=
  keys.foldl (fun v k => Function.update v k none) view

def putAll (view : κ → Option ν) (rows : List (κ × ν)) : κ → Option ν :=
  rows.foldl (fun v r => Function.update v r.1 (some r.2)) view

/-- The deletions of a page first, then its values. -/
def applyPage (view : κ → Option ν) (page : List (Entry κ × Option ν)) : κ → Option ν :=
  putAll (removeAll view ((page.filter (·.1.deleted)).map (·.1.key)))
    ((page.filter (!·.1.deleted)).filterMap fun r => r.2.map fun v => (r.1.key, v))

theorem removeAll_apply (view : κ → Option ν) (keys : List κ) (k : κ) :
    removeAll view keys k = if k ∈ keys then none else view k := by
  induction keys generalizing view with
  | nil => rfl
  | cons key rest ih =>
    rw [removeAll, List.foldl_cons, ← removeAll, ih]
    by_cases hk : k = key
    · subst hk
      simp
    · simp [hk]

theorem putAll_append_one (view : κ → Option ν) (rows : List (κ × ν)) (last : κ × ν) :
    putAll view (rows ++ [last]) = Function.update (putAll view rows) last.1 (some last.2) := by
  simp [putAll]

theorem putAll_of_apart (view : κ → Option ν) {rows : List (κ × ν)} {k : κ}
    (h : ∀ r ∈ rows, r.1 ≠ k) : putAll view rows k = view k := by
  induction rows generalizing view with
  | nil => rfl
  | cons row rest ih =>
    rw [putAll, List.foldl_cons, ← putAll, ih _ fun r hr => h r (List.mem_cons_of_mem _ hr)]
    exact Function.update_of_ne (h row (List.mem_cons_self ..)).symm _ _

theorem putAll_of_mem (view : κ → Option ν) {rows : List (κ × ν)} {k : κ} {v : ν}
    (h : ∀ r ∈ rows, r.1 = k → r.2 = v) (hm : (k, v) ∈ rows) : putAll view rows k = some v := by
  induction rows using List.reverseRecOn with
  | nil => exact absurd hm List.not_mem_nil
  | append_singleton rest last ih =>
    rw [putAll_append_one]
    by_cases hk : last.1 = k
    · rw [← hk, Function.update_self,
        h last (List.mem_append_right _ (List.mem_singleton_self _)) hk]
    · rw [Function.update_of_ne (Ne.symm hk)]
      refine ih (fun r hr => h r (List.mem_append_left _ hr)) ?_
      rcases List.mem_append.mp hm with hm | hm
      · exact hm
      · exact absurd (congrArg Prod.fst (List.mem_singleton.mp hm)).symm hk

theorem removeAll_comp {κ' : Type} [DecidableEq κ'] {f : κ' → κ} (hf : Function.Injective f)
    (view : κ → Option ν) (keys : List κ') :
    (removeAll view (keys.map f)) ∘ f = removeAll (view ∘ f) keys := by
  funext k
  simp [removeAll_apply, hf.eq_iff]

theorem putAll_comp {κ' : Type} [DecidableEq κ'] {f : κ' → κ} (hf : Function.Injective f)
    (view : κ → Option ν) (rows : List (κ' × ν)) :
    (putAll view (rows.map fun r => (f r.1, r.2))) ∘ f = putAll (view ∘ f) rows := by
  induction rows using List.reverseRecOn with
  | nil => rfl
  | append_singleton rest last ih =>
    rw [List.map_append, List.map_singleton, putAll_append_one, putAll_append_one, ← ih]
    exact Function.update_comp_eq_of_injective _ hf _ _

/-- The last element of a list that satisfies `p`. -/
theorem exists_last {α : Type} {p : α → Prop} [DecidablePred p] {l : List α} (h : ∃ a ∈ l, p a) :
    ∃ pre a post, l = pre ++ a :: post ∧ p a ∧ ∀ b ∈ post, ¬ p b := by
  induction l with
  | nil => simp at h
  | cons x rest ih =>
    by_cases hr : ∃ a ∈ rest, p a
    · obtain ⟨pre, a, post, rfl, ha, hpost⟩ := ih hr
      exact ⟨x :: pre, a, post, rfl, ha, hpost⟩
    · obtain ⟨a, ha, hp⟩ := h
      rcases List.mem_cons.mp ha with rfl | ha
      · exact ⟨[], a, rest, rfl, hp, fun b hb hpb => hr ⟨b, hb, hpb⟩⟩
      · exact absurd ⟨a, ha, hp⟩ hr

def takePage (r : Replica κ ν) (page : List (Entry κ × Option ν)) : Replica κ ν :=
  ⟨applyPage r.view page, r.sent ++ page.map (·.1)⟩

/-- A replica that takes the page it is served follows the journal still. -/
theorem Follows.takePage (hr : r.Follows f) (hf : f.Coherent)
    {page : List (Entry κ × Option ν)} (hp : f.Serves r.sent page) :
    (r.takePage page).Follows f := by
  obtain ⟨pending, hpending, hview⟩ := hr
  obtain ⟨rest, hlog, hvalue⟩ := hp
  refine ⟨rest, hlog, fun k hk => ?_⟩
  show applyPage r.view page k = f.store k
  have hsame : pending = page.map (·.1) ++ rest := by
    rw [hpending, List.append_assoc] at hlog
    exact List.append_cancel_left hlog
  have hvalue : ∀ r ∈ page, r.1.key = k → r.2 = f.store k := fun r hr hrk =>
    hrk ▸ hvalue r hr (hrk.symm ▸ hk)
  by_cases hin : ∃ e ∈ page.map (·.1), e.key = k
  case neg =>
    -- the page is not about `k`
    have hapart : ∀ r ∈ page, r.1.key ≠ k := fun r hr hrk =>
      hin ⟨r.1, List.mem_map_of_mem hr, hrk⟩
    have hkept : r.view k = f.store k := hview k (by
      rw [hsame]
      exact Journal.apart_append.mpr ⟨fun e he hek => hin ⟨e, he, hek⟩, hk⟩)
    rw [applyPage, putAll_of_apart, removeAll_apply, if_neg, hkept]
    · simp only [List.mem_map, List.mem_filter, not_exists, not_and]
      exact fun r hr => hapart r hr.1
    · simp only [List.mem_filterMap, List.mem_filter, Option.map_eq_some_iff]
      rintro _ ⟨r, ⟨hr, -⟩, v, -, rfl⟩
      exact hapart r hr
  case pos =>
    obtain ⟨pre, e, post, hsplit, hek, hpost⟩ := exists_last hin
    have hlast := hf.recorded (r.sent ++ pre) e (post ++ rest)
      (by rw [hlog, hsplit]; simp) (by rw [hek]; exact Journal.apart_append.mpr ⟨hpost, hk⟩)
    rw [hek] at hlast
    obtain ⟨row, hrow, rfl⟩ : ∃ row ∈ page, row.1 = e := by
      have : e ∈ page.map (·.1) := by rw [hsplit]; simp
      simpa using this
    rw [applyPage]
    cases hstore : f.store k with
    | none =>
      -- the key is deleted, and no value of the page is about it
      rw [putAll_of_apart, removeAll_apply, if_pos]
      · simp only [List.mem_map, List.mem_filter]
        exact ⟨row, ⟨hrow, hlast.mpr hstore⟩, hek⟩
      · simp only [List.mem_filterMap, List.mem_filter, Option.map_eq_some_iff]
        rintro _ ⟨r, ⟨hr, -⟩, v, hv, rfl⟩ hrk
        simp [hvalue r hr hrk, hstore] at hv
    | some v =>
      have hkept : row.1.deleted = false := by
        cases hd : row.1.deleted with
        | false => rfl
        | true => simp [hlast.mp hd] at hstore
      refine putAll_of_mem _ ?_ ?_
      · simp only [List.mem_filterMap, List.mem_filter, Option.map_eq_some_iff]
        rintro _ ⟨r, ⟨hr, -⟩, v', hv, rfl⟩ hrk
        have := (hvalue r hr hrk).symm.trans hv
        exact Option.some.inj (this.symm.trans hstore)
      · simp only [List.mem_filterMap, List.mem_filter, Option.map_eq_some_iff]
        exact ⟨row, ⟨hrow, by simp [hkept]⟩, v, (hvalue row hrow hek).trans hstore, by rw [hek]⟩

end Replica
