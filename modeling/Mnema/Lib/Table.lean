import Mathlib.Data.List.Nodup

/-! Tables of rows with a primary key. Two rows with one key cannot be built. -/

theorem le_foldl_max {n : Nat} {l : List Nat} (h : n ∈ l) : n ≤ l.foldl max 0 := by
  have hle : ∀ (l : List Nat) (m : Nat), m ≤ l.foldl max m ∧ ∀ n ∈ l, n ≤ l.foldl max m := by
    intro l
    induction l with
    | nil => exact fun m => ⟨Nat.le_refl m, fun n hn => absurd hn List.not_mem_nil⟩
    | cons x rest ih =>
      intro m
      obtain ⟨hm, hrest⟩ := ih (max m x)
      refine ⟨Nat.le_trans (Nat.le_max_left m x) hm, fun n hn => ?_⟩
      rcases List.mem_cons.mp hn with rfl | hn
      · exact Nat.le_trans (Nat.le_max_right m n) hm
      · exact hrest n hn
  exact (hle l 0).2 n h

structure Table (α κ : Type) (key : α → κ) where
  rows : List α
  nodup : (rows.map key).Nodup

namespace Table

variable {α κ : Type} {key : α → κ}

def empty : Table α κ key := ⟨[], List.nodup_nil⟩

instance : Inhabited (Table α κ key) := ⟨empty⟩

variable [DecidableEq κ]

def get (t : Table α κ key) (k : κ) : Option α := t.rows.find? (fun r => decide (key r = k))

/-- Replaces the row with the key of `r`; a table without one stays as it is. -/
def put (t : Table α κ key) (r : α) : Table α κ key where
  rows := t.rows.map (fun x => if key x = key r then r else x)
  nodup := by
    have h : (t.rows.map (fun x => if key x = key r then r else x)).map key = t.rows.map key := by
      rw [List.map_map]
      refine List.map_congr_left fun x _ => ?_
      by_cases hx : key x = key r <;> simp [hx]
    exact h ▸ t.nodup

/-- Adds a row, unless its key is taken. -/
def insert (t : Table α κ key) (r : α) : Table α κ key :=
  if h : key r ∈ t.rows.map key then t
  else
    { rows := t.rows ++ [r]
      nodup := by
        rw [List.map_append, List.nodup_append]
        exact ⟨t.nodup, List.nodup_singleton _, fun a ha b hb => by
          rw [List.map_singleton, List.mem_singleton] at hb
          exact fun he => h (hb ▸ he ▸ ha)⟩ }

/-- Rewrites every row, its key apart. -/
def mapRows (t : Table α κ key) (f : α → α) (hf : ∀ r, key (f r) = key r) : Table α κ key where
  rows := t.rows.map f
  nodup := by
    have h : (t.rows.map f).map key = t.rows.map key := by
      rw [List.map_map]
      exact List.map_congr_left fun r _ => hf r
    exact h ▸ t.nodup

def erase (t : Table α κ key) (k : κ) : Table α κ key where
  rows := t.rows.filter fun r => decide (key r ≠ k)
  nodup := t.nodup.sublist (List.filter_sublist.map key)

omit [DecidableEq κ] in
theorem ext {t t' : Table α κ key} (h : t.rows = t'.rows) : t = t' := by
  cases t
  cases t'
  cases h
  rfl

theorem get_eq_some_iff {t : Table α κ key} {k : κ} {r : α} :
    t.get k = some r ↔ r ∈ t.rows ∧ key r = k := by
  obtain ⟨rows, hn⟩ := t
  simp only [get]
  induction rows with
  | nil => simp
  | cons x xs ih =>
    rw [List.map_cons, List.nodup_cons] at hn
    by_cases hx : key x = k
    · simp only [List.find?_cons, hx, decide_true, Option.some.injEq, List.mem_cons]
      refine ⟨fun he => ⟨.inl he.symm, he ▸ hx⟩, ?_⟩
      rintro ⟨rfl | hr, hk⟩
      · rfl
      · exact absurd (List.mem_map.mpr ⟨r, hr, hk.trans hx.symm⟩) hn.1
    · simp only [List.find?_cons, hx, decide_false, List.mem_cons]
      rw [ih hn.2]
      refine and_congr_left fun hk => ⟨.inr, fun h => h.resolve_left fun he => hx (he ▸ hk)⟩

theorem mem_of_get {t : Table α κ key} {k : κ} {r : α} (h : t.get k = some r) : r ∈ t.rows :=
  (get_eq_some_iff.mp h).1

theorem key_of_get {t : Table α κ key} {k : κ} {r : α} (h : t.get k = some r) : key r = k :=
  (get_eq_some_iff.mp h).2

theorem get_of_mem {t : Table α κ key} {r : α} (h : r ∈ t.rows) : t.get (key r) = some r :=
  get_eq_some_iff.mpr ⟨h, rfl⟩

theorem get_eq_none_iff {t : Table α κ key} {k : κ} : t.get k = none ↔ k ∉ t.rows.map key := by
  simp [get]

@[simp] theorem get_empty (k : κ) : (empty : Table α κ key).get k = none := rfl

omit [DecidableEq κ] in
@[simp] theorem mem_rows_empty (r : α) : r ∉ (empty : Table α κ key).rows := List.not_mem_nil

theorem mem_put {t : Table α κ key} {r x : α} (h : x ∈ (t.put r).rows) :
    x = r ∨ (x ∈ t.rows ∧ key x ≠ key r) := by
  obtain ⟨y, hy, rfl⟩ := List.mem_map.mp h
  by_cases hk : key y = key r <;> simp [hk, hy]

theorem get_put_self {t : Table α κ key} {r old : α} (h : t.get (key r) = some old) :
    (t.put r).get (key r) = some r := by
  refine get_eq_some_iff.mpr ⟨List.mem_map.mpr ⟨old, mem_of_get h, ?_⟩, rfl⟩
  simp [key_of_get h]

theorem get_put_of_ne {t : Table α κ key} {r : α} {k : κ} (h : k ≠ key r) :
    (t.put r).get k = t.get k := by
  simp only [get, put, List.find?_map]
  have hf : (fun x => decide (key x = k)) ∘ (fun x => if key x = key r then r else x) =
      fun x => decide (key x = k) := by
    funext x
    by_cases hx : key x = key r
    · simp [hx]
    · simp [hx]
  rw [hf]
  cases hg : t.rows.find? (fun x => decide (key x = k)) with
  | none => rfl
  | some x =>
    have hk : key x = k := by simpa using List.find?_some hg
    simp [hk, h]

theorem get_put {t : Table α κ key} {r : α} {k : κ} :
    (t.put r).get k = if k = key r then (t.get k).map (fun _ => r) else t.get k := by
  by_cases hk : k = key r
  · subst hk
    cases hg : t.get (key r) with
    | some old => simp [get_put_self hg]
    | none =>
      rw [get_eq_none_iff] at hg
      have : (t.put r).get (key r) = none := by
        rw [get_eq_none_iff]
        intro hm
        obtain ⟨x, hx, he⟩ := List.mem_map.mp hm
        rcases mem_put hx with rfl | ⟨_, hne⟩
        · obtain ⟨y, hy, hyx⟩ := List.mem_map.mp hx
          by_cases hky : key y = key x
          · exact hg (List.mem_map.mpr ⟨y, hy, hky⟩)
          · simp only [hky, if_false] at hyx
            exact hky (congrArg key hyx)
        · exact hne he
      simp [this]
  · simp [hk, get_put_of_ne hk]

/-- Replacing a row makes at most that row count. -/
theorem countP_put_le (t : Table α κ key) (r : α) (p : α → Bool) :
    (t.put r).rows.countP p ≤ t.rows.countP p + if p r then 1 else 0 := by
  obtain ⟨rows, hn⟩ := t
  simp only [put]
  induction rows with
  | nil => simp
  | cons x xs ih =>
    rw [List.map_cons, List.nodup_cons] at hn
    by_cases hx : key x = key r
    · have hrest : xs.map (fun y => if key y = key r then r else y) = xs := by
        refine (List.map_congr_left fun y hy => ?_).trans (List.map_id xs)
        have hne : key y ≠ key r := fun he =>
          hn.1 (List.mem_map.mpr ⟨y, hy, he.trans hx.symm⟩)
        simp [hne]
      simp only [List.map_cons, hx, if_true, hrest, List.countP_cons]
      omega
    · have := ih hn.2
      simp only [List.map_cons, hx, if_false, List.countP_cons]
      omega

theorem mem_insert {t : Table α κ key} {r x : α} (h : x ∈ (t.insert r).rows) :
    x ∈ t.rows ∨ x = r := by
  unfold insert at h
  split at h
  · exact .inl h
  · rcases List.mem_append.mp h with h | h
    · exact .inl h
    · exact .inr (List.mem_singleton.mp h)

theorem get_insert_self {t : Table α κ key} {r : α} (h : t.get (key r) = none) :
    (t.insert r).get (key r) = some r := by
  rw [get_eq_none_iff] at h
  exact get_eq_some_iff.mpr ⟨by simp [insert, h], rfl⟩

theorem mem_put_insert (t : Table α κ key) (r : α) : r ∈ ((t.insert r).put r).rows := by
  have h : ∃ old, (t.insert r).get (key r) = some old := by
    cases hg : t.get (key r) with
    | none => exact ⟨r, get_insert_self hg⟩
    | some old =>
      refine ⟨old, ?_⟩
      unfold insert
      rwa [dif_pos (List.mem_map.mpr ⟨old, mem_of_get hg, key_of_get hg⟩)]
  obtain ⟨old, hold⟩ := h
  exact mem_of_get (get_put_self hold)

theorem get_insert_of_get {t : Table α κ key} {r x : α} {k : κ} (h : t.get k = some x) :
    (t.insert r).get k = some x := by
  obtain ⟨hm, hk⟩ := get_eq_some_iff.mp h
  refine get_eq_some_iff.mpr ⟨?_, hk⟩
  unfold insert
  split
  · exact hm
  · exact List.mem_append.mpr (.inl hm)

theorem get_insert_of_ne {t : Table α κ key} {r : α} {k : κ} (h : k ≠ key r) :
    (t.insert r).get k = t.get k := by
  unfold insert
  split
  · rfl
  · simp [get, Ne.symm h]

theorem get_mapRows {t : Table α κ key} {f : α → α} (hf : ∀ r, key (f r) = key r) (k : κ) :
    (t.mapRows f hf).get k = (t.get k).map f := by
  have h : (fun r => decide (key r = k)) ∘ f = fun r => decide (key r = k) := by
    funext r
    simp [hf r]
  simp only [get, mapRows, List.find?_map, h]

theorem mem_erase {t : Table α κ key} {r : α} {k : κ} :
    r ∈ (t.erase k).rows ↔ r ∈ t.rows ∧ key r ≠ k := by
  simp [erase]

theorem get_erase (t : Table α κ key) (k k' : κ) :
    (t.erase k).get k' = if k' = k then none else t.get k' := by
  split
  · rename_i h
    subst h
    refine get_eq_none_iff.mpr fun hm => ?_
    obtain ⟨r, hr, hk⟩ := List.mem_map.mp hm
    exact (mem_erase.mp hr).2 hk
  · rename_i h
    cases hg : t.get k' with
    | none =>
      refine get_eq_none_iff.mpr fun hm => get_eq_none_iff.mp hg ?_
      obtain ⟨r, hr, hk⟩ := List.mem_map.mp hm
      exact List.mem_map.mpr ⟨r, (mem_erase.mp hr).1, hk⟩
    | some r =>
      obtain ⟨hr, hk⟩ := get_eq_some_iff.mp hg
      exact get_eq_some_iff.mpr ⟨mem_erase.mpr ⟨hr, hk ▸ h⟩, hk⟩

/-- The first row that `p` accepts, as an unordered query would return one. -/
def first (t : Table α κ key) (p : α → Bool) : Option α := t.rows.find? p

theorem get_of_first {t : Table α κ key} {p : α → Bool} {r : α} (h : t.first p = some r) :
    t.get (key r) = some r :=
  get_of_mem (List.mem_of_find?_eq_some h)

omit [DecidableEq κ] in
theorem pred_of_first {t : Table α κ key} {p : α → Bool} {r : α} (h : t.first p = some r) :
    p r = true :=
  List.find?_some h

end Table
