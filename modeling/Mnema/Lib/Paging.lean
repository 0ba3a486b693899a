import Mathlib.Data.List.Sort
import Mathlib.Data.List.Count
import Mathlib.Order.Basic

/-! Enumeration of a sorted list in pages of one size, each by its offset, where the list may change
between two pages. -/

namespace Paging

variable {κ : Type} [LinearOrder κ]

def page (start size : Nat) (l : List κ) : List κ := (l.drop start).take size

/-- How many elements are listed before `x`. -/
def rank (x : κ) (l : List κ) : Nat := l.countP (· < x)

/-- What the pages hold, from an offset on, of the lists that they are taken from. -/
def returned (size : Nat) : Nat → List (List κ) → List κ
  | _, [] => []
  | start, l :: rest => page start size l ++ returned size (start + size) rest

/-- The lists that the pages of a whole enumeration are taken from: only the last page reaches the
end of its list. -/
def Enumerates (size : Nat) : Nat → List (List κ) → Prop
  | _, [] => False
  | start, [l] => l.length ≤ start + size
  | start, l :: l' :: rest => start + size < l.length ∧ Enumerates size (start + size) (l' :: rest)

/-- How often `x` is moved from behind the next offset to before it, and so past the pages to come. -/
def skips (size : Nat) (x : κ) : Nat → List (List κ) → Nat
  | start, l :: l' :: rest =>
    (if start + size ≤ rank x l ∧ rank x l' < start + size then 1 else 0) +
      skips size x (start + size) (l' :: rest)
  | _, _ => 0

/-- How often `x` is moved from before the next offset to behind it. -/
def revisits (size : Nat) (x : κ) : Nat → List (List κ) → Nat
  | start, l :: l' :: rest =>
    (if rank x l < start + size ∧ start + size ≤ rank x l' then 1 else 0) +
      revisits size x (start + size) (l' :: rest)
  | _, _ => 0

variable {x : κ} {l : List κ} {ls : List (List κ)} {start size i : Nat}

/-! ### One page -/

theorem rank_append_cons {a b : List κ} (h : (a ++ x :: b).Pairwise (· < ·)) :
    rank x (a ++ x :: b) = a.length := by
  obtain ⟨-, hb, hab⟩ := List.pairwise_append.mp h
  have ha : ∀ y ∈ a, decide (y < x) = true := fun y hy =>
    decide_eq_true (hab y hy x List.mem_cons_self)
  have hrest : ∀ y ∈ x :: b, ¬ decide (y < x) = true := by
    intro y hy
    rw [decide_eq_true_iff]
    rcases List.mem_cons.mp hy with rfl | hy
    · exact lt_irrefl _
    · exact (List.rel_of_pairwise_cons hb hy).asymm
  unfold rank
  rw [List.countP_append, List.countP_eq_length.mpr ha, List.countP_eq_zero.mpr hrest]
  rfl

theorem getElem?_rank (h : l.Pairwise (· < ·)) (hx : x ∈ l) : l[rank x l]? = some x := by
  obtain ⟨a, b, rfl⟩ := List.append_of_mem hx
  rw [rank_append_cons h, List.getElem?_append_right (Nat.le_refl _), Nat.sub_self]
  rfl

theorem rank_lt_length (h : l.Pairwise (· < ·)) (hx : x ∈ l) : rank x l < l.length := by
  obtain ⟨hlt, -⟩ := List.getElem?_eq_some_iff.mp (getElem?_rank h hx)
  exact hlt

theorem nodup_of_sorted (h : l.Pairwise (· < ·)) : l.Nodup :=
  h.imp fun hlt => hlt.ne

theorem mem_page (h : l.Pairwise (· < ·)) (hx : x ∈ l) :
    x ∈ page start size l ↔ start ≤ rank x l ∧ rank x l < start + size := by
  have hrank := getElem?_rank h hx
  unfold page
  rw [List.mem_iff_getElem?]
  constructor
  · rintro ⟨i, hi⟩
    have hsize : i < size := by
      by_contra hge
      rw [List.getElem?_take_eq_none (Nat.not_lt.mp hge)] at hi
      cases hi
    rw [List.getElem?_take_of_lt hsize, List.getElem?_drop] at hi
    have hlt : start + i < l.length := (List.getElem?_eq_some_iff.mp hi).1
    have heq : start + i = rank x l :=
      (List.getElem?_inj hlt (nodup_of_sorted h)).mp (hi.trans hrank.symm)
    omega
  · rintro ⟨hlow, hhigh⟩
    refine ⟨rank x l - start, ?_⟩
    rw [List.getElem?_take_of_lt (by omega), List.getElem?_drop, Nat.add_sub_cancel' hlow]
    exact hrank

variable [BEq κ] [LawfulBEq κ]

theorem count_page (h : l.Pairwise (· < ·)) (hx : x ∈ l) :
    (page start size l).count x = if start ≤ rank x l ∧ rank x l < start + size then 1 else 0 := by
  have hnodup : (page start size l).Nodup :=
    (nodup_of_sorted h).sublist ((List.take_sublist _ _).trans (List.drop_sublist _ _))
  by_cases hmem : x ∈ page start size l
  · rw [if_pos ((mem_page h hx).mp hmem), List.count_eq_one_of_mem hnodup hmem]
  · rw [if_neg (mt (mem_page h hx).mpr hmem), List.count_eq_zero_of_not_mem hmem]

/-! ### Whole enumerations -/

/-- An element before the first offset counts as returned. -/
theorem count_returned_from {rest : List (List κ)} (h : Enumerates size start (l :: rest))
    (hx : ∀ l' ∈ l :: rest, l'.Pairwise (· < ·) ∧ x ∈ l') :
    (returned size start (l :: rest)).count x + skips size x start (l :: rest) +
      (if rank x l < start then 1 else 0) = 1 + revisits size x start (l :: rest) := by
  induction rest generalizing start l with
  | nil =>
    obtain ⟨hsorted, hmem⟩ := hx l List.mem_cons_self
    have hrank := rank_lt_length hsorted hmem
    have hend : l.length ≤ start + size := h
    simp only [returned, skips, revisits, List.append_nil, count_page hsorted hmem]
    split <;> split <;> omega
  | cons l' rest ih =>
    obtain ⟨hsorted, hmem⟩ := hx l List.mem_cons_self
    have hrest := ih h.2 fun l'' hl => hx l'' (List.mem_cons_of_mem _ hl)
    have hreturned : (returned size start (l :: l' :: rest)).count x =
        (page start size l).count x + (returned size (start + size) (l' :: rest)).count x :=
      List.count_append
    rw [hreturned, count_page hsorted hmem]
    unfold skips revisits
    -- whether `x` is before this offset, on this page or behind it, and where it is at the next one
    split <;> split <;> split <;> split <;> split at hrest <;> omega

/-- An element that is listed all the time is returned once, once less for every time that it is
skipped and once more for every time that it is to be visited again. -/
theorem count_returned (h : Enumerates size 0 ls)
    (hx : ∀ l ∈ ls, l.Pairwise (· < ·) ∧ x ∈ l) :
    (returned size 0 ls).count x + skips size x 0 ls = 1 + revisits size x 0 ls := by
  cases ls with
  | nil => exact h.elim
  | cons l rest =>
    have hh := count_returned_from h hx
    rw [if_neg (Nat.not_lt_zero _)] at hh
    exact hh

theorem count_returned_eq_one_iff (h : Enumerates size 0 ls)
    (hx : ∀ l ∈ ls, l.Pairwise (· < ·) ∧ x ∈ l) :
    (returned size 0 ls).count x = 1 ↔ skips size x 0 ls = revisits size x 0 ls := by
  have hh := count_returned h hx
  omega

theorem mem_returned_iff (h : Enumerates size 0 ls)
    (hx : ∀ l ∈ ls, l.Pairwise (· < ·) ∧ x ∈ l) :
    x ∈ returned size 0 ls ↔ skips size x 0 ls ≤ revisits size x 0 ls := by
  have hh := count_returned h hx
  rw [← List.count_pos_iff]
  omega

omit [LinearOrder κ] [BEq κ] [LawfulBEq κ] in
theorem mem_of_mem_returned (h : x ∈ returned size start ls) : ∃ l ∈ ls, x ∈ l := by
  induction ls generalizing start with
  | nil => cases h
  | cons l rest ih =>
    rcases List.mem_append.mp h with hpage | hrest
    · exact ⟨l, List.mem_cons_self, List.mem_of_mem_drop (List.mem_of_mem_take hpage)⟩
    · obtain ⟨l', hl', hx⟩ := ih hrest
      exact ⟨l', List.mem_cons_of_mem _ hl', hx⟩

omit [BEq κ] [LawfulBEq κ] in
/-- Nothing is skipped or visited again where the list stays as it is. -/
theorem skips_of_static (size : Nat) (x : κ) (start : Nat) (h : ∀ l' ∈ ls, l' = l) :
    skips size x start ls = 0 ∧ revisits size x start ls = 0 := by
  induction ls generalizing start with
  | nil => exact ⟨rfl, rfl⟩
  | cons l₁ rest ih =>
    cases rest with
    | nil => exact ⟨rfl, rfl⟩
    | cons l₂ rest =>
      obtain ⟨hskips, hrevisits⟩ := ih (start + size) fun l' hl => h l' (List.mem_cons_of_mem _ hl)
      have h₁ := h l₁ List.mem_cons_self
      have h₂ := h l₂ (List.mem_cons_of_mem _ List.mem_cons_self)
      unfold skips revisits
      rw [hskips, hrevisits, h₁, h₂]
      constructor
      · rw [if_neg (by omega)]
      · rw [if_neg (by omega)]

theorem count_returned_of_static (h : Enumerates size 0 ls) (hstatic : ∀ l' ∈ ls, l' = l)
    (hsorted : l.Pairwise (· < ·)) (hx : x ∈ l) : (returned size 0 ls).count x = 1 := by
  have hall : ∀ l' ∈ ls, l'.Pairwise (· < ·) ∧ x ∈ l' := by
    intro l' hl
    rw [hstatic l' hl]
    exact ⟨hsorted, hx⟩
  obtain ⟨hskips, hrevisits⟩ := skips_of_static size x 0 hstatic
  rw [count_returned_eq_one_iff h hall, hskips, hrevisits]

end Paging
