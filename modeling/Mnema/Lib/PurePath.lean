import Mathlib.Data.List.Basic

/-! POSIX paths as the text they are printed as: a root, and parts that are neither empty nor
a single dot. -/

namespace PurePath

def parts (text : List Char) : List (List Char) :=
  (text.splitOn '/').filter fun part => part != [] && part != ['.']

/-- Two slashes, and no more, are a root of their own. -/
def root : List Char → List Char
  | '/' :: '/' :: '/' :: _ => ['/']
  | '/' :: '/' :: _ => ['/', '/']
  | '/' :: _ => ['/']
  | _ => []

def render (root : List Char) (parts : List (List Char)) : List Char :=
  if root = [] ∧ parts = [] then ['.'] else root ++ ['/'].intercalate parts

def normalize (text : List Char) : List Char := render (root text) (parts text)

/-- Parts as a path has them. -/
def Proper (ps : List (List Char)) : Prop := ∀ p ∈ ps, p ≠ [] ∧ p ≠ ['.'] ∧ '/' ∉ p

theorem not_mem_of_mem_splitOn (text : List Char) : ∀ p ∈ text.splitOn '/', '/' ∉ p := by
  induction text with
  | nil => simp
  | cons x xs ih =>
    intro p hp
    rw [List.splitOn_cons_eq_if_modifyHead] at hp
    split at hp
    case isTrue =>
      rcases List.mem_cons.mp hp with rfl | hp
      · exact List.not_mem_nil
      · exact ih p hp
    case isFalse hx =>
      cases hs : xs.splitOn '/' with
      | nil => simp [hs] at hp
      | cons q qs =>
        rw [hs, List.modifyHead_cons] at hp
        rw [hs] at ih
        rcases List.mem_cons.mp hp with rfl | hp
        · have hq := ih q List.mem_cons_self
          intro hm
          rcases List.mem_cons.mp hm with he | hm
          · exact hx (beq_iff_eq.mpr he.symm)
          · exact hq hm
        · exact ih p (List.mem_cons_of_mem _ hp)

theorem proper_parts (text : List Char) : Proper (parts text) := by
  intro p hp
  obtain ⟨hp, hne⟩ := List.mem_filter.mp hp
  simp only [Bool.and_eq_true, bne_iff_ne] at hne
  exact ⟨hne.1, hne.2, not_mem_of_mem_splitOn text p hp⟩

theorem parts_intercalate {ps : List (List Char)} (h : Proper ps) (hne : ps ≠ []) :
    parts (['/'].intercalate ps) = ps := by
  unfold parts
  rw [List.splitOn_intercalate '/' (fun p hp => (h p hp).2.2) hne]
  refine List.filter_eq_self.mpr fun p hp => ?_
  have hp := h p hp
  simp [hp.1, hp.2.1]

theorem parts_cons_slash (text : List Char) : parts ('/' :: text) = parts text := by
  unfold parts
  rw [List.splitOn_cons_eq_if_modifyHead]
  simp

theorem root_cases (text : List Char) : root text = [] ∨ root text = ['/'] ∨ root text = ['/', '/'] := by
  unfold root
  split <;> simp

/-- The text after the root starts with a part. -/
theorem head_intercalate {ps : List (List Char)} (h : Proper ps) (hne : ps ≠ []) :
    ∃ c rest, c ≠ '/' ∧ ['/'].intercalate ps = c :: rest := by
  cases ps with
  | nil => exact absurd rfl hne
  | cons p qs =>
    obtain ⟨hp, _, hslash⟩ := h p List.mem_cons_self
    cases p with
    | nil => exact absurd rfl hp
    | cons c cs =>
      have hc : c ≠ '/' := fun he => hslash (he ▸ List.mem_cons_self)
      cases qs with
      | nil => exact ⟨c, cs, hc, by simp [List.intercalate]⟩
      | cons q rest => exact ⟨c, _, hc, by rw [List.intercalate_cons_cons]; rfl⟩

theorem normalize_render {r : List Char} {ps : List (List Char)}
    (hr : r = [] ∨ r = ['/'] ∨ r = ['/', '/']) (h : Proper ps) :
    normalize (render r ps) = render r ps := by
  by_cases hps : ps = []
  · subst hps
    rcases hr with rfl | rfl | rfl <;> decide
  · obtain ⟨c, rest, hc, htext⟩ := head_intercalate h hps
    have hrender : render r ps = r ++ ['/'].intercalate ps := if_neg fun he => hps he.2
    have hroot : root (r ++ ['/'].intercalate ps) = r := by
      rw [htext]
      rcases hr with rfl | rfl | rfl
      · simp [root, hc]
      · simp [root, hc]
      · simp [root, hc]
    have hparts : parts (r ++ ['/'].intercalate ps) = ps := by
      rcases hr with rfl | rfl | rfl
      · exact parts_intercalate h hps
      · exact (parts_cons_slash _).trans (parts_intercalate h hps)
      · exact ((parts_cons_slash _).trans (parts_cons_slash _)).trans (parts_intercalate h hps)
    rw [hrender, normalize, hroot, hparts, hrender]

theorem normalize_normalize (text : List Char) : normalize (normalize text) = normalize text :=
  normalize_render (root_cases text) (proper_parts text)

end PurePath

/-- A path, as the text it is printed as. -/
structure PurePath where
  text : List Char
  normal : PurePath.normalize text = text
deriving DecidableEq

namespace PurePath

def ofString (s : String) : PurePath := ⟨normalize s.toList, normalize_normalize _⟩

def str (p : PurePath) : String := String.ofList p.text

@[simp] theorem ofString_str (p : PurePath) : ofString p.str = p := by
  have htext : normalize p.str.toList = p.text := by
    rw [str, String.toList_ofList]
    exact p.normal
  cases p
  simp only [ofString, PurePath.mk.injEq]
  exact htext

def isAbsolute (p : PurePath) : Bool := p.text.head? == some '/'

/-- `p / name`. -/
def join (p : PurePath) (name : String) : PurePath := ofString (p.str ++ "/" ++ name)

/-- The path without its last part. -/
def parent (p : PurePath) : PurePath :=
  ofString (String.ofList (render (root p.text) (parts p.text).dropLast))

end PurePath
