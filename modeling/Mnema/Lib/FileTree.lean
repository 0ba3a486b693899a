import Mnema.Lib.Store
import Mathlib.Data.List.Induction
import Mathlib.Data.List.Infix

/-! Trees of files and directories, addressed by the names on the way down. Whatever
lies in a tree lies in a directory of it. -/

inductive Node (α : Type) where
  | file (content : α)
  | directory
deriving DecidableEq

structure FileTree (κ α : Type) where
  node : Store (List κ) (Node α)
  root : node [] = some .directory
  parent : ∀ p name, (node (p ++ [name])).isSome → node p = some .directory

namespace FileTree

variable {κ α : Type}

def file (t : FileTree κ α) (p : List κ) : Option α :=
  match t.node p with
  | some (.file b) => some b
  | _ => none

def isDirectory (t : FileTree κ α) (p : List κ) : Bool :=
  match t.node p with
  | some .directory => true
  | _ => false

theorem isDirectory_iff {t : FileTree κ α} {p : List κ} :
    t.isDirectory p = true ↔ t.node p = some .directory := by
  unfold isDirectory
  split
  case h_1 h => simp [h]
  case h_2 h => exact ⟨fun he => by simp at he, fun hn => absurd hn h⟩

theorem file_eq_some_iff {t : FileTree κ α} {p : List κ} {b : α} :
    t.file p = some b ↔ t.node p = some (.file b) := by
  unfold file
  split
  case h_1 h => simp [h]
  case h_2 h => exact ⟨fun he => by simp at he, fun hn => absurd hn (h b)⟩

theorem file_eq_none_of_directory {t : FileTree κ α} {p : List κ}
    (h : t.node p = some .directory) : t.file p = none := by
  simp [file, h]

/-- No file is in the way of the directory `p`. -/
def clear (t : FileTree κ α) (p : List κ) : Bool := p.inits.all fun q => (t.file q).isNone

theorem clear_iff {t : FileTree κ α} {p : List κ} :
    t.clear p = true ↔ ∀ q, q <+: p → t.file q = none := by
  simp [clear, List.all_eq_true, List.mem_inits]

theorem file_congr {t t' : FileTree κ α} {p : List κ} (h : t'.node p = t.node p) :
    t'.file p = t.file p := by
  unfold file
  rw [h]

/-- Whatever lies on the way to an entry is a directory. -/
theorem directory_of_prefix {t : FileTree κ α} {p q : List κ} (h : q <+: p) (hne : q ≠ p)
    (hp : (t.node p).isSome) : t.node q = some .directory := by
  obtain ⟨rest, rfl⟩ := h
  induction rest using List.reverseRecOn with
  | nil => simp at hne
  | append_singleton rest name ih =>
    have hd : t.node (q ++ rest) = some .directory :=
      t.parent _ name (by simpa only [List.append_assoc] using hp)
    cases rest with
    | nil => simpa using hd
    | cons x xs => exact ih (by simp) (by simp [hd])

variable [DecidableEq κ]

/-! ### Changes -/

def empty : FileTree κ α where
  node p := if p = [] then some .directory else none
  root := rfl
  parent p name h := by simp at h

/-- The tree without the file at `p`; without a file there, the tree as it is. -/
def unlink (t : FileTree κ α) (p : List κ) : FileTree κ α :=
  match h : t.node p with
  | some (.file _) =>
    { node := t.node.erase p
      root := by
        have hne : [] ≠ p := fun he => by simp [← he, t.root] at h
        rw [Store.erase_of_ne _ hne]
        exact t.root
      parent := by
        intro q name hq
        have hd : t.node q = some .directory := by
          refine t.parent q name ?_
          by_cases hp : q ++ [name] = p
          · simp [hp] at hq
          · rwa [Store.erase_of_ne _ hp] at hq
        have hne : q ≠ p := fun he => by simp [he, h] at hd
        rwa [Store.erase_of_ne _ hne] }
  | _ => t

/-- The tree with a file `name` in the directory `p`. -/
def write (t : FileTree κ α) (p : List κ) (name : κ) (b : α) : FileTree κ α :=
  if h : t.isDirectory p && !t.isDirectory (p ++ [name]) then
    { node := t.node.put (p ++ [name]) (.file b)
      root := by
        rw [Store.put_of_ne _ (by simp)]
        exact t.root
      parent := by
        intro q other hq
        rw [Bool.and_eq_true, isDirectory_iff, Bool.not_eq_true', ← Bool.not_eq_true,
          isDirectory_iff] at h
        have hd : t.node q = some .directory := by
          by_cases hp : q ++ [other] = p ++ [name]
          · rw [(List.append_inj_left' hp rfl)]
            exact h.1
          · rw [Store.put_of_ne _ hp] at hq
            exact t.parent q other hq
        have hne : q ≠ p ++ [name] := fun he => h.2 (he ▸ hd)
        rwa [Store.put_of_ne _ hne] }
  else t

/-- The tree with the directory `p` and those on the way to it, unless a file is in the way. -/
def makeDirs (t : FileTree κ α) (p : List κ) : FileTree κ α :=
  if t.clear p then
    { node := fun q => if q <+: p then some .directory else t.node q
      root := by simp
      parent := by
        intro q name hq
        by_cases hqp : q <+: p
        · simp [hqp]
        · have hn : ¬ q ++ [name] <+: p := fun hp => hqp ((List.prefix_append q [name]).trans hp)
          rw [if_neg hn] at hq
          rw [if_neg hqp]
          exact t.parent q name hq }
  else t

/-- The file at `source` moved to `name` in the directory `p`, over a file that is there. -/
def move (t : FileTree κ α) (source p : List κ) (name : κ) : FileTree κ α :=
  match t.file source with
  | some b => (t.unlink source).write p name b
  | none => t

variable {t : FileTree κ α} {p q source : List κ} {name : κ} {b : α}

theorem node_unlink (h : t.file p = some b) : (t.unlink p).node = t.node.erase p := by
  have hn := file_eq_some_iff.mp h
  unfold unlink
  split
  case h_1 => rfl
  case h_2 he => exact absurd hn (he b)

theorem node_write (hd : t.node p = some .directory) (hn : t.node (p ++ [name]) ≠ some .directory) :
    (t.write p name b).node = t.node.put (p ++ [name]) (.file b) := by
  have hd' := isDirectory_iff.mpr hd
  have hn' : t.isDirectory (p ++ [name]) = false := by
    rw [← Bool.not_eq_true, isDirectory_iff]
    exact hn
  simp [write, hd', hn']

theorem file_makeDirs (t : FileTree κ α) (p q : List κ) : (t.makeDirs p).file q = t.file q := by
  unfold makeDirs
  split
  case isFalse => rfl
  case isTrue h =>
    by_cases hq : q <+: p
    · have hf := List.all_eq_true.mp h q ((List.mem_inits q p).mpr hq)
      rw [Option.isNone_iff_eq_none.mp hf]
      simp [file, hq]
    · simp [file, hq]

theorem node_makeDirs (h : t.clear p = true) (q : List κ) :
    (t.makeDirs p).node q = if q <+: p then some .directory else t.node q := by
  rw [makeDirs, if_pos h]

theorem makeDirs_of_directory (h : t.node p = some .directory) : t.makeDirs p = t := by
  have hnode : ∀ q, q <+: p → t.node q = some .directory := by
    intro q hq
    by_cases he : q = p
    · exact he ▸ h
    · exact directory_of_prefix hq he (by simp [h])
  unfold makeDirs
  split
  case isFalse => rfl
  case isTrue =>
    have hsame : (fun q => if q <+: p then some Node.directory else t.node q) = t.node := by
      funext q
      by_cases hq : q <+: p
      · rw [if_pos hq, hnode q hq]
      · rw [if_neg hq]
    cases t
    congr

theorem node_move (hs : t.file source = some b) (hd : t.node p = some .directory)
    (hn : t.node (p ++ [name]) ≠ some .directory) (q : List κ) :
    (t.move source p name).node q =
      if q = p ++ [name] then some (.file b) else if q = source then none else t.node q := by
  have hu := node_unlink hs
  have hne : p ≠ source := fun he => by simp [he ▸ hd, file] at hs
  have hd' : (t.unlink source).node p = some .directory := by
    rw [hu, Store.erase_of_ne _ hne]
    exact hd
  have hn' : (t.unlink source).node (p ++ [name]) ≠ some .directory := by
    rw [hu]
    by_cases he : p ++ [name] = source
    · simp [he]
    · rwa [Store.erase_of_ne _ he]
  unfold move
  rw [hs]
  simp only
  rw [node_write hd' hn', hu]
  by_cases hq : q = p ++ [name]
  · simp [hq]
  · rw [Store.put_of_ne _ hq, if_neg hq]
    by_cases hqs : q = source
    · simp [hqs]
    · rw [Store.erase_of_ne _ hqs, if_neg hqs]

end FileTree
