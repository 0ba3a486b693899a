import Mnema.StagedCommit
import Mnema.SafePaths
import Mnema.Lib.Links

/-! `resolve_beneath` and `commit_staged` in a tree with symbolic links. -/

namespace Mnema

abbrev LinkedTree := LinkTree Bytes

/-- `depth` calls of Python may be nested. -/
structure LinkedDisk extends Disk where
  depth : Nat

namespace LinkedTree

open LinkTree

/-- `PurePath.is_relative_to`. -/
def isRelativeTo (p root : Absolute) : Bool :=
  p.doubled == root.doubled && root.names.isPrefixOf p.names

variable (k : LinkedDisk) (t : LinkedTree)

/-- `Path.resolve`; a path that is not resolved to its end is looked up for a loop. -/
def resolve (strict : Bool) (p : Path) : Except PyError Absolute :=
  match t.joinRealpath strict k.depth [] p Store.empty with
  | .error .missing => Tree.missing Absolute
  | .error .loop => .error (.runtime "Symlink loop")
  | .error .recursion => .error (.runtime "maximum recursion depth exceeded")
  | .ok (.resolved path _) => .ok ⟨false, path⟩
  | .ok (.gaveUp text) =>
    if t.locate true (normpath text).names = .error .loop then .error (.runtime "Symlink loop")
    else .ok (normpath text)

/-! ### What a disk answers -/

def stat (follow : Bool) (p : Path) : Option (Node (LinkTree.Entry Bytes)) :=
  match t.locate follow p with
  | .ok loc => t.node loc
  | .error _ => none

def isSymlink (p : Path) : Bool :=
  match stat t false p with
  | some (.file (.link _)) => true
  | _ => false

def isDir (p : Path) : Bool := stat t true p = some .directory

def fileSize (p : Path) : Except PyError Nat :=
  match stat t true p with
  | some (.file (.content b)) => .ok b.length
  | some .directory => .ok (k.directorySize p)
  | _ => Tree.missing Nat

def sha256File (p : Path) : Except PyError Digest :=
  match stat t true p with
  | some (.file (.content b)) => .ok (k.sha256 b)
  | some .directory => .error (.os "is a directory")
  | _ => Tree.missing Digest

/-- The loop over the parts of a path that looks for links. -/
def anyLink : Path → List String → Bool
  | _, [] => false
  | current, part :: rest =>
    isSymlink t (current.child part) || anyLink (current.child part) rest

def resolveBeneath (root : Path) (relative : String) (mustExist : Bool) : Except PyError Path :=
  match resolve k t true root with
  | .error e => .error e
  | .ok rootResolved =>
    match safeRelativePath relative with
    | .error e => .error e
    | .ok rel =>
      match resolve k t mustExist (rootResolved.names ++ rel) with
      | .error e => .error e
      | .ok resolved =>
        if !isRelativeTo resolved rootResolved then
          .error (.unsafePath "path escapes configured root")
        else if mustExist && anyLink t rootResolved.names rel then
          .error (.unsafePath "symlinks are not allowed")
        else .ok resolved.names

/-- `final.resolve().is_relative_to(active_root.resolve())`. -/
def isBeneath (p root : Path) : Except PyError Bool :=
  match resolve k t false p, resolve k t false root with
  | .error e, _ => .error e
  | .ok _, .error e => .error e
  | .ok p, .ok root => .ok (isRelativeTo p root)

/-- `os.mkdir`. -/
def osMkdir (p : Path) : Except PyError Unit × LinkedTree :=
  match t.locate false p with
  | .error .missing => (Tree.missing Unit, t)
  | .error _ => (.error (.os "not a directory"), t)
  | .ok loc =>
    if (t.node loc).isSome then (.error (.os "file exists"), t) else (.ok (), t.makeDirs loc)

/-- `Path.mkdir(exist_ok=True)`. -/
def mkdirExisting (p : Path) : Except PyError Unit × LinkedTree :=
  match osMkdir t p with
  | (.error (.fileNotFound text), t) => (.error (.fileNotFound text), t)
  | (.error e, t) => if isDir t p then (.ok (), t) else (.error e, t)
  | (.ok (), t) => (.ok (), t)

/-- `Path.mkdir(parents=True, exist_ok=True)`, the names of the path from its last one on. -/
def mkdirParents (t : LinkedTree) : List String → Except PyError Unit × LinkedTree
  | [] => mkdirExisting t []
  | name :: up =>
    match mkdirExisting t (name :: up).reverse with
    | (.error (.fileNotFound _), t) =>
      match mkdirParents t up with
      | (.error e, t) => (.error e, t)
      | (.ok (), t) => mkdirExisting t (name :: up).reverse
    | (r, t) => (r, t)

def unlink (p : Path) (missingOk : Bool) : Except PyError Unit × LinkedTree :=
  match t.locate false p with
  | .error .loop => (.error (.os "too many symbolic links"), t)
  | .error .notDirectory => (.error (.os "not a directory"), t)
  | .error .missing => if missingOk then (.ok (), t) else (Tree.missing Unit, t)
  | .ok loc =>
    match t.node loc with
    | some (.file _) => (.ok (), FileTree.unlink t loc)
    | some .directory => (.error (.os "is a directory"), t)
    | none => if missingOk then (.ok (), t) else (Tree.missing Unit, t)

/-- `os.replace` of a file, which replaces a link and does not follow it. -/
def replace (source target : Path) : Except PyError Unit × LinkedTree :=
  match t.locate false source, t.locate false target with
  | .ok source, .ok target =>
    match t.node source with
    | none => (Tree.missing Unit, t)
    | some .directory => (.error (.os "not a file"), t)
    | some (.file _) =>
      if t.isDirectory target.dropLast && !t.isDirectory target then
        (.ok (), t.move source target.dropLast (target.getLastD ""))
      else (.error (.os "not a directory"), t)
  | _, _ => (Tree.missing Unit, t)

def answer : (o : ExtOp) → Except PyError o.Res × LinkedTree
  | .resolveBeneath root relative mustExist => (resolveBeneath k t root relative mustExist, t)
  | .isBeneath p root => (isBeneath k t p root, t)
  | .pathExists p => (.ok (stat t true p).isSome, t)
  | .isSymlink p => (.ok (isSymlink t p), t)
  | .isFile p => (.ok ((stat t true p).isSome && !isDir t p), t)
  | .fileSize p => (fileSize k t p, t)
  | .sha256File p => (sha256File k t p, t)
  | .mkdir p => mkdirParents t p.reverse
  | .unlink p missingOk => unlink t p missingOk
  | .replace source target => replace t source target
  | .utime p _ => (if (stat t false p).isNone then Tree.missing Unit else .ok (), t)
  | .fsyncDirectory p => (if (stat t true p).isNone then Tree.missing Unit else .ok (), t)
  | _ => (.error (.os "not an operation on files"), t)

/-- What the disk answers, or an `OSError` that leaves the files as they are. -/
def env : ExtEnv LinkedTree := fun t o a t' =>
  (a, t') = answer k t o ∨ ∃ text, a = .error (.os text) ∧ t' = t

/-! ### `resolve_beneath` -/

section Resolve

variable {k : LinkedDisk} {t : LinkedTree} {strict mustExist : Bool} {p root loc : Path} {r : Absolute}
  {relative : String} {rel : List String} {n : Nat}

theorem truthful_empty : Truthful t strict Store.empty := fun _ _ _ h => by simp [Store.empty] at h

theorem openAbove_empty : OpenAbove t Store.empty n := fun _ _ h => by simp [Store.empty] at h

theorem sound_resolve (k : LinkedDisk) (t : LinkedTree) (strict : Bool) (p : Path) :
    LinkTree.Sound t strict [] p Store.empty (t.joinRealpath strict k.depth [] p Store.empty) :=
  sound_joinRealpath (.nil t strict) truthful_empty

/-- Where the links of a path do not loop, `resolve` returns what the path leads to. -/
theorem resolve_eq (h : resolve k t strict p = .ok r) (hloc : Locates t [] p loc n) :
    r = ⟨false, loc⟩ ∧ Direct t loc := by
  have hsound := sound_resolve k t strict p
  unfold resolve at h
  rcases hjoin : t.joinRealpath strict k.depth [] p Store.empty with e | path | text
  · rw [hjoin] at h
    cases e <;> simp [Tree.missing] at h
  · rw [hjoin] at h hsound
    obtain ⟨hreached, -, -, m, hfound⟩ := hsound
    obtain ⟨rfl, -⟩ := hloc.unique hfound
    exact ⟨(Except.ok.inj h).symm, hreached.direct⟩
  · rw [hjoin] at hsound
    exact absurd openAbove_empty (hsound loc n hloc)

theorem locates_of_resolve (h : resolve k t true p = .ok r) :
    r.doubled = false ∧ Reached t true r.names ∧ ∃ n, Locates t [] p r.names n := by
  have hsound := sound_resolve k t true p
  unfold resolve at h
  rcases hjoin : t.joinRealpath true k.depth [] p Store.empty with e | path | text
  · rw [hjoin] at h
    cases e <;> simp [Tree.missing] at h
  · rw [hjoin] at h hsound
    obtain ⟨hreached, -, -, m, hfound⟩ := hsound
    rw [← Except.ok.inj h]
    exact ⟨rfl, hreached, m, hfound⟩
  · exact absurd hjoin (joinRealpath_strict text)

theorem safeRelativePath_proper (h : safeRelativePath relative = .ok rel) :
    ∀ name ∈ rel, stays name = false ∧ name ≠ ".." := by
  intro name hname
  have hfile := safeRelativePath_names h name hname
  refine ⟨?_, hfile.notUp⟩
  simp [stays, hfile.nonempty, hfile.notDot]

/-- What `resolve_beneath` found on its way to a path. -/
theorem resolveBeneath_spec (h : resolveBeneath k t root relative mustExist = .ok p) :
    ∃ R rel resolved, resolve k t true root = .ok R ∧ safeRelativePath relative = .ok rel ∧
      resolve k t mustExist (R.names ++ rel) = .ok resolved ∧ isRelativeTo resolved R = true ∧
      (mustExist = true → anyLink t R.names rel = false) ∧ p = resolved.names := by
  unfold resolveBeneath at h
  cases hroot : resolve k t true root with
  | error e => simp [hroot] at h
  | ok R =>
    cases hrel : safeRelativePath relative with
    | error e => simp [hroot, hrel] at h
    | ok rel =>
      cases hresolved : resolve k t mustExist (R.names ++ rel) with
      | error e => simp [hroot, hrel, hresolved] at h
      | ok resolved =>
        simp only [hroot, hrel, hresolved] at h
        split at h
        · simp at h
        rename_i hrelative
        split at h
        · simp at h
        rename_i hlinks
        simp only [Bool.and_eq_true, not_and, Bool.not_eq_true] at hlinks
        refine ⟨R, rel, resolved, rfl, rfl, hresolved, ?_, hlinks, (Except.ok.inj h).symm⟩
        simpa using hrelative

theorem isSymlink_of_link {target : List String} (hproper : ∀ name ∈ p, stays name = false ∧ name ≠ "..")
    (h : t.link p = some target) : isSymlink t p = true := by
  have hnode := link_eq_some_iff.mp h
  have hlocate : t.locate false p = .ok p := locate_of_exists hproper (by simp) (by simp [hnode])
  simp [isSymlink, stat, hlocate, hnode]

theorem direct_of_anyLink (hp : Direct t p) (hproper : ∀ name ∈ rel, stays name = false ∧ name ≠ "..")
    (h : anyLink t p rel = false) : Direct t (p ++ rel) := by
  induction rel generalizing p with
  | nil => simpa using hp
  | cons name rest ih =>
    obtain ⟨hname, hup⟩ := hproper name List.mem_cons_self
    rw [anyLink, Bool.or_eq_false_iff] at h
    have hlink : t.link (p ++ [name]) = none := by
      rw [← Option.not_isSome_iff_eq_none, Option.isSome_iff_exists]
      rintro ⟨target, htarget⟩
      have hsym : isSymlink t (p ++ [name]) = true := by
        refine isSymlink_of_link (fun other hother => ?_) htarget
        rcases List.mem_append.mp hother with hm | hm
        · exact hp.proper other hm
        · rw [List.mem_singleton.mp hm]
          exact ⟨hname, hup⟩
      have hno : isSymlink t (p ++ [name]) = false := h.1
      rw [hsym] at hno
      cases hno
    have hh := ih (hp.concat hname hup hlink)
      (fun other hother => hproper other (List.mem_cons_of_mem _ hother)) h.2
    simpa using hh

/-- With `must_exist`, the path is the one that was asked for, without a link on it. -/
theorem resolveBeneath_existing (h : resolveBeneath k t root relative true = .ok p) :
    ∃ R rel n, Locates t [] root R n ∧ safeRelativePath relative = .ok rel ∧ p = R ++ rel ∧
      Direct t p := by
  obtain ⟨R, rel, resolved, hroot, hrel, hresolved, -, hlinks, rfl⟩ := resolveBeneath_spec h
  obtain ⟨-, hreached, n, hloc⟩ := locates_of_resolve hroot
  have hdirect := direct_of_anyLink hreached.direct (safeRelativePath_proper hrel)
    (hlinks rfl)
  obtain ⟨rfl, -⟩ := resolve_eq hresolved hdirect.locates
  exact ⟨R.names, rel, n, hloc, hrel, rfl, hdirect⟩

/-- The path really leads to a place beneath the root. -/
def LeadsBeneath (t : LinkedTree) (root p : Path) : Prop :=
  ∃ R n loc m, Locates t [] root R n ∧ Locates t [] p loc m ∧ R <+: loc

/-- Where links loop, the text that `realpath` leaves cannot be followed, or lies outside the root
as it is written, or leads beneath the root. -/
def LeavesBeneath (k : LinkedDisk) (t : LinkedTree) (root : Path) (relative : String) : Prop :=
  ∀ R rel text, resolve k t true root = .ok R → safeRelativePath relative = .ok rel →
    t.joinRealpath false k.depth [] (R.names ++ rel) Store.empty = .ok (.gaveUp text) →
    t.locate true (normpath text).names = .error .loop ∨ isRelativeTo (normpath text) R = false ∨
      LeadsBeneath t root (normpath text).names

theorem isRelativeTo_iff {p root : Absolute} :
    isRelativeTo p root = true ↔ p.doubled = root.doubled ∧ root.names <+: p.names := by
  simp [isRelativeTo]

theorem resolveBeneath_iff :
    (∀ p, resolveBeneath k t root relative false = .ok p → LeadsBeneath t root p) ↔
      LeavesBeneath k t root relative := by
  constructor
  · intro h R rel text hroot hrel hjoin
    by_cases hloop : t.locate true (normpath text).names = .error .loop
    · exact .inl hloop
    · cases hrelative : isRelativeTo (normpath text) R with
      | false => exact .inr (.inl rfl)
      | true =>
        refine .inr (.inr (h _ ?_))
        have hresolved : resolve k t false (R.names ++ rel) = .ok (normpath text) := by
          unfold resolve
          rw [hjoin]
          exact if_neg hloop
        simp [resolveBeneath, hroot, hrel, hresolved, hrelative]
  · intro h p hp
    obtain ⟨R, rel, resolved, hroot, hrel, hresolved, hrelative, -, rfl⟩ := resolveBeneath_spec hp
    obtain ⟨-, -, n, hloc⟩ := locates_of_resolve hroot
    have hsound := sound_resolve k t false (R.names ++ rel)
    unfold resolve at hresolved
    rcases hjoin : t.joinRealpath false k.depth [] (R.names ++ rel) Store.empty with e | path | text
    · rw [hjoin] at hresolved
      cases e <;> simp [Tree.missing] at hresolved
    · rw [hjoin] at hresolved hsound
      obtain rfl := Except.ok.inj hresolved
      exact ⟨R.names, n, path, 0, hloc, hsound.1.direct.locates, (isRelativeTo_iff.mp hrelative).2⟩
    · rw [hjoin] at hresolved
      simp only at hresolved
      split at hresolved
      · simp at hresolved
      · rename_i hloop
        obtain rfl := Except.ok.inj hresolved
        rcases h R rel text hroot hrel hjoin with hl | hout | hbeneath
        · exact absurd hl hloop
        · simp [hout] at hrelative
        · exact hbeneath

/-- Without a loop, nothing is left. -/
theorem leavesBeneath_of_locates (h : ∀ R n rel, Locates t [] root R n →
    safeRelativePath relative = .ok rel → ∃ loc m, Locates t [] (R ++ rel) loc m) :
    LeavesBeneath k t root relative := by
  intro R rel text hroot hrel hjoin
  obtain ⟨-, -, n, hR⟩ := locates_of_resolve hroot
  obtain ⟨loc, m, hloc⟩ := h R.names n rel hR hrel
  have hsound := sound_resolve k t false (R.names ++ rel)
  rw [hjoin] at hsound
  exact absurd openAbove_empty (hsound loc m hloc)

end Resolve

end LinkedTree

end Mnema
