import Mnema.Runs
import Mnema.Lib.FileTree

/-! `commit_staged` on a tree of files and directories, links left out. Any operation
may fail there with an `OSError`. -/

namespace Mnema

abbrev Tree := FileTree String Bytes

/-- What `hashlib` says of the bytes of a file, and `stat` of the size of a directory. -/
structure Disk where
  sha256 : Bytes → Digest
  directorySize : Path → Nat

namespace Tree

variable (k : Disk) (t : Tree)

def missing (α : Type) : Except PyError α := .error (.fileNotFound "")

def resolveBeneath (root : Path) (relative : String) (mustExist : Bool) : Except PyError Path :=
  if (t.node root).isNone then missing Path
  else match safeRelativePath relative with
    | .error e => .error e
    | .ok parts =>
      if mustExist && (t.node (root ++ parts)).isNone then missing Path else .ok (root ++ parts)

def fileSize (p : Path) : Except PyError Nat :=
  match t.node p with
  | some (.file b) => .ok b.length
  | some .directory => .ok (k.directorySize p)
  | none => missing Nat

def sha256File (p : Path) : Except PyError Digest :=
  match t.node p with
  | some (.file b) => .ok (k.sha256 b)
  | some .directory => .error (.os "is a directory")
  | none => missing Digest

def mkdir (p : Path) : Except PyError Unit × Tree :=
  if t.clear p then (.ok (), t.makeDirs p)
  else (.error (.os "file exists"), t)

def unlink (p : Path) (missingOk : Bool) : Except PyError Unit × Tree :=
  match t.node p with
  | some (.file _) => (.ok (), FileTree.unlink t p)
  | some .directory => (.error (.os "is a directory"), t)
  | none => if missingOk then (.ok (), t) else (missing Unit, t)

/-- `os.replace` of a file. -/
def replace (source target : Path) : Except PyError Unit × Tree :=
  match t.node source with
  | none => (missing Unit, t)
  | some .directory => (.error (.os "not a file"), t)
  | some (.file _) =>
    if t.isDirectory target.dropLast && !t.isDirectory target then
      (.ok (), t.move source target.dropLast (target.getLastD ""))
    else (.error (.os "not a directory"), t)

def answer : (o : ExtOp) → Except PyError o.Res × Tree
  | .resolveBeneath root relative mustExist => (resolveBeneath t root relative mustExist, t)
  | .resolve p => (.ok p, t)
  | .isBeneath p root => (.ok (root.isPrefixOf p), t)
  | .pathExists p => (.ok (t.node p).isSome, t)
  | .isSymlink _ => (.ok false, t)
  | .isFile p => (.ok (t.file p).isSome, t)
  | .fileSize p => (fileSize k t p, t)
  | .sha256File p => (sha256File k t p, t)
  | .mkdir p => mkdir t p
  | .unlink p missingOk => unlink t p missingOk
  | .replace source target => replace t source target
  | .utime p _ => (if (t.node p).isNone then missing Unit else .ok (), t)
  | .fsyncDirectory p => (if (t.node p).isNone then missing Unit else .ok (), t)
  | _ => (.error (.os "not an operation on files"), t)

/-- What the disk answers, or an `OSError` that leaves the files as they are. -/
def env : ExtEnv Tree := fun t o a t' =>
  (a, t') = answer k t o ∨ ∃ text, a = .error (.os text) ∧ t' = t

/-- The file has these contents. -/
def sameContent (p : Path) (size : Nat) (sha : Digest) : Bool :=
  match t.file p with
  | some b => b.length == size && k.sha256 b == sha
  | none => false

/-- The name is taken, by a file with other contents or by a directory. -/
def clashes (p : Path) (size : Nat) (sha : Digest) : Bool :=
  match t.node p with
  | some (.file b) => !(b.length == size && k.sha256 b == sha)
  | some .directory => k.directorySize p != size
  | none => false

end Tree

/-- What `commit_staged` promises when it returns. -/
structure Committed (k : Disk) (before : Tree) (activeRoot staged : Path) (size : Nat) (sha : Digest)
    (receipt : CommitReceipt) (after : Tree) : Prop where
  content : Tree.sameContent k after receipt.path size sha = true
  gone : after.node staged = none
  kept : ∀ p b, activeRoot <+: p → p ≠ staged → before.file p = some b → after.file p = some b

/-- The file is not committed over itself, and a name for a collision is free or holds
the very bytes that are committed. -/
structure Unobstructed (k : Disk) (t : Tree) (staged final : Path) (size : Nat) (sha : Digest)
    (b : Bytes) : Prop where
  apart : Tree.sameContent k t final size sha = true → final ≠ staged
  free : Tree.clashes k t final size sha = true → ∀ b', t.file (collisionPath final sha) = some b' →
    collisionPath final sha ≠ staged ∧ b' = b

section Rules

variable {k : Disk} {t : Tree} {α β : Type} {w : World Tree}

/-- `p` ends with `Q`, or with the files of `t` as they are when a check raises. -/
abbrev Commits (k : Disk) (t : Tree) (p : Flow α) (Q : α → World Tree → Prop) (w : World Tree) : Prop :=
  p.wp (fun _ _ => True) (World.env (Tree.env k)) Q
    (fun e w' => e.isValueError = true → ∀ q, w'.ext.file q = t.file q) w

theorem commits_bind {p : Flow α} {f : α → Flow β} {Q : β → World Tree → Prop} :
    Commits k t (p >>= f) Q w ↔ Commits k t p (fun a w' => Commits k t (f a) Q w') w :=
  Prog.wp_bind _ _

theorem commits_ok {o : ExtOp} {a : o.Res} {t₁ t' : Tree} {Q : o.Res → World Tree → Prop}
    (hw : w.ext = t₁) (h : Tree.answer k t₁ o = (.ok a, t')) (hh : honest o (.ok a)) :
    Commits k t (ext o) Q w ↔ Q a (w.answered o (.ok a) t') := by
  subst hw
  refine wp_ext.trans ⟨fun hw => hw.2.1 a t' (.inl h.symm) hh, fun hw => ⟨trivial, ?_, ?_⟩⟩
  · intro a' x hx _
    rcases hx with hx | ⟨text, hx, -⟩
    · rw [h] at hx
      obtain ⟨ha, rfl⟩ := Prod.mk.inj hx
      exact Except.ok.inj ha ▸ hw
    · simp at hx
  · intro e x hx _
    rcases hx with hx | ⟨text, hx, -⟩
    · rw [h] at hx
      simp at hx
    · rw [Except.error.inj hx]
      simp [PyError.isValueError]

/-- The rule for a call in a program: what follows is read in any world with the new files. -/
theorem commits_call {o : ExtOp} {a : o.Res} {t₁ t₂ : Tree} {f : o.Res → Flow β}
    {Q : β → World Tree → Prop} {P : Prop} (hw : w.ext = t₁)
    (h : Tree.answer k t₁ o = (.ok a, t₂)) (hh : honest o (.ok a))
    (hnext : ∀ w', w'.ext = t₂ → (Commits k t (f a) Q w' ↔ P)) :
    Commits k t (ext o >>= f) Q w ↔ P :=
  commits_bind.trans ((commits_ok hw h hh).trans (hnext _ rfl))

theorem commits_error {o : ExtOp} {e : PyError} {t₁ t' : Tree} {f : o.Res → Flow β}
    {Q : β → World Tree → Prop} (hw : w.ext = t₁) (h : Tree.answer k t₁ o = (.error e, t'))
    (he : e.isValueError = false) : Commits k t (ext o >>= f) Q w := by
  subst hw
  refine commits_bind.mpr (wp_ext.mpr ⟨trivial, fun a' x hx _ => ?_, fun e' x hx _ => ?_⟩)
  · rcases hx with hx | ⟨text, hx, -⟩
    · rw [h] at hx
      simp at hx
    · simp at hx
  · rcases hx with hx | ⟨text, hx, -⟩
    · rw [h] at hx
      rw [Except.error.inj (Prod.mk.inj hx).1, he]
      simp
    · rw [Except.error.inj hx]
      simp [PyError.isValueError]

variable {t₁ : Tree} {R : β → Tree → Prop} {staged p : Path} {name : String} {b : Bytes}

theorem commits_moveStaged (hw : w.ext = t₁) (hs : t₁.file staged = some b)
    (hd : t₁.node p = some .directory) (hn : t₁.node (p ++ [name]) ≠ some .directory)
    (ts : Option Time) (r : β) :
    Commits k t (moveStaged staged (p ++ [name]) ts >>= fun _ => pure r) (fun r w' => R r w'.ext) w ↔
      R r (t₁.move staged p name) := by
  have hmove := FileTree.node_move hs hd hn
  have hfile : (t₁.move staged p name).node (p ++ [name]) = some (.file b) := by
    simp [hmove]
  have hdir : (t₁.move staged p name).node p = some .directory :=
    (t₁.move staged p name).parent p name (by simp [hfile])
  have hreplace : Tree.answer k t₁ (.replace staged (p ++ [name])) =
      (.ok (), t₁.move staged p name) := by
    have hd' := FileTree.isDirectory_iff.mpr hd
    have hn' : t₁.isDirectory (p ++ [name]) = false := by
      rw [← Bool.not_eq_true, FileTree.isDirectory_iff]
      exact hn
    simp [Tree.answer, Tree.replace, FileTree.file_eq_some_iff.mp hs, hd', hn']
  have hsync : Tree.answer k (t₁.move staged p name) (.fsyncDirectory (p ++ [name]).dropLast) =
      (.ok (), t₁.move staged p name) := by
    simp [Tree.answer, hdir]
  have hend : ∀ w' : World Tree, w'.ext = t₁.move staged p name →
      (R r w'.ext ↔ R r (t₁.move staged p name)) := fun w' hw => by rw [hw]
  unfold moveStaged
  refine commits_bind.trans (commits_call hw hreplace trivial fun w hw => ?_)
  cases ts with
  | none => exact (commits_ok (o := .fsyncDirectory _) hw hsync trivial).trans (hend _ rfl)
  | some ts =>
    have htime : Tree.answer k (t₁.move staged p name) (.utime (p ++ [name]) ts) =
        (.ok (), t₁.move staged p name) := by
      simp [Tree.answer, hfile]
    refine commits_call (o := .utime _ ts) hw htime trivial fun w hw => ?_
    exact (commits_ok (o := .fsyncDirectory _) hw hsync trivial).trans (hend _ rfl)

/-! ### What the call does -/

variable {staged activeRoot final : Path} {size : Nat} {sha : Digest}

theorem collisionPath_eq (final : Path) (sha : Digest) :
    ∃ name, collisionPath final sha = final.dropLast ++ [name] := ⟨_, rfl⟩

theorem unobstructed_of_free (h : t.node final = none) : Unobstructed k t staged final size sha b := by
  constructor
  · simp [Tree.sameContent, FileTree.file, h]
  · simp [Tree.clashes, h]

/-- The file moved to a name that holds nothing, or its own bytes. -/
theorem committed_move (hs : t.file staged = some b) (hb : b.length = size ∧ k.sha256 b = sha)
    (hd : t.node p = some .directory) (hn : t.node (p ++ [name]) ≠ some .directory)
    {receipt : CommitReceipt} (hr : receipt.path = p ++ [name]) (hroot : activeRoot <+: p) :
    Committed k t activeRoot staged size sha receipt (t.move staged p name) ↔
      ∀ b', t.file (p ++ [name]) = some b' → p ++ [name] ≠ staged ∧ b' = b := by
  have hmove := FileTree.node_move hs hd hn
  constructor
  · intro h b' hb'
    have hne : p ++ [name] ≠ staged := fun he => by
      have hg := h.gone
      rw [hmove, if_pos he.symm] at hg
      simp at hg
    refine ⟨hne, ?_⟩
    have hkept := h.kept (p ++ [name]) b' (hroot.trans (List.prefix_append p [name])) hne hb'
    rw [FileTree.file_eq_some_iff, hmove, if_pos rfl] at hkept
    simpa using hkept.symm
  · intro h
    have hne : staged ≠ p ++ [name] := fun he => (h b (he ▸ hs)).1 he.symm
    refine ⟨?_, ?_, fun q b' _ hq hb' => ?_⟩
    · simp [Tree.sameContent, FileTree.file, hmove, hr, hb]
    · rw [hmove, if_neg hne, if_pos rfl]
    · rw [FileTree.file_eq_some_iff, hmove]
      by_cases he : q = p ++ [name]
      · rw [if_pos he, (h b' (he ▸ hb')).2]
      · rw [if_neg he, if_neg hq]
        exact FileTree.file_eq_some_iff.mp hb'

theorem safeRelativePath_ne_nil {relative : String} {parts : List String}
    (h : safeRelativePath relative = .ok parts) : parts ≠ [] := by
  intro hp
  simp only [safeRelativePath] at h
  split at h
  case isTrue => simp at h
  case isFalse hn =>
    split at h
    case isTrue => simp at h
    case isFalse =>
      rw [Except.ok.inj h, hp] at hn
      simp at hn

/-- The part of `commit_staged` that follows its checks of the staged file. -/
def placeStaged (staged activeRoot : Path) (relativePath : String) (expectedSha256 : Digest)
    (expectedSize : Nat) (modifiedTimestamp : Option Time) : Flow CommitReceipt := do
  let unresolved ← ext (.resolveBeneath activeRoot relativePath false)
  ext (.mkdir unresolved.dropLast)
  let final ← ext (.resolveBeneath activeRoot relativePath false)
  if ← ext (.pathExists final) then
    raiseIf (← ext (.isSymlink final)) (.value "destination collision is a symlink")
    if ← sameContent final expectedSize expectedSha256 then
      ext (.unlink staged false)
      pure ⟨final, expectedSize, expectedSha256, none⟩
    else
      let renamed := collisionPath final expectedSha256
      raiseIf (!(← ext (.isBeneath renamed activeRoot)))
        (.value "collision path escapes active root")
      moveStaged staged renamed modifiedTimestamp
      pure ⟨renamed, expectedSize, expectedSha256, some relativePath⟩
  else
    moveStaged staged final modifiedTimestamp
    pure ⟨final, expectedSize, expectedSha256, none⟩

theorem committed_makeDirs {receipt : CommitReceipt} {p : Path} {after : Tree} :
    Committed k (t.makeDirs p) activeRoot staged size sha receipt after ↔
      Committed k t activeRoot staged size sha receipt after := by
  constructor
  · rintro ⟨hc, hg, hk⟩
    exact ⟨hc, hg, fun q b hr hq hb => hk q b hr hq ((t.file_makeDirs p q).trans hb)⟩
  · rintro ⟨hc, hg, hk⟩
    exact ⟨hc, hg, fun q b hr hq hb => hk q b hr hq ((t.file_makeDirs p q).symm.trans hb)⟩

theorem not_clashes_of_sameContent (h : Tree.sameContent k t final size sha = true) :
    Tree.clashes k t final size sha = false := by
  unfold Tree.sameContent FileTree.file at h
  unfold Tree.clashes
  cases hn : t.node final with
  | none => rfl
  | some n => cases n <;> simp_all

/-- A staged file with the contents that are there already is only removed. -/
theorem commits_unlink {ts : Option String} (hw : w.ext = t) (hs : t.file staged = some b)
    (hsame : Tree.sameContent k t final size sha = true) :
    Commits k t (ext (.unlink staged false) >>= fun _ => pure ⟨final, size, sha, ts⟩)
      (fun r w' => Committed k t activeRoot staged size sha r w'.ext) w ↔
      Unobstructed k t staged final size sha b := by
  have hunlink : Tree.answer k t (.unlink staged false) = (.ok (), FileTree.unlink t staged) := by
    simp [Tree.answer, Tree.unlink, FileTree.file_eq_some_iff.mp hs]
  have hnode : ∀ q, (FileTree.unlink t staged).node q = if q = staged then none else t.node q := by
    intro q
    rw [FileTree.node_unlink hs]
    by_cases hq : q = staged
    · simp [hq]
    · rw [Store.erase_of_ne _ hq, if_neg hq]
  have hclash := not_clashes_of_sameContent hsame
  refine commits_call (o := .unlink staged false) hw hunlink trivial fun w hw => ?_
  change Committed k t activeRoot staged size sha ⟨final, size, sha, ts⟩ w.ext ↔ _
  rw [hw]
  constructor
  · intro h
    refine ⟨fun _ he => ?_, fun hc => by simp [hclash] at hc⟩
    have hc := h.content
    simp [Tree.sameContent, FileTree.file, hnode, he] at hc
  · intro h
    have hne := h.apart hsame
    refine ⟨?_, ?_, fun q b' _ hq hb' => ?_⟩
    · rw [← hsame]
      simp only [Tree.sameContent]
      rw [FileTree.file_congr (t := t) (by rw [hnode, if_neg hne])]
    · rw [hnode, if_pos rfl]
    · rw [FileTree.file_congr (t := t) (by rw [hnode, if_neg hq])]
      exact hb'

/-- A name that is taken by something else gets a suffix. -/
theorem commits_collision {relativePath : Option String} {ts : Option Time} (hw : w.ext = t)
    (hs : t.file staged = some b) (hb : b.length = size ∧ k.sha256 b = sha)
    (hd : t.node p = some .directory) (hroot : activeRoot <+: p)
    (hclash : Tree.clashes k t (p ++ [name]) size sha = true) :
    Commits k t (do
      let renamed := collisionPath (p ++ [name]) sha
      raiseIf (!(← ext (.isBeneath renamed activeRoot)))
        (.value "collision path escapes active root")
      moveStaged staged renamed ts
      pure ⟨renamed, size, sha, relativePath⟩)
      (fun r w' => Committed k t activeRoot staged size sha r w'.ext) w ↔
      Unobstructed k t staged (p ++ [name]) size sha b := by
  obtain ⟨other, hother⟩ := collisionPath_eq (p ++ [name]) sha
  rw [List.dropLast_concat] at hother
  have hsame : Tree.sameContent k t (p ++ [name]) size sha = false := by
    by_contra h
    rw [not_clashes_of_sameContent (Bool.not_eq_false _ ▸ h)] at hclash
    exact Bool.noConfusion hclash
  have hfree : Unobstructed k t staged (p ++ [name]) size sha b ↔
      ∀ b', t.file (p ++ [other]) = some b' → p ++ [other] ≠ staged ∧ b' = b :=
    ⟨fun h => hother ▸ h.free hclash, fun h => ⟨by simp [hsame], fun _ => by rwa [hother]⟩⟩
  have hbeneath : Tree.answer k t (.isBeneath (collisionPath (p ++ [name]) sha) activeRoot) =
      (.ok true, t) := by
    have hpre : activeRoot <+: p ++ [other] := hroot.trans (List.prefix_append p [other])
    simp [Tree.answer, hother, hpre]
  refine commits_call hw hbeneath trivial fun w hw => ?_
  rw [hother]
  change Commits k t (moveStaged staged (p ++ [other]) ts >>= _) _ _ ↔ _
  by_cases hn : t.node (p ++ [other]) = some .directory
  · refine iff_of_true ?_ (hfree.mpr fun b' hb' => ?_)
    · have hreplace : Tree.answer k t (.replace staged (p ++ [other])) =
          (.error (.os "not a directory"), t) := by
        have hn' := FileTree.isDirectory_iff.mpr hn
        simp [Tree.answer, Tree.replace, FileTree.file_eq_some_iff.mp hs, hn']
      unfold moveStaged
      exact commits_bind.mpr (commits_error hw hreplace rfl)
    · rw [FileTree.file_eq_none_of_directory hn] at hb'
      simp at hb'
  · refine (commits_moveStaged hw hs hd hn ts _).trans ?_
    exact (committed_move hs hb hd hn rfl hroot).trans hfree.symm

/-- Where the name of the file is taken. -/
theorem commits_taken {relativePath : Option String} {ts : Option Time} {n : Node Bytes} {f : Flow CommitReceipt}
    (hw : w.ext = t) (hs : t.file staged = some b) (hb : b.length = size ∧ k.sha256 b = sha)
    (hroot : activeRoot <+: p) (hn : t.node (p ++ [name]) = some n) :
    Commits k t (do
      if ← ext (.pathExists (p ++ [name])) then
        raiseIf (← ext (.isSymlink (p ++ [name]))) (.value "destination collision is a symlink")
        if ← sameContent (p ++ [name]) size sha then
          ext (.unlink staged false)
          pure ⟨p ++ [name], size, sha, none⟩
        else
          let renamed := collisionPath (p ++ [name]) sha
          raiseIf (!(← ext (.isBeneath renamed activeRoot)))
            (.value "collision path escapes active root")
          moveStaged staged renamed ts
          pure ⟨renamed, size, sha, relativePath⟩
      else f)
      (fun r w' => Committed k t activeRoot staged size sha r w'.ext) w ↔
      Unobstructed k t staged (p ++ [name]) size sha b := by
  have hd := t.parent p name (by simp [hn])
  have hexists : Tree.answer k t (.pathExists (p ++ [name])) = (.ok true, t) := by
    simp [Tree.answer, hn]
  refine commits_call hw hexists trivial fun w hw => ?_
  change Commits k t (ext (.isSymlink (p ++ [name])) >>= _) _ _ ↔ _
  refine commits_call (o := .isSymlink _) hw rfl trivial fun w hw => ?_
  change Commits k t (sameContent (p ++ [name]) size sha >>= _) _ _ ↔ _
  refine commits_bind.trans ?_
  unfold sameContent
  cases n with
  | file c =>
    have hsize : Tree.answer k t (.fileSize (p ++ [name])) = (.ok c.length, t) := by
      simp [Tree.answer, Tree.fileSize, hn]
    have hsha : Tree.answer k t (.sha256File (p ++ [name])) = (.ok (k.sha256 c), t) := by
      simp [Tree.answer, Tree.sha256File, hn]
    refine commits_call hw hsize trivial fun w hw => ?_
    by_cases hc : c.length = size
    · rw [if_pos hc]
      refine commits_call hw hsha trivial fun w hw => ?_
      by_cases he : k.sha256 c = sha
      · rw [he, beq_self_eq_true]
        exact commits_unlink hw hs (by simp [Tree.sameContent, FileTree.file, hn, hc, he])
      · rw [beq_false_of_ne he]
        exact commits_collision hw hs hb hd hroot (by simp [Tree.clashes, hn, he])
    · rw [if_neg hc]
      exact commits_collision hw hs hb hd hroot (by simp [Tree.clashes, hn, hc])
  | directory =>
    have hsize : Tree.answer k t (.fileSize (p ++ [name])) = (.ok (k.directorySize (p ++ [name])), t) := by
      simp [Tree.answer, Tree.fileSize, hn]
    refine commits_call hw hsize trivial fun w hw => ?_
    by_cases hc : k.directorySize (p ++ [name]) = size
    · rw [if_pos hc]
      have hsha : Tree.answer k t (.sha256File (p ++ [name])) = (.error (.os "is a directory"), t) := by
        simp [Tree.answer, Tree.sha256File, hn]
      refine iff_of_true (commits_error hw hsha rfl) ⟨?_, ?_⟩
      · simp [Tree.sameContent, FileTree.file, hn]
      · simp [Tree.clashes, hn, hc]
    · rw [if_neg hc]
      exact commits_collision hw hs hb hd hroot (by simp [Tree.clashes, hn, hc])

theorem commits_placeStaged {relativePath : String} {parts : List String} (ts : Option Time)
    (hw : w.ext = t) (hsafe : safeRelativePath relativePath = .ok parts)
    (hp : activeRoot ++ parts = p ++ [name]) (hroot : activeRoot <+: p)
    (hs : t.file staged = some b) (hb : b.length = size ∧ k.sha256 b = sha) :
    Commits k t (placeStaged staged activeRoot relativePath sha size ts)
      (fun r w' => Committed k t activeRoot staged size sha r w'.ext) w ↔
      Unobstructed k t staged (p ++ [name]) size sha b := by
  have hbelow : ∀ q, q <+: p → t.node q ≠ some .directory →
      Unobstructed k t staged (p ++ [name]) size sha b := by
    intro q hq hd
    refine unobstructed_of_free ?_
    by_contra hn
    have hp := t.parent _ name (Option.isSome_iff_ne_none.mpr hn)
    by_cases he : q = p
    · exact hd (he ▸ hp)
    · exact hd (FileTree.directory_of_prefix hq he (by simp [hp]))
  have hresolve : ∀ t' : Tree, t'.node activeRoot ≠ none → Tree.answer k t'
      (.resolveBeneath activeRoot relativePath false) = (.ok (p ++ [name]), t') := by
    intro t' hr
    simp [Tree.answer, Tree.resolveBeneath, hsafe, hr, hp]
  unfold placeStaged
  by_cases hr : t.node activeRoot = none
  · have hmissing : Tree.answer k t (.resolveBeneath activeRoot relativePath false) =
        (.error (.fileNotFound ""), t) := by
      simp [Tree.answer, Tree.resolveBeneath, hr, Tree.missing]
    exact iff_of_true (commits_error hw hmissing rfl) (hbelow activeRoot hroot (by simp [hr]))
  refine commits_call hw (hresolve t hr) trivial fun w hw => ?_
  rw [List.dropLast_concat]
  by_cases hc : t.clear p = true
  · have hmkdir : Tree.answer k t (.mkdir p) = (.ok (), t.makeDirs p) := by
      simp [Tree.answer, Tree.mkdir, hc]
    have hnode := FileTree.node_makeDirs hc
    have hd : (t.makeDirs p).node p = some .directory := by simp [hnode]
    have hfinal : (t.makeDirs p).node (p ++ [name]) = t.node (p ++ [name]) := by
      rw [hnode, if_neg fun h => absurd h.length_le (by simp)]
    refine commits_call hw hmkdir trivial fun w hw => ?_
    refine commits_call hw (hresolve _ (by simp [hnode, hroot])) trivial fun w hw => ?_
    cases hn : t.node (p ++ [name]) with
    | none =>
      have hexists : Tree.answer k (t.makeDirs p) (.pathExists (p ++ [name])) =
          (.ok false, t.makeDirs p) := by
        simp [Tree.answer, hfinal, hn]
      have hs' := (t.file_makeDirs p staged).trans hs
      have hn' : (t.makeDirs p).node (p ++ [name]) ≠ some .directory := by simp [hfinal, hn]
      refine commits_call hw hexists trivial fun w hw => ?_
      change Commits k t (moveStaged staged (p ++ [name]) ts >>= _) _ _ ↔ _
      refine (commits_moveStaged hw hs' hd hn' ts _).trans ?_
      refine committed_makeDirs.symm.trans ((committed_move hs' hb hd hn' rfl hroot).trans ?_)
      refine iff_of_true (fun b' hb' => ?_) (unobstructed_of_free hn)
      rw [FileTree.file_makeDirs, FileTree.file_eq_some_iff, hn] at hb'
      simp at hb'
    | some n =>
      have hsame := FileTree.makeDirs_of_directory (t.parent p name (by simp [hn]))
      exact commits_taken (hw.trans hsame) hs hb hroot hn
  · have hmkdir : Tree.answer k t (.mkdir p) = (.error (.os "file exists"), t) := by
      simp [Tree.answer, Tree.mkdir, hc]
    refine iff_of_true (commits_error hw hmkdir rfl) ?_
    rw [FileTree.clear_iff] at hc
    push Not at hc
    obtain ⟨q, hq, hf⟩ := hc
    exact hbelow q hq fun hd => hf (FileTree.file_eq_none_of_directory hd)

theorem commits_raiseIf {failed : Bool} {e : PyError} {f : Unit → Flow β} {Q : β → World Tree → Prop}
    {P : Prop} (hw : w.ext = t) (hfail : failed = true → P)
    (hnext : failed = false → (Commits k t (f ()) Q w ↔ P)) :
    Commits k t (raiseIf failed e >>= f) Q w ↔ P := by
  cases failed with
  | false => exact hnext rfl
  | true => exact iff_of_true (fun _ q => by rw [hw]) (hfail rfl)

/-- Whatever the tree, the staged file and the arguments: the call keeps its promise, in every
course it may take, exactly where the place it commits to is unobstructed. -/
theorem commit_staged_iff {relativePath : String} {ts : Option Time} (w : World Tree) :
    (commitStaged staged activeRoot relativePath sha size ts).wp (fun _ _ => True)
      (World.env (Tree.env k))
      (fun r w' => Committed k w.ext activeRoot staged size sha r w'.ext)
      (fun e w' => e.isValueError = true → ∀ q, w'.ext.file q = w.ext.file q) w ↔
    ∀ parts b, safeRelativePath relativePath = .ok parts → w.ext.file staged = some b →
      b.length = size → k.sha256 b = sha →
      Unobstructed k w.ext staged (activeRoot ++ parts) size sha b := by
  obtain ⟨t, hw⟩ : ∃ t, w.ext = t := ⟨_, rfl⟩
  rw [hw]
  unfold commitStaged
  cases hsafe : safeRelativePath relativePath with
  | error e => exact iff_of_true (fun _ q => by rw [hw]) fun parts b hp => by simp at hp
  | ok parts =>
    obtain ⟨front, name, hparts⟩ :=
      (List.eq_nil_or_concat parts).resolve_left (safeRelativePath_ne_nil hsafe)
    have hp : activeRoot ++ parts = activeRoot ++ front ++ [name] := by simp [hparts]
    change Commits k t (notRegular staged >>= _) _ w ↔ _
    refine commits_bind.trans ?_
    unfold notRegular
    refine commits_call hw (o := .isSymlink staged) rfl trivial fun w hw => ?_
    change Commits k t (ext (.isFile staged) >>= fun r => pure !r) _ _ ↔ _
    refine commits_call hw (o := .isFile staged) rfl trivial fun w hw => ?_
    change Commits k t (raiseIf (!(t.file staged).isSome) _ >>= _) _ _ ↔ _
    cases hs : t.file staged with
    | none => exact iff_of_true (fun _ q => by rw [hw]) fun _ b _ hb => by simp at hb
    | some b =>
      have hnode := FileTree.file_eq_some_iff.mp hs
      have hsize : Tree.answer k t (.fileSize staged) = (.ok b.length, t) := by
        simp [Tree.answer, Tree.fileSize, hnode]
      have hsha : Tree.answer k t (.sha256File staged) = (.ok (k.sha256 b), t) := by
        simp [Tree.answer, Tree.sha256File, hnode]
      change Commits k t (ext (.fileSize staged) >>= _) _ _ ↔ _
      refine commits_call hw hsize trivial fun w hw => ?_
      refine commits_raiseIf hw (fun h p b' _ hb' hl => ?_) fun hl => ?_
      · rw [← Option.some.inj hb'] at hl
        simp [hl] at h
      refine commits_call hw hsha trivial fun w hw => ?_
      refine commits_raiseIf hw (fun h p b' _ hb' _ he => ?_) fun he => ?_
      · rw [← Option.some.inj hb'] at he
        simp [he] at h
      have hb : b.length = size ∧ k.sha256 b = sha := by simpa using And.intro hl he
      have hplace := commits_placeStaged ts hw hsafe hp (List.prefix_append activeRoot front) hs hb
      refine hplace.trans ⟨fun h parts' b' hp' hb' _ _ => ?_, fun h => ?_⟩
      · rw [← Except.ok.inj hp', ← Option.some.inj hb', hp]
        exact h
      · rw [← hp]
        exact h parts b rfl rfl hb.1 hb.2

end Rules

/-! ### A second collision -/

def plainDisk : Disk where
  sha256 b := String.ofList (b.map fun x => Char.ofNat x.toNat)
  directorySize _ := 4096

/-- Two archived files, the second under the name that a collision with the first would get,
and a staged file for the first name. -/
def collided : World Tree :=
  let t := ((FileTree.empty.makeDirs ["active"]).makeDirs ["staging"])
  let t := (t.write ["active"] "a.txt" [65]).write ["active"] "a.mnema-B.txt" [67]
  ⟨{}, {}, [], [], t.write ["staging"] "1.partial" [66]⟩

def Op.onFiles : Op → Bool
  | .ext (.evaluatePolicy _ _) => false
  | _ => true

theorem commit_staged_overwrites : ∃ (w' : World Tree) (receipt : CommitReceipt),
    Prog.Steps (World.env (Tree.env plainDisk))
      (collided, commitStaged ["staging", "1.partial"] ["active"] "a.txt" "B" 1 none)
      (w', .ret receipt) ∧
    collided.ext.file ["active", "a.mnema-B.txt"] = some [67] ∧
    w'.ext.file ["active", "a.mnema-B.txt"] = some [66] ∧
    w'.ext.file ["active", "a.txt"] = some [65] := by
  have henv : ∀ (w : World Tree) o, Op.onFiles o = true → World.env (Tree.env plainDisk) w o
      (w.handler (Tree.answer plainDisk) o).1 (w.handler (Tree.answer plainDisk) o).2 := by
    intro w o ho
    cases o with
    | db o => rfl
    | ext o =>
      refine ⟨_, .inl rfl, ?_, rfl⟩
      cases o with
      | evaluatePolicy item policy => simp [Op.onFiles] at ho
      | _ => trivial
  have hrun := Prog.exec_steps_of_respects henv
    (commitStaged ["staging", "1.partial"] ["active"] "a.txt" "B" 1 none) collided
    (by decide +kernel)
  have hret : ∃ receipt, ((commitStaged ["staging", "1.partial"] ["active"] "a.txt" "B" 1 none).exec
      (World.handler (Tree.answer plainDisk)) collided).1 = .ok receipt := ⟨_, rfl⟩
  obtain ⟨receipt, hret⟩ := hret
  rw [hret] at hrun
  refine ⟨_, receipt, hrun, ?_⟩
  decide +kernel

end Mnema
