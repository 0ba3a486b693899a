import Mnema.Containment

/-! What `commit_staged` changes in a tree with symbolic links. -/

namespace Mnema

namespace LinkedTree

open LinkTree

/-- Whatever is new, or not what it was, lies beneath the real root. -/
def OnlyBeneath (t : LinkedTree) (root : Path) (t' : LinkedTree) : Prop :=
  ∀ q, (t'.node q).isSome → t'.node q ≠ t.node q → ∃ R n, Locates t [] root R n ∧ R <+: q

/-- `root/relative` leads somewhere; where that is the root itself, no link has the name beside the
root that a collision would get. -/
def Placeable (t : LinkedTree) (root : Path) (relative : String) (sha : Digest) : Prop :=
  ∀ R n rel, Locates t [] root R n → safeRelativePath relative = .ok rel →
    ∃ loc m, Locates t [] (R ++ rel) loc m ∧ (loc = R → t.link (collisionPath R sha) = none)

variable {k : LinkedDisk} {t t' t₁ t₂ : LinkedTree} {root p q loc staged final : Path}

theorem OnlyBeneath.refl (t : LinkedTree) (root : Path) : OnlyBeneath t root t :=
  fun _ _ h => absurd rfl h

/-- A further change beneath the root. -/
theorem OnlyBeneath.then (h : OnlyBeneath t root t₁)
    (hnext : ∀ q, (t₂.node q).isSome → t₂.node q ≠ t₁.node q →
      ∃ R n, Locates t [] root R n ∧ R <+: q) : OnlyBeneath t root t₂ := by
  intro q hsome hne
  by_cases he : t₂.node q = t₁.node q
  · rw [he] at hsome hne
    exact h q hsome hne
  · exact hnext q hsome he

/-! ### New directories -/

/-- Directories were made on the way to `p`, where there was nothing. -/
def Grown (t t' : LinkedTree) (p : Path) : Prop :=
  ∀ q, t'.node q = t.node q ∨ (t.node q = none ∧ t'.node q = some .directory ∧ q <+: p)

namespace Grown

theorem refl (t : LinkedTree) (p : Path) : Grown t t p := fun _ => .inl rfl

theorem trans (h : Grown t t₁ p) (h' : Grown t₁ t₂ p) : Grown t t₂ p := by
  intro q
  rcases h q with he | ⟨hnone, hdir, hq⟩ <;> rcases h' q with he' | ⟨hnone', hdir', hq'⟩
  · exact .inl (he'.trans he)
  · exact .inr ⟨he ▸ hnone', hdir', hq'⟩
  · exact .inr ⟨hnone, he'.trans hdir, hq⟩
  · exact .inr ⟨hnone, hdir', hq⟩

theorem mono (h : Grown t t' q) (hq : q <+: p) : Grown t t' p := by
  intro r
  rcases h r with he | ⟨hnone, hdir, hr⟩
  · exact .inl he
  · exact .inr ⟨hnone, hdir, hr.trans hq⟩

theorem link (h : Grown t t' p) (q : Path) : t'.link q = t.link q := by
  unfold LinkTree.link
  rcases h q with he | ⟨hnone, hdir, -⟩
  · rw [he]
  · rw [hnone, hdir]

end Grown

theorem grown_osMkdir (h : Direct t p) : Grown t (osMkdir t p).2 p := by
  unfold osMkdir
  split
  · exact .refl t p
  · exact .refl t p
  rename_i loc hlocate
  obtain rfl := locate_eq h hlocate
  split
  · exact .refl t loc
  by_cases hclear : t.clear loc = true
  · intro q
    simp only [FileTree.node_makeDirs hclear]
    by_cases hq : q <+: loc
    · rw [if_pos hq]
      have hfile := FileTree.clear_iff.mp hclear q hq
      unfold FileTree.file at hfile
      rcases hnode : t.node q with _ | _ | _
      · exact .inr ⟨rfl, rfl, hq⟩
      · simp [hnode] at hfile
      · exact .inl rfl
    · rw [if_neg hq]
      exact .inl rfl
  · rw [FileTree.makeDirs, if_neg hclear]
    exact .refl t loc

theorem grown_mkdirExisting (h : Direct t p) : Grown t (mkdirExisting t p).2 p := by
  have hh := grown_osMkdir h
  unfold mkdirExisting
  rcases hmkdir : osMkdir t p with ⟨r, t'⟩
  rw [hmkdir] at hh
  split
  · rename_i he
    obtain ⟨-, rfl⟩ := Prod.mk.inj he
    exact hh
  · rename_i he
    obtain ⟨-, rfl⟩ := Prod.mk.inj he
    split <;> exact hh
  · rename_i he
    obtain ⟨-, rfl⟩ := Prod.mk.inj he
    exact hh

theorem grown_mkdirParents (t : LinkedTree) (names : List String) (h : Direct t names.reverse) :
    Grown t (mkdirParents t names).2 names.reverse := by
  induction names generalizing t with
  | nil => exact grown_mkdirExisting h
  | cons name up ih =>
    have hfirst := grown_mkdirExisting h
    have hprefix : up.reverse <+: (name :: up).reverse := by simp
    rw [mkdirParents]
    rcases hmkdir : mkdirExisting t (name :: up).reverse with ⟨r, t₁⟩
    rw [hmkdir] at hfirst
    split
    · rename_i he
      obtain ⟨-, rfl⟩ := Prod.mk.inj he
      have hdirect := h.congr hfirst.link
      have hup := (ih t₁ (hdirect.of_prefix hprefix)).mono hprefix
      split
      · rename_i hparents
        rw [hparents] at hup
        exact hfirst.trans hup
      · rename_i t₂ hparents
        rw [hparents] at hup
        exact (hfirst.trans hup).trans (grown_mkdirExisting (hdirect.congr hup.link))
    · rename_i he
      obtain ⟨-, rfl⟩ := Prod.mk.inj he
      exact hfirst

/-! ### Files that are moved or removed -/

theorem node_unlink (h : ((unlink t p false).2.node q).isSome) :
    (unlink t p false).2.node q = t.node q := by
  revert h
  unfold unlink
  split
  · simp
  · simp
  · simp
  · rename_i loc _
    split
    · rename_i e hnode
      rw [FileTree.node_unlink (FileTree.file_eq_some_iff.mpr hnode)]
      by_cases hq : q = loc
      · simp [hq]
      · simp [Store.erase_of_ne _ hq]
    · simp
    · simp

theorem node_replace (h : ((replace t staged final).2.node q).isSome)
    (hne : (replace t staged final).2.node q ≠ t.node q) : t.locate false final = .ok q := by
  revert h hne
  unfold replace
  split
  case h_2 => simp
  rename_i source target hsource htarget
  split
  · simp
  · simp
  rename_i e hnode
  split
  case isFalse => simp
  rename_i hplace
  simp only [Bool.and_eq_true, Bool.not_eq_true', FileTree.isDirectory_iff] at hplace
  have hnot : t.node target ≠ some .directory := fun hd => by
    have := FileTree.isDirectory_iff.mpr hd
    rw [this] at hplace
    simp at hplace
  have htarget' : target.dropLast ++ [target.getLastD ""] = target := by
    rcases List.eq_nil_or_concat target with rfl | ⟨front, name, rfl⟩
    · exact absurd t.root hnot
    · simp
  intro hsome hne
  simp only at hsome hne
  rw [FileTree.node_move (FileTree.file_eq_some_iff.mpr hnode) hplace.1 (htarget'.symm ▸ hnot),
    htarget'] at hsome hne
  by_cases hq : q = target
  · rw [htarget, hq]
  · rw [if_neg hq] at hsome hne
    by_cases hs : q = source
    · simp [hs] at hsome
    · simp [hs] at hne

/-! ### The name that a collision gets -/

theorem collisionName_proper (final : Path) (sha : Digest) :
    ∃ name, collisionPath final sha = final.dropLast ++ [name] ∧ stays name = false ∧
      name ≠ ".." := by
  obtain ⟨stem, suffix, hname⟩ : ∃ stem suffix, collisionPath final sha = final.dropLast ++
      [stem ++ ".mnema-" ++ String.ofList (sha.toList.take 12) ++ suffix] := ⟨_, _, rfl⟩
  refine ⟨_, hname, ?_⟩
  generalize String.ofList (sha.toList.take 12) = digest
  have hlong : 2 < (stem ++ ".mnema-" ++ digest ++ suffix).length := by
    have hmark : ".mnema-".length = 7 := rfl
    simp only [String.length_append, hmark]
    omega
  generalize stem ++ ".mnema-" ++ digest ++ suffix = name at hlong
  have hshort : ∀ short : String, short.length ≤ 2 → name ≠ short := by
    rintro short hle rfl
    omega
  simp [stays, hshort "" (by decide), hshort "." (by decide), hshort ".." (by decide)]

variable {R : Path} {relative : String} {sha : Digest} {n : Nat}

/-- The place of a renamed file, once `commit_staged` has checked it. -/
theorem collision_beneath (hR : Locates t [] root R n) (hfinal : Direct t final) (hpre : R <+: final)
    (hlink : final = R → t.link (collisionPath R sha) = none)
    (hcheck : isBeneath k t (collisionPath final sha) root = .ok true)
    (hlocate : t.locate false (collisionPath final sha) = .ok loc) : R <+: loc := by
  obtain ⟨name, hname, hstays, hup⟩ := collisionName_proper final sha
  by_cases he : final = R
  · have hdirect : Direct t (collisionPath final sha) := by
      have hnone := hlink he
      rw [← he, hname] at hnone
      rw [hname]
      exact hfinal.dropLast.concat hstays hup hnone
    rw [locate_eq hdirect hlocate]
    unfold isBeneath at hcheck
    split at hcheck
    · simp at hcheck
    · simp at hcheck
    rename_i p root' hp hroot
    obtain ⟨rfl, -⟩ := resolve_eq hp hdirect.locates
    obtain ⟨rfl, -⟩ := resolve_eq hroot hR
    exact (isRelativeTo_iff.mp (Except.ok.inj hcheck)).2
  · rw [hname] at hlocate
    rw [locate_last hfinal.dropLast hstays hup hlocate]
    have hne : final ≠ [] := by
      rintro rfl
      exact he (List.prefix_nil.mp hpre).symm
    rw [← List.dropLast_concat_getLast hne, List.prefix_concat_iff] at hpre
    rcases hpre with heq | hdrop
    · rw [List.dropLast_concat_getLast hne] at heq
      exact absurd heq.symm he
    · exact hdrop.trans (List.prefix_append _ _)

/-! ### The course of a call -/

section Course

variable {α β : Type} {w : World LinkedTree}

/-- At every call of `p`, and where it ends, no more has changed than what lies beneath the root. -/
abbrev Keeps (k : LinkedDisk) (t : LinkedTree) (root : Path) (p : Flow α)
    (Q : α → World LinkedTree → Prop) (w : World LinkedTree) : Prop :=
  p.wp (fun w' _ => OnlyBeneath t root w'.ext) (World.env (env k)) Q
    (fun _ w' => OnlyBeneath t root w'.ext) w

theorem keeps_call {o : ExtOp} {f : o.Res → Flow β} {Q : β → World LinkedTree → Prop}
    (hw : w.ext = t₁) (h : OnlyBeneath t root t₁) (hstep : OnlyBeneath t root (answer k t₁ o).2)
    (hnext : ∀ a w', (answer k t₁ o).1 = .ok a → w'.ext = (answer k t₁ o).2 →
      Keeps k t root (f a) Q w') : Keeps k t root (ext o >>= f) Q w := by
  subst hw
  rw [Keeps, Prog.wp_bind, wp_ext]
  refine ⟨h, fun a x hx _ => ?_, fun e x hx _ => ?_⟩
  · rcases hx with hx | ⟨text, hx, -⟩
    · obtain ⟨ha, hx⟩ := Prod.mk.inj hx
      exact hnext a _ ha.symm hx
    · simp at hx
  · rcases hx with hx | ⟨text, -, hx⟩
    · rw [World.answered, (Prod.mk.inj hx).2]
      exact hstep
    · rw [World.answered, hx]
      exact h

/-- A call that only looks. -/
theorem keeps_read {o : ExtOp} {f : o.Res → Flow β} {Q : β → World LinkedTree → Prop}
    (hw : w.ext = t₁) (h : OnlyBeneath t root t₁) (hsame : (answer k t₁ o).2 = t₁)
    (hnext : ∀ a w', (answer k t₁ o).1 = .ok a → w'.ext = t₁ → Keeps k t root (f a) Q w') :
    Keeps k t root (ext o >>= f) Q w :=
  keeps_call hw h (hsame.symm ▸ h) fun a w' ha hw' => hnext a w' ha (hw'.trans hsame)

theorem keeps_raiseIf {failed : Bool} {e : PyError} {f : Unit → Flow β}
    {Q : β → World LinkedTree → Prop} (h : OnlyBeneath t root w.ext)
    (hnext : failed = false → Keeps k t root (f ()) Q w) :
    Keeps k t root (raiseIf failed e >>= f) Q w := by
  cases failed with
  | false => exact hnext rfl
  | true => exact h

theorem keeps_sameContent {f : Bool → Flow β} {Q : β → World LinkedTree → Prop} {size : Nat}
    {sha : Digest} (hw : w.ext = t₁) (h : OnlyBeneath t root t₁)
    (hnext : ∀ same w', w'.ext = t₁ → Keeps k t root (f same) Q w') :
    Keeps k t root (sameContent p size sha >>= f) Q w := by
  rw [Keeps, Prog.wp_bind]
  unfold sameContent
  apply keeps_read hw h rfl
  intro found w _ hw
  by_cases hsize : found = size
  · rw [if_pos hsize]
    apply keeps_read (o := .sha256File p) hw h rfl
    intro digest w _ hw
    exact hnext _ w hw
  · rw [if_neg hsize]
    exact hnext false w hw

theorem keeps_moveStaged {ts : Option Time} {r : β} (hw : w.ext = t₁) (h : OnlyBeneath t root t₁)
    (hplace : ∀ loc, t₁.locate false final = .ok loc → ∃ R n, Locates t [] root R n ∧ R <+: loc) :
    Keeps k t root (moveStaged staged final ts >>= fun _ => pure r)
      (fun _ w' => OnlyBeneath t root w'.ext) w := by
  have hmoved : OnlyBeneath t root (answer k t₁ (.replace staged final)).2 :=
    h.then fun q hsome hne => hplace q (node_replace hsome hne)
  have hsync : ∀ w' : World LinkedTree, w'.ext = (answer k t₁ (.replace staged final)).2 →
      Keeps k t root (ext (.fsyncDirectory final.dropLast))
        (fun _ w' => OnlyBeneath t root w'.ext) w' := by
    intro w' hw'
    have hend : Keeps k t root (ext (.fsyncDirectory final.dropLast) >>= pure)
        (fun _ w' => OnlyBeneath t root w'.ext) w' := by
      apply keeps_read hw' hmoved rfl
      intro _ w'' _ hw''
      rw [← hw''] at hmoved
      exact hmoved
    exact (Prog.wp_bind _ _).mp hend
  rw [Keeps, Prog.wp_bind]
  unfold moveStaged
  apply keeps_call (o := .replace staged final) hw h hmoved
  intro _ w' _ hw'
  cases ts with
  | none => exact hsync w' hw'
  | some ts =>
    apply keeps_read (o := .utime final ts) hw' hmoved rfl
    intro _ w'' _ hw''
    exact hsync w'' hw''

variable {relative : String} {sha : Digest} {size : Nat} {ts : Option Time}

theorem onlyBeneath_grown (h : Grown t t' p.dropLast) (hp : R <+: p) (hR : (t.node R).isSome)
    (hroot : Locates t [] root R n) : OnlyBeneath t root t' := by
  intro q hsome hne
  rcases h q with he | ⟨hnone, -, hq⟩
  · exact absurd he hne
  · refine ⟨R, n, hroot, ?_⟩
    rcases List.prefix_or_prefix_of_prefix hp (hq.trans (List.dropLast_prefix p)) with hpre | hpre
    · exact hpre
    · by_cases he : q = R
      · exact he ▸ List.prefix_rfl
      · rw [FileTree.directory_of_prefix hpre he hR] at hnone
        simp at hnone

/-- From the second time on that the path is resolved. -/
theorem keeps_place {transformed : Option String} (hw : w.ext = t₁) (h : OnlyBeneath t root t₁)
    (hlinks : ∀ q, t₁.link q = t.link q) (hroot : Locates t [] root R n) (hfinal : Direct t final)
    (hpre : R <+: final) (hlink : final = R → t.link (collisionPath R sha) = none) :
    Keeps k t root (do
      if ← ext (.pathExists final) then
        raiseIf (← ext (.isSymlink final)) (.value "destination collision is a symlink")
        if ← sameContent final size sha then
          ext (.unlink staged false)
          pure ⟨final, size, sha, none⟩
        else
          let renamed := collisionPath final sha
          raiseIf (!(← ext (.isBeneath renamed root))) (.value "collision path escapes active root")
          moveStaged staged renamed ts
          pure (CommitReceipt.mk renamed size sha transformed)
      else
        moveStaged staged final ts
        pure ⟨final, size, sha, none⟩)
      (fun _ w' => OnlyBeneath t root w'.ext) w := by
  have hroot₁ := hroot.congr hlinks
  have hfinal₁ := hfinal.congr hlinks
  apply keeps_read hw h rfl
  intro found w hfound hw
  cases found with
  | false =>
    apply keeps_moveStaged hw h
    intro loc hlocate
    rw [locate_eq hfinal₁ hlocate]
    exact ⟨R, n, hroot, hpre⟩
  | true =>
    apply keeps_read hw h rfl
    intro symlink w _ hw
    apply keeps_raiseIf (hw.symm ▸ h)
    intro _
    apply keeps_sameContent hw h
    intro same w hw
    cases same with
    | true =>
      have hremoved : OnlyBeneath t root (answer k t₁ (.unlink staged false)).2 :=
        h.then fun q hsome hne => absurd (node_unlink hsome) hne
      apply keeps_call (o := .unlink staged false) hw h hremoved
      intro _ w _ hw
      rw [← hw] at hremoved
      exact hremoved
    | false =>
      apply keeps_read (o := .isBeneath (collisionPath final sha) root) hw h rfl
      intro beneath w hbeneath hw
      apply keeps_raiseIf (hw.symm ▸ h)
      intro hcheck
      obtain rfl : beneath = true := by simpa using hcheck
      apply keeps_moveStaged hw h
      intro loc hlocate
      refine ⟨R, n, hroot, collision_beneath hroot₁ hfinal₁ hpre (fun he => ?_) hbeneath hlocate⟩
      exact (hlinks _).trans (hlink he)

theorem keeps_notRegular {f : Bool → Flow β} {Q : β → World LinkedTree → Prop}
    (hw : w.ext = t₁) (h : OnlyBeneath t root t₁)
    (hnext : ∀ odd w', w'.ext = t₁ → Keeps k t root (f odd) Q w') :
    Keeps k t root (notRegular p >>= f) Q w := by
  rw [Keeps, Prog.wp_bind]
  unfold notRegular
  apply keeps_read hw h rfl
  intro symlink w _ hw
  cases symlink with
  | true => exact hnext true w hw
  | false =>
    apply keeps_read (o := .isFile p) hw h rfl
    intro file w _ hw
    exact hnext (!file) w hw

/-- From the first time on that the path is resolved. -/
theorem keeps_placeStaged (hplace : Placeable t root relative sha) (hw : w.ext = t) :
    Keeps k t root (placeStaged staged root relative sha size ts)
      (fun _ w' => OnlyBeneath t root w'.ext) w := by
  have hsame := OnlyBeneath.refl t root
  unfold placeStaged
  apply keeps_read hw hsame rfl
  intro unresolved w hunresolved hw
  obtain ⟨R, rel, first, hR, hrel, hfirst, hrelative, -, rfl⟩ := resolveBeneath_spec hunresolved
  obtain ⟨hsingle, hreached, n, hroot⟩ := locates_of_resolve hR
  obtain ⟨loc, m, hloc, hlink⟩ := hplace R.names n rel hroot hrel
  obtain ⟨rfl, hdirect⟩ := resolve_eq hfirst hloc
  have hpre : R.names <+: loc := (isRelativeTo_iff.mp hrelative).2
  obtain ⟨t₁, ht₁⟩ : ∃ t₁, (answer k t (.mkdir loc.dropLast)).2 = t₁ := ⟨_, rfl⟩
  have hgrown : Grown t t₁ loc.dropLast := by
    have hh := grown_mkdirParents t loc.dropLast.reverse (by simpa using hdirect.dropLast)
    rw [List.reverse_reverse] at hh
    exact ht₁ ▸ hh
  have honly : OnlyBeneath t root t₁ := onlyBeneath_grown hgrown hpre (hreached.found rfl) hroot
  apply keeps_call (o := .mkdir loc.dropLast) hw hsame (ht₁.symm ▸ honly)
  intro _ w _ hw
  rw [ht₁] at hw
  apply keeps_read hw honly rfl
  intro final w hfinal hw
  obtain ⟨R', rel', second, hR', hrel', hsecond, -, -, rfl⟩ := resolveBeneath_spec hfinal
  obtain ⟨rfl, -⟩ := resolve_eq hR' (hroot.congr hgrown.link)
  obtain rfl := Except.ok.inj (hrel.symm.trans hrel')
  obtain ⟨rfl, -⟩ := resolve_eq hsecond (hloc.congr hgrown.link)
  exact keeps_place hw honly hgrown.link hroot hdirect hpre hlink

theorem keeps_commitStaged (hplace : Placeable t root relative sha) (hw : w.ext = t) :
    Keeps k t root (commitStaged staged root relative sha size ts)
      (fun _ w' => OnlyBeneath t root w'.ext) w := by
  have hsame := OnlyBeneath.refl t root
  unfold commitStaged
  cases hrel : safeRelativePath relative with
  | error e => exact hw.symm ▸ hsame
  | ok rel =>
    apply keeps_notRegular hw hsame
    intro odd w hw
    apply keeps_raiseIf (hw.symm ▸ hsame)
    intro _
    apply keeps_read (o := .fileSize staged) hw hsame rfl
    intro found w _ hw
    apply keeps_raiseIf (hw.symm ▸ hsame)
    intro _
    apply keeps_read (o := .sha256File staged) hw hsame rfl
    intro digest w _ hw
    apply keeps_raiseIf (hw.symm ▸ hsame)
    intro _
    exact keeps_placeStaged hplace hw

end Course

theorem leavesBeneath_of_placeable {sha : Digest} (h : Placeable t root relative sha) :
    LeavesBeneath k t root relative := by
  apply leavesBeneath_of_locates
  intro R n rel hR hrel
  obtain ⟨loc, m, hloc, -⟩ := h R n rel hR hrel
  exact ⟨loc, m, hloc⟩

/-- A path that must exist is the one asked for, without a link on it; any other leads beneath the
root exactly if the text that `realpath` leaves at a loop does. Where the links of the path do not
loop, the tree changes only beneath the root at every point of every call of `commit_staged`. -/
theorem path_containment (k : LinkedDisk) (t : LinkedTree) (root : Path) (relative : String) :
    (∀ p, resolveBeneath k t root relative true = .ok p → ∃ R rel n, Locates t [] root R n ∧
      safeRelativePath relative = .ok rel ∧ p = R ++ rel ∧ Direct t p) ∧
    ((∀ p, resolveBeneath k t root relative false = .ok p → LeadsBeneath t root p) ↔
      LeavesBeneath k t root relative) ∧
    ∀ sha, Placeable t root relative sha → LeavesBeneath k t root relative ∧
      ∀ (staged : Path) (size : Nat) (ts : Option Time) (w w' : World LinkedTree)
        (rest : Flow CommitReceipt), w.ext = t →
        Prog.Steps (World.env (env k)) (w, commitStaged staged root relative sha size ts)
          (w', rest) → OnlyBeneath t root w'.ext := by
  refine ⟨fun p => resolveBeneath_existing, resolveBeneath_iff, fun sha hplace => ?_⟩
  refine ⟨leavesBeneath_of_placeable hplace, fun staged size ts w w' rest hw hs => ?_⟩
  have hcommit : Keeps k t root (commitStaged staged root relative sha size ts)
      (fun _ w' => OnlyBeneath t root w'.ext) w := keeps_commitStaged hplace hw
  have hkeeps := hcommit.steps hs
  cases rest with
  | ret _ => exact hkeeps
  | raise _ => exact hkeeps
  | call _ _ => exact hkeeps.1

/-- A link that loops, one that leads out of the root, and one that steps back over the first to
the second. -/
def escaping : World LinkedTree :=
  let t : LinkedTree :=
    ((FileTree.empty.makeDirs ["active"]).makeDirs ["staging"]).makeDirs ["outside"]
  let t := (t.write ["active"] "loop" (.link ["loop"])).write ["active"] "out" (.link ["", "outside"])
  let t := t.write ["active"] "a" (.link ["loop", "..", "out"])
  ⟨{}, {}, [], [], t.write ["staging"] "1.partial" (.content [65])⟩

def linkedDisk : LinkedDisk := { plainDisk with depth := 900 }

theorem escapes_over_loop :
    (∃ p, resolveBeneath linkedDisk escaping.ext ["active"] "a/file" false = .ok p ∧
      ¬LeadsBeneath escaping.ext ["active"] p) ∧
    ∃ (w' : World LinkedTree) (receipt : CommitReceipt),
      Prog.Steps (World.env (env linkedDisk))
        (escaping, commitStaged ["staging", "1.partial"] ["active"] "a/file" "A" 1 none)
        (w', .ret receipt) ∧
      escaping.ext.node ["outside", "file"] = none ∧
      w'.ext.node ["outside", "file"] = some (.file (.content [65])) := by
  constructor
  · refine ⟨["active", "out", "file"], by decide +kernel, ?_⟩
    rintro ⟨R, n, loc, m, hR, hloc, hpre⟩
    have hactive : Locates escaping.ext [] ["active"] ["active"] 0 :=
      .down rfl (by decide) (by decide +kernel) (.here _)
    have houtside : Locates escaping.ext [] ["", "outside"] ["outside"] 0 :=
      .stay rfl (.down rfl (by decide) (by decide +kernel) (.here _))
    have hlast : Locates escaping.ext ["outside"] ["file"] ["outside", "file"] 0 :=
      .down rfl (by decide) (by decide +kernel) (.here _)
    have htarget : escaping.ext.link (["active"] ++ ["out"]) = some ["", "outside"] := by
      decide +kernel
    have hout : Locates escaping.ext ["active"] ["out", "file"] ["outside", "file"] (0 + 0 + 1) :=
      .follow rfl (by decide) htarget houtside hlast
    have hfile : Locates escaping.ext [] ["active", "out", "file"] ["outside", "file"] (0 + 0 + 1) :=
      .down rfl (by decide) (by decide +kernel) hout
    rw [(hR.unique hactive).1, (hloc.unique hfile).1] at hpre
    exact absurd hpre (by decide)
  · have henv : ∀ (w : World LinkedTree) o, Op.onFiles o = true →
        World.env (env linkedDisk) w o (w.handler (answer linkedDisk) o).1
          (w.handler (answer linkedDisk) o).2 := by
      intro w o ho
      cases o with
      | db o => rfl
      | ext o =>
        refine ⟨_, .inl rfl, ?_, rfl⟩
        cases o with
        | evaluatePolicy item policy => simp [Op.onFiles] at ho
        | _ => trivial
    have hrun := Prog.exec_steps_of_respects henv
      (commitStaged ["staging", "1.partial"] ["active"] "a/file" "A" 1 none) escaping
      (by decide +kernel)
    have hret : ((commitStaged ["staging", "1.partial"] ["active"] "a/file" "A" 1 none).exec
        (World.handler (answer linkedDisk)) escaping).1 =
          .ok ⟨["active", "out", "file"], 1, "A", none⟩ := by decide +kernel
    rw [hret] at hrun
    exact ⟨_, _, hrun, by decide +kernel, by decide +kernel⟩

end LinkedTree

end Mnema
