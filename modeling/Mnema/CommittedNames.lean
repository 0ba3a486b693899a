import Mnema.ContainedCommit
import Mathlib.Data.Bool.AllAny

/-! The names that `commit_staged` gives to the file system for an accepted upload. -/

namespace Mnema

/-- A name that a file may have. -/
structure Writable (name : String) : Prop extends FileName name where
  noNul : '\x00' ∉ name.toList
  short : name.utf8ByteSize ≤ 255

/-- `resolve_beneath` looks up every part of its path, and `os.replace` writes the last one. -/
def NamesWritable : Op → Prop
  | .ext (.resolveBeneath _ relative _) =>
    ∀ parts, safeRelativePath relative = .ok parts → ∀ name ∈ parts, Writable name
  | .ext (.replace _ target) => Writable (target.getLastD "")
  | _ => True

/-- The path of an upload beneath the active root. -/
def uploadsPath (name : String) : String := "Uploads/" ++ name

/-- The name beside a file that is in the way. -/
def collisionName (name : String) (sha : Digest) : String :=
  (stemSuffix name).1 ++ ".mnema-" ++ String.ofList (sha.toList.take 12) ++ (stemSuffix name).2

/-! ### The renamed form -/

section Names

variable {name raw : String} {sha : Digest}

theorem getLastD_collisionPath (final : Path) (sha : Digest) :
    (collisionPath final sha).getLastD "" = collisionName (final.getLastD "") sha := by
  unfold collisionPath Path.child collisionName
  rw [List.getLastD_concat]

theorem stem_append_suffix (name : String) : (stemSuffix name).1 ++ (stemSuffix name).2 = name := by
  have hspan := List.span_eq_takeWhile_dropWhile (fun c : Char => c != '.') name.toList.reverse
  have happend : List.takeWhile (fun c => c != '.') name.toList.reverse ++
      List.dropWhile (fun c => c != '.') name.toList.reverse = name.toList.reverse :=
    List.takeWhile_append_dropWhile
  generalize hparts : stemSuffix name = parts
  simp only [stemSuffix] at hparts
  split at hparts
  · rename_i ext stem hcut
    split at hparts
    · rw [← hparts]
      exact String.append_empty
    · obtain ⟨hext, hstem⟩ := Prod.mk.inj (hspan.symm.trans hcut)
      rw [hext, hstem] at happend
      have hname : name.toList = stem.reverse ++ '.' :: ext.reverse := by
        rw [← List.reverse_reverse name.toList, ← happend]
        simp
      rw [← hparts, ← String.toList_inj, hname]
      simp
  · rw [← hparts]
    exact String.append_empty

theorem utf8ByteSize_of_ascii {cs : List Char} (h : ∀ c ∈ cs, c.utf8Size = 1) :
    (String.ofList cs).utf8ByteSize = cs.length := by
  induction cs with
  | nil => rfl
  | cons c rest ih =>
    have hcons : String.ofList (c :: rest) = String.singleton c ++ String.ofList rest := by
      rw [← String.toList_inj]
      simp
    rw [hcons, String.utf8ByteSize_append, String.utf8ByteSize_singleton, h c List.mem_cons_self,
      ih fun d hd => h d (List.mem_cons_of_mem c hd), List.length_cons, Nat.add_comm]

theorem digits_of_validSha256 (h : validSha256 sha = true) :
    sha.toList.length = 64 ∧ ∀ c ∈ sha.toList, c ∈ "0123456789abcdef".toList := by
  unfold validSha256 at h
  rw [Bool.and_eq_true, beq_iff_eq, List.all_eq_true] at h
  exact ⟨h.1, fun c hc => List.contains_iff_mem.mp (h.2 c hc)⟩

/-- The infix has nineteen bytes. -/
theorem utf8ByteSize_collisionName (hsha : validSha256 sha = true) :
    (collisionName name sha).utf8ByteSize = name.utf8ByteSize + 19 := by
  obtain ⟨hlength, hdigits⟩ := digits_of_validSha256 hsha
  have hascii : ∀ c ∈ "0123456789abcdef".toList, c.utf8Size = 1 := List.all_iff_forall_prop.mp (by decide)
  have hmiddle : (String.ofList (sha.toList.take 12)).utf8ByteSize = 12 := by
    rw [utf8ByteSize_of_ascii fun c hc => hascii c (hdigits c (List.mem_of_mem_take hc)), List.length_take, hlength]
    rfl
  have hmnema : ".mnema-".utf8ByteSize = 7 := by decide
  have hparts := congrArg String.utf8ByteSize (stem_append_suffix name)
  rw [String.utf8ByteSize_append] at hparts
  unfold collisionName
  simp only [String.utf8ByteSize_append, hmiddle, hmnema]
  omega

theorem mem_collisionName (hsha : validSha256 sha = true) {c : Char} (hmiddle : c ∉ ".mnema-".toList)
    (hdigit : c ∉ "0123456789abcdef".toList) :
    c ∈ (collisionName name sha).toList ↔ c ∈ name.toList := by
  have hdigits := (digits_of_validSha256 hsha).2
  have hno : c ∉ sha.toList.take 12 := fun hc => hdigit (hdigits c (List.mem_of_mem_take hc))
  have hparts := congrArg String.toList (stem_append_suffix name)
  rw [String.toList_append] at hparts
  rw [← hparts]
  unfold collisionName
  simp only [String.toList_append, String.toList_ofList, List.mem_append, hno, hmiddle, or_false]

theorem collisionName_ne (sha : Digest) {other : String} (h : '-' ∉ other.toList) : collisionName name sha ≠ other := by
  intro heq
  apply h
  rw [← heq]
  unfold collisionName
  simp

/-- The renamed form is a name exactly if the name leaves it the bytes. -/
theorem writable_collisionName_iff (hsha : validSha256 sha = true) :
    Writable (collisionName name sha) ↔
      ('/' ∉ name.toList ∧ '\x00' ∉ name.toList) ∧ name.utf8ByteSize + 19 ≤ 255 := by
  have hslash : '/' ∈ (collisionName name sha).toList ↔ '/' ∈ name.toList :=
    mem_collisionName hsha (by decide) (by decide)
  have hnul : '\x00' ∈ (collisionName name sha).toList ↔ '\x00' ∈ name.toList :=
    mem_collisionName hsha (by decide) (by decide)
  rw [← hslash, ← hnul, ← utf8ByteSize_collisionName hsha]
  constructor
  · intro h
    exact ⟨⟨h.slash, h.noNul⟩, h.short⟩
  · rintro ⟨⟨hs, hn⟩, hshort⟩
    have hfile : FileName (collisionName name sha) :=
      ⟨collisionName_ne sha (by decide), collisionName_ne sha (by decide), collisionName_ne sha (by decide), hs⟩
    exact ⟨hfile, hn, hshort⟩

theorem short_of_validate (h : validateUploadName raw = .ok name) : name.utf8ByteSize ≤ 255 := by
  unfold validateUploadName at h
  obtain ⟨parts, hparts, h⟩ := Except.of_bind_eq_ok h
  by_cases hlast : parts.getLastD "" ≠ strip raw ∨ strip raw = "." ∨ strip raw = ".."
  · rw [if_pos hlast] at h
    cases h
  rw [if_neg hlast] at h
  by_cases hlong : (strip raw).utf8ByteSize > 255
  · rw [if_pos hlong] at h
    cases h
  · rw [if_neg hlong] at h
    have hname : strip raw = name := Except.ok.inj h
    rw [← hname]
    omega

end Names

namespace LinkedTree

open LinkTree

variable {k : LinkedDisk} {t t₁ : LinkedTree} {root staged final : Path} {name relative raw : String} {size : Nat}
  {sha : Digest} {ts : Option Time} {α β : Type} {w : World LinkedTree}

/-- The content that is to be committed, where it was staged. -/
structure Ready (k : LinkedDisk) (t : LinkedTree) (staged : Path) (size : Nat) (sha : Digest) : Prop where
  file : isSymlink t staged = false ∧ (stat t true staged).isSome = true ∧ isDir t staged = false
  size : fileSize k t staged = .ok size
  sha256 : sha256File k t staged = .ok sha

/-- The tree and the path with which `commit_staged` looks whether the name is taken. -/
def Destination (k : LinkedDisk) (t : LinkedTree) (root : Path) (relative : String) (t₁ : LinkedTree)
    (final : Path) : Prop :=
  (∃ p, resolveBeneath k t root relative false = .ok p ∧ mkdirParents t p.dropLast.reverse = (.ok (), t₁)) ∧
    resolveBeneath k t₁ root relative false = .ok final

/-- The contents were read, and are others. -/
def differs (k : LinkedDisk) (t : LinkedTree) (p : Path) (size : Nat) (sha : Digest) : Bool :=
  match fileSize k t p, sha256File k t p with
  | .error _, _ => false
  | .ok n, .error _ => n != size
  | .ok n, .ok digest => n != size || digest != sha

/-- Something else lies at the path, and beside it there is room beneath the root. -/
def Collides (k : LinkedDisk) (t : LinkedTree) (root final : Path) (size : Nat) (sha : Digest) : Prop :=
  (stat t true final).isSome = true ∧ isSymlink t final = false ∧ differs k t final size sha = true ∧
    isBeneath k t (collisionPath final sha) root = .ok true

/-- Whatever `commit_staged` asks of the file system for an upload, the names are ones it takes. -/
def Committable (k : LinkedDisk) (t : LinkedTree) (root staged : Path) (name : String) (size : Nat)
    (sha : Digest) (ts : Option Time) : Prop :=
  ∀ w : World LinkedTree, w.ext = t →
    (commitStaged staged root (uploadsPath name) sha size ts).wp (fun _ o => NamesWritable o)
      (World.env (env k)) (fun _ _ => True) (fun _ _ => True) w

/-- The name has no NUL; a free path ends in a name that may be written, and the name of a file that
is in the way leaves room for the infix. -/
structure Fits (k : LinkedDisk) (t : LinkedTree) (root : Path) (name : String) (size : Nat) (sha : Digest) : Prop where
  noNul : '\x00' ∉ name.toList
  free : ∀ t₁ final, Destination k t root (uploadsPath name) t₁ final →
    (stat t₁ true final).isSome = false → Writable (final.getLastD "")
  taken : ∀ t₁ final, Destination k t root (uploadsPath name) t₁ final → Collides k t₁ root final size sha →
    ('/' ∉ (final.getLastD "").toList ∧ '\x00' ∉ (final.getLastD "").toList) ∧
      (final.getLastD "").utf8ByteSize + 19 ≤ 255

/-! ### The calls of a program -/

/-- The names in every call of `p` are ones that the file system takes, and `p` returns with `Q`. -/
abbrev Named (k : LinkedDisk) (p : Flow α) (Q : α → World LinkedTree → Prop) (w : World LinkedTree) : Prop :=
  p.wp (fun _ o => NamesWritable o) (World.env (env k)) Q (fun _ _ => True) w

theorem named_ok {o : ExtOp} {a : o.Res} {f : o.Res → Flow β} {Q : β → World LinkedTree → Prop} (hw : w.ext = t)
    (h : answer k t o = (.ok a, t₁)) (hh : honest o (.ok a)) :
    Named k (ext o >>= f) Q w ↔ NamesWritable (.ext o) ∧ Named k (f a) Q (w.answered o (.ok a) t₁) := by
  subst hw
  rw [Named, Prog.wp_bind, wp_ext]
  refine and_congr_right fun _ => ⟨fun hall => hall.1 a t₁ (.inl h.symm) hh, fun hnext => ?_⟩
  refine ⟨fun a' x hx _ => ?_, fun _ _ _ _ => trivial⟩
  rcases hx with hx | ⟨text, hx, -⟩
  · rw [h] at hx
    obtain ⟨ha, rfl⟩ := Prod.mk.inj hx
    rw [Except.ok.inj ha]
    exact hnext
  · cases hx

theorem named_error {o : ExtOp} {e : PyError} {f : o.Res → Flow β} {Q : β → World LinkedTree → Prop}
    (hw : w.ext = t) (h : answer k t o = (.error e, t₁)) :
    Named k (ext o >>= f) Q w ↔ NamesWritable (.ext o) := by
  subst hw
  rw [Named, Prog.wp_bind, wp_ext]
  refine ⟨fun hall => hall.1, fun hnames => ⟨hnames, fun a x hx _ => ?_, fun _ _ _ _ => trivial⟩⟩
  rcases hx with hx | ⟨text, hx, -⟩
  · rw [h] at hx
    cases (Prod.mk.inj hx).1
  · cases hx

/-- The rule for a call: what follows is read in any world with the new tree. -/
theorem named_call (o : ExtOp) {r : Except PyError o.Res} {f : o.Res → Flow β} {Q : β → World LinkedTree → Prop}
    {P : Prop} (hw : w.ext = t) (h : answer k t o = (r, t₁)) (hnames : NamesWritable (.ext o))
    (hh : ∀ a, honest o (.ok a)) (hok : ∀ a w', r = .ok a → w'.ext = t₁ → (Named k (f a) Q w' ↔ P))
    (herror : ∀ e, r = .error e → P) : Named k (ext o >>= f) Q w ↔ P := by
  cases r with
  | error e =>
    rw [named_error hw h]
    exact iff_of_true hnames (herror e rfl)
  | ok a =>
    rw [named_ok hw h (hh a), hok a _ rfl rfl]
    exact and_iff_right hnames

theorem named_raiseIf {failed : Bool} {e : PyError} {f : Unit → Flow β} {Q : β → World LinkedTree → Prop} :
    Named k (raiseIf failed e >>= f) Q w ↔ (failed = false → Named k (f ()) Q w) := by
  cases failed with
  | false => exact ⟨fun h _ => h, fun h => h rfl⟩
  | true => exact iff_of_true trivial fun h => by cases h

theorem named_of_calls {p : Flow α} (h : p.Calls NamesWritable (fun _ => True) (fun _ => True)) :
    Named k p (fun _ _ => True) w := by
  have hcalls : p.wp (fun _ o => NamesWritable o) (World.env (env k)) (fun _ _ => True ∧ True)
      (fun _ _ => True ∧ True) w :=
    h.wp (I := fun _ => True) (fun _ _ ho _ => ho) (fun _ _ _ _ _ _ _ => trivial) trivial
  exact hcalls.mono (fun _ _ ho => ho) (fun _ _ _ => trivial) (fun _ _ _ => trivial)

theorem named_moveStaged {r : β} :
    Named k (moveStaged staged final ts >>= fun _ => pure r) (fun _ _ => True) w ↔
      Writable (final.getLastD "") := by
  constructor
  · intro h
    exact h.1
  · intro h
    apply named_of_calls
    rw [List.getLastD_eq_getLast?] at h
    cases ts <;> simp [moveStaged, ext, NamesWritable, h]

theorem named_sameContent {p : Path} {f : Bool → Flow β} {Q : β → World LinkedTree → Prop} {P : Prop} (hw : w.ext = t)
    (hother : ∀ w', w'.ext = t → (Named k (f false) Q w' ↔ P)) (hsame : ∀ w', Named k (f true) Q w') :
    Named k (sameContent p size sha >>= f) Q w ↔ (differs k t p size sha = true → P) := by
  have hall : ∀ same w', w'.ext = t → (Named k (f same) Q w' ↔ (same = false → P)) := by
    intro same w' hw'
    cases same with
    | false => exact (hother w' hw').trans (by simp)
    | true => exact iff_of_true (hsame w') fun h => by cases h
  rw [Named, Prog.wp_bind]
  unfold sameContent
  apply named_call (.fileSize p) hw rfl trivial (fun _ => trivial)
  · intro n w₁ hn hw₁
    by_cases hsize : n = size
    · rw [if_pos hsize]
      apply named_call (.sha256File p) hw₁ rfl trivial (fun _ => trivial)
      · intro digest w₂ hdigest hw₂
        refine (hall _ w₂ hw₂).trans ?_
        have hn' : fileSize k t p = .ok n := hn
        have hdigest' : sha256File k t p = .ok digest := hdigest
        simp [differs, hn', hdigest', hsize]
      · intro e he
        have hn' : fileSize k t p = .ok n := hn
        have he' : sha256File k t p = .error e := he
        simp [differs, hn', he', hsize]
    · rw [if_neg hsize]
      refine (hall false w₁ hw₁).trans ?_
      have hn' : fileSize k t p = .ok n := hn
      cases hdigest : sha256File k t p <;> simp [differs, hn', hdigest, hsize]
  · intro e he
    have he' : fileSize k t p = .error e := he
    simp [differs, he']

/-! ### What is written -/

theorem named_place {transformed : Option String} (hw : w.ext = t) (hsha : validSha256 sha = true) :
    Named k (do
      if ← ext (.pathExists final) then
        raiseIf (← ext (.isSymlink final)) (.value "destination collision is a symlink")
        if ← sameContent final size sha then
          ext (.unlink staged false)
          pure ⟨final, size, sha, none⟩
        else
          let renamed := collisionPath final sha
          raiseIf (!(← ext (.isBeneath renamed root))) (.value "collision path escapes active root")
          moveStaged staged renamed ts
          pure (CommitReceipt.mk renamed size sha transformed)
      else
        moveStaged staged final ts
        pure ⟨final, size, sha, none⟩) (fun _ _ => True) w ↔
      ((stat t true final).isSome = false → Writable (final.getLastD "")) ∧
        (Collides k t root final size sha →
          ('/' ∉ (final.getLastD "").toList ∧ '\x00' ∉ (final.getLastD "").toList) ∧
            (final.getLastD "").utf8ByteSize + 19 ≤ 255) := by
  rw [← writable_collisionName_iff hsha, ← getLastD_collisionPath]
  unfold Collides
  apply named_call (.pathExists final) hw rfl trivial (fun _ => trivial) ?_ (fun e he => by cases he)
  intro found w₁ hfound hw₁
  have hfound' : (stat t true final).isSome = found := Except.ok.inj hfound
  rw [hfound']
  cases found with
  | false => exact named_moveStaged.trans (by simp)
  | true =>
    simp only [if_true, reduceCtorEq, false_implies, true_and]
    apply named_call (.isSymlink final) hw₁ rfl trivial (fun _ => trivial) ?_ (fun e he => by cases he)
    intro symlink w₂ hsymlink hw₂
    have hsymlink' : isSymlink t final = symlink := Except.ok.inj hsymlink
    rw [hsymlink', named_raiseIf, and_imp]
    apply imp_congr_right
    intro _
    rw [and_imp]
    apply named_sameContent hw₂
    · intro w₃ hw₃
      apply named_call (.isBeneath (collisionPath final sha) root) hw₃ rfl trivial (fun _ => trivial)
      · intro beneath w₄ hbeneath _
        have hbeneath' : isBeneath k t (collisionPath final sha) root = .ok beneath := hbeneath
        rw [hbeneath', named_raiseIf]
        cases beneath with
        | false => simp
        | true => exact ⟨fun h _ => named_moveStaged.1 (h rfl), fun h _ => named_moveStaged.2 (h rfl)⟩
      · intro e he
        have he' : isBeneath k t (collisionPath final sha) root = .error e := he
        simp [he']
    · intro w₃
      apply named_of_calls
      simp [ext, NamesWritable]

/-- From the first time on that the path is resolved. -/
theorem named_placeStaged (hw : w.ext = t) (hsha : validSha256 sha = true)
    (hnames : NamesWritable (.ext (.resolveBeneath root relative false))) :
    Named k (placeStaged staged root relative sha size ts) (fun _ _ => True) w ↔
      ∀ t₁ final, Destination k t root relative t₁ final →
        ((stat t₁ true final).isSome = false → Writable (final.getLastD "")) ∧
          (Collides k t₁ root final size sha →
            ('/' ∉ (final.getLastD "").toList ∧ '\x00' ∉ (final.getLastD "").toList) ∧
              (final.getLastD "").utf8ByteSize + 19 ≤ 255) := by
  unfold placeStaged
  apply named_call (.resolveBeneath root relative false) hw rfl hnames (fun _ => trivial)
  · intro unresolved w₁ hfirst hw₁
    have hfirst' : resolveBeneath k t root relative false = .ok unresolved := hfirst
    rcases hmkdir : mkdirParents t unresolved.dropLast.reverse with ⟨r, t₁⟩
    apply named_call (.mkdir unresolved.dropLast) hw₁ hmkdir trivial (fun _ => trivial)
    · rintro u w₂ rfl hw₂
      have hwhere : ∀ t₂ final, Destination k t root relative t₂ final ↔
          t₂ = t₁ ∧ resolveBeneath k t₁ root relative false = .ok final := by
        intro t₂ final
        constructor
        · rintro ⟨⟨p, hp, hmade⟩, hfinal⟩
          obtain rfl := Except.ok.inj (hfirst'.symm.trans hp)
          obtain rfl := (Prod.mk.inj (hmkdir.symm.trans hmade)).2
          exact ⟨rfl, hfinal⟩
        · rintro ⟨rfl, hfinal⟩
          exact ⟨⟨unresolved, hfirst', hmkdir⟩, hfinal⟩
      apply named_call (.resolveBeneath root relative false) hw₂ rfl hnames (fun _ => trivial)
      · intro final w₃ hsecond hw₃
        have hsecond' : resolveBeneath k t₁ root relative false = .ok final := hsecond
        refine (named_place hw₃ hsha).trans ⟨fun h t₂ other hother => ?_, fun h => h t₁ final ?_⟩
        · obtain ⟨rfl, hfinal⟩ := (hwhere t₂ other).1 hother
          obtain rfl := Except.ok.inj (hsecond'.symm.trans hfinal)
          exact h
        · exact (hwhere t₁ final).2 ⟨rfl, hsecond'⟩
      · intro e he t₂ other hother
        have he' : resolveBeneath k t₁ root relative false = .error e := he
        rw [((hwhere t₂ other).1 hother).2] at he'
        cases he'
    · rintro e rfl t₂ other ⟨⟨p, hp, hmade⟩, -⟩
      obtain rfl := Except.ok.inj (hfirst'.symm.trans hp)
      rw [hmkdir] at hmade
      cases (Prod.mk.inj hmade).1
  · rintro e he t₁ final ⟨⟨p, hp, -⟩, -⟩
    have he' : resolveBeneath k t root relative false = .error e := he
    rw [hp] at he'
    cases he'

theorem named_notRegular {f : Bool → Flow β} {Q : β → World LinkedTree → Prop} {P : Prop} (hw : w.ext = t)
    (hready : Ready k t staged size sha) (hnext : ∀ w', w'.ext = t → (Named k (f false) Q w' ↔ P)) :
    Named k (notRegular staged >>= f) Q w ↔ P := by
  obtain ⟨hlink, hstat, hdir⟩ := hready.file
  have hsymlink : answer k t (.isSymlink staged) = (.ok false, t) := by rw [answer, hlink]
  have hfile : answer k t (.isFile staged) = (.ok true, t) := by
    rw [answer, hstat, hdir]
    rfl
  rw [Named, Prog.wp_bind]
  unfold notRegular
  apply named_call (.isSymlink staged) hw hsymlink trivial (fun _ => trivial) ?_ (fun e he => by cases he)
  intro symlink w₁ hs hw₁
  obtain rfl := Except.ok.inj hs
  apply named_call (.isFile staged) hw₁ hfile trivial (fun _ => trivial) ?_ (fun e he => by cases he)
  intro file w₂ hf hw₂
  obtain rfl := Except.ok.inj hf
  exact hnext w₂ hw₂

/-- A name that `validate_upload_name` let through lacks only the check for a NUL. -/
theorem namesWritable_uploads (hname : validateUploadName raw = .ok name) :
    NamesWritable (.ext (.resolveBeneath root (uploadsPath name) false)) ↔ '\x00' ∉ name.toList := by
  have hfile := fileName_of_validate hname
  have hparts : safeRelativePath (uploadsPath name) = .ok ["Uploads", name] := safeRelativePath_upload hfile
  constructor
  · intro h
    exact (h _ hparts name (by simp)).noNul
  · intro hnul parts hother part hpart
    obtain rfl := Except.ok.inj (hparts.symm.trans hother)
    rw [List.mem_cons, List.mem_singleton] at hpart
    rcases hpart with rfl | rfl
    · exact ⟨⟨by decide, by decide, by decide, by decide⟩, by decide, by decide⟩
    · exact ⟨hfile, hnul, short_of_validate hname⟩

theorem named_commitStaged {P : Prop} {parts : List String} (hparts : safeRelativePath relative = .ok parts)
    (hready : Ready k t staged size sha)
    (hplace : ∀ w : World LinkedTree, w.ext = t →
      (Named k (placeStaged staged root relative sha size ts) (fun _ _ => True) w ↔ P)) (hw : w.ext = t) :
    Named k (commitStaged staged root relative sha size ts) (fun _ _ => True) w ↔ P := by
  unfold commitStaged
  rw [hparts]
  apply named_notRegular hw hready
  intro w₁ hw₁
  rw [named_raiseIf, forall_prop_of_true rfl]
  have hsize : answer k t (.fileSize staged) = (.ok size, t) := by rw [answer, hready.size]
  have hdigest : answer k t (.sha256File staged) = (.ok sha, t) := by rw [answer, hready.sha256]
  apply named_call (.fileSize staged) hw₁ hsize trivial (fun _ => trivial) ?_ (fun e he => by cases he)
  intro found w₂ hfound hw₂
  obtain rfl : size = found := Except.ok.inj hfound
  rw [named_raiseIf, forall_prop_of_true (by simp)]
  apply named_call (.sha256File staged) hw₂ hdigest trivial (fun _ => trivial) ?_ (fun e he => by cases he)
  intro digest w₃ hd hw₃
  obtain rfl : sha = digest := Except.ok.inj hd
  rw [named_raiseIf, forall_prop_of_true (by simp)]
  exact hplace w₃ hw₃

theorem committable_iff (hname : validateUploadName raw = .ok name) (hsha : validSha256 sha = true)
    (hready : Ready k t staged size sha) :
    Committable k t root staged name size sha ts ↔ Fits k t root name size sha := by
  have hparts : safeRelativePath (uploadsPath name) = .ok ["Uploads", name] :=
    safeRelativePath_upload (fileName_of_validate hname)
  have hplace : ∀ w : World LinkedTree, w.ext = t →
      (Named k (placeStaged staged root (uploadsPath name) sha size ts) (fun _ _ => True) w ↔
        Fits k t root name size sha) := by
    intro w hw
    constructor
    · intro h
      have hresolve : NamesWritable (.ext (.resolveBeneath root (uploadsPath name) false)) := h.1
      have hall := (named_placeStaged hw hsha hresolve).1 h
      exact ⟨(namesWritable_uploads hname).1 hresolve, fun t₁ final hd => (hall t₁ final hd).1,
        fun t₁ final hd => (hall t₁ final hd).2⟩
    · intro h
      apply (named_placeStaged hw hsha ((namesWritable_uploads hname).2 h.noNul)).2
      exact fun t₁ final hd => ⟨h.free t₁ final hd, h.taken t₁ final hd⟩
  have hcommit : ∀ w : World LinkedTree, w.ext = t →
      (Named k (commitStaged staged root (uploadsPath name) sha size ts) (fun _ _ => True) w ↔
        Fits k t root name size sha) := fun w hw => named_commitStaged hparts hready hplace hw
  constructor
  · intro h
    exact (hcommit ⟨{}, {}, [], [], t⟩ rfl).1 (h _ rfl)
  · intro h w hw
    exact (hcommit w hw).2 h

theorem resolveBeneath_direct {R rel p : Path} {n : Nat} (h : resolveBeneath k t root relative false = .ok p)
    (hrel : safeRelativePath relative = .ok rel) (hroot : Locates t [] root R n) (hdirect : Direct t (R ++ rel)) :
    p = R ++ rel := by
  obtain ⟨R', rel', resolved, hR, hrel', hresolved, -, -, rfl⟩ := resolveBeneath_spec h
  obtain ⟨-, -, m, hlocates⟩ := locates_of_resolve hR
  obtain ⟨rfl, -⟩ := hroot.unique hlocates
  obtain rfl := Except.ok.inj (hrel.symm.trans hrel')
  obtain ⟨rfl, -⟩ := resolve_eq hresolved hdirect.locates
  rfl

/-- Without links on the path, a name of at most 236 bytes fits. -/
theorem fits_of_short {R : Path} {n : Nat} (hname : validateUploadName raw = .ok name) (hnul : '\x00' ∉ name.toList)
    (hshort : name.utf8ByteSize + 19 ≤ 255) (hroot : Locates t [] root R n)
    (hdirect : Direct t (R ++ ["Uploads", name])) : Fits k t root name size sha := by
  have hfile := fileName_of_validate hname
  have hfinal : ∀ t₁ final, Destination k t root (uploadsPath name) t₁ final → final.getLastD "" = name := by
    rintro t₁ final ⟨⟨p, hp, hmade⟩, hfinal⟩
    have hparts : safeRelativePath (uploadsPath name) = .ok ["Uploads", name] := safeRelativePath_upload hfile
    have hpath : p = R ++ ["Uploads", name] := resolveBeneath_direct hp hparts hroot hdirect
    have hgrown := grown_mkdirParents t p.dropLast.reverse (by rw [List.reverse_reverse, hpath]; exact hdirect.dropLast)
    rw [hmade] at hgrown
    have hlast : final = R ++ ["Uploads", name] :=
      resolveBeneath_direct hfinal hparts (hroot.congr hgrown.link) (hdirect.congr hgrown.link)
    rw [hlast, List.getLastD_eq_getLast?]
    simp
  constructor
  · exact hnul
  · intro t₁ final hd _
    rw [hfinal t₁ final hd]
    exact ⟨hfile, hnul, short_of_validate hname⟩
  · intro t₁ final hd _
    rw [hfinal t₁ final hd]
    exact ⟨⟨hfile.slash, hnul⟩, hshort⟩

/-- An inbox with one empty file, and another file that was staged. -/
def inbox : LinkedTree :=
  let t : LinkedTree := (FileTree.empty.makeDirs ["active", "Uploads"]).makeDirs ["staging"]
  (t.write ["active", "Uploads"] "a.jpg" (.content [])).write ["staging"] "1.partial" (.content [65])

/-- A disk that knows one digest. -/
def oneDigest : Digest := String.ofList (List.replicate 64 'a')

def oneDigestDisk : LinkedDisk := { sha256 := fun _ => oneDigest, directorySize := fun _ => 0, depth := 900 }

theorem committable_iff_short :
    Committable oneDigestDisk inbox ["active"] ["staging", "1.partial"] "a.jpg" 1 oneDigest none := by
  have hname : validateUploadName "a.jpg" = .ok "a.jpg" := by decide
  have hroot : Direct inbox ["active"] := (Direct.nil _).concat (by decide) (by decide) (by decide +kernel)
  have hup : Direct inbox ["active", "Uploads"] := hroot.concat (by decide) (by decide) (by decide +kernel)
  have hdirect : Direct inbox ["active", "Uploads", "a.jpg"] :=
    hup.concat (by decide) (by decide) (by decide +kernel)
  have hfits : Fits oneDigestDisk inbox ["active"] "a.jpg" 1 oneDigest :=
    fits_of_short hname (by decide) (by decide) hroot.locates hdirect
  exact (committable_iff hname (by decide +kernel) ⟨by decide +kernel, by decide +kernel, by decide +kernel⟩).2 hfits

/-- A NUL in the middle of a name is accepted. -/
theorem nul_not_committable : ¬ ∀ (k : LinkedDisk) (t : LinkedTree) (root staged : Path) (raw name : String)
    (size : Nat) (sha : Digest) (ts : Option Time), validateUploadName raw = .ok name → validSha256 sha = true →
    Ready k t staged size sha → Committable k t root staged name size sha ts := by
  intro h
  have hname : validateUploadName "a\x00b" = .ok "a\x00b" := by decide +kernel
  have hsha : validSha256 oneDigest = true := by decide +kernel
  have hready : Ready oneDigestDisk inbox ["staging", "1.partial"] 1 oneDigest :=
    ⟨by decide +kernel, by decide +kernel, by decide +kernel⟩
  have hcommit : Committable oneDigestDisk inbox ["active"] ["staging", "1.partial"] "a\x00b" 1 oneDigest none :=
    h oneDigestDisk inbox ["active"] ["staging", "1.partial"] "a\x00b" "a\x00b" 1 oneDigest none hname hsha hready
  have hfits : Fits oneDigestDisk inbox ["active"] "a\x00b" 1 oneDigest :=
    (committable_iff hname hsha hready).1 hcommit
  exact absurd hfits.noNul (by decide +kernel)

end LinkedTree

end Mnema
