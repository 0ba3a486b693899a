import Mnema.Lib.FileTree

/-! Symbolic links in a tree of files, the place that a path leads to, and `posixpath.realpath`.
Texts of paths are lists of what stands between their slashes. -/

/-- What is kept under a name that is not a directory. -/
inductive LinkTree.Entry (α : Type) where
  | content (a : α)
  | link (target : List String)
deriving DecidableEq

abbrev LinkTree (α : Type) := FileTree String (LinkTree.Entry α)

namespace LinkTree

variable {α : Type}

def link (t : LinkTree α) (p : List String) : Option (List String) :=
  match t.node p with
  | some (.file (.link target)) => some target
  | _ => none

def absolute : List String → Bool
  | "" :: _ :: _ => true
  | _ => false

/-- The directory that a link in `cur` is read from. -/
def base (cur target : List String) : List String := if absolute target then [] else cur

/-- Nothing between two slashes, or a dot. -/
def stays (name : String) : Bool := name == "" || name == "."

/-- The parts of a text lead from `cur` to `loc`, over `n` links. What does not exist is no link. -/
inductive Locates (t : LinkTree α) : List String → List String → List String → Nat → Prop
  | here (cur : List String) : Locates t cur [] cur 0
  | stay {cur rest loc : List String} {name : String} {n : Nat} (hname : stays name = true)
      (hrest : Locates t cur rest loc n) : Locates t cur (name :: rest) loc n
  | up {cur rest loc : List String} {n : Nat} (hrest : Locates t cur.dropLast rest loc n) :
      Locates t cur (".." :: rest) loc n
  | down {cur rest loc : List String} {name : String} {n : Nat} (hname : stays name = false)
      (hup : name ≠ "..") (hlink : t.link (cur ++ [name]) = none)
      (hrest : Locates t (cur ++ [name]) rest loc n) : Locates t cur (name :: rest) loc n
  | follow {cur rest target mid loc : List String} {name : String} {n n' : Nat}
      (hname : stays name = false) (hup : name ≠ "..")
      (hlink : t.link (cur ++ [name]) = some target)
      (htarget : Locates t (base cur target) target mid n) (hrest : Locates t mid rest loc n') :
      Locates t cur (name :: rest) loc (n + n' + 1)

/-- A path without a link on it. -/
structure Direct (t : LinkTree α) (p : List String) : Prop where
  unlinked : ∀ q, q <+: p → t.link q = none
  proper : ∀ name ∈ p, stays name = false ∧ name ≠ ".."

/-! ### `posixpath.realpath` -/

/-- The links that were met: with what they led to, or `none` as long as that is open. -/
abbrev Seen := Store (List String) (Option (List String))

inductive Joined where
  | resolved (path : List String) (seen : Seen)
  /-- A link was met while it was being resolved: the text from there on is left as it is. -/
  | gaveUp (text : List String)

inductive ResolveError where
  | missing
  | loop
  | recursion
deriving DecidableEq

/-- `posixpath.join` of an absolute text and what remained of another. -/
def join (text rest : List String) : List String :=
  let rest := if rest = [] then [""] else rest
  if absolute rest then rest
  else if text.getLast? = some "" then text.dropLast ++ rest
  else text ++ rest

/-- `_joinrealpath`, from a path that has no link on it; `readlink` is its recursive call. -/
def joinParts (t : LinkTree α) (strict : Bool)
    (readlink : List String → List String → Seen → Except ResolveError Joined) :
    List String → List String → Seen → Except ResolveError Joined
  | path, [], seen => .ok (.resolved path seen)
  | path, name :: rest, seen =>
    if stays name then joinParts t strict readlink path rest seen
    else if name = ".." then joinParts t strict readlink path.dropLast rest seen
    else
      let newpath := path ++ [name]
      if strict && (t.node newpath).isNone then .error .missing
      else match t.link newpath with
        | none => joinParts t strict readlink newpath rest seen
        | some target =>
          match seen newpath with
          | some (some path) => joinParts t strict readlink path rest seen
          | some none => if strict then .error .loop else .ok (.gaveUp (join ("" :: newpath) rest))
          | none =>
            match readlink (base path target) target (seen.put newpath none) with
            | .error e => .error e
            | .ok (.gaveUp text) => .ok (.gaveUp (join text rest))
            | .ok (.resolved path seen) =>
              joinParts t strict readlink path rest (seen.put newpath (some path))

/-- `depth` calls may be nested. -/
def joinRealpath (t : LinkTree α) (strict : Bool) :
    Nat → List String → List String → Seen → Except ResolveError Joined
  | 0 => fun _ _ _ => .error .recursion
  | depth + 1 => joinParts t strict (joinRealpath t strict depth)

/-- An absolute path; two slashes at its front, and no more, are a root of their own. -/
structure Absolute where
  doubled : Bool
  names : List String
deriving DecidableEq

/-- `posixpath.normpath` of an absolute text. -/
def normpath (text : List String) : Absolute where
  doubled := match text with
    | "" :: "" :: "" :: _ :: _ => false
    | "" :: "" :: _ :: _ => true
    | _ => false
  names := text.foldl (fun names part =>
    if stays part then names else if part = ".." then names.dropLast else names ++ [part]) []

/-! ### The walk of the kernel -/

inductive WalkError where
  | missing
  | notDirectory
  | loop
deriving DecidableEq

/-- Only the last name may be missing; `follow` says whether a link is followed there. -/
def walkParts (t : LinkTree α) (follow : Bool)
    (jump : List String → List String → Except WalkError (List String)) :
    List String → List String → Except WalkError (List String)
  | cur, [] => .ok cur
  | cur, name :: rest =>
    if stays name then walkParts t follow jump cur rest
    else if name = ".." then walkParts t follow jump cur.dropLast rest
    else match t.node (cur ++ [name]) with
      | some .directory => walkParts t follow jump (cur ++ [name]) rest
      | none => if rest = [] then .ok (cur ++ [name]) else .error .missing
      | some (.file (.content _)) => if rest = [] then .ok (cur ++ [name]) else .error .notDirectory
      | some (.file (.link target)) =>
        if rest = [] && !follow then .ok (cur ++ [name]) else jump (base cur target) (target ++ rest)

def walk (t : LinkTree α) (follow : Bool) :
    Nat → List String → List String → Except WalkError (List String)
  | 0 => walkParts t follow fun _ _ => .error .loop
  | links + 1 => walkParts t follow (walk t follow links)

/-- Forty links are followed and no more. -/
def locate (t : LinkTree α) (follow : Bool) (p : List String) : Except WalkError (List String) :=
  walk t follow 40 [] p

variable {t t' : LinkTree α} {cur rest p loc loc' : List String} {name : String} {n n' : Nat}

/-! ### The place of a path -/

theorem not_stays_up : stays ".." = false := by decide

theorem Locates.unique (h : Locates t cur rest loc n) (h' : Locates t cur rest loc' n') :
    loc = loc' ∧ n = n' := by
  induction h generalizing loc' n' with
  | here cur =>
    cases h'
    exact ⟨rfl, rfl⟩
  | stay hname _ ih =>
    cases h' with
    | stay _ hrest => exact ih hrest
    | up _ => simp [not_stays_up] at hname
    | down hno _ _ _ => simp [hno] at hname
    | follow hno _ _ _ _ => simp [hno] at hname
  | up _ ih =>
    cases h' with
    | stay hname _ => simp [not_stays_up] at hname
    | up hrest => exact ih hrest
    | down _ hup _ _ => exact absurd rfl hup
    | follow _ hup _ _ _ => exact absurd rfl hup
  | down hname hup hlink _ ih =>
    cases h' with
    | stay hstay _ => simp [hname] at hstay
    | up _ => exact absurd rfl hup
    | down _ _ _ hrest => exact ih hrest
    | follow _ _ hsome _ _ => simp [hlink] at hsome
  | follow hname hup hlink _ _ ih ih' =>
    cases h' with
    | stay hstay _ => simp [hname] at hstay
    | up _ => exact absurd rfl hup
    | down _ _ hnone _ => simp [hlink] at hnone
    | follow _ _ hsome htarget hrest =>
      obtain rfl := Option.some.inj (hlink.symm.trans hsome)
      obtain ⟨rfl, rfl⟩ := ih htarget
      obtain ⟨rfl, rfl⟩ := ih' hrest
      exact ⟨rfl, rfl⟩

/-- The place depends on the links alone. -/
theorem Locates.congr (hlinks : ∀ p, t'.link p = t.link p) (h : Locates t cur rest loc n) :
    Locates t' cur rest loc n := by
  induction h with
  | here cur => exact .here cur
  | stay hname _ ih => exact .stay hname ih
  | up _ ih => exact .up ih
  | down hname hup hlink _ ih => exact .down hname hup ((hlinks _).trans hlink) ih
  | follow hname hup hlink _ _ ih ih' => exact .follow hname hup ((hlinks _).trans hlink) ih ih'

namespace Direct

theorem nil (t : LinkTree α) : Direct t [] := by
  refine ⟨fun q hq => ?_, fun name hname => absurd hname List.not_mem_nil⟩
  rw [List.prefix_nil.mp hq]
  simp [link, t.root]

theorem of_prefix {q : List String} (h : Direct t p) (hq : q <+: p) : Direct t q :=
  ⟨fun r hr => h.unlinked r (hr.trans hq), fun name hname => h.proper name (hq.subset hname)⟩

theorem dropLast (h : Direct t p) : Direct t p.dropLast := h.of_prefix (List.dropLast_prefix p)

theorem concat (h : Direct t p) (hname : stays name = false) (hup : name ≠ "..")
    (hlink : t.link (p ++ [name]) = none) : Direct t (p ++ [name]) := by
  constructor
  · intro q hq
    by_cases he : q = p ++ [name]
    · rw [he, hlink]
    · have hlt := List.IsPrefix.length_le hq
      have hne : q.length ≠ (p ++ [name]).length := fun hl => he (hq.eq_of_length hl)
      have hle : q.length ≤ p.length := by
        simp only [List.length_append, List.length_singleton] at hlt hne
        omega
      exact h.unlinked q (List.prefix_of_prefix_length_le hq (List.prefix_append p [name]) hle)
  · intro other hother
    rcases List.mem_append.mp hother with hp | hn
    · exact h.proper other hp
    · rw [List.mem_singleton.mp hn]
      exact ⟨hname, hup⟩

theorem congr (hlinks : ∀ p, t'.link p = t.link p) (h : Direct t p) : Direct t' p :=
  ⟨fun q hq => (hlinks q).trans (h.unlinked q hq), h.proper⟩

theorem locates_append (h : Direct t (p ++ rest)) : Locates t p rest (p ++ rest) 0 := by
  induction rest generalizing p with
  | nil =>
    rw [List.append_nil]
    exact .here p
  | cons name rest ih =>
    have happend : p ++ name :: rest = p ++ [name] ++ rest := by simp
    rw [happend] at h ⊢
    obtain ⟨hname, hup⟩ := h.proper name (by simp)
    exact .down hname hup (h.unlinked _ (List.prefix_append _ rest)) (ih h)

/-- A path without a link leads to itself. -/
theorem locates (h : Direct t p) : Locates t [] p p 0 :=
  locates_append (p := []) h

end Direct

/-! ### What `realpath` finds -/

/-- A path without a link that exists, in strict mode. -/
structure Reached (t : LinkTree α) (strict : Bool) (p : List String) : Prop where
  direct : Direct t p
  found : strict = true → (t.node p).isSome

/-- What is remembered of a link is where it leads. -/
def Truthful (t : LinkTree α) (strict : Bool) (seen : Seen) : Prop :=
  ∀ path name found, seen (path ++ [name]) = some (some found) → Reached t strict found ∧
    ∃ target n, t.link (path ++ [name]) = some target ∧ Locates t (base path target) target found n

/-- Every link that is open leads over `n` links at least. -/
def OpenAbove (t : LinkTree α) (seen : Seen) (n : Nat) : Prop :=
  ∀ path name, seen (path ++ [name]) = some none → ∀ target loc m,
    t.link (path ++ [name]) = some target → Locates t (base path target) target loc m → n ≤ m

/-- A result says where the path leads, or that it leads nowhere over links that are open. -/
def Sound (t : LinkTree α) (strict : Bool) (path rest : List String) (seen : Seen) :
    Except ResolveError Joined → Prop
  | .error _ => True
  | .ok (.resolved found seen') => Reached t strict found ∧ Truthful t strict seen' ∧
      (∀ p, seen' p = some none → seen p = some none) ∧ ∃ n, Locates t path rest found n
  | .ok (.gaveUp _) => ∀ loc n, Locates t path rest loc n → ¬OpenAbove t seen n

variable {strict : Bool} {seen seen' : Seen} {path path' rest' target found : List String}
  {r : Except ResolveError Joined}

theorem OpenAbove.mono (h : OpenAbove t seen n) (hle : n' ≤ n)
    (hopen : ∀ p, seen' p = some none → seen p = some none) : OpenAbove t seen' n' := by
  intro path name hnone target loc m hlink hloc
  exact hle.trans (h path name (hopen _ hnone) target loc m hlink hloc)

theorem Sound.lift (h : Sound t strict path rest seen r)
    (hopen : ∀ p, seen p = some none → seen' p = some none)
    (hto : ∀ loc n, Locates t path rest loc n → ∃ m, Locates t path' rest' loc m)
    (hfrom : ∀ loc n, Locates t path' rest' loc n → ∃ m ≤ n, Locates t path rest loc m) :
    Sound t strict path' rest' seen' r := by
  match r, h with
  | .error _, _ => trivial
  | .ok (.resolved found _), ⟨hdirect, htruthful, hkept, n, hloc⟩ =>
    exact ⟨hdirect, htruthful, fun p hp => hopen p (hkept p hp), hto found n hloc⟩
  | .ok (.gaveUp _), h =>
    intro loc n hloc habove
    obtain ⟨m, hle, hm⟩ := hfrom loc n hloc
    exact h loc m hm (habove.mono hle hopen)

theorem locates_follow_iff (hname : stays name = false) (hup : name ≠ "..")
    (hlink : t.link (cur ++ [name]) = some target) :
    Locates t cur (name :: rest) loc n ↔ ∃ mid n₁ n₂, n = n₁ + n₂ + 1 ∧
      Locates t (base cur target) target mid n₁ ∧ Locates t mid rest loc n₂ := by
  constructor
  · intro h
    cases h with
    | stay hstay _ => simp [hname] at hstay
    | up _ => exact absurd rfl hup
    | down _ _ hnone _ => simp [hlink] at hnone
    | follow _ _ hsome htarget hrest =>
      obtain rfl := Option.some.inj (hlink.symm.trans hsome)
      exact ⟨_, _, _, rfl, htarget, hrest⟩
  · rintro ⟨mid, n₁, n₂, rfl, htarget, hrest⟩
    exact .follow hname hup hlink htarget hrest

theorem locates_down_iff (hname : stays name = false) (hup : name ≠ "..")
    (hlink : t.link (cur ++ [name]) = none) :
    Locates t cur (name :: rest) loc n ↔ Locates t (cur ++ [name]) rest loc n := by
  constructor
  · intro h
    cases h with
    | stay hstay _ => simp [hname] at hstay
    | up _ => exact absurd rfl hup
    | down _ _ _ hrest => exact hrest
    | follow _ _ hsome _ _ => simp [hlink] at hsome
  · exact .down hname hup hlink

theorem locates_stay_iff (hname : stays name = true) :
    Locates t cur (name :: rest) loc n ↔ Locates t cur rest loc n := by
  constructor
  · intro h
    cases h with
    | stay _ hrest => exact hrest
    | up _ => simp [not_stays_up] at hname
    | down hno _ _ _ => simp [hname] at hno
    | follow hno _ _ _ _ => simp [hname] at hno
  · exact .stay hname

theorem locates_up_iff : Locates t cur (".." :: rest) loc n ↔ Locates t cur.dropLast rest loc n := by
  constructor
  · intro h
    cases h with
    | stay hname _ => simp [not_stays_up] at hname
    | up hrest => exact hrest
    | down _ hup _ _ => exact absurd rfl hup
    | follow _ hup _ _ _ => exact absurd rfl hup
  · exact .up

/-- What follows a link is read from where the link leads. -/
theorem Sound.followed (hname : stays name = false) (hup : name ≠ "..")
    (hlink : t.link (path ++ [name]) = some target)
    (hfound : Locates t (base path target) target found n)
    (h : Sound t strict found rest seen r) (hopen : ∀ p, seen p = some none → seen' p = some none) :
    Sound t strict path (name :: rest) seen' r := by
  apply h.lift hopen
  · intro loc m hloc
    exact ⟨_, .follow hname hup hlink hfound hloc⟩
  · intro loc m hloc
    obtain ⟨mid, n₁, n₂, hm, htarget, hrest⟩ := (locates_follow_iff hname hup hlink).mp hloc
    obtain ⟨rfl, -⟩ := htarget.unique hfound
    exact ⟨n₂, by omega, hrest⟩

namespace Reached

theorem nil (t : LinkTree α) (strict : Bool) : Reached t strict [] :=
  ⟨.nil t, fun _ => by simp [t.root]⟩

theorem dropLast (h : Reached t strict p) : Reached t strict p.dropLast := by
  refine ⟨h.direct.dropLast, fun hs => ?_⟩
  rcases List.eq_nil_or_concat p with rfl | ⟨q, name, rfl⟩
  · simp [t.root]
  · rw [List.concat_eq_append] at h ⊢
    rw [List.dropLast_concat, t.parent q name (h.found hs)]
    rfl

theorem base (h : Reached t strict path) (target : List String) :
    Reached t strict (LinkTree.base path target) := by
  unfold LinkTree.base
  split
  · exact .nil t strict
  · exact h

end Reached

/-- An open link that is met again leads nowhere. -/
theorem sound_loop (hname : stays name = false) (hup : name ≠ "..")
    (hlink : t.link (path ++ [name]) = some target) (hseen : seen (path ++ [name]) = some none)
    (text : List String) : Sound t strict path (name :: rest) seen (.ok (.gaveUp text)) := by
  intro loc n hloc habove
  obtain ⟨mid, n₁, n₂, hn, htarget, -⟩ := (locates_follow_iff hname hup hlink).mp hloc
  have hle := habove path name hseen target mid n₁ hlink htarget
  omega

/-- Where the text of a link is left, so is what contains the link. -/
theorem sound_gaveUp (hname : stays name = false) (hup : name ≠ "..")
    (hlink : t.link (path ++ [name]) = some target) {text : List String}
    (h : Sound t strict (base path target) target (seen.put (path ++ [name]) none) (.ok (.gaveUp text)))
    (text' : List String) : Sound t strict path (name :: rest) seen (.ok (.gaveUp text')) := by
  intro loc n hloc habove
  obtain ⟨mid, n₁, n₂, hn, htarget, -⟩ := (locates_follow_iff hname hup hlink).mp hloc
  apply h mid n₁ htarget
  intro path' name' hopen target' loc' m hlink' hloc'
  by_cases he : path' ++ [name'] = path ++ [name]
  · obtain ⟨rfl, hnames⟩ := List.append_inj' he rfl
    obtain rfl := List.singleton_inj.mp hnames
    obtain rfl := Option.some.inj (hlink.symm.trans hlink')
    exact (htarget.unique hloc').2.le
  · rw [Store.put_of_ne _ he] at hopen
    have hle := habove path' name' hopen target' loc' m hlink' hloc'
    omega

theorem Truthful.put_none (h : Truthful t strict seen) (p : List String) :
    Truthful t strict (seen.put p none) := by
  intro path name found hfound
  by_cases he : path ++ [name] = p
  · rw [he, Store.put_self] at hfound
    simp at hfound
  · rw [Store.put_of_ne _ he] at hfound
    exact h path name found hfound

theorem Truthful.put_some (h : Truthful t strict seen) (hreached : Reached t strict found)
    (hlink : t.link (path ++ [name]) = some target)
    (hfound : Locates t (base path target) target found n) :
    Truthful t strict (seen.put (path ++ [name]) (some found)) := by
  intro path' name' found' hfound'
  by_cases he : path' ++ [name'] = path ++ [name]
  · obtain ⟨rfl, hnames⟩ := List.append_inj' he rfl
    obtain rfl := List.singleton_inj.mp hnames
    rw [Store.put_self] at hfound'
    obtain rfl := Option.some.inj (Option.some.inj hfound')
    exact ⟨hreached, target, n, hlink, hfound⟩
  · rw [Store.put_of_ne _ he] at hfound'
    exact h path' name' found' hfound'

theorem sound_joinParts
    {readlink : List String → List String → Seen → Except ResolveError Joined}
    (hread : ∀ path rest seen, Reached t strict path → Truthful t strict seen →
      Sound t strict path rest seen (readlink path rest seen))
    (hpath : Reached t strict path) (hseen : Truthful t strict seen) :
    Sound t strict path rest seen (joinParts t strict readlink path rest seen) := by
  induction rest generalizing path seen with
  | nil => exact ⟨hpath, hseen, fun _ hp => hp, 0, .here path⟩
  | cons name rest ih =>
    rw [joinParts]
    by_cases hname : stays name = true
    · rw [if_pos hname]
      refine (ih hpath hseen).lift (fun _ hp => hp) (fun loc n h => ⟨n, .stay hname h⟩) ?_
      intro loc n h
      exact ⟨n, le_rfl, (locates_stay_iff hname).mp h⟩
    rw [if_neg hname]
    rw [Bool.not_eq_true] at hname
    by_cases hup : name = ".."
    · subst hup
      rw [if_pos rfl]
      refine (ih hpath.dropLast hseen).lift (fun _ hp => hp) (fun loc n h => ⟨n, .up h⟩) ?_
      intro loc n h
      exact ⟨n, le_rfl, locates_up_iff.mp h⟩
    rw [if_neg hup]
    by_cases hmissing : (strict && (t.node (path ++ [name])).isNone) = true
    · rw [if_pos hmissing]
      trivial
    rw [if_neg hmissing]
    cases hlink : t.link (path ++ [name]) with
    | none =>
      have hfound : strict = true → (t.node (path ++ [name])).isSome := by
        intro hs
        simpa [hs, Option.isSome_iff_ne_none] using hmissing
      refine (ih ⟨hpath.direct.concat hname hup hlink, hfound⟩ hseen).lift (fun _ hp => hp)
        (fun loc n h => ⟨n, .down hname hup hlink h⟩) ?_
      intro loc n h
      exact ⟨n, le_rfl, (locates_down_iff hname hup hlink).mp h⟩
    | some target =>
      simp only
      rcases hmet : seen (path ++ [name]) with _ | _ | found
      · have hsound := hread (base path target) target (seen.put (path ++ [name]) none)
          (hpath.base target) (hseen.put_none _)
        simp only
        rcases hresult : readlink (base path target) target (seen.put (path ++ [name]) none)
          with e | found | text
        · trivial
        · rename_i seen'
          rw [hresult] at hsound
          obtain ⟨hreached, htruthful, hkept, n, hfound⟩ := hsound
          refine (ih hreached (htruthful.put_some hreached hlink hfound)).followed hname hup hlink
            hfound fun p hp => ?_
          by_cases he : p = path ++ [name]
          · rw [he, Store.put_self] at hp
            simp at hp
          · rw [Store.put_of_ne _ he] at hp
            have hopen := hkept p hp
            rwa [Store.put_of_ne _ he] at hopen
        · rw [hresult] at hsound
          exact sound_gaveUp hname hup hlink hsound _
      · simp only
        split
        · trivial
        · exact sound_loop hname hup hlink hmet _
      · obtain ⟨hreached, target', n, hlink', hfound⟩ := hseen path name found hmet
        obtain rfl := Option.some.inj (hlink.symm.trans hlink')
        exact (ih hreached hseen).followed hname hup hlink hfound fun _ hp => hp

theorem sound_joinRealpath {depth : Nat} (hpath : Reached t strict path)
    (hseen : Truthful t strict seen) :
    Sound t strict path rest seen (joinRealpath t strict depth path rest seen) := by
  induction depth generalizing path rest seen with
  | zero => trivial
  | succ depth ih => exact sound_joinParts (fun _ _ _ hp hs => ih hp hs) hpath hseen

theorem joinParts_strict
    {readlink : List String → List String → Seen → Except ResolveError Joined}
    (hread : ∀ path rest seen text, readlink path rest seen ≠ .ok (.gaveUp text))
    (text : List String) : joinParts t true readlink path rest seen ≠ .ok (.gaveUp text) := by
  induction rest generalizing path seen with
  | nil => simp [joinParts]
  | cons name rest ih =>
    rw [joinParts]
    split
    · exact ih
    split
    · exact ih
    simp only [Bool.true_and, if_true]
    split
    · simp
    split
    · exact ih
    · rename_i target _
      split
      · exact ih
      · simp
      · split
        · simp
        · rename_i hresult
          exact absurd hresult (hread _ _ _ _)
        · exact ih

/-- In strict mode, nothing is left as it is. -/
theorem joinRealpath_strict {depth : Nat} (text : List String) :
    joinRealpath t true depth path rest seen ≠ .ok (.gaveUp text) := by
  induction depth generalizing path rest seen text with
  | zero => simp [joinRealpath]
  | succ depth ih => exact joinParts_strict (fun _ _ _ _ => ih _) text

/-! ### The walk on a path without a link -/

theorem link_eq_some_iff : t.link p = some target ↔ t.node p = some (.file (.link target)) := by
  unfold link
  split
  case h_1 h => simp [h]
  case h_2 h => exact ⟨fun he => by simp at he, fun hn => absurd hn (h target)⟩

theorem walkParts_eq {follow : Bool}
    {jump : List String → List String → Except WalkError (List String)}
    (hproper : ∀ name ∈ rest, stays name = false ∧ name ≠ "..")
    (hlinks : ∀ q, q <+: cur ++ rest → (q = cur ++ rest → follow = true) → t.link q = none)
    (hwalk : walkParts t follow jump cur rest = .ok loc) : loc = cur ++ rest := by
  induction rest generalizing cur with
  | nil =>
    rw [List.append_nil]
    exact (Except.ok.inj hwalk).symm
  | cons name rest ih =>
    have happend : cur ++ name :: rest = cur ++ [name] ++ rest := by simp
    obtain ⟨hname, hup⟩ := hproper name List.mem_cons_self
    rw [happend] at hlinks ⊢
    rw [walkParts, if_neg (by simp [hname]), if_neg hup] at hwalk
    have hlast : rest = [] → .ok (cur ++ [name]) = Except.ok (ε := WalkError) loc →
        loc = cur ++ [name] ++ rest := by
      intro hrest hok
      rw [hrest, List.append_nil]
      exact (Except.ok.inj hok).symm
    split at hwalk
    · exact ih (fun other hother => hproper other (List.mem_cons_of_mem _ hother)) hlinks hwalk
    · split at hwalk
      · exact hlast ‹_› hwalk
      · simp at hwalk
    · split at hwalk
      · exact hlast ‹_› hwalk
      · simp at hwalk
    · rename_i target hnode
      split at hwalk
      · rename_i hrest
        simp only [Bool.and_eq_true, decide_eq_true_eq] at hrest
        exact hlast hrest.1 hwalk
      · rename_i hfollow
        simp only [Bool.and_eq_true, decide_eq_true_eq, Bool.not_eq_true', not_and,
          Bool.not_eq_false] at hfollow
        have hlink := hlinks (cur ++ [name]) (List.prefix_append _ rest) fun he =>
          hfollow (List.self_eq_append_right.mp he)
        rw [link_eq_some_iff.mpr hnode] at hlink
        simp at hlink

theorem walkParts_of_exists {follow : Bool}
    {jump : List String → List String → Except WalkError (List String)}
    (hproper : ∀ name ∈ rest, stays name = false ∧ name ≠ "..")
    (hlast : follow = true → t.link (cur ++ rest) = none)
    (h : (t.node (cur ++ rest)).isSome) : walkParts t follow jump cur rest = .ok (cur ++ rest) := by
  induction rest generalizing cur with
  | nil => simp [walkParts]
  | cons name rest ih =>
    have happend : cur ++ name :: rest = cur ++ [name] ++ rest := by simp
    obtain ⟨hname, hup⟩ := hproper name List.mem_cons_self
    rw [happend] at h hlast ⊢
    rw [walkParts, if_neg (by simp [hname]), if_neg hup]
    by_cases hrest : rest = []
    · subst hrest
      rw [List.append_nil] at h hlast ⊢
      split
      · rfl
      · rw [if_pos rfl]
      · rw [if_pos rfl]
      · rename_i target hnode
        cases follow with
        | false => simp
        | true =>
          have hlink := hlast rfl
          rw [link_eq_some_iff.mpr hnode] at hlink
          simp at hlink
    · have hdir : t.node (cur ++ [name]) = some .directory :=
        t.directory_of_prefix (List.prefix_append _ rest) (by simp [hrest]) h
      rw [hdir]
      exact ih (fun other hother => hproper other (List.mem_cons_of_mem _ hother)) hlast h

theorem locate_eq {follow : Bool} (h : Direct t p) (hlocate : t.locate follow p = .ok loc) :
    loc = p := by
  have heq : loc = [] ++ p := walkParts_eq h.proper (fun q hq _ => h.unlinked q hq) hlocate
  exact heq

/-- A last name that is not followed may be a link. -/
theorem locate_last (h : Direct t p) (hname : stays name = false) (hup : name ≠ "..")
    (hlocate : t.locate false (p ++ [name]) = .ok loc) : loc = p ++ [name] := by
  have heq : loc = [] ++ (p ++ [name]) := by
    refine walkParts_eq (fun other hother => ?_) (fun q hq hne => ?_) hlocate
    · rcases List.mem_append.mp hother with hp | hn
      · exact h.proper other hp
      · rw [List.mem_singleton.mp hn]
        exact ⟨hname, hup⟩
    · rw [List.nil_append] at hq hne
      have hprefix := List.prefix_concat_iff.mp hq
      rcases hprefix with he | hp
      · exact absurd (hne he) (by simp)
      · exact h.unlinked q hp
  exact heq

theorem locate_of_exists {follow : Bool} (hproper : ∀ name ∈ p, stays name = false ∧ name ≠ "..")
    (hlast : follow = true → t.link p = none) (h : (t.node p).isSome) :
    t.locate follow p = .ok p := by
  have hlast' : follow = true → t.link ([] ++ p) = none := hlast
  exact walkParts_of_exists hproper hlast' h

end LinkTree
