import Mnema.Moves
import Mnema.Lib.Paging
import Mnema.Lib.PurePath
import Mathlib.Data.List.Sort
import Mathlib.Data.Char
import Mathlib.Data.String.Basic

/-! The source adapters over a directory tree, and what `discover` finds while the tree changes. -/

namespace Mnema

/-! ### Trees -/

/-- What `rglob` finds: a path below the root, and what `stat` says of it. -/
structure TreeEntry where
  path : List (List Char)
  isFile : Bool
  isSymlink : Bool
  inode : Nat
  size : Nat
  mtimeNs : Nat
  modifiedAt : Time
  proper : PurePath.Proper path
  below : path ≠ []

structure SourceTree where
  entries : List TreeEntry
  nodup : (entries.map (·.path)).Nodup

/-- `path.relative_to(root).as_posix()`. -/
def relativePosix (path : List (List Char)) : String := String.ofList (['/'].intercalate path)

theorem relativePosix_inj {p q : List (List Char)} (hp : PurePath.Proper p) (hq : PurePath.Proper q)
    (hp0 : p ≠ []) (hq0 : q ≠ []) (h : relativePosix p = relativePosix q) : p = q := by
  have hchars := String.ofList_injective h
  rw [← PurePath.parts_intercalate hp hp0, hchars, PurePath.parts_intercalate hq hq0]

theorem posixParts_ne_nil {parts : List (List Char)} (hp : PurePath.Proper parts) (h : parts ≠ []) :
    posixParts (relativePosix parts) ≠ [] := by
  have hnames : PurePath.parts (relativePosix parts).toList ≠ [] := by
    rw [relativePosix, String.toList_ofList, PurePath.parts_intercalate hp h]
    exact h
  have hmap : (PurePath.parts (relativePosix parts).toList).map String.ofList ≠ [] := by
    simpa using hnames
  unfold posixParts
  simp only
  split
  · exact List.cons_ne_nil _ _
  · exact List.cons_ne_nil _ _
  · exact List.cons_ne_nil _ _
  · exact hmap

/-! ### The adapters -/

/-- A source that lists files of a tree in pages: which it lists, and under which path. -/
structure FileSource where
  lists : TreeEntry → Bool
  label : String → String
  pageSize : Nat
  regular : ∀ entry, lists entry = true → entry.isFile = true ∧ entry.isSymlink = false
  named : ∀ entry : TreeEntry, posixParts (label (relativePosix entry.path)) ≠ []

/-- `path.is_file() and not path.is_symlink()`. -/
def isRegular (entry : TreeEntry) : Bool := entry.isFile && !entry.isSymlink

/-- `LocalFilesystemSourceAdapter`. -/
def localFilesystem (pageSize : Nat) : FileSource where
  lists := isRegular
  label relative := relative
  pageSize
  regular entry h := by simpa [isRegular] using h
  named entry := posixParts_ne_nil entry.proper entry.below

def incompleteSuffixes : List (List Char) :=
  [".icloud".toList, ".part".toList, ".partial".toList, ".tmp".toList]

/-- `path.suffix.lower()`: what follows the last dot of the name, unless it starts or ends the
name. -/
def suffixLower (path : List (List Char)) : List Char :=
  match (path.getLastD []).reverse.span (· != '.') with
  | (ext, '.' :: stem) =>
    if ext.isEmpty || stem.isEmpty then [] else ('.' :: ext.reverse).map Char.toLower
  | _ => []

def photosLabel (relative : String) : String := "iCloud Photos/" ++ relative

/-- `ICloudPhotosSourceAdapter`. -/
def icloudPhotos (pageSize : Nat) : FileSource where
  lists entry := isRegular entry && !entry.path.any (·.head? == some '.') &&
    !incompleteSuffixes.contains (suffixLower entry.path)
  label := photosLabel
  pageSize
  regular entry h := by
    simp only [Bool.and_eq_true, isRegular, Bool.not_eq_true'] at h
    exact h.1.1
  named entry := by
    have hproper : PurePath.Proper ("iCloud Photos".toList :: entry.path) := by
      intro part hpart
      rcases List.mem_cons.mp hpart with rfl | hpart
      · decide
      · exact entry.proper part hpart
    have hlabel : photosLabel (relativePosix entry.path) =
        relativePosix ("iCloud Photos".toList :: entry.path) := by
      unfold photosLabel relativePosix
      rw [List.intercalate_cons_of_ne_nil entry.below, String.ofList_append, String.ofList_append]
      rfl
    rw [hlabel]
    exact posixParts_ne_nil hproper (List.cons_ne_nil _ _)

namespace FileSource

variable (source : FileSource)

/-- `_object`. -/
def object (entry : TreeEntry) : Except PyError SourceObject :=
  if entry.isSymlink || !entry.isFile then
    .error (.unsafePath "source object must be a regular non-symlink file")
  else
    .ok
      { sourceId := relativePosix entry.path
        relativePath := source.label (relativePosix entry.path)
        size := entry.size
        modifiedAt := entry.modifiedAt
        version := toString entry.inode ++ ":" ++ toString entry.size ++ ":" ++ toString entry.mtimeNs }

/-- The files that the source lists, sorted. -/
def files (tree : SourceTree) : List TreeEntry :=
  (tree.entries.filter source.lists).insertionSort fun e e' => e.path ≤ e'.path

/-- `int(cursor or "0")`, for cursors without signs, spaces and underscores. -/
def startOf (cursor : Option String) : Except PyError Nat :=
  let text := cursor.getD ""
  let digits := if text = "" then ['0'] else text.toList
  if digits.all Char.isDigit then .ok (Nat.ofDigitChars 10 digits 0)
  else .error (.value ("invalid literal for int() with base 10: '" ++ text ++ "'"))

def discover (tree : SourceTree) (cursor : Option String) : Except PyError DiscoveryPage := do
  let files := source.files tree
  let start ← startOf cursor
  let page := (files.drop start).take source.pageSize
  let objects ← page.mapM source.object
  let nextIndex := start + page.length
  pure { objects, nextCursor := if nextIndex < files.length then some (toString nextIndex) else none }

/-- The paths that the source lists, in order. -/
def paths (tree : SourceTree) : List (List (List Char)) := (source.files tree).map (·.path)

variable {source} {tree : SourceTree} {entry : TreeEntry}

theorem mem_files : entry ∈ source.files tree ↔ entry ∈ tree.entries ∧ source.lists entry = true := by
  unfold files
  rw [List.mem_insertionSort, List.mem_filter]

theorem nodup_paths : (source.paths tree).Nodup := by
  have hperm := List.perm_insertionSort (fun e e' : TreeEntry => e.path ≤ e'.path)
    (tree.entries.filter source.lists)
  have hentries := (List.pairwise_map.mp tree.nodup).filter source.lists
  have hfiles := (hperm.pairwise_iff fun hne => hne.symm).mpr hentries
  exact List.pairwise_map.mpr hfiles

theorem sorted_paths : (source.paths tree).Pairwise (· < ·) := by
  have hle : (source.paths tree).Pairwise (· ≤ ·) := by
    unfold paths files
    rw [List.pairwise_map]
    exact List.pairwise_insertionSort (fun e e' : TreeEntry => e.path ≤ e'.path) _
  exact (hle.and nodup_paths).imp fun h => lt_of_le_of_ne h.1 h.2

theorem entry_eq_of_path {entry' : TreeEntry} (h : entry ∈ tree.entries) (h' : entry' ∈ tree.entries)
    (hpath : entry.path = entry'.path) : entry = entry' :=
  List.inj_on_of_nodup_map tree.nodup h h' hpath

theorem mem_paths (h : entry ∈ tree.entries) :
    entry.path ∈ source.paths tree ↔ source.lists entry = true := by
  unfold paths
  rw [List.mem_map]
  constructor
  · rintro ⟨entry', hfile, hpath⟩
    obtain ⟨hmem, hlists⟩ := mem_files.mp hfile
    rw [← entry_eq_of_path hmem h hpath]
    exact hlists
  · intro hlists
    exact ⟨entry, mem_files.mpr ⟨h, hlists⟩, rfl⟩

theorem startOf_toString (n : Nat) : startOf (some (toString n)) = .ok n := by
  have hlist : (toString n).toList = Nat.toDigits 10 n := Nat.toList_repr
  have hne : toString n ≠ "" := by
    intro hempty
    rw [hempty] at hlist
    exact Nat.toDigits_ne_nil hlist.symm
  have hdigits : (Nat.toDigits 10 n).all Char.isDigit = true :=
    List.all_eq_true.mpr fun c hc => Nat.isDigit_of_mem_toDigits (by decide) (by decide) hc
  unfold startOf
  simp only [Option.getD_some, if_neg hne, hlist, hdigits, if_true]
  rw [Nat.ofDigitChars_toDigits (by decide) (by decide)]

/-- The object that a listed file becomes. -/
def objectOf (source : FileSource) (entry : TreeEntry) : SourceObject :=
  { sourceId := relativePosix entry.path
    relativePath := source.label (relativePosix entry.path)
    size := entry.size
    modifiedAt := entry.modifiedAt
    version := toString entry.inode ++ ":" ++ toString entry.size ++ ":" ++ toString entry.mtimeNs }

theorem object_eq (h : source.lists entry = true) : source.object entry = .ok (source.objectOf entry) := by
  obtain ⟨hfile, hlink⟩ := source.regular entry h
  unfold object
  rw [hfile, hlink]
  rfl

theorem mapM_object {entries : List TreeEntry} (h : ∀ e ∈ entries, source.lists e = true) :
    entries.mapM source.object = Except.ok (entries.map source.objectOf) := by
  induction entries with
  | nil => rfl
  | cons e rest ih =>
    rw [List.mapM_cons, object_eq (h e List.mem_cons_self),
      ih fun e' he' => h e' (List.mem_cons_of_mem _ he')]
    rfl

/-- A page of `discover`, from the index that its cursor stands for. -/
theorem discover_eq {cursor : Option String} {start : Nat} (hcursor : startOf cursor = .ok start) :
    source.discover tree cursor = .ok
      { objects := (((source.files tree).drop start).take source.pageSize).map source.objectOf
        nextCursor := if start + source.pageSize < (source.paths tree).length then
          some (toString (start + source.pageSize)) else none } := by
  have hlists : ∀ e ∈ ((source.files tree).drop start).take source.pageSize, source.lists e = true :=
    fun e he => (mem_files.mp (List.mem_of_mem_drop (List.mem_of_mem_take he))).2
  have hlength : (source.paths tree).length = (source.files tree).length := List.length_map ..
  unfold discover
  rw [hcursor]
  show (do
    let objects ← (((source.files tree).drop start).take source.pageSize).mapM source.object
    pure _) = _
  rw [mapM_object hlists, hlength]
  show Except.ok _ = _
  by_cases hmore : start + source.pageSize < (source.files tree).length
  · have hfull : (((source.files tree).drop start).take source.pageSize).length = source.pageSize := by
      rw [List.length_take, List.length_drop]
      omega
    rw [if_pos hmore, hfull, if_pos hmore]
  · have hrest : ¬ start + (((source.files tree).drop start).take source.pageSize).length <
        (source.files tree).length := by
      rw [List.length_take, List.length_drop]
      omega
    rw [if_neg hmore, if_neg hrest]

end FileSource

/-! ### A scan of a tree that changes -/

/-- The tree, and the trees that pages were taken from so far. -/
structure Scan where
  tree : SourceTree
  fetched : List SourceTree

/-- Between two pages the tree may become any other tree. -/
def scanned (source : FileSource) : ExtEnv Scan := fun s o answer s' =>
  match o with
  | .sourceDiscover _ cursor =>
    answer = source.discover s.tree cursor ∧ s'.fetched = s.fetched ++ [s.tree]
  | _ => s' = s

def sourceIdentity (item : ArchiveItem) : String × String := (item.sourceProvider, item.sourceIdentifier)

/-- No two items have one provider and source identifier. -/
def Db.OneItemEach (d : Db) : Prop := (d.items.rows.map sourceIdentity).Nodup

variable {source : FileSource} {w w' : World Scan}

/-- What a step of `discover` leaves of a world: the scan, and one item for each source object. -/
structure World.SameScan (w w' : World Scan) : Prop where
  ext : w'.ext = w.ext
  one : w.txn.OneItemEach → w'.txn.OneItemEach

theorem World.SameScan.refl (w : World Scan) : w.SameScan w := ⟨rfl, id⟩

theorem World.SameScan.trans {w₁ w₂ w₃ : World Scan} (h : w₁.SameScan w₂) (h' : w₂.SameScan w₃) :
    w₁.SameScan w₃ :=
  ⟨h'.ext.trans h.ext, fun hone => h'.one (h.one hone)⟩

theorem map_put_of_same {row old : ArchiveItem} {t : Table ArchiveItem Nat ArchiveItem.id}
    (hget : t.get row.id = some old) (hsame : sourceIdentity row = sourceIdentity old) :
    (t.put row).rows.map sourceIdentity = t.rows.map sourceIdentity := by
  show (t.rows.map fun r => if r.id = row.id then row else r).map sourceIdentity = _
  rw [List.map_map]
  apply List.map_congr_left
  intro r hr
  show sourceIdentity (if r.id = row.id then row else r) = sourceIdentity r
  by_cases hid : r.id = row.id
  · have hfound := t.get_of_mem hr
    rw [hid, hget] at hfound
    rw [if_pos hid, hsame, Option.some.inj hfound]
  · rw [if_neg hid]

theorem sameScan_flush {row old : ArchiveItem} {event : AuditEvent}
    (hget : w.txn.items.get row.id = some old) (hsame : sourceIdentity row = sourceIdentity old) :
    w.SameScan (w.flush row event) where
  ext := rfl
  one hone := by
    unfold Db.OneItemEach at hone ⊢
    rw [World.items_flush, map_put_of_same hget hsame]
    exact hone

theorem sameScan_write {row old : ArchiveItem} (hget : w.txn.items.get row.id = some old)
    (hsame : sourceIdentity row = sourceIdentity old) : w.SameScan (w.write row) where
  ext := rfl
  one hone := by
    unfold Db.OneItemEach at hone ⊢
    rw [World.items_write, map_put_of_same hget hsame]
    exact hone

theorem sameScan_answered {o : ExtOp} {a : Except PyError o.Res} : w.SameScan (w.answered o a w.ext) :=
  ⟨rfl, id⟩

theorem sameScan_addItem {row : ArchiveItem} (hfree : w.txn.sourceTaken row = false) :
    w.SameScan (w.addItem row) where
  ext := rfl
  one hone := by
    have hfresh : w.txn.newItemId ∉ w.txn.items.rows.map (·.id) := World.newItemId_not_mem w.txn
    have hrows : (w.addItem row).txn.items.rows =
        w.txn.items.rows ++ [{ row with id := w.txn.newItemId }] := by
      rw [World.items_addItem, Table.insert, dif_neg hfresh]
    unfold Db.OneItemEach at hone ⊢
    rw [hrows, List.map_append, List.nodup_append]
    refine ⟨hone, List.nodup_singleton _, ?_⟩
    intro a ha b hb heq
    obtain ⟨r, hr, rfl⟩ := List.mem_map.mp ha
    obtain rfl := List.mem_singleton.mp hb
    have hdiffer := List.any_eq_false.mp hfree r hr
    obtain ⟨hprovider, hidentifier⟩ := Prod.mk.inj heq
    simp [hprovider, hidentifier] at hdiffer

/-- A program that finds an item for the object and raises nothing. -/
def Finds (source : FileSource) (object : SourceObject) (p : Flow ArchiveItem) (w : World Scan) : Prop :=
  p.wp (fun _ _ => True) (World.env (scanned source))
    (fun item w' => item.sourceIdentifier = object.sourceId ∧ w.SameScan w') (fun _ _ => False) w

variable (wf : ArchiveWorkflow) {object : SourceObject} {item : ArchiveItem}

theorem judge_finds (hpath : posixParts object.relativePath ≠ [])
    (hget : w.txn.items.get item.id = some item)
    (hstate : item.state = .discovered ∨ item.state = .ineligible)
    (hsource : item.sourceIdentifier = object.sourceId) : Finds source object (wf.judge item object) w := by
  have hvalid : ∀ target, target = .eligible ∨ target = .ineligible →
      validTransition item.state target = true := by
    rintro target (rfl | rfl) <;> rcases hstate with hs | hs <;> rw [hs] <;> decide
  have hparts : (posixParts object.relativePath).isEmpty = false := List.isEmpty_eq_false_iff.mpr hpath
  unfold Finds ArchiveWorkflow.judge
  rw [Prog.wp_bind, wp_ext]
  refine ⟨trivial, ?_, ?_⟩
  · intro decision x hx _
    obtain rfl : x = w.ext := hx
    rw [wp_transitionItem]
    constructor
    · intro _
      exact ⟨trivial, hsource, sameScan_answered.trans (sameScan_flush hget rfl)⟩
    · intro hinvalid
      rw [hvalid _ (by split <;> simp)] at hinvalid
      cases hinvalid
  · rintro e x - ⟨now, hpolicy⟩
    simp [evaluatePolicy, hparts] at hpolicy

theorem validTransition_sourceChanged (state : ArchiveState) : validTransition state .sourceChanged = true := by
  cases state <;> decide

theorem discoverObject_finds (hpath : posixParts object.relativePath ≠ []) :
    Finds source object (wf.discoverObject object) w := by
  unfold Finds ArchiveWorkflow.discoverObject
  rw [Prog.wp_bind, wp_db_ok rfl]
  refine ⟨trivial, ?_⟩
  split
  case h_1 hnone =>
    have hfree : w.txn.sourceTaken (wf.newItem object) = false := by
      unfold Db.sourceTaken
      rw [List.any_eq_false]
      intro r hr
      exact List.find?_eq_none.mp hnone r hr
    have hstep : w.dbStep (.addItem (wf.newItem object)) =
        (.ok { wf.newItem object with id := w.txn.newItemId }, w.addItem (wf.newItem object)) := by
      simp [World.dbStep, hfree]
    rw [Prog.wp_bind, wp_db_ok hstep]
    refine ⟨trivial, ?_⟩
    have hget : (w.addItem (wf.newItem object)).txn.items.get w.txn.newItemId =
        some { wf.newItem object with id := w.txn.newItemId } :=
      Table.get_insert_self (World.get_newItemId w.txn)
    have hjudge : Finds source object (wf.judge { wf.newItem object with id := w.txn.newItemId } object)
        (w.addItem (wf.newItem object)) := judge_finds wf hpath hget (.inl rfl) rfl
    exact hjudge.post fun item w' hw => ⟨hw.1, (sameScan_addItem hfree).trans hw.2⟩
  case h_2 found hfound =>
    have hget : w.txn.items.get found.id = some found := Table.get_of_first hfound
    have hid : found.sourceIdentifier = object.sourceId := by
      have hh := Table.pred_of_first hfound
      simp only [Bool.and_eq_true, beq_iff_eq] at hh
      exact hh.2
    split
    case isTrue =>
      rw [Prog.wp_bind, wp_transitionItem]
      constructor
      · intro _
        refine ⟨trivial, ?_⟩
        rw [Prog.wp_bind, wp_save]
        have hput : (w.txn.items.put { found with state := .sourceChanged }).get found.id =
            some { found with state := .sourceChanged } :=
          Table.get_put_self (r := { found with state := .sourceChanged }) hget
        refine ⟨trivial, hid, ?_⟩
        have hrow : w.txn.items.get ({ found with state := .sourceChanged } : ArchiveItem).id =
            some found := hget
        exact (sameScan_flush hrow rfl).trans (sameScan_write hput rfl)
      · intro hinvalid
        rw [validTransition_sourceChanged] at hinvalid
        cases hinvalid
    case isFalse =>
      split
      case isTrue hstate => exact judge_finds wf hpath hget (.inr hstate) hid
      case isFalse => exact ⟨hid, .refl w⟩

theorem discoverObjects_finds {objects : List SourceObject}
    (hpaths : ∀ o ∈ objects, posixParts o.relativePath ≠ []) :
    (wf.discoverObjects objects).wp (fun _ _ => True) (World.env (scanned source))
      (fun found w' => found.map (·.sourceIdentifier) = objects.map (·.sourceId) ∧ w.SameScan w')
      (fun _ _ => False) w := by
  induction objects generalizing w with
  | nil => exact ⟨rfl, .refl w⟩
  | cons object rest ih =>
    unfold ArchiveWorkflow.discoverObjects
    rw [Prog.wp_bind]
    apply (discoverObject_finds wf (hpaths object List.mem_cons_self)).post
    rintro item w₁ ⟨hitem, hsame⟩
    rw [Prog.wp_bind]
    apply (ih fun o ho => hpaths o (List.mem_cons_of_mem _ ho)).post
    rintro found w₂ ⟨hfound, hrest⟩
    refine ⟨?_, hsame.trans hrest⟩
    rw [List.map_cons, hitem, hfound, List.map_cons]

/-- The scan has gone through the trees and found what its pages held. -/
structure Scanned (source : FileSource) (w : World Scan) (start : Nat) (found : List ArchiveItem)
    (w' : World Scan) (trees : List SourceTree) : Prop where
  fetched : w'.ext.fetched = w.ext.fetched ++ trees
  enumerates : Paging.Enumerates source.pageSize start (trees.map source.paths)
  found : found.map (·.sourceIdentifier) =
    (Paging.returned source.pageSize start (trees.map source.paths)).map relativePosix
  one : w.txn.OneItemEach → w'.txn.OneItemEach

/-- The scan was stopped with files left to list in every tree that it took a page from. -/
structure Stopped (source : FileSource) (w : World Scan) (start fuel : Nat) (e : PyError)
    (w' : World Scan) (trees : List SourceTree) : Prop where
  error : e = .exit "stopped"
  fetched : w'.ext.fetched = w.ext.fetched ++ trees
  pages : trees.length = fuel
  more : ∀ i tree, trees[i]? = some tree →
    start + (i + 1) * source.pageSize < (source.paths tree).length

theorem objects_of_page (source : FileSource) (tree : SourceTree) (start : Nat) :
    ((((source.files tree).drop start).take source.pageSize).map source.objectOf).map (·.sourceId) =
      (Paging.page start source.pageSize (source.paths tree)).map relativePosix := by
  unfold Paging.page FileSource.paths
  rw [← List.map_drop, ← List.map_take, List.map_map, List.map_map]
  rfl

theorem discoverPages_scans (fuel : Nat) {cursor : Option String} {start : Nat}
    (hcursor : FileSource.startOf cursor = .ok start) :
    (wf.discoverPages fuel cursor).wp (fun _ _ => True) (World.env (scanned source))
      (fun found w' => ∃ trees, Scanned source w start found w' trees)
      (fun e w' => ∃ trees, Stopped source w start fuel e w' trees) w := by
  induction fuel generalizing cursor start w with
  | zero => exact ⟨[], rfl, (List.append_nil _).symm, rfl, nofun⟩
  | succ n ih =>
    unfold ArchiveWorkflow.discoverPages
    rw [Prog.wp_bind, wp_ext]
    refine ⟨trivial, ?_, ?_⟩
    · rintro page x ⟨hpage, hfetched⟩ -
      rw [FileSource.discover_eq hcursor] at hpage
      obtain rfl := Except.ok.inj hpage
      rw [Prog.wp_bind]
      have hnamed : ∀ o ∈ (((source.files w.ext.tree).drop start).take source.pageSize).map source.objectOf,
          posixParts o.relativePath ≠ [] := by
        intro o ho
        obtain ⟨entry, -, rfl⟩ := List.mem_map.mp ho
        exact source.named entry
      refine (discoverObjects_finds wf hnamed).mono (fun _ _ h => h) ?_ fun _ _ h => h.elim
      rintro found w₁ ⟨hfound, hsame⟩
      rw [objects_of_page] at hfound
      have hfetched₁ : w₁.ext.fetched = w.ext.fetched ++ [w.ext.tree] := by
        rw [hsame.ext]
        exact hfetched
      by_cases hmore : start + source.pageSize < (source.paths w.ext.tree).length
      · simp only [if_pos hmore]
        rw [Prog.wp_bind]
        have hrest := ih (w := w₁) (FileSource.startOf_toString (start + source.pageSize))
        refine hrest.mono (fun _ _ h => h) ?_ ?_
        · rintro rest w₂ ⟨trees, hrest⟩
          refine ⟨w.ext.tree :: trees, ?_, ?_, ?_, ?_⟩
          · rw [hrest.fetched, hfetched₁, List.append_assoc, List.singleton_append]
          · cases trees with
            | nil => exact hrest.enumerates.elim
            | cons tree trees => exact ⟨hmore, hrest.enumerates⟩
          · rw [List.map_append, hfound, hrest.found, ← List.map_append]
            rfl
          · exact fun hone => hrest.one (hsame.one hone)
        · rintro e w₂ ⟨trees, hstop⟩
          refine ⟨w.ext.tree :: trees, hstop.error, ?_, ?_, ?_⟩
          · rw [hstop.fetched, hfetched₁, List.append_assoc, List.singleton_append]
          · rw [List.length_cons, hstop.pages]
          · intro i tree hi
            cases i with
            | zero =>
              obtain rfl := Option.some.inj hi
              rw [Nat.zero_add, Nat.one_mul]
              exact hmore
            | succ i =>
              have hlt := hstop.more i tree hi
              rw [Nat.succ_mul]
              omega
      · simp only [if_neg hmore]
        refine ⟨[w.ext.tree], hfetched₁, Nat.not_lt.mp hmore, ?_, hsame.one⟩
        rw [hfound]
        exact congrArg (List.map relativePosix) (List.append_nil _).symm
    · rintro e x ⟨hpage, -⟩ -
      rw [FileSource.discover_eq hcursor] at hpage
      cases hpage

/-! ### What a scan finds -/

theorem path_eq_of_mem_returned {trees : List SourceTree} {start : Nat} {path : List (List Char)}
    (h : path ∈ Paging.returned source.pageSize start (trees.map source.paths)) :
    ∃ tree ∈ trees, ∃ entry ∈ tree.entries, source.lists entry = true ∧ entry.path = path := by
  obtain ⟨paths, hpaths, hmem⟩ := Paging.mem_of_mem_returned h
  obtain ⟨tree, htree, rfl⟩ := List.mem_map.mp hpaths
  obtain ⟨entry, hfile, hpath⟩ := List.mem_map.mp hmem
  obtain ⟨hentry, hlists⟩ := FileSource.mem_files.mp hfile
  exact ⟨tree, htree, entry, hentry, hlists, hpath⟩

/-- A file is found as often as its path is returned. -/
theorem Scanned.countP {start : Nat} {found : List ArchiveItem} {trees : List SourceTree}
    (h : Scanned source w start found w' trees) (entry : TreeEntry) :
    found.countP (·.sourceIdentifier == relativePosix entry.path) =
      (Paging.returned source.pageSize start (trees.map source.paths)).count entry.path := by
  have hmap : found.countP (·.sourceIdentifier == relativePosix entry.path) =
      (found.map (·.sourceIdentifier)).countP (· == relativePosix entry.path) := by
    rw [List.countP_map]
    rfl
  rw [hmap, h.found, List.countP_map, List.count]
  apply List.countP_congr
  intro path hpath
  obtain ⟨tree, -, listed, -, -, rfl⟩ := path_eq_of_mem_returned hpath
  simp only [Function.comp_apply, beq_iff_eq]
  constructor
  · exact relativePosix_inj listed.proper entry.proper listed.below entry.below
  · exact congrArg relativePosix

theorem Scanned.sorted {trees : List SourceTree} {entry : TreeEntry} (hall : ∀ t ∈ trees, entry ∈ t.entries)
    (hlists : source.lists entry = true) :
    ∀ paths ∈ trees.map source.paths, paths.Pairwise (· < ·) ∧ entry.path ∈ paths := by
  intro paths hpaths
  obtain ⟨tree, htree, rfl⟩ := List.mem_map.mp hpaths
  exact ⟨FileSource.sorted_paths, (FileSource.mem_paths (hall tree htree)).mpr hlists⟩

theorem Scanned.finds_iff {found : List ArchiveItem} {trees : List SourceTree} {entry : TreeEntry}
    (h : Scanned source w 0 found w' trees) (hall : ∀ t ∈ trees, entry ∈ t.entries) :
    (∃ item ∈ found, item.sourceIdentifier = relativePosix entry.path) ↔
      source.lists entry = true ∧
        Paging.skips source.pageSize entry.path 0 (trees.map source.paths) ≤
          Paging.revisits source.pageSize entry.path 0 (trees.map source.paths) := by
  have hcount : (∃ item ∈ found, item.sourceIdentifier = relativePosix entry.path) ↔
      entry.path ∈ Paging.returned source.pageSize 0 (trees.map source.paths) := by
    rw [← List.count_pos_iff, ← h.countP, List.countP_pos_iff]
    simp only [beq_iff_eq]
  rw [hcount]
  constructor
  · intro hmem
    obtain ⟨tree, htree, listed, hlisted, hlists, hpath⟩ := path_eq_of_mem_returned hmem
    obtain rfl := FileSource.entry_eq_of_path hlisted (hall tree htree) hpath
    exact ⟨hlists, (Paging.mem_returned_iff h.enumerates (Scanned.sorted hall hlists)).mp hmem⟩
  · rintro ⟨hlists, hle⟩
    exact (Paging.mem_returned_iff h.enumerates (Scanned.sorted hall hlists)).mpr hle

theorem Scanned.once_of_static {found : List ArchiveItem} {trees : List SourceTree} {tree : SourceTree}
    {entry : TreeEntry} (h : Scanned source w 0 found w' trees) (hstatic : ∀ t ∈ trees, t = tree)
    (hentry : entry ∈ tree.entries) (hlists : source.lists entry = true) :
    found.countP (·.sourceIdentifier == relativePosix entry.path) = 1 := by
  rw [h.countP]
  apply Paging.count_returned_of_static h.enumerates (l := source.paths tree)
  · intro paths hpaths
    obtain ⟨t, ht, rfl⟩ := List.mem_map.mp hpaths
    rw [hstatic t ht]
  · exact FileSource.sorted_paths
  · exact (FileSource.mem_paths hentry).mpr hlists

/-- Once the tree stays as it is, the scan cannot go on for more pages than it has. -/
theorem Stopped.bounded {fuel : Nat} {e : PyError} {trees : List SourceTree} {tree : SourceTree} {k : Nat}
    (h : Stopped source w 0 fuel e w' trees) (hstatic : ∀ i t, k ≤ i → trees[i]? = some t → t = tree) :
    fuel ≤ k ∨ fuel * source.pageSize < (source.paths tree).length := by
  by_cases hle : fuel ≤ k
  · exact .inl hle
  · right
    have hlast : fuel - 1 < trees.length := by
      have hpages := h.pages
      omega
    have hget := List.getElem?_eq_getElem hlast
    have hmore := h.more _ _ hget
    rw [hstatic _ _ (by omega) hget, Nat.zero_add, Nat.sub_add_cancel (by omega)] at hmore
    exact hmore

theorem discovery_complete (source : FileSource) (wf : ArchiveWorkflow) (fuel : Nat) (w : World Scan) :
    (∀ (found : List ArchiveItem) (w' : World Scan),
      Prog.Steps (World.env (scanned source)) (w, wf.discover fuel) (w', .ret found) →
      ∃ trees, w'.ext.fetched = w.ext.fetched ++ trees ∧ trees ≠ [] ∧
        (∀ entry, isRegular entry = true → (∀ t ∈ trees, entry ∈ t.entries) →
          ((∃ item ∈ found, item.sourceIdentifier = relativePosix entry.path) ↔
            source.lists entry = true ∧
              Paging.skips source.pageSize entry.path 0 (trees.map source.paths) ≤
                Paging.revisits source.pageSize entry.path 0 (trees.map source.paths))) ∧
        (∀ tree, (∀ t ∈ trees, t = tree) → ∀ entry ∈ tree.entries, source.lists entry = true →
          found.countP (·.sourceIdentifier == relativePosix entry.path) = 1) ∧
        (w.txn.OneItemEach → w'.txn.OneItemEach)) ∧
    ∀ (e : PyError) (w' : World Scan),
      Prog.Steps (World.env (scanned source)) (w, wf.discover fuel) (w', .raise e) →
      ∃ trees, w'.ext.fetched = w.ext.fetched ++ trees ∧ trees.length = fuel ∧ e = .exit "stopped" ∧
        ∀ tree k, (∀ i t, k ≤ i → trees[i]? = some t → t = tree) →
          fuel ≤ k ∨ fuel * source.pageSize < (source.paths tree).length := by
  have hscan : (wf.discover fuel).wp (fun _ _ => True) (World.env (scanned source))
      (fun found w' => ∃ trees, Scanned source w 0 found w' trees)
      (fun e w' => ∃ trees, Stopped source w 0 fuel e w' trees) w := discoverPages_scans wf fuel rfl
  constructor
  · intro found w' hsteps
    obtain ⟨trees, h⟩ := Prog.wp.steps (c := (w, wf.discover fuel)) (d := (w', .ret found)) hscan hsteps
    refine ⟨trees, h.fetched, ?_, fun entry _ hall => h.finds_iff hall, ?_, h.one⟩
    · rintro rfl
      exact h.enumerates
    · exact fun tree hstatic entry hentry hlists => h.once_of_static hstatic hentry hlists
  · intro e w' hsteps
    obtain ⟨trees, h⟩ := Prog.wp.steps (c := (w, wf.discover fuel)) (d := (w', .raise e)) hscan hsteps
    exact ⟨trees, h.fetched, h.pages, h.error, fun tree k hstatic => h.bounded hstatic⟩

/-! ### A file deleted between two pages -/

def smallFile (name : List Char) (proper : PurePath.Proper [name]) : TreeEntry :=
  { path := [name], isFile := true, isSymlink := false, inode := 1, size := 1, mtimeNs := 0
    modifiedAt := 0, proper, below := List.cons_ne_nil _ _ }

def fileA : TreeEntry := smallFile ['a'] (by unfold PurePath.Proper; decide)
def fileB : TreeEntry := smallFile ['b'] (by unfold PurePath.Proper; decide)

def treeAB : SourceTree := ⟨[fileA, fileB], by decide⟩
def treeB : SourceTree := ⟨[fileB], by decide⟩

def scanWorkflow : ArchiveWorkflow where
  activeRoot := ["active"]
  stagingRoot := ["staging"]
  policy := { archiveAfterDays := 0, stabilityWindowHours := 0, includedGlobs := [] }

/-- The first page is taken from one tree and the others from another. -/
def answersWith (source : FileSource) (after : SourceTree) (w : World Scan) : (o : Op) → o.Ans × World Scan
  | .db o => w.dbStep o
  | .ext (.sourceDiscover provider cursor) =>
    (source.discover w.ext.tree cursor,
      w.answered (.sourceDiscover provider cursor) (source.discover w.ext.tree cursor)
        { tree := after, fetched := w.ext.fetched ++ [w.ext.tree] })
  | .ext (.evaluatePolicy item policy) =>
    (evaluatePolicy item policy 0,
      w.answered (.evaluatePolicy item policy) (evaluatePolicy item policy 0) w.ext)
  | .ext o => (.error (.os ""), w.answered o (.error (.os "")) w.ext)

theorem answersWith_env (source : FileSource) (after : SourceTree) (w : World Scan) (o : Op) :
    World.env (scanned source) w o (answersWith source after w o).1 (answersWith source after w o).2 := by
  cases o with
  | db o => rfl
  | ext o =>
    cases o with
    | sourceDiscover provider cursor => exact ⟨_, ⟨rfl, rfl⟩, trivial, rfl⟩
    | evaluatePolicy item policy => exact ⟨_, rfl, ⟨0, rfl⟩, rfl⟩
    | _ => exact ⟨_, rfl, trivial, rfl⟩

def scanStart (tree : SourceTree) : World Scan :=
  { db := {}, txn := {}, pend := [], log := [], ext := { tree, fetched := [] } }

theorem deletion_hides_file :
    ¬ ∀ (source : FileSource) (wf : ArchiveWorkflow) (fuel : Nat) (w w' : World Scan)
      (found : List ArchiveItem) (trees : List SourceTree) (entry : TreeEntry),
      Prog.Steps (World.env (scanned source)) (w, wf.discover fuel) (w', .ret found) →
      w'.ext.fetched = w.ext.fetched ++ trees → isRegular entry = true →
      (∀ t ∈ trees, entry ∈ t.entries) →
      ∃ item ∈ found, item.sourceIdentifier = relativePosix entry.path := by
  intro h
  have hsteps := Prog.exec_steps (answersWith_env (localFilesystem 1) treeB) (scanWorkflow.discover 2)
    (scanStart treeAB)
  generalize hrun : (scanWorkflow.discover 2).exec (answersWith (localFilesystem 1) treeB)
    (scanStart treeAB) = run at hsteps
  have hfetched : run.2.ext.fetched = [treeAB, treeB] := by
    rw [← hrun]
    rfl
  have hfound : (match run.1 with
      | .ok found => found.map (·.sourceIdentifier)
      | .error _ => ["b"]) = ["a"] := by
    rw [← hrun]
    decide +kernel
  have hlisted : ∀ t ∈ [treeAB, treeB], fileB ∈ t.entries := by
    intro t ht
    rcases List.mem_cons.mp ht with rfl | ht
    · exact .tail _ (.head _)
    · obtain rfl := List.mem_singleton.mp ht
      exact .head _
  obtain ⟨e | found, w'⟩ := run
  · simp at hfound
  · obtain ⟨item, hitem, hid⟩ := h (localFilesystem 1) scanWorkflow 2 (scanStart treeAB) w' found
      [treeAB, treeB] fileB hsteps hfetched rfl hlisted
    have hmem : item.sourceIdentifier ∈ found.map (·.sourceIdentifier) := List.mem_map_of_mem hitem
    have hlist : found.map (·.sourceIdentifier) = ["a"] := hfound
    rw [hlist, hid] at hmem
    exact absurd hmem (by decide)

end Mnema
