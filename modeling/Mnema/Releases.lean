import Mnema.Appliance
import Mnema.Lib.PythonText
import Mnema.Lib.Store

/-! `update_from_archive` and `rollback`, and what they leave behind when one of their steps fails. -/

namespace Mnema.Releases

open Appliance Effect PyText

inductive Entry where
  | file (content : List UInt8)
  | link (target : String)
  | directory
deriving DecidableEq, Repr

/-- What lies beneath a directory, under the path from it. -/
abbrev Contents := List (String × Entry)

abbrev Image := String

structure Metadata where
  release : String
  previous : List String
  rollbackImage : String

/-- The trees beside the installed one, the images behind the tags of docker, the archives that
`backup` wrote, and what there is to read in `previous-release.json`. -/
structure Installation where
  trees : Store (List String) Contents
  tags : Store String Image
  archives : List String
  metadata : Option (Except PyError Metadata)
  active : Bool
  loaded : Option (Except PyError Unit)

/-- A release archive, what it unpacks to and the image that docker builds from that. -/
structure Archive where
  isFile : Bool
  isAbsolute : Bool
  sha256 : String
  contents : Except PyError Contents
  image : Image

instance : HasService Installation where
  running s := s.active
  withRunning s active := { s with active := active }
  config s := s.loaded

/-! ### The commands -/

def installRoot : List String := ["opt", "mnema"]

/-- `install_root.with_name(name)`. -/
def withName (name : String) : List String := installRoot.dropLast ++ [name]

def currentTag : String := "mnema:0.1.0"

def rollbackTag (release : String) : String := "mnema:rollback-" ++ release

def releaseTag (release : String) : String := "mnema:release-" ++ release

def previousTree (release : String) : List String := withName ("mnema.previous-" ++ release)

def failedTree (release : String) : List String := withName ("mnema.failed-" ++ release)

def rolledBackTree (release : String) : List String := withName ("mnema.rolled-back-" ++ release)

def preUpdateArchive (release : String) : String := "mnema-config-pre-" ++ release ++ ".tar.gz"

namespace Installation

/-- There is something at the path that no directory can take the place of. -/
def occupied (s : Installation) (path : List String) : Bool := (s.trees path).any fun tree => !tree.isEmpty

def moved (s : Installation) (source target : List String) (tree : Contents) : Installation :=
  { s with trees := (s.trees.erase source).put target tree }

/-- `os.replace` of a directory. -/
def replace (source target : List String) (s : Installation) : Except PyError Installation :=
  match s.trees source with
  | none => .error (.fileNotFound "")
  | some tree =>
    if s.occupied target then .error (.os "Directory not empty")
    else .ok (s.moved source target tree)

def placed (s : Installation) (tree : Contents) (target : List String) : Installation :=
  { s with trees := s.trees.put target tree }

/-- `os.replace` of the temporary directory. -/
def place (tree : Contents) (target : List String) (s : Installation) : Except PyError Installation :=
  if s.occupied target then .error (.os "Directory not empty") else .ok (s.placed tree target)

def withTag (s : Installation) (tag : String) (image : Image) : Installation :=
  { s with tags := s.tags.put tag image }

/-- `docker tag`. -/
def tag (source target : String) (s : Installation) : Except PyError Installation :=
  match s.tags source with
  | none => .error (.runtime "No such image")
  | some image => .ok (s.withTag target image)

end Installation

abbrev Admin (α : Type) := Effect Installation PyError α

/-- `backup`; what was written of an archive that is not finished stays there. -/
def backup (faults : Faults) (destination : String) : Admin Unit := do
  attempt (faults .makeBackups)
  attempt (faults .backupDatabase)
  change fun s =>
    if s.archives.contains destination then .error (.os "File exists")
    else .ok { s with archives := destination :: s.archives }
  attempt (faults .backupArchive)

def requiredEntries : List String := ["Dockerfile", "compose.yaml", "pyproject.toml", "src"]

/-- What is in the temporary directory in the end: the release, the environment and the secrets. -/
def stage (installed : Option Contents) (contents : Contents) : Except PyError Contents :=
  match requiredEntries.find? fun name => (contents.lookup name).isNone with
  | some required => .error (.runtime ("release archive is missing " ++ required))
  | none =>
    let staged := match installed.bind (List.lookup ".env") with
      | some (.file content) => (".env", .file content) :: contents.filter (·.1 != ".env")
      | _ => contents
    .ok (if (staged.lookup "secrets").isSome then staged
      else ("secrets", .link "/etc/mnema/secrets") :: staged)

/-- `str.startswith`. -/
def startsWith (text front : String) : Bool := front.toList.isPrefixOf text.toList

def releaseOf (archive : Archive) : String := String.ofList (archive.sha256.toList.take 12)

/-- What `update_from_archive` checks first. -/
def checkArchive (faults : Faults) (archive : Archive) (expectedSha256 : String) : Admin Unit := do
  attempt (faults .requireRoot)
  if !archive.isFile || !archive.isAbsolute then
    throw (.value "release archive must be an existing absolute path")
  attempt (faults .hashArchive)
  if archive.sha256 ≠ lower expectedSha256 then throw (.value "release archive SHA-256 does not match")
  if ((← get).trees (previousTree (releaseOf archive))).isSome then
    throw (.value "rollback directory already exists")

/-- `update_from_archive` up to the image that the service is to run. -/
def prepareRelease (faults : Faults) (archive : Archive) : Admin Contents := do
  let release := releaseOf archive
  attempt (faults .lock)
  attempt (faults .makeDirectory)
  attempt (faults .extract)
  let contents ← ofResult archive.contents
  let staged ← ofResult (stage ((← get).trees installRoot) contents)
  attempt (faults .copyEnvironment)
  attempt (faults .linkSecrets)
  attempt (faults .composeConfig)
  attempt (faults .tagRollback)
  change (·.tag currentTag (rollbackTag release))
  attempt (faults .build)
  modify fun s => s.withTag (releaseTag release) archive.image
  attempt (faults .tagRelease)
  change (·.tag (releaseTag release) currentTag)
  return staged

/-- What `update_from_archive` does when the start fails. -/
def undoRelease (release : String) (wasActive : Bool) : Admin Unit := do
  change (·.replace installRoot (failedTree release))
  change (·.replace (previousTree release) installRoot)
  change (·.tag (rollbackTag release) currentTag)
  onlyIf wasActive startRollbackStack

/-- `update_from_archive` from there to the health-checked start. -/
def switchRelease (faults : Faults) (release : String) (wasActive : Bool) (staged : Contents) : Admin Unit := do
  onlyIf wasActive (stop (faults .stopService))
  backup faults (preUpdateArchive release)
  attempt (faults .replaceInstalled)
  change (·.replace installRoot (previousTree release))
  attempt (faults .replaceStaged)
  change (·.place staged installRoot)
  try
    onlyIf wasActive (start faults)
  catch e =>
    undoRelease release wasActive
    throw e

def updateFromArchive (faults : Faults) (archive : Archive) (expectedSha256 : String) : Admin String := do
  checkArchive faults archive expectedSha256
  let wasActive ← isActive
  let staged ← prepareRelease faults archive
  let release := releaseOf archive
  switchRelease faults release wasActive staged
  attempt (faults .writeMetadata)
  modify fun s => { s with metadata := some (.ok ⟨release, previousTree release, rollbackTag release⟩) }
  attempt (faults .refreshCli)
  return release

/-- What `rollback` reads and checks before it changes anything. -/
def readMetadata (faults : Faults) : Admin Metadata := do
  attempt (faults .requireRoot)
  match (← get).metadata with
  | none => throw (.runtime "no previous release metadata exists")
  | some read =>
    attempt (faults .readMetadata)
    let metadata ← ofResult read
    if metadata.previous.dropLast ≠ installRoot.dropLast ∨
        !startsWith (metadata.previous.getLastD "") "mnema.previous-" ∨
        ((← get).trees metadata.previous).isNone ∨ !startsWith metadata.rollbackImage "mnema:rollback-" then
      throw (.runtime "previous release metadata contains unsafe values")
    if metadata.release.toList.contains '/' then throw (.value "Invalid name")
    if ((← get).trees (rolledBackTree metadata.release)).isSome then
      throw (.runtime "rollback target already exists")
    return metadata

def undoRollback (metadata : Metadata) (wasActive : Bool) : Admin Unit := do
  change (·.replace installRoot metadata.previous)
  change (·.replace (rolledBackTree metadata.release) installRoot)
  onlyIf wasActive startRollbackStack

/-- `rollback` from the point where it holds the lock. -/
def switchBack (faults : Faults) (metadata : Metadata) (wasActive : Bool) : Admin Unit := do
  onlyIf wasActive (stop (faults .stopService))
  attempt (faults .replaceInstalled)
  change (·.replace installRoot (rolledBackTree metadata.release))
  attempt (faults .replacePrevious)
  change (·.replace metadata.previous installRoot)
  attempt (faults .tagImage)
  change (·.tag metadata.rollbackImage currentTag)
  try
    onlyIf wasActive (start faults)
  catch e =>
    undoRollback metadata wasActive
    throw e
  attempt (faults .unlinkMetadata)
  modify fun s => { s with metadata := none }

def rollback (faults : Faults) : Admin String := do
  let metadata ← readMetadata faults
  let wasActive ← isActive
  attempt (faults .lock)
  switchBack faults metadata wasActive
  return metadata.release

/-! ### What an exception must leave as it was -/

namespace Installation

variable {s : Installation} {source target other : List String} {tree : Contents} {tag : String} {image : Image}

@[simp] theorem trees_moved_target : (s.moved source target tree).trees target = some tree := Store.put_self ..

theorem trees_moved_source (h : source ≠ target) : (s.moved source target tree).trees source = none := by
  show (s.trees.erase source).put target tree source = none
  rw [Store.put_of_ne _ h, Store.erase_self]

theorem trees_moved_of_ne (hs : other ≠ source) (ht : other ≠ target) :
    (s.moved source target tree).trees other = s.trees other := by
  show (s.trees.erase source).put target tree other = s.trees other
  rw [Store.put_of_ne _ ht, Store.erase_of_ne _ hs]

@[simp] theorem trees_placed_self : (s.placed tree target).trees target = some tree := Store.put_self ..

theorem trees_placed_of_ne (h : other ≠ target) : (s.placed tree target).trees other = s.trees other :=
  Store.put_of_ne _ h _

@[simp] theorem tags_withTag_self : (s.withTag tag image).tags tag = some image := Store.put_self ..

theorem tags_withTag_of_ne {name : String} (h : name ≠ tag) : (s.withTag tag image).tags name = s.tags name :=
  Store.put_of_ne _ h _

theorem occupied_of_none (h : s.trees target = none) : s.occupied target = false := by
  rw [occupied, h]
  rfl

end Installation

/-- The same tree is installed, the same image is tagged, and the service runs if it ran. -/
def Same (s t : Installation) : Prop :=
  t.trees installRoot = s.trees installRoot ∧ t.tags currentTag = s.tags currentTag ∧ t.active = s.active

theorem Same.refl (s : Installation) : Same s s := ⟨rfl, rfl, rfl⟩

/-- The steps before the tag is moved. -/
def preparation : List Step := [.lock, .makeDirectory, .extract, .copyEnvironment, .linkSecrets, .composeConfig,
  .tagRollback, .build, .tagRelease]

/-- The image of the release behind the tag. -/
def Installation.retagged (s : Installation) (release : String) (old new : Image) : Installation :=
  ((s.withTag (rollbackTag release) old).withTag (releaseTag release) new).withTag currentTag new

section Names

variable {release : String}

theorem rollbackTag_ne : rollbackTag release ≠ currentTag := by
  simp [rollbackTag, currentTag, ← String.toList_inj]

theorem releaseTag_ne : releaseTag release ≠ currentTag := by
  simp [releaseTag, currentTag, ← String.toList_inj]

theorem rollbackTag_ne_releaseTag : rollbackTag release ≠ releaseTag release := by
  simp [rollbackTag, releaseTag, ← String.toList_inj]

theorem previousTree_ne : previousTree release ≠ installRoot := by
  simp [previousTree, withName, installRoot, ← String.toList_inj]

theorem failedTree_ne : failedTree release ≠ installRoot := by
  simp [failedTree, withName, installRoot, ← String.toList_inj]

theorem rolledBackTree_ne : rolledBackTree release ≠ installRoot := by
  simp [rolledBackTree, withName, installRoot, ← String.toList_inj]

theorem failedTree_ne_previousTree : failedTree release ≠ previousTree release := by
  simp [failedTree, previousTree, withName, ← String.toList_inj]

end Names

/-! ### Up to the tag -/

section Preparation

variable {faults : Faults} {archive : Archive} {expectedSha256 : String} {s t : Installation} {P : Installation → Prop}

theorem Same.withTag {tag : String} {image : Image} (h : Same s t) (htag : tag ≠ currentTag) :
    Same s (t.withTag tag image) :=
  ⟨h.1, (t.tags.put_of_ne htag.symm image).trans h.2.1, h.2.2⟩

/-- A step that fails where nothing has changed yet. -/
theorem wp_attempt_same {fault : Option PyError} {Q : Unit → Installation → Prop} (h : P t) :
    wp (attempt fault) Q (fun _ => P) t ↔ (fault = none → Q () t) := by
  rw [wp_attempt_const]
  exact and_iff_right fun _ => h

theorem wp_ofResult_same {α : Type} {r : Except PyError α} {Q : α → Installation → Prop} (h : P t) :
    wp (ofResult r) Q (fun _ => P) t ↔ ∀ a, r = .ok a → Q a t := by
  rw [wp_ofResult]
  exact and_iff_right fun _ _ => h

/-- The archive passes the first checks. -/
structure Checked (faults : Faults) (archive : Archive) (expectedSha256 : String) (s : Installation) : Prop where
  root : faults .requireRoot = none
  file : archive.isFile = true ∧ archive.isAbsolute = true
  read : faults .hashArchive = none
  hash : archive.sha256 = lower expectedSha256
  fresh : s.trees (previousTree (releaseOf archive)) = none

theorem wp_checkArchive {Q : Unit → Installation → Prop} (h : P s) :
    wp (checkArchive faults archive expectedSha256) Q (fun _ => P) s ↔
      (Checked faults archive expectedSha256 s → Q () s) := by
  unfold checkArchive
  simp only [wp_bind, wp_attempt_same h, wp_ite, wp_throw, wp_pure, wp_get, h, implies_true, true_and]
  constructor
  · rintro hall ⟨hroot, ⟨hfile, habsolute⟩, hread, hhash, hfresh⟩
    exact hall hroot (by simp [hfile, habsolute]) hread (not_not.2 hhash) (by simp [hfresh])
  · intro hq hroot hfile hread hhash hfresh
    exact hq ⟨hroot, by simpa using hfile, hread, not_not.1 hhash, by simpa using hfresh⟩

/-- Nothing fails before the tag is moved. -/
structure Prepared (faults : Faults) (archive : Archive) (s : Installation) (staged : Contents) (image : Image) :
    Prop where
  steps : ∀ step ∈ preparation, faults step = none
  contents : ∃ contents, archive.contents = .ok contents ∧ stage (s.trees installRoot) contents = .ok staged
  image : s.tags currentTag = some image

/-- A tag that is moved to an image that is there, or is not moved. -/
theorem wp_tag {source target : String} {Q : Unit → Installation → Prop} :
    wp (change (·.tag source target)) Q (fun _ => P) s ↔
      (s.tags source = none → P s) ∧ ∀ image, s.tags source = some image → Q () (s.withTag target image) := by
  rw [wp_change]
  unfold Installation.tag
  cases s.tags source <;> simp

theorem wp_prepareRelease {Q : Contents → Installation → Prop} :
    wp (prepareRelease faults archive) Q (fun _ => Same s) s ↔
      ∀ staged image, Prepared faults archive s staged image →
        Q staged (s.retagged (releaseOf archive) image archive.image) := by
  have hrollback : ∀ image, Same s (s.withTag (rollbackTag (releaseOf archive)) image) :=
    fun image => (Same.refl s).withTag rollbackTag_ne
  have hrelease : ∀ image, Same s ((s.withTag (rollbackTag (releaseOf archive)) image).withTag
      (releaseTag (releaseOf archive)) archive.image) :=
    fun image => (hrollback image).withTag releaseTag_ne
  unfold prepareRelease
  simp only [wp_bind, wp_attempt_same (Same.refl s), wp_ofResult_same (Same.refl s), wp_get, wp_tag, wp_modify,
    wp_pure, Same.refl, implies_true, true_and, wp_attempt_same (hrollback _), wp_attempt_same (hrelease _)]
  have hreleased : ∀ image, ((s.withTag (rollbackTag (releaseOf archive)) image).withTag
      (releaseTag (releaseOf archive)) archive.image).tags (releaseTag (releaseOf archive)) = some archive.image :=
    fun image => Store.put_self ..
  constructor
  · rintro hall staged image ⟨hsteps, ⟨contents, hcontents, hstaged⟩, himage⟩
    have hmoved := hall (hsteps _ (by decide)) (hsteps _ (by decide)) (hsteps _ (by decide)) contents hcontents
      staged hstaged (hsteps _ (by decide)) (hsteps _ (by decide)) (hsteps _ (by decide)) (hsteps _ (by decide))
      image himage (hsteps _ (by decide)) (hsteps _ (by decide))
    exact hmoved.2 archive.image (hreleased image)
  · intro hq hlock hmake hextract contents hcontents staged hstaged hcopy hlink hconfig htag image himage hbuild hmove
    have hsteps : ∀ step ∈ preparation, faults step = none := by simp [preparation, *]
    refine ⟨fun _ => hrelease image, fun other hother => ?_⟩
    obtain rfl := Option.some.inj ((hreleased image).symm.trans hother)
    exact hq staged image ⟨hsteps, ⟨contents, hcontents, hstaged⟩, himage⟩

end Preparation

/-! ### From there to the start -/

section Switch

variable {faults : Faults} {s t : Installation} {P : Installation → Prop} {release : String} {old new : Image}

/-- The service is stopped, if it has to be. -/
def Stops (faults : Faults) (s : Installation) : Prop := s.active = true → faults .stopService = none

def BacksUp (faults : Faults) (release : String) (s : Installation) : Prop :=
  faults .makeBackups = none ∧ faults .backupDatabase = none ∧
    s.archives.contains (preUpdateArchive release) = false ∧ faults .backupArchive = none

/-- There is an installed tree, and it can be moved away. -/
def MovesAway (faults : Faults) (s : Installation) : Prop :=
  faults .replaceInstalled = none ∧ (s.trees installRoot).isSome

def StartFails (faults : Faults) (s : Installation) : Prop :=
  faults .startService ≠ none ∨ Unhealthy faults s.loaded

/-- What the steps after the retagging leave is what was there before: none of them fails except where
there was nothing to change, or it is the start and nothing is in the way of what undoes it. -/
structure Undone (faults : Faults) (release : String) (s : Installation) (old new : Image) : Prop where
  stop : ¬Stops faults s → new = old
  backup : Stops faults s → ¬(BacksUp faults release s ∧ MovesAway faults s) → s.active = false ∧ new = old
  place : Stops faults s → BacksUp faults release s → MovesAway faults s → faults .replaceStaged = none
  start : Stops faults s → BacksUp faults release s → MovesAway faults s → s.active = true →
    StartFails faults s → s.occupied (failedTree release) = false

def Installation.stopped (s : Installation) : Installation := { s with active := false }

theorem wp_stopActive {Q : Unit → Installation → Prop} {wasActive : Bool} (h : s.active = wasActive) :
    wp (onlyIf wasActive (stop (faults .stopService))) Q (fun _ => P) s ↔
      (¬Stops faults s → P s) ∧ (Stops faults s → Q () s.stopped) := by
  unfold Stops
  cases wasActive with
  | false =>
    have hs : s.stopped = s := by rw [Installation.stopped, ← h]
    simp [onlyIf, h, hs]
  | true =>
    rw [onlyIf, if_pos rfl, wp_stop, h]
    simp only [true_implies]
    rfl

theorem wp_backup {Q : Unit → Installation → Prop} (harchives : ∀ archives, P { s with archives := archives } ↔ P s) :
    wp (backup faults (preUpdateArchive release)) Q (fun _ => P) s ↔
      (¬BacksUp faults release s → P s) ∧
        (BacksUp faults release s → Q () { s with archives := preUpdateArchive release :: s.archives }) := by
  unfold backup BacksUp
  simp only [wp_bind, wp_attempt_const, wp_change]
  by_cases hmake : faults .makeBackups = none <;> by_cases hdatabase : faults .backupDatabase = none <;>
    by_cases harchive : s.archives.contains (preUpdateArchive release) = true <;>
      by_cases hwrite : faults .backupArchive = none <;> simp_all

theorem wp_replace {Q : Unit → Installation → Prop} {source target : List String}
    (h : s.occupied target = false) :
    wp (change (·.replace source target)) Q (fun _ => P) s ↔
      (s.trees source = none → P s) ∧
        ∀ tree, s.trees source = some tree → Q () (s.moved source target tree) := by
  rw [wp_change]
  unfold Installation.replace
  cases s.trees source <;> simp [h]

/-- The trees and the tag come back, unless the place for the failed release is taken. -/
theorem wp_undoRelease {tree staged : Contents} (htree : s.trees installRoot = some tree)
    (htag : s.tags currentTag = some old) (hactive : s.active = true)
    (hstaged : t.trees installRoot = some staged) (hprevious : t.trees (previousTree release) = some tree)
    (hrollback : t.tags (rollbackTag release) = some old) (hstopped : t.active = false) :
    wp (undoRelease release true) (fun _ u => Same s u) (fun _ u => Same s u) t ↔
      t.occupied (failedTree release) = false := by
  unfold undoRelease
  simp only [wp_bind]
  cases hfree : t.occupied (failedTree release) with
  | true =>
    have herror : t.replace installRoot (failedTree release) = .error (.os "Directory not empty") := by
      simp [Installation.replace, hstaged, hfree]
    rw [wp_change, herror]
    refine iff_of_false (fun h => ?_) (by simp)
    have hsame := (h.1 _ rfl).2.2
    rw [hstopped, hactive] at hsame
    cases hsame
  | false =>
    refine iff_of_true ?_ rfl
    apply (wp_replace hfree).2
    refine ⟨fun hnone => absurd (hnone.symm.trans hstaged) (by simp), fun failed hfailed => ?_⟩
    have hgone : (t.moved installRoot (failedTree release) failed).trees installRoot = none :=
      Installation.trees_moved_source failedTree_ne.symm
    have hkept : (t.moved installRoot (failedTree release) failed).trees (previousTree release) = some tree := by
      rw [Installation.trees_moved_of_ne previousTree_ne failedTree_ne_previousTree.symm, hprevious]
    apply (wp_replace (Installation.occupied_of_none hgone)).2
    refine ⟨fun hnone => absurd (hnone.symm.trans hkept) (by simp), fun back hback => ?_⟩
    obtain rfl := Option.some.inj (hkept.symm.trans hback)
    apply wp_tag.2
    refine ⟨fun hnone => absurd (hnone.symm.trans hrollback) (by simp), fun image himage => ?_⟩
    obtain rfl := Option.some.inj (hrollback.symm.trans himage)
    have hback : ((t.moved installRoot (failedTree release) failed).moved (previousTree release) installRoot
        tree).trees installRoot = some tree := Installation.trees_moved_target
    have htagged : (((t.moved installRoot (failedTree release) failed).moved (previousTree release) installRoot
        tree).withTag currentTag old).tags currentTag = some old := Installation.tags_withTag_self
    exact ⟨hback.trans htree.symm, htagged.trans htag.symm, hactive.symm⟩

variable (faults) in
theorem wp_startRelease {tree staged : Contents} (htree : s.trees installRoot = some tree)
    (htag : s.tags currentTag = some old) (hstaged : t.trees installRoot = some staged)
    (hprevious : t.trees (previousTree release) = some tree) (hrollback : t.tags (rollbackTag release) = some old)
    (hstopped : t.active = false) (hloaded : t.loaded = s.loaded)
    (hfailed : t.trees (failedTree release) = s.trees (failedTree release)) :
    wp (tryCatch (onlyIf s.active (start faults)) fun e => do
        undoRelease release s.active
        throw e) (fun _ _ => True) (fun _ u => Same s u) t ↔
      (s.active = true → StartFails faults s → s.occupied (failedTree release) = false) := by
  have hoccupied : t.occupied (failedTree release) = s.occupied (failedTree release) := by
    unfold Installation.occupied
    rw [hfailed]
  rw [wp_tryCatch]
  cases hactive : s.active with
  | false => simp [onlyIf]
  | true =>
    have hstart : HasService.withRunning t false = t := by
      show { t with active := false } = t
      rw [← hstopped]
    rw [onlyIf, if_pos rfl]
    simp only [wp_bind, wp_throw]
    rw [wp_start (fun _ _ => rfl) (fun _ => rfl) hstart, ← hoccupied,
      wp_undoRelease htree htag hactive hstaged hprevious hrollback hstopped]
    have hfails : faults .startService ≠ none ∨ Unhealthy faults (HasService.config t) ↔ StartFails faults s := by
      unfold StartFails
      rw [← hloaded]
      rfl
    rw [hfails]
    simp

theorem same_retagged (htag : s.tags currentTag = some old) : Same s (s.retagged release old new) ↔ new = old := by
  have hnew : (s.retagged release old new).tags currentTag = some new := Installation.tags_withTag_self
  unfold Same
  rw [hnew, htag, Option.some.injEq]
  exact ⟨fun h => h.2.1, fun h => ⟨rfl, h, rfl⟩⟩

/-- With the service stopped and the tag moved. -/
theorem same_stopped (htag : s.tags currentTag = some old) (htrees : t.trees installRoot = s.trees installRoot)
    (hnew : t.tags currentTag = some new) (hstopped : t.active = false) :
    Same s t ↔ s.active = false ∧ new = old := by
  unfold Same
  rw [hnew, htag, hstopped, Option.some.injEq]
  exact ⟨fun h => ⟨h.2.2.symm, h.2.1⟩, fun h => ⟨htrees, h.2, h.1.symm⟩⟩

/-- The release in the place of the tree that was moved away, and its start. -/
theorem wp_placeRelease {tree staged : Contents} (htrees : t.trees = s.trees)
    (hrollback : t.tags (rollbackTag release) = some old) (hstopped : t.active = false) (hloaded : t.loaded = s.loaded)
    (htree : s.trees installRoot = some tree)
    (htag : s.tags currentTag = some old) :
    (faults .replaceStaged ≠ none → Same s (t.moved installRoot (previousTree release) tree)) ∧
        (faults .replaceStaged = none →
          wp (change (·.place staged installRoot)) (fun _ u =>
            wp (tryCatch (onlyIf s.active (start faults)) fun e => do
              undoRelease release s.active
              throw e) (fun _ _ => True) (fun _ u => Same s u) u)
            (fun _ u => Same s u) (t.moved installRoot (previousTree release) tree)) ↔
      faults .replaceStaged = none ∧
        (s.active = true → StartFails faults s → s.occupied (failedTree release) = false) := by
  have hgone : (t.moved installRoot (previousTree release) tree).trees installRoot = none :=
    Installation.trees_moved_source previousTree_ne.symm
  have hnot : ¬Same s (t.moved installRoot (previousTree release) tree) := by
    intro hsame
    have hinstalled := hsame.1
    rw [hgone, htree] at hinstalled
    cases hinstalled
  by_cases hfault : faults .replaceStaged = none
  · have hplace : (t.moved installRoot (previousTree release) tree).place staged installRoot =
        .ok ((t.moved installRoot (previousTree release) tree).placed staged installRoot) := by
      rw [Installation.place, Installation.occupied_of_none hgone]
      rfl
    have hprevious : ((t.moved installRoot (previousTree release) tree).placed staged installRoot).trees
        (previousTree release) = some tree := by
      rw [Installation.trees_placed_of_ne previousTree_ne, Installation.trees_moved_target]
    have hfailed : ((t.moved installRoot (previousTree release) tree).placed staged installRoot).trees
        (failedTree release) = s.trees (failedTree release) := by
      rw [Installation.trees_placed_of_ne failedTree_ne,
        Installation.trees_moved_of_ne failedTree_ne failedTree_ne_previousTree, htrees]
    have hstart := wp_startRelease faults htree htag Installation.trees_placed_self hprevious hrollback
      hstopped hloaded hfailed
    rw [← hstart, wp_change, hplace]
    simp [hfault]
  · exact iff_of_false (fun h => hnot (h.1 hfault)) (fun h => hfault h.1)

theorem wp_switchRelease (staged : Contents) (htag : s.tags currentTag = some old)
    (hfresh : s.trees (previousTree release) = none) :
    wp (switchRelease faults release s.active staged) (fun _ _ => True) (fun _ t => Same s t)
      (s.retagged release old new) ↔ Undone faults release s old new := by
  obtain ⟨t, ht⟩ : ∃ t, t = (s.retagged release old new).stopped := ⟨_, rfl⟩
  have htrees : t.trees = s.trees := by rw [ht]; rfl
  have hnew : t.tags currentTag = some new := by
    rw [ht]
    show (s.retagged release old new).tags currentTag = some new
    exact Installation.tags_withTag_self
  have hrollback : t.tags (rollbackTag release) = some old := by
    rw [ht]
    show (s.retagged release old new).tags (rollbackTag release) = some old
    unfold Installation.retagged
    rw [Installation.tags_withTag_of_ne rollbackTag_ne, Installation.tags_withTag_of_ne rollbackTag_ne_releaseTag]
    exact Installation.tags_withTag_self
  have hstopped : t.active = false := by rw [ht]; rfl
  have hloaded : t.loaded = s.loaded := by rw [ht]; rfl
  have hstops : Stops faults (s.retagged release old new) ↔ Stops faults s := Iff.rfl
  have hbacks : BacksUp faults release t ↔ BacksUp faults release s := by rw [ht]; rfl
  have hsame : ∀ archives, Same s { t with archives := archives } ↔ s.active = false ∧ new = old :=
    fun archives => same_stopped htag (by rw [htrees]) hnew (by rw [ht]; rfl)
  unfold switchRelease
  rw [wp_bind, @wp_stopActive faults (s.retagged release old new) (Same s) _ s.active rfl, same_retagged htag, hstops, wp_bind,
    ← ht, wp_backup (fun archives => (hsame archives).trans (hsame t.archives).symm), hbacks, hsame t.archives]
  simp only [wp_bind, wp_attempt_const, hsame]
  rw [wp_replace (Installation.occupied_of_none (by rw [htrees, hfresh])), hsame, htrees]
  have hplace : ∀ tree, s.trees installRoot = some tree → _ := fun tree htree =>
    @wp_placeRelease faults s { t with archives := preUpdateArchive release :: t.archives, trees := s.trees }
      release old tree staged rfl hrollback hstopped hloaded htree htag
  have hinstalled : ¬MovesAway faults s ↔ faults .replaceInstalled ≠ none ∨ s.trees installRoot = none := by
    unfold MovesAway
    rw [not_and_or, Option.not_isSome_iff_eq_none]
  constructor
  · rintro ⟨hstop, hrest⟩
    refine ⟨hstop, fun hs hfails => ?_, fun hs hb hm => ?_, fun hs hb hm => ?_⟩
    · by_cases hb : BacksUp faults release s
      · have hmoves := ((hrest hs).2 hb)
        rcases hinstalled.1 fun hm => hfails ⟨hb, hm⟩ with hfault | hnone
        · exact hmoves.1 hfault
        · by_cases hfault : faults .replaceInstalled = none
          · exact (hmoves.2 hfault).1 hnone
          · exact hmoves.1 hfault
      · exact (hrest hs).1 hb
    · obtain ⟨tree, htree⟩ := Option.isSome_iff_exists.1 hm.2
      exact ((hplace tree htree).1 ((((hrest hs).2 hb).2 hm.1).2 tree htree)).1
    · obtain ⟨tree, htree⟩ := Option.isSome_iff_exists.1 hm.2
      exact ((hplace tree htree).1 ((((hrest hs).2 hb).2 hm.1).2 tree htree)).2
  · rintro ⟨hstop, hbackup, hplaced, hstart⟩
    refine ⟨hstop, fun hs => ⟨fun hb => hbackup hs fun h => hb h.1, fun hb => ?_⟩⟩
    have hmissing : ¬MovesAway faults s → s.active = false ∧ new = old := fun hm => hbackup hs fun h => hm h.2
    refine ⟨fun hfault => hmissing (hinstalled.2 (.inl hfault)), fun hfault => ?_⟩
    refine ⟨fun hnone => hmissing (hinstalled.2 (.inr hnone)), fun tree htree => ?_⟩
    have hm : MovesAway faults s := ⟨hfault, by rw [htree]; rfl⟩
    exact (hplace tree htree).2 ⟨hplaced hs hb hm, hstart hs hb hm⟩

end Switch

/-- An update that raises up to the start has changed nothing, exactly if whatever fails after the
retagging is undone. -/
theorem update_atomic_iff {faults : Faults} {archive : Archive} {expectedSha256 : String} {s : Installation}
    (hafter : faults .writeMetadata = none ∧ faults .refreshCli = none) :
    Atomic Same (updateFromArchive faults archive expectedSha256) s ↔
      (Checked faults archive expectedSha256 s → ∀ staged image, Prepared faults archive s staged image →
        Undone faults (releaseOf archive) s image archive.image) := by
  unfold Atomic updateFromArchive
  rw [wp_bind, wp_checkArchive (Same.refl s)]
  apply imp_congr_right
  intro hchecked
  unfold isActive
  simp only [wp_bind, wp_get, wp_pure, wp_prepareRelease]
  apply forall_congr'
  intro staged
  apply forall_congr'
  intro image
  apply imp_congr_right
  intro hprepared
  rw [← wp_switchRelease staged hprepared.image hchecked.fresh]
  simp [attempt, hafter.1, hafter.2, HasService.running]

/-! ### `rollback` -/

section Rollback

variable {faults : Faults} {s t : Installation} {P : Installation → Prop} {metadata : Metadata}

/-- What `previous-release.json` says may be followed. -/
structure Readable (faults : Faults) (s : Installation) (metadata : Metadata) : Prop where
  root : faults .requireRoot = none
  file : s.metadata = some (.ok metadata)
  read : faults .readMetadata = none
  parent : metadata.previous.dropLast = installRoot.dropLast
  name : startsWith (metadata.previous.getLastD "") "mnema.previous-" = true
  tree : (s.trees metadata.previous).isSome = true
  image : startsWith metadata.rollbackImage "mnema:rollback-" = true
  release : metadata.release.toList.contains '/' = false
  fresh : s.trees (rolledBackTree metadata.release) = none

theorem wp_readMetadata {Q : Metadata → Installation → Prop} (h : P s) :
    wp (readMetadata faults) Q (fun _ => P) s ↔ ∀ metadata, Readable faults s metadata → Q metadata s := by
  unfold readMetadata
  rw [wp_bind, wp_attempt_same h]
  simp only [wp_bind, wp_get]
  cases hread : s.metadata with
  | none =>
    simp only [wp_throw, h, implies_true, true_iff]
    intro metadata hreadable
    rw [hreadable.file] at hread
    cases hread
  | some read =>
    simp only [wp_bind, wp_attempt_same h, wp_ofResult_same h, wp_get, wp_ite, wp_throw, wp_pure, h, implies_true,
      true_and]
    constructor
    · rintro hall metadata ⟨hroot, hfile, hfault, hparent, hname, htree, himage, hrelease, hfresh⟩
      obtain rfl := Option.some.inj (hread.symm.trans hfile)
      apply hall hroot hfault metadata rfl
      · rintro (hno | hno | hno | hno)
        · exact hno hparent
        · rw [hname] at hno
          cases hno
        · rw [Option.isNone_iff_eq_none.1 hno] at htree
          cases htree
        · rw [himage] at hno
          cases hno
      · rw [hrelease]
        exact Bool.false_ne_true
      · simp [hfresh]
    · intro hq hroot hfault metadata hfile hsafe hrelease hfresh
      simp only [not_or, not_not, Bool.not_eq_true, Bool.not_eq_false', Option.isNone_eq_false_iff] at hsafe
      have hreadable : Readable faults s metadata :=
        ⟨hroot, by rw [hread, hfile], hfault, hsafe.1, by simpa using hsafe.2.1, hsafe.2.2.1, by simpa using hsafe.2.2.2,
          by simpa using hrelease, by simpa using hfresh⟩
      exact hq metadata hreadable

theorem Readable.previous_ne (h : Readable faults s metadata) : metadata.previous ≠ installRoot := by
  intro heq
  have hname := h.name
  rw [heq] at hname
  exact absurd hname (by decide)

theorem Readable.rolledBack_ne (h : Readable faults s metadata) :
    rolledBackTree metadata.release ≠ metadata.previous := by
  intro heq
  have hname := h.name
  rw [← heq] at hname
  simp [rolledBackTree, withName, startsWith] at hname

/-- The trees are swapped and the image of the previous release is behind the tag. -/
def SwapsBack (faults : Faults) (s : Installation) (metadata : Metadata) : Prop :=
  Stops faults s ∧ MovesAway faults s ∧ faults .replacePrevious = none ∧ faults .tagImage = none ∧
    (s.tags metadata.rollbackImage).isSome

/-- What the steps of a rollback leave is what was there before. -/
structure Unchanged (faults : Faults) (s : Installation) (metadata : Metadata) : Prop where
  away : Stops faults s → ¬MovesAway faults s → s.active = false
  previous : Stops faults s → MovesAway faults s → faults .replacePrevious = none
  tag : Stops faults s → MovesAway faults s →
    faults .tagImage ≠ none ∨ s.tags metadata.rollbackImage = none →
      s.active = false ∧ s.trees metadata.previous = s.trees installRoot
  start : SwapsBack faults s metadata → s.active = true → StartFails faults s →
    s.tags metadata.rollbackImage = s.tags currentTag
  unlink : SwapsBack faults s metadata → (s.active = true → ¬StartFails faults s) → faults .unlinkMetadata ≠ none →
    s.trees metadata.previous = s.trees installRoot ∧ s.tags metadata.rollbackImage = s.tags currentTag

/-- The trees come back, and the tag does not. -/
theorem wp_undoRollback {tree prev : Contents} {image : Image} (h : Readable faults s metadata)
    (htree : s.trees installRoot = some tree) (hactive : s.active = true) (hinstalled : t.trees installRoot = some prev)
    (hfree : t.trees metadata.previous = none) (hkept : t.trees (rolledBackTree metadata.release) = some tree)
    (htag : t.tags currentTag = some image) :
    wp (undoRollback metadata true) (fun _ u => Same s u) (fun _ u => Same s u) t ↔ s.tags currentTag = some image := by
  unfold undoRollback
  rw [wp_bind, wp_replace (Installation.occupied_of_none hfree)]
  have hgone : (t.moved installRoot metadata.previous prev).trees installRoot = none :=
    Installation.trees_moved_source h.previous_ne.symm
  have hstill : (t.moved installRoot metadata.previous prev).trees (rolledBackTree metadata.release) = some tree := by
    rw [Installation.trees_moved_of_ne rolledBackTree_ne h.rolledBack_ne, hkept]
  have hback : ((t.moved installRoot metadata.previous prev).moved (rolledBackTree metadata.release) installRoot
      tree).trees installRoot = some tree := Installation.trees_moved_target
  have hlast : wp (do
      change (·.replace (rolledBackTree metadata.release) installRoot)
      onlyIf true startRollbackStack) (fun _ u => Same s u) (fun _ u => Same s u)
        (t.moved installRoot metadata.previous prev) ↔ s.tags currentTag = some image := by
    rw [wp_bind, wp_replace (Installation.occupied_of_none hgone)]
    constructor
    · intro hall
      have hsame := hall.2 tree hstill
      exact hsame.2.1.symm.trans htag
    · intro heq
      refine ⟨fun hnone => absurd (hnone.symm.trans hstill) (by simp), fun other hother => ?_⟩
      obtain rfl := Option.some.inj (hstill.symm.trans hother)
      exact ⟨hback.trans htree.symm, htag.trans heq.symm, hactive.symm⟩
  rw [← hlast]
  constructor
  · intro hall
    exact hall.2 prev hinstalled
  · intro hall
    refine ⟨fun hnone => absurd (hnone.symm.trans hinstalled) (by simp), fun other hother => ?_⟩
    obtain rfl := Option.some.inj (hinstalled.symm.trans hother)
    exact hall

variable (faults) in
/-- The start of the previous release, and the end of the rollback. -/
theorem wp_startBack {tree prev : Contents} {image : Image} (h : Readable faults s metadata)
    (htree : s.trees installRoot = some tree) (hinstalled : t.trees installRoot = some prev)
    (hfree : t.trees metadata.previous = none) (hkept : t.trees (rolledBackTree metadata.release) = some tree)
    (htag : t.tags currentTag = some image) (hstopped : t.active = false) (hloaded : t.loaded = s.loaded) :
    wp (do
        tryCatch (onlyIf s.active (start faults)) fun e => do
          undoRollback metadata s.active
          throw e
        attempt (faults .unlinkMetadata)
        modify fun s => { s with metadata := none }) (fun _ _ => True) (fun _ u => Same s u) t ↔
      (s.active = true → StartFails faults s → s.tags currentTag = some image) ∧
        ((s.active = true → ¬StartFails faults s) → faults .unlinkMetadata ≠ none →
          prev = tree ∧ s.tags currentTag = some image) := by
  have hend : ∀ u : Installation, u.trees = t.trees → u.tags = t.tags → u.active = s.active →
      (Same s u ↔ prev = tree ∧ s.tags currentTag = some image) := by
    intro u htrees htags hu
    unfold Same
    rw [htrees, htags, hinstalled, htree, htag, Option.some.injEq]
    exact ⟨fun hsame => ⟨hsame.1, hsame.2.1.symm⟩, fun hsame => ⟨hsame.1, hsame.2.symm, hu⟩⟩
  rw [wp_bind, wp_tryCatch]
  simp only [wp_bind, wp_attempt_const, wp_modify, wp_throw, implies_true, and_true]
  cases hactive : s.active with
  | false => simp [onlyIf, hend t rfl rfl (hstopped.trans hactive.symm)]
  | true =>
    have hstart : HasService.withRunning t false = t := by
      show { t with active := false } = t
      rw [← hstopped]
    have hfails : faults .startService ≠ none ∨ Unhealthy faults (HasService.config t) ↔ StartFails faults s := by
      unfold StartFails
      rw [← hloaded]
      rfl
    rw [onlyIf, if_pos rfl, wp_start (fun _ _ => rfl) (fun _ => rfl) hstart, hfails,
      wp_undoRollback h htree hactive hinstalled hfree hkept htag,
      hend (HasService.withRunning t true) rfl rfl hactive.symm]
    simp

variable (faults) in
/-- The previous tree in the place of the one that was moved away, its image, its start. -/
theorem wp_swapBack {tree prev : Contents} (h : Readable faults s metadata) (htree : s.trees installRoot = some tree)
    (hprev : s.trees metadata.previous = some prev) :
    wp (do
        attempt (faults .replacePrevious)
        change (·.replace metadata.previous installRoot)
        attempt (faults .tagImage)
        change (·.tag metadata.rollbackImage currentTag)
        tryCatch (onlyIf s.active (start faults)) fun e => do
          undoRollback metadata s.active
          throw e
        attempt (faults .unlinkMetadata)
        modify fun s => { s with metadata := none }) (fun _ _ => True) (fun _ u => Same s u)
        (s.stopped.moved installRoot (rolledBackTree metadata.release) tree) ↔
      faults .replacePrevious = none ∧
        (faults .tagImage ≠ none ∨ s.tags metadata.rollbackImage = none → s.active = false ∧ prev = tree) ∧
        ∀ image, faults .tagImage = none → s.tags metadata.rollbackImage = some image →
          (s.active = true → StartFails faults s → s.tags currentTag = some image) ∧
            ((s.active = true → ¬StartFails faults s) → faults .unlinkMetadata ≠ none →
              prev = tree ∧ s.tags currentTag = some image) := by
  obtain ⟨t, ht⟩ : ∃ t, t = s.stopped.moved installRoot (rolledBackTree metadata.release) tree := ⟨_, rfl⟩
  have hgone : t.trees installRoot = none := by
    rw [ht]
    exact Installation.trees_moved_source rolledBackTree_ne.symm
  have hkept : t.trees (rolledBackTree metadata.release) = some tree := by
    rw [ht]
    exact Installation.trees_moved_target
  have hthere : t.trees metadata.previous = some prev := by
    rw [ht, Installation.trees_moved_of_ne h.previous_ne h.rolledBack_ne.symm]
    exact hprev
  have hnot : ¬Same s t := by
    intro hsame
    have hinstalled := hsame.1
    rw [hgone, htree] at hinstalled
    cases hinstalled
  have hinstalled : (t.moved metadata.previous installRoot prev).trees installRoot = some prev :=
    Installation.trees_moved_target
  have hfree : (t.moved metadata.previous installRoot prev).trees metadata.previous = none :=
    Installation.trees_moved_source h.previous_ne
  have hstill : (t.moved metadata.previous installRoot prev).trees (rolledBackTree metadata.release) = some tree := by
    rw [Installation.trees_moved_of_ne h.rolledBack_ne rolledBackTree_ne, hkept]
  have hstopped : (t.moved metadata.previous installRoot prev).active = false := by rw [ht]; rfl
  have htags : (t.moved metadata.previous installRoot prev).tags = s.tags := by rw [ht]; rfl
  have hloaded : (t.moved metadata.previous installRoot prev).loaded = s.loaded := by rw [ht]; rfl
  have hswapped : Same s (t.moved metadata.previous installRoot prev) ↔ s.active = false ∧ prev = tree := by
    unfold Same
    rw [hinstalled, htree, htags, hstopped, Option.some.injEq]
    exact ⟨fun hsame => ⟨hsame.2.2.symm, hsame.1⟩, fun hsame => ⟨hsame.2, rfl, hsame.1.symm⟩⟩
  rw [← ht, wp_bind, wp_attempt_const]
  by_cases hfault : faults .replacePrevious = none
  · simp only [hfault, ne_eq, not_true_eq_false, false_implies, true_and, true_implies]
    rw [wp_bind, wp_replace (Installation.occupied_of_none hgone)]
    simp only [hthere, reduceCtorEq, false_implies, true_and, Option.some.injEq, forall_eq']
    rw [wp_bind, wp_attempt_const, wp_bind, wp_tag, hswapped, htags]
    have hstart := fun image : Image => wp_startBack faults h htree
      (t := (t.moved metadata.previous installRoot prev).withTag currentTag image) hinstalled hfree hstill
      Installation.tags_withTag_self hstopped hloaded
    simp only [hstart]
    by_cases himage : faults .tagImage = none <;> cases htag : s.tags metadata.rollbackImage <;> simp [himage]
  · exact iff_of_false (fun hall => hnot (hall.1 hfault)) fun hall => hfault hall.1

/-- The tree of the previous release in the place of the installed one, and the rest. -/
theorem wp_switchBack (h : Readable faults s metadata) :
    wp (switchBack faults metadata s.active) (fun _ _ => True) (fun _ t => Same s t) s ↔
      Unchanged faults s metadata := by
  unfold switchBack
  rw [wp_bind, @wp_stopActive faults s (Same s) _ s.active rfl, wp_bind]
  simp only [wp_attempt_const, Same.refl, implies_true, true_and]
  rw [wp_bind, wp_replace (Installation.occupied_of_none (s := s.stopped) h.fresh)]
  obtain ⟨prev, hprev⟩ := Option.isSome_iff_exists.1 h.tree
  have hstop : Same s s.stopped ↔ s.active = false :=
    ⟨fun hsame => hsame.2.2.symm, fun hactive => ⟨rfl, rfl, hactive.symm⟩⟩
  have hswap := fun tree (htree : s.trees installRoot = some tree) => wp_swapBack faults h htree hprev
  rw [hstop]
  have hinstalled : ¬MovesAway faults s ↔ faults .replaceInstalled ≠ none ∨ s.trees installRoot = none := by
    unfold MovesAway
    rw [not_and_or, Option.not_isSome_iff_eq_none]
  constructor
  · intro hall
    refine ⟨fun hs hm => ?_, fun hs hm => ?_, fun hs hm hno => ?_, fun hb hactive hfails => ?_, fun hb hok hfault => ?_⟩
    · by_cases hfault : faults .replaceInstalled = none
      · exact ((hall hs).2 hfault).1 ((hinstalled.1 hm).resolve_left (not_not.2 hfault))
      · exact (hall hs).1 hfault
    · obtain ⟨tree, htree⟩ := Option.isSome_iff_exists.1 hm.2
      exact ((hswap tree htree).1 (((hall hs).2 hm.1).2 tree htree)).1
    · obtain ⟨tree, htree⟩ := Option.isSome_iff_exists.1 hm.2
      have hback := ((hswap tree htree).1 (((hall hs).2 hm.1).2 tree htree)).2.1 hno
      rw [hprev, htree, hback.2]
      exact ⟨hback.1, rfl⟩
    · obtain ⟨hs, hm, -, himage, hsome⟩ := hb
      obtain ⟨tree, htree⟩ := Option.isSome_iff_exists.1 hm.2
      obtain ⟨image, htag⟩ := Option.isSome_iff_exists.1 hsome
      have hback := ((hswap tree htree).1 (((hall hs).2 hm.1).2 tree htree)).2.2 image himage htag
      rw [htag, hback.1 hactive hfails]
    · obtain ⟨hs, hm, -, himage, hsome⟩ := hb
      obtain ⟨tree, htree⟩ := Option.isSome_iff_exists.1 hm.2
      obtain ⟨image, htag⟩ := Option.isSome_iff_exists.1 hsome
      have hback := ((hswap tree htree).1 (((hall hs).2 hm.1).2 tree htree)).2.2 image himage htag
      obtain ⟨htrees, htags⟩ := hback.2 hok hfault
      rw [hprev, htree, htrees, htag, htags]
      exact ⟨rfl, rfl⟩
  · rintro ⟨haway, hprevious, htag, hstart, hunlink⟩ hs
    have hmissing : ¬MovesAway faults s → s.active = false := haway hs
    refine ⟨fun hfault => hmissing (hinstalled.2 (.inl hfault)), fun hfault => ?_⟩
    refine ⟨fun hnone => hmissing (hinstalled.2 (.inr hnone)), fun tree hmoved => ?_⟩
    have htree : s.trees installRoot = some tree := hmoved
    have hm : MovesAway faults s := ⟨hfault, by rw [htree]; rfl⟩
    rw [hprev, htree, Option.some.injEq] at htag hunlink
    apply (hswap tree htree).2
    refine ⟨hprevious hs hm, htag hs hm, fun image himage hsome => ?_⟩
    have hb : SwapsBack faults s metadata := ⟨hs, hm, hprevious hs hm, himage, by rw [hsome]; rfl⟩
    rw [hsome] at hstart hunlink
    refine ⟨fun hactive hfails => (hstart hb hactive hfails).symm, fun hok hno => ?_⟩
    obtain ⟨htrees, htags⟩ := hunlink hb hok hno
    exact ⟨htrees, htags.symm⟩

theorem rollback_atomic_iff :
    Atomic Same (rollback faults) s ↔
      ∀ metadata, Readable faults s metadata → faults .lock = none → Unchanged faults s metadata := by
  unfold Atomic rollback
  rw [wp_bind, wp_readMetadata (Same.refl s)]
  apply forall_congr'
  intro metadata
  apply imp_congr_right
  intro hreadable
  unfold isActive
  simp only [wp_bind, wp_get, wp_pure, wp_attempt_same (Same.refl s)]
  rw [← wp_switchBack hreadable]
  rfl

end Rollback

/-- A running release, and an archive that an earlier attempt at the next one left. -/
def running (archives : List String) : Installation where
  trees := Store.empty.put installRoot [("compose.yaml", .file [])]
  tags := Store.empty.put currentTag "old"
  archives := archives
  metadata := none
  active := true
  loaded := some (.ok ())

def nextDigest : String := "a1b0c44298fc1c149afbf4c8996fb92427ae41e4649b934ca495991b7852b855"

def nextRelease : Archive where
  isFile := true
  isAbsolute := true
  sha256 := nextDigest
  contents := .ok [("Dockerfile", .file []), ("compose.yaml", .file []), ("pyproject.toml", .file []), ("src", .directory)]
  image := "new"

def unhealthy : Faults
  | .waitForHealth => some (.runtime "Mnema did not become healthy before the startup deadline")
  | _ => none

end Mnema.Releases
