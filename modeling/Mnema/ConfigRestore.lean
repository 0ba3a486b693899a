import Mnema.ConfigFiles
import Mnema.Lib.Script

/-! `restore_config`, and what it leaves behind when it raises. -/

namespace Mnema.Appliance

open Effect PyText

/-! ### The archive -/

inductive MemberKind where
  | file (content : Bytes)
  | directory
  | link
  | special

structure Member where
  name : String
  kind : MemberKind

/-- What lies in the directory that an archive is unpacked to. -/
inductive Entry where
  | file (content : Bytes)
  | directory (children : List (String × Entry))
  | link
  | special

/-- `Path.resolve` of what follows the directory; `none` where that leads out of it. -/
def resolveParts : List String → List String → Option Path
  | stack, [] => some stack.reverse
  | stack, name :: rest =>
    if name = "" ∨ name = "." then resolveParts stack rest
    else if name = ".." then
      match stack with
      | [] => none
      | _ :: up => resolveParts up rest
    else resolveParts (name :: stack) rest

def Member.path (member : Member) : Option Path :=
  if member.name.toList.head? = some '/' then none
  else resolveParts [] ((member.name.toList.splitOn '/').map String.ofList)

/-- The directories on the way to a member, as its name gives them. -/
def Member.upper (member : Member) : List String :=
  let name := (member.name.toList.reverse.dropWhile (· == '/')).reverse
  ((name.splitOn '/').map String.ofList).dropLast.filter fun name => name != "" && name != "."

/-- In which order a directory lists what it holds, and `rglob` what is below it; and whether
`tarfile` accepts that a directory which it makes is there already, as newer versions do. -/
structure Listing where
  order : List (String × Entry) → List (String × Entry)
  perm : ∀ children, (order children).Perm children
  walk : List (Path × Entry) → List (Path × Entry)
  walk_perm : ∀ entries, (walk entries).Perm entries
  existOk : Bool

namespace Entry

def children : Option Entry → Except PyError (List (String × Entry))
  | none => .ok []
  | some (.directory children) => .ok children
  | some _ => .error (.os "Not a directory")

/-- A member is put where it belongs, with the directories above it. -/
def insert (listing : Listing) (leaf : Entry) : Path → Option Entry → Except PyError Entry
  | [], found =>
    match leaf, found with
    | .directory _, none => .ok (.directory [])
    | .directory _, some (.directory children) => .ok (.directory children)
    | .directory _, some _ => .error (.os "File exists")
    | _, some (.directory _) => .error (.os "Is a directory")
    | leaf, _ => .ok leaf
  | name :: rest, found => do
    let siblings ← children found
    let child ← insert listing leaf rest (siblings.lookup name)
    return .directory (listing.order (siblings.filter (·.1 != name) ++ [(name, child)]))

def find : Path → Entry → Option Entry
  | [], entry => some entry
  | name :: rest, .directory children => (children.lookup name).bind (find rest)
  | _ :: _, _ => none

def fileAt (path : Path) (root : Entry) : Option Bytes :=
  match root.find path with
  | some (.file content) => some content
  | _ => none

def childrenAt (path : Path) (root : Entry) : Option (List (String × Entry)) :=
  match root.find path with
  | some (.directory children) => some children
  | _ => none

mutual

/-- What is below an entry: its children, and what is below each of them. -/
def inside (path : Path) : Entry → List (Path × Entry)
  | .directory children => children.map (fun child => (path ++ [child.1], child.2)) ++ insideEach path children
  | _ => []

def insideEach (path : Path) : List (String × Entry) → List (Path × Entry)
  | [] => []
  | child :: rest => insideChild path child ++ insideEach path rest

def insideChild (path : Path) : String × Entry → List (Path × Entry)
  | (name, entry) => inside (path ++ [name]) entry

end

def rglob (listing : Listing) (entry : Entry) : List (Path × Entry) := listing.walk (entry.inside [])

/-- Every directory on the way is there, also those that a `..` leads out of again. -/
def reaches (root : Entry) : Path → List String → Bool
  | _, [] => true
  | path, name :: rest =>
    if name = ".." then reaches root path.dropLast rest
    else (root.childrenAt (path ++ [name])).isSome && reaches root (path ++ [name]) rest

def makeEach (listing : Listing) : Path → List String → Entry → Except PyError Entry
  | _, [], root => .ok root
  | path, name :: rest, root =>
    if name = ".." then makeEach listing path.dropLast rest root
    else do
      let root ← (Entry.directory []).insert listing (path ++ [name]) (some root)
      makeEach listing (path ++ [name]) rest root

/-- `os.makedirs`, where the directories are not all there. -/
def makeDirs (listing : Listing) (upper : List String) (root : Entry) : Except PyError Entry :=
  if root.reaches [] upper then .ok root
  else do
    let root ← makeEach listing [] upper.dropLast root
    if !listing.existOk && root.reaches [] upper then .error (.os "File exists")
    else makeEach listing [] upper root

end Entry

/-- The loop of `_safe_extract`. -/
def checkMembers : List Member → Except PyError Unit
  | [] => .ok ()
  | member :: rest =>
    match member.path, member.kind with
    | none, _ => .error (.value "backup archive contains an unsafe path")
    | some _, .link => .error (.value "backup archive contains a link")
    | some _, _ => checkMembers rest

/-- `extractall` with the filter for data. -/
def extractAll (listing : Listing) (members : List Member) : Except PyError Entry :=
  members.foldlM (fun root member => do
    let root ← root.makeDirs listing member.upper
    match member.kind with
    | .file content => (Entry.file content).insert listing (member.path.getD []) (some root)
    | .directory => (Entry.directory []).insert listing (member.path.getD []) (some root)
    | .link => .error (.value "link")
    | .special => .error (.value "special file")) (.directory [])

def safeExtract (listing : Listing) (members : List Member) : Except PyError Entry := do
  checkMembers members
  extractAll listing members

/-- A backup archive; `members` is what `tarfile` reads. -/
structure Backup where
  isFile : Bool
  members : Except PyError (List Member)

/-! ### `restore_config` -/

/-- `read_text`, as `atomic_write` encodes it again. -/
def readText (content : Bytes) : Except PyError Bytes := do
  let text ← decode content
  return encode (String.ofList (universalNewlines text.toList))

/-- `restored.is_file() and not self._sqlite_healthy(restored)`; a file that is no database raises. -/
def databaseFault (sqliteHealthy : Bytes → Except PyError Bool) (content : Bytes) : Option PyError :=
  match sqliteHealthy content with
  | .error e => some e
  | .ok true => none
  | .ok false => some (.runtime "configuration backup SQLite integrity failed")

def restoreSecrets (faults : Faults) : List (String × Entry) → Effect Machine PyError Unit
  | [] => pure ()
  | (name, .file content) :: rest => do
    atomicWrite faults (secretsPath ++ [name]) content
    restoreSecrets faults rest
  | _ :: _ => throw (.runtime "configuration backup contains an unsafe secret entry")

/-- The loop of `_restore_directory`. -/
def restoreEntries (faults : Faults) (destination : Path) : List (Path × Entry) → Effect Machine PyError Unit
  | [] => pure ()
  | (_, .link) :: _ => throw (.runtime "configuration backup contains an unsafe session link")
  | (relative, .directory _) :: rest => do
    attempt (faults (.createDirectory (destination ++ relative)))
    restoreEntries faults destination rest
  | (relative, .file content) :: rest => do
    atomicWrite faults (destination ++ relative) content
    restoreEntries faults destination rest
  | (_, .special) :: _ => throw (.runtime "configuration backup contains an unsafe session entry")

def restoreDirectory (faults : Faults) (listing : Listing) (source : Entry) (destination : Path) : Effect Machine PyError Unit := do
  attempt (faults (.createDirectory destination))
  restoreEntries faults destination (source.rglob listing)

/-- `restore_config` between the extraction and the start. -/
def restoreFiles (faults : Faults) (sqliteHealthy : Bytes → Except PyError Bool) (listing : Listing) (root : Entry) :
    Effect Machine PyError Unit := do
  let database := root.fileAt databasePath
  attempt (database.bind (databaseFault sqliteHealthy))
  match root.fileAt configPath, root.fileAt environmentPath with
  | some config, some environment => do
    let config ← ofResult (readText config)
    atomicWrite faults configPath config
    let environment ← ofResult (readText environment)
    atomicWrite faults environmentPath environment
    restoreSecrets faults ((root.childrenAt secretsPath).getD [])
    match root.childrenAt sessionPath with
    | some children => restoreDirectory faults listing (.directory children) sessionPath
    | none => pure ()
    match database with
    | some content => atomicWrite faults databasePath content
    | none => pure ()
  | _, _ => throw (.runtime "configuration backup is incomplete")

def restoreConfig (faults : Faults) (sqliteHealthy : Bytes → Except PyError Bool) (listing : Listing)
    (source : Backup) : Effect Machine PyError Unit := do
  attempt (faults .requireRoot)
  onlyIf (!source.isFile) (throw (.value "configuration backup does not exist"))
  let wasActive ← isActive
  onlyIf wasActive (stop (faults .stopService))
  attempt (faults .lock)
  attempt (faults .makeDirectory)
  let members ← ofResult source.members
  let root ← ofResult (safeExtract listing members)
  attempt (faults .extract)
  restoreFiles faults sqliteHealthy listing root
  onlyIf wasActive (start faults)

/-! ### What is written, and in which order -/

/-- `atomic_write`, as a script. -/
def writeItems (faults : Faults) (path : Path) (content : Bytes) : Script Path Bytes PyError :=
  [.check (faults (.write path)), .put path content, .check (faults (.sync path))]

def textItems (faults : Faults) (path : Path) (content : Bytes) : Script Path Bytes PyError :=
  match readText content with
  | .ok text => writeItems faults path text
  | .error e => [.check (some e)]

def secretItems (faults : Faults) : List (String × Entry) → Script Path Bytes PyError
  | [] => []
  | (name, .file content) :: rest => writeItems faults (secretsPath ++ [name]) content ++ secretItems faults rest
  | _ :: _ => [.check (some (.runtime "configuration backup contains an unsafe secret entry"))]

def entryItems (faults : Faults) (destination : Path) : List (Path × Entry) → Script Path Bytes PyError
  | [] => []
  | (_, .link) :: _ => [.check (some (.runtime "configuration backup contains an unsafe session link"))]
  | (relative, .directory _) :: rest =>
    .check (faults (.createDirectory (destination ++ relative))) :: entryItems faults destination rest
  | (relative, .file content) :: rest =>
    writeItems faults (destination ++ relative) content ++ entryItems faults destination rest
  | (_, .special) :: _ => [.check (some (.runtime "configuration backup contains an unsafe session entry"))]

def sessionItems (faults : Faults) (listing : Listing) : Option (List (String × Entry)) → Script Path Bytes PyError
  | some children =>
    .check (faults (.createDirectory sessionPath)) :: entryItems faults sessionPath ((Entry.directory children).rglob listing)
  | none => []

def databaseItems (faults : Faults) : Option Bytes → Script Path Bytes PyError
  | some content => writeItems faults databasePath content
  | none => []

/-- The checks and writes of `restoreFiles`. -/
def restoreScript (faults : Faults) (sqliteHealthy : Bytes → Except PyError Bool) (listing : Listing) (root : Entry) :
    Script Path Bytes PyError :=
  .check ((root.fileAt databasePath).bind (databaseFault sqliteHealthy)) ::
    match root.fileAt configPath, root.fileAt environmentPath with
    | some config, some environment =>
      textItems faults configPath config ++ (textItems faults environmentPath environment ++
        (secretItems faults ((root.childrenAt secretsPath).getD []) ++
          (sessionItems faults listing (root.childrenAt sessionPath) ++ databaseItems faults (root.fileAt databasePath))))
    | _, _ => [.check (some (.runtime "configuration backup is incomplete"))]

def putFile (path : Path) (content : Bytes) (s : Machine) : Machine := s.withFiles (s.files.put path content)

section Scripts

variable (faults : Faults)

theorem perform_writeItems (path : Path) (content : Bytes) :
    (writeItems faults path content).perform putFile = atomicWrite faults path content := by
  simp only [writeItems, Script.perform, bind_pure_unit]
  rfl

theorem perform_textItems (path : Path) (content : Bytes) :
    (textItems faults path content).perform putFile =
      (do let text ← ofResult (readText content); atomicWrite faults path text) := by
  unfold textItems
  cases readText content with
  | ok text => exact perform_writeItems faults path text
  | error e => rfl

theorem perform_secretItems (children : List (String × Entry)) :
    (secretItems faults children).perform putFile = restoreSecrets faults children := by
  induction children with
  | nil => rfl
  | cons child rest ih =>
    obtain ⟨name, entry⟩ := child
    cases entry with
    | file content =>
      rw [secretItems, Script.perform_append, perform_writeItems, ih]
      rfl
    | directory children => rfl
    | link => rfl
    | special => rfl

theorem perform_entryItems (destination : Path) (entries : List (Path × Entry)) :
    (entryItems faults destination entries).perform putFile = restoreEntries faults destination entries := by
  induction entries with
  | nil => rfl
  | cons found rest ih =>
    obtain ⟨relative, entry⟩ := found
    cases entry with
    | file content =>
      rw [entryItems, Script.perform_append, perform_writeItems, ih]
      rfl
    | directory children =>
      rw [entryItems, Script.perform, ih]
      rfl
    | link => rfl
    | special => rfl

theorem perform_restoreScript (sqliteHealthy : Bytes → Except PyError Bool) (root : Entry) :
    (restoreScript faults sqliteHealthy listing root).perform putFile = restoreFiles faults sqliteHealthy listing root := by
  unfold restoreScript restoreFiles
  rw [Script.perform]
  congr 1
  funext u
  cases root.fileAt configPath with
  | none => rfl
  | some config =>
    cases root.fileAt environmentPath with
    | none => rfl
    | some environment =>
      simp only [Script.perform_append, perform_textItems, perform_secretItems, bind_assoc]
      cases root.childrenAt sessionPath <;> cases root.fileAt databasePath <;>
        simp [sessionItems, databaseItems, Script.perform, restoreDirectory, perform_entryItems, perform_writeItems]

end Scripts

/-! ### The files that are put back -/

def Restored (path : Path) : Prop :=
  path = configPath ∨ path = environmentPath ∨ secretsPath <+: path ∨ sessionPath <+: path ∨ path = databasePath

/-- The restored files have the bytes they had, and the service runs exactly if it ran. -/
structure Machine.Same (s t : Machine) : Prop where
  files : ∀ path, Restored path → t.files path = s.files path
  active : t.active = s.active

@[simp] theorem keys_writeItems (faults : Faults) (path : Path) (content : Bytes) :
    (writeItems faults path content).keys = [path] := rfl

theorem mem_keys_textItems {faults : Faults} {path key : Path} {content : Bytes}
    (h : key ∈ (textItems faults path content).keys) : key = path := by
  unfold textItems at h
  cases hread : readText content with
  | ok text =>
    rw [hread] at h
    exact List.mem_singleton.mp h
  | error e =>
    rw [hread] at h
    cases h

theorem mem_keys_secretItems {faults : Faults} {children : List (String × Entry)} {key : Path}
    (h : key ∈ (secretItems faults children).keys) : secretsPath <+: key := by
  induction children with
  | nil => cases h
  | cons child rest ih =>
    obtain ⟨name, entry⟩ := child
    cases entry with
    | file content =>
      rw [secretItems, Script.keys_append, keys_writeItems, List.singleton_append] at h
      rcases List.mem_cons.mp h with rfl | h
      · exact List.prefix_append secretsPath [name]
      · exact ih h
    | directory children => cases h
    | link => cases h
    | special => cases h

theorem mem_keys_entryItems {faults : Faults} {destination : Path} {entries : List (Path × Entry)} {key : Path}
    (h : key ∈ (entryItems faults destination entries).keys) : destination <+: key := by
  induction entries with
  | nil => cases h
  | cons found rest ih =>
    obtain ⟨relative, entry⟩ := found
    cases entry with
    | file content =>
      rw [entryItems, Script.keys_append, keys_writeItems, List.singleton_append] at h
      rcases List.mem_cons.mp h with rfl | h
      · exact List.prefix_append destination relative
      · exact ih h
    | directory children => exact ih h
    | link => cases h
    | special => cases h

theorem mem_keys_sessionItems {faults : Faults} {children : Option (List (String × Entry))} {key : Path}
    (h : key ∈ (sessionItems faults listing children).keys) : sessionPath <+: key := by
  cases children with
  | none => cases h
  | some children => exact mem_keys_entryItems h

theorem mem_keys_databaseItems {faults : Faults} {content : Option Bytes} {key : Path}
    (h : key ∈ (databaseItems faults content).keys) : key = databasePath := by
  cases content with
  | none => cases h
  | some content => exact List.mem_singleton.mp h

theorem restored_of_mem_keys {faults : Faults} {sqliteHealthy : Bytes → Except PyError Bool} {root : Entry} {key : Path}
    (h : key ∈ (restoreScript faults sqliteHealthy listing root).keys) : Restored key := by
  unfold restoreScript at h
  cases hconfig : root.fileAt configPath with
  | none =>
    rw [hconfig] at h
    cases h
  | some config =>
    cases henvironment : root.fileAt environmentPath with
    | none =>
      rw [hconfig, henvironment] at h
      cases h
    | some environment =>
      rw [hconfig, henvironment] at h
      simp only [Script.keys, Script.keys_append, List.mem_append] at h
      rcases h with h | h | h | h | h
      · exact .inl (mem_keys_textItems h)
      · exact .inr (.inl (mem_keys_textItems h))
      · exact .inr (.inr (.inl (mem_keys_secretItems h)))
      · exact .inr (.inr (.inr (.inl (mem_keys_sessionItems h))))
      · exact .inr (.inr (.inr (.inr (mem_keys_databaseItems h))))

/-! ### When a failed restore has changed nothing -/

/-- The archive is unpacked to `root`. -/
structure Opened (faults : Faults) (listing : Listing) (source : Backup) (root : Entry) : Prop where
  lock : faults .lock = none
  makeDirectory : faults .makeDirectory = none
  unpacked : ∃ members, source.members = .ok members ∧ safeExtract listing members = .ok root
  extract : faults .extract = none

section Atomicity

variable {faults : Faults} {sqliteHealthy : Bytes → Except PyError Bool} {listing : Listing} {source : Backup}
  {root : Entry} {s : Machine} {P : Machine → Prop}

/-- The state after the checks and writes. -/
def restored (faults : Faults) (sqliteHealthy : Bytes → Except PyError Bool) (listing : Listing) (root : Entry) (s : Machine) : Machine :=
  s.withFiles ((restoreScript faults sqliteHealthy listing root).written s.files)

/-- The archive is unpacked, every check passes and the service comes up with what was written. -/
def Completes (faults : Faults) (sqliteHealthy : Bytes → Except PyError Bool) (listing : Listing) (source : Backup)
    (s : Machine) : Prop :=
  ∃ root, Opened faults listing source root ∧ (restoreScript faults sqliteHealthy listing root).fails = false ∧
    faults .startService = none ∧ ¬Unhealthy faults (HasService.config (restored faults sqliteHealthy listing root s))

theorem wp_restoreFiles {Q : Unit → Machine → Prop} :
    wp (restoreFiles faults sqliteHealthy listing root) Q (fun _ => P) s ↔
      ((restoreScript faults sqliteHealthy listing root).fails = true → P (restored faults sqliteHealthy listing root s)) ∧
        ((restoreScript faults sqliteHealthy listing root).fails = false → Q () (restored faults sqliteHealthy listing root s)) := by
  rw [← perform_restoreScript]
  have hperform := @Script.wp_perform Path Bytes PyError Machine _ (fun files s => s.withFiles files) Machine.files
    (fun _ _ => rfl) (fun _ _ _ => rfl) (fun _ => rfl) (restoreScript faults sqliteHealthy listing root) s Q P
  exact hperform

/-- A stopped service, and files that only a script of theirs has changed. -/
theorem same_restored (hactive : s.active = false) :
    s.Same { restored faults sqliteHealthy listing root s with active := false } ↔
      (restoreScript faults sqliteHealthy listing root).Repeats s.files := by
  rw [← Script.written_eq_iff]
  constructor
  · intro h key hkey
    exact h.files key (restored_of_mem_keys hkey)
  · intro h
    refine ⟨?_, hactive.symm⟩
    intro path hpath
    by_cases hkey : path ∈ (restoreScript faults sqliteHealthy listing root).keys
    · exact h path hkey
    · show (restoreScript faults sqliteHealthy listing root).written s.files path = s.files path
      rw [Script.written_eq_or]
      cases hwritten : (restoreScript faults sqliteHealthy listing root).written Store.empty path with
      | none => rfl
      | some content => exact absurd (Script.mem_keys_of_written hwritten) hkey

theorem Opened.unique {other : Entry} (h : Opened faults listing source root) (h' : Opened faults listing source other) :
    root = other := by
  obtain ⟨members, hmembers, hroot⟩ := h.unpacked
  obtain ⟨members', hmembers', hother⟩ := h'.unpacked
  rw [hmembers] at hmembers'
  cases hmembers'
  rw [hroot] at hother
  cases hother
  rfl

theorem wp_unpack {f : Entry → Effect Machine PyError Unit} {Q : Unit → Machine → Prop} :
    wp (do
        attempt (faults .lock)
        attempt (faults .makeDirectory)
        let members ← ofResult source.members
        let root ← ofResult (safeExtract listing members)
        attempt (faults .extract)
        f root) Q (fun _ => P) s ↔
      ((¬∃ root, Opened faults listing source root) → P s) ∧
        ∀ root, Opened faults listing source root → wp (f root) Q (fun _ => P) s := by
  have hopened : ∀ root, Opened faults listing source root ↔ faults .lock = none ∧ faults .makeDirectory = none ∧
      (∃ members, source.members = .ok members ∧ safeExtract listing members = .ok root) ∧ faults .extract = none :=
    fun root => ⟨fun h => ⟨h.lock, h.makeDirectory, h.unpacked, h.extract⟩, fun h => ⟨h.1, h.2.1, h.2.2.1, h.2.2.2⟩⟩
  simp only [hopened, wp_bind, wp_attempt_const, wp_ofResult]
  by_cases hlock : faults .lock = none <;> by_cases hmake : faults .makeDirectory = none <;>
    by_cases hextract : faults .extract = none <;> cases hmembers : source.members with
      | error e => simp [hlock, hmake]
      | ok members => cases hunpacked : safeExtract listing members <;> simp [hlock, hmake, hextract, hunpacked]

/-- While the service is stopped. -/
theorem wp_restoreStopped (hactive : s.active = false) :
    wp (do
        restoreFiles faults sqliteHealthy listing root
        onlyIf false (start faults)) (fun _ _ => True) (fun _ t => s.Same t) s ↔
      ((restoreScript faults sqliteHealthy listing root).fails = true →
        (restoreScript faults sqliteHealthy listing root).Repeats s.files) := by
  rw [wp_bind, wp_restoreFiles, ← same_restored hactive]
  have hstopped : { restored faults sqliteHealthy listing root s with active := false } = restored faults sqliteHealthy listing root s := by
    rw [← hactive]
    rfl
  rw [hstopped]
  simp [onlyIf]

/-- While the service is running it has to come up again: it was stopped first. -/
theorem wp_restoreRunning (hactive : s.active = true) :
    wp (do
        restoreFiles faults sqliteHealthy listing root
        onlyIf true (start faults)) (fun _ _ => True) (fun _ t => s.Same t) { s with active := false } ↔
      (restoreScript faults sqliteHealthy listing root).fails = false ∧ faults .startService = none ∧
        ¬Unhealthy faults (HasService.config (restored faults sqliteHealthy listing root s)) := by
  have hdiffers : ∀ t : Machine, t.active = false → ¬s.Same t := by
    intro t ht h
    have hsame := h.active
    rw [ht, hactive] at hsame
    cases hsame
  have hstopped : ¬s.Same (restored faults sqliteHealthy listing root { s with active := false }) := hdiffers _ rfl
  rw [wp_bind, wp_restoreFiles]
  simp only [onlyIf, if_true]
  rw [wp_start (fun _ _ => rfl) (fun _ => rfl) rfl]
  have hconfig : HasService.config (restored faults sqliteHealthy listing root { s with active := false }) =
      HasService.config (restored faults sqliteHealthy listing root s) := rfl
  rw [hconfig]
  cases hfails : (restoreScript faults sqliteHealthy listing root).fails <;> simp [hstopped]

end Atomicity

/-- A backup with a directory among the secrets. -/
def nestedSecret : Backup where
  isFile := true
  members := .ok [⟨"etc/mnema/config.yaml", .file []⟩, ⟨"opt/mnema/.env", .file []⟩, ⟨"etc/mnema/secrets/old", .directory⟩]

def asAdded : Listing where
  order children := children
  perm children := List.Perm.refl children
  walk entries := entries
  walk_perm entries := List.Perm.refl entries
  existOk := true

def nestedRoot : Entry :=
  .directory [("opt", .directory [("mnema", .directory [(".env", .file [])])]),
    ("etc", .directory [("mnema", .directory [("config.yaml", .file []), ("secrets", .directory [("old", .directory [])])])])]

/-- A host that was configured and is stopped. -/
def configured : Machine where
  files := Store.empty.put configPath [97]
  active := false
  timer := false
  loads _ := .ok ()

theorem nestedSecret_opened : Opened (fun _ => none) asAdded nestedSecret nestedRoot where
  lock := rfl
  makeDirectory := rfl
  unpacked := ⟨_, rfl, by rfl⟩
  extract := rfl

end Mnema.Appliance
