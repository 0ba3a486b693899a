import Mnema.ConfigRestore
import Mnema.RuntimeEnvironment
import Mnema.SavedConfiguration
import Mnema.Lib.DocumentText

/-! `save_config`, and what its rollback puts back. -/

namespace Mnema.Appliance

open Effect PyText

def iCloudServicePath : Path := ["etc", "systemd", "system", "mnema-icloud.service"]

def iCloudTimerPath : Path := ["etc", "systemd", "system", "mnema-icloud.timer"]

/-- `icloud_schedule_armed`. -/
def armedPath : Path := ["var", "lib", "mnema", "icloud-schedule-armed"]

/-- Secrets to write: a dictionary has no key twice. -/
structure SecretWrites where
  items : List (Path × String)
  nodup : (items.map Prod.fst).Nodup

def iCloudService : String :=
  "\n".intercalate ["[Unit]",
    "Description=Mnema read-only iCloud Photos import",
    "After=docker.service mnema.service network-online.target",
    "Requires=docker.service",
    "",
    "[Service]",
    "Type=oneshot",
    "ExecStart=/usr/local/bin/mnema icloud sync --scheduled",
    "NoNewPrivileges=true",
    "PrivateTmp=true",
    "ProtectHome=true",
    ""]

def iCloudTimer (dailyAt : String) : String :=
  "\n".intercalate ["[Unit]",
    "Description=Run Mnema iCloud Photos import daily",
    "",
    "[Timer]",
    "OnCalendar=*-*-* " ++ dailyAt ++ ":00",
    "Persistent=true",
    "RandomizedDelaySec=5min",
    "Unit=mnema-icloud.service",
    "",
    "[Install]",
    "WantedBy=timers.target",
    ""]

def armed (s : Machine) : Bool := (s.files armedPath).isSome

/-- A restart that fails leaves the service stopped. -/
def restart : Option PyError → Effect Machine PyError Unit
  | none => pure ()
  | some e => do
    modify fun s => { s with active := false }
    throw e

deriving instance DecidableEq for ColdStorageConfig

section Save

variable {lib : Libraries} (faults : Faults) (yaml : Yaml String) (reprFloat : ℚ → String)

/-- `load_config`, where `config.yaml` is a file. -/
def loadAppliance (content : Bytes) : Except PyError (ApplianceConfig lib) := do
  let text ← decode content
  (loadConfig yaml (some (String.ofList (universalNewlines text.toList)))).mapError PyError.value

/-- The configuration that is replaced. -/
def loadPrevious : Option Bytes → Except PyError (Option (ApplianceConfig lib))
  | none => .ok none
  | some content => (loadAppliance yaml content).map some

def writeICloudUnits (config : ApplianceConfig lib) : Effect Machine PyError Unit := do
  atomicWrite faults iCloudServicePath (encode iCloudService)
  atomicWrite faults iCloudTimerPath (encode (iCloudTimer config.icloud.val.dailyAt))

def writeSecrets : List (Path × String) → Effect Machine PyError Unit
  | [] => pure ()
  | (path, content) :: rest => do
    atomicWrite faults path (encode content)
    attempt (faults (.changeOwner path))
    writeSecrets rest

/-- Disabling is not checked. -/
def reconcileICloudTimer (config : ApplianceConfig lib) : Effect Machine PyError Unit := do
  attempt (faults .daemonReload)
  let s ← get
  if config.icloud.val.enabled && armed s then do
    attempt (faults .enableTimer)
    modify fun s => { s with timer := true }
    attempt (faults .startTimer)
  else onlyIf (faults .disableTimer).isNone (modify fun s => { s with timer := false })

def coldStorageChanged (previous : Option (ApplianceConfig lib)) (config : ApplianceConfig lib) : Bool :=
  match previous with
  | none => true
  | some previous => decide (previous.coldStorage.val ≠ config.coldStorage.val)

def restartServices (previous : Option (ApplianceConfig lib)) (config : ApplianceConfig lib) :
    Effect Machine PyError Unit := do
  restart (faults .restart)
  attempt (faults .waitForHealth)
  attempt (faults .verifyServices)
  onlyIf (coldStorageChanged previous config) (attempt (faults .coldStorageCheck))
  attempt (faults .runtimePolicy)

/-- What `save_config` tries. -/
def applyConfig (previous : Option (ApplianceConfig lib)) (config : ApplianceConfig lib) (updates : SecretWrites) :
    Effect Machine PyError Unit := do
  atomicWrite faults configPath (encode (dumpConfig yaml config))
  let environment ← ofResult (renderEnvironment reprFloat config)
  atomicWrite faults environmentPath (encode environment)
  writeICloudUnits faults config
  writeSecrets faults updates.items
  attempt (faults .composeConfig)
  reconcileICloudTimer faults config
  let active ← isActive
  onlyIf active (restartServices faults previous config)

def restoreFile (path : Path) : Option Bytes → Effect Machine PyError Unit
  | none => modify fun s => s.withFiles (s.files.erase path)
  | some content => do
    let text ← ofResult (decode content)
    atomicWrite (fun _ => none) path (encode text)

def restoreSecretFiles (before : Store Path Bytes) : List Path → Effect Machine PyError Unit
  | [] => pure ()
  | path :: rest => do
    restoreFile path (before path)
    restoreSecretFiles before rest

/-- The policy of the configuration that is back is applied. -/
def reapplyPolicy (lib : Libraries) (yaml : Yaml String) : Effect Machine PyError Unit := do
  restart none
  let s ← get
  match s.files configPath with
  | none => pure ()
  | some content => do
    let _ ← ofResult (loadAppliance yaml content : Except PyError (ApplianceConfig lib))
    pure ()

/-- The `except` block; its commands succeed. -/
def rollbackConfig (lib : Libraries) (before : Store Path Bytes) (updates : SecretWrites) : Effect Machine PyError Unit := do
  restoreFile configPath (before configPath)
  restoreFile environmentPath (before environmentPath)
  restoreFile iCloudServicePath (before iCloudServicePath)
  restoreFile iCloudTimerPath (before iCloudTimerPath)
  restoreSecretFiles before (updates.items.map Prod.fst)
  let active ← isActive
  onlyIf active (reapplyPolicy lib yaml)

def saveConfig (config : ApplianceConfig lib) (updates : SecretWrites) : Effect Machine PyError Unit := do
  attempt (faults .requireRoot)
  attempt (faults .lock)
  attempt (faults .validateHost)
  let before ← get
  let previous ← ofResult (loadPrevious yaml (before.files configPath))
  attempt (faults .readFiles)
  onlyIf (!updates.items.all fun update => update.1.dropLast == secretsPath)
    (throw (.value "secret updates must remain beneath Mnema secret root"))
  try
    applyConfig faults yaml reprFloat previous config updates
  catch e =>
    rollbackConfig yaml lib before.files updates
    throw e

end Save

/-! ### The files that are written, as a script -/

section Scripts

variable {lib : Libraries} (faults : Faults) (yaml : Yaml String) (reprFloat : ℚ → String)

def renderFault (config : ApplianceConfig lib) : Option PyError :=
  match renderEnvironment reprFloat config with
  | .ok _ => none
  | .error e => some e

def renderedText (config : ApplianceConfig lib) : String :=
  match renderEnvironment reprFloat config with
  | .ok text => text
  | .error _ => ""

def secretScript : List (Path × String) → Script Path Bytes PyError
  | [] => []
  | (path, content) :: rest =>
    writeItems faults path (encode content) ++ (.check (faults (.changeOwner path)) :: secretScript rest)

/-- What `save_config` does before it sets the timer. -/
def saveScript (config : ApplianceConfig lib) (updates : SecretWrites) : Script Path Bytes PyError :=
  writeItems faults configPath (encode (dumpConfig yaml config)) ++
    (.check (renderFault reprFloat config) ::
      (writeItems faults environmentPath (encode (renderedText reprFloat config)) ++
        (writeItems faults iCloudServicePath (encode iCloudService) ++
          (writeItems faults iCloudTimerPath (encode (iCloudTimer config.icloud.val.dailyAt)) ++
            (secretScript faults updates.items ++ [.check (faults .composeConfig)])))))

/-- What `save_config` does from there on. -/
def finishSave (previous : Option (ApplianceConfig lib)) (config : ApplianceConfig lib) :
    Effect Machine PyError Unit := do
  reconcileICloudTimer faults config
  let active ← isActive
  onlyIf active (restartServices faults previous config)

theorem perform_secretScript (items : List (Path × String)) :
    (secretScript faults items).perform putFile = writeSecrets faults items := by
  induction items with
  | nil => rfl
  | cons item rest ih =>
    obtain ⟨path, content⟩ := item
    rw [secretScript, Script.perform_append, perform_writeItems, Script.perform, ih]
    rfl

theorem applyConfig_eq (previous : Option (ApplianceConfig lib)) (config : ApplianceConfig lib) (updates : SecretWrites) :
    applyConfig faults yaml reprFloat previous config updates = (do
      (saveScript faults yaml reprFloat config updates).perform putFile
      finishSave faults previous config) := by
  unfold applyConfig saveScript finishSave writeICloudUnits renderFault renderedText
  cases renderEnvironment reprFloat config with
  | error e =>
    simp only [Script.perform_append, Script.perform, perform_writeItems, bind_assoc]
    rfl
  | ok text =>
    simp only [Script.perform_append, Script.perform, perform_writeItems, perform_secretScript, bind_assoc, ofResult,
      attempt, pure_bind]

/-- The files that are written and put back. -/
def targets (updates : SecretWrites) : List Path :=
  [configPath, environmentPath, iCloudServicePath, iCloudTimerPath] ++ updates.items.map Prod.fst

theorem keys_secretScript (items : List (Path × String)) : (secretScript faults items).keys = items.map Prod.fst := by
  induction items with
  | nil => rfl
  | cons item rest ih =>
    rw [secretScript, Script.keys_append, keys_writeItems, Script.keys, ih]
    rfl

theorem keys_saveScript (config : ApplianceConfig lib) (updates : SecretWrites) :
    (saveScript faults yaml reprFloat config updates).keys = targets updates := by
  simp only [saveScript, Script.keys_append, Script.keys, keys_writeItems, keys_secretScript, List.append_nil]
  rfl

/-- The bytes are those of a text. -/
def IsText (content : Bytes) : Prop := ∃ text, decode content = .ok text

instance : DecidablePred IsText := fun content =>
  match h : decode content with
  | .ok text => isTrue ⟨text, h⟩
  | .error _ => isFalse fun ⟨text, htext⟩ => by rw [h] at htext; cases htext

theorem isText_encode (text : String) : IsText (encode text) := ⟨text, decode_encode text⟩

theorem isText_of_mem_secretScript {items : List (Path × String)} {key : Path} {content : Bytes}
    (h : .put key content ∈ secretScript faults items) : IsText content := by
  induction items with
  | nil => cases h
  | cons item rest ih =>
    obtain ⟨path, text⟩ := item
    simp only [secretScript, writeItems, List.cons_append, List.nil_append, List.mem_cons, reduceCtorEq, false_or,
      Item.put.injEq] at h
    rcases h with ⟨-, rfl⟩ | h
    · exact isText_encode text
    · exact ih h

theorem isText_of_mem_saveScript {config : ApplianceConfig lib} {updates : SecretWrites} {key : Path} {content : Bytes}
    (h : .put key content ∈ saveScript faults yaml reprFloat config updates) : IsText content := by
  simp only [saveScript, writeItems, List.cons_append, List.nil_append, List.mem_cons, List.mem_append, reduceCtorEq,
    false_or, Item.put.injEq, List.not_mem_nil, or_false] at h
  rcases h with h | h | h | h | h
  · exact h.2 ▸ isText_encode _
  · exact h.2 ▸ isText_encode _
  · exact h.2 ▸ isText_encode _
  · exact h.2 ▸ isText_encode _
  · exact isText_of_mem_secretScript faults h

end Scripts

/-! ### The rollback -/

section Rollback

variable {lib : Libraries} {yaml : Yaml String} {before : Store Path Bytes} {updates : SecretWrites} {s : Machine}
  {P : Machine → Prop} {path : Path} {rest : List Path} {next : Effect Machine PyError Unit}

/-- What the rollback leaves of the files. -/
def undone (before : Store Path Bytes) (paths : List Path) (s : Machine) : Machine :=
  s.withFiles (Script.undo IsText before paths s.files)

theorem wp_restoreFile (hnext : ∀ t, wp next (fun _ => P) (fun _ => P) t ↔ P (undone before rest t)) :
    wp (do restoreFile path (before path); next) (fun _ => P) (fun _ => P) s ↔ P (undone before (path :: rest) s) := by
  unfold undone
  rw [wp_bind, Script.undo]
  cases hbefore : before path with
  | none =>
    simp only [restoreFile, wp_modify, hnext]
    rfl
  | some content =>
    by_cases htext : IsText content
    · obtain ⟨text, hdecode⟩ := htext
      have hsame := encode_of_decode hdecode
      have htext : IsText content := ⟨text, hdecode⟩
      simp only [restoreFile, hdecode, ofResult, atomicWrite, attempt, wp_bind, wp_pure, wp_modify, hnext, hsame]
      rw [if_pos htext]
      rfl
    · cases hdecode : decode content with
      | ok text => exact absurd ⟨text, hdecode⟩ htext
      | error e =>
        simp only [restoreFile, hdecode, ofResult, wp_bind, wp_throw, htext, if_false]
        rfl

theorem wp_restoreSecretFiles (hnext : ∀ t, wp next (fun _ => P) (fun _ => P) t ↔ P t) (paths : List Path) :
    wp (do restoreSecretFiles before paths; next) (fun _ => P) (fun _ => P) s ↔ P (undone before paths s) := by
  induction paths generalizing s with
  | nil => exact hnext s
  | cons path rest ih =>
    rw [restoreSecretFiles, bind_assoc]
    exact wp_restoreFile fun t => ih

/-- What follows the files changes nothing that is looked at here. -/
theorem wp_reapply (t : Machine) :
    wp (do let active ← isActive; onlyIf active (reapplyPolicy lib yaml)) (fun _ => P) (fun _ => P) t ↔ P t := by
  rw [wp_bind, wp_isActive]
  cases hactive : HasService.running t with
  | false => simp
  | true =>
    unfold reapplyPolicy restart
    simp only [onlyIf_true, wp_bind, wp_pure, wp_get]
    cases t.files configPath with
    | none => simp
    | some content =>
      simp only [wp_bind, wp_ofResult, wp_pure]
      cases (loadAppliance yaml content : Except PyError (ApplianceConfig lib)) <;> simp

theorem wp_rollback :
    wp (rollbackConfig yaml lib before updates) (fun _ => P) (fun _ => P) s ↔ P (undone before (targets updates) s) := by
  unfold rollbackConfig
  apply wp_restoreFile
  intro t
  apply wp_restoreFile
  intro t
  apply wp_restoreFile
  intro t
  apply wp_restoreFile
  intro t
  exact wp_restoreSecretFiles wp_reapply _

end Rollback

/-! ### The timer and the services -/

section Finish

variable {lib : Libraries} {faults : Faults} {previous : Option (ApplianceConfig lib)} {config : ApplianceConfig lib}
  {s : Machine} {P : Machine → Prop}

/-- The configuration enables the import and its schedule is armed. -/
def wantsTimer (config : ApplianceConfig lib) (s : Machine) : Bool := config.icloud.val.enabled && armed s

/-- The timer was enabled, or disabled if that works. -/
structure TimerSet (faults : Faults) (config : ApplianceConfig lib) (s : Machine) : Prop where
  reload : faults .daemonReload = none
  enable : wantsTimer config s = true → faults .enableTimer = none

def timerAfter (faults : Faults) (config : ApplianceConfig lib) (s : Machine) : Bool :=
  if wantsTimer config s then true else if (faults .disableTimer).isNone then false else s.timer

def ServicesFail (faults : Faults) (previous : Option (ApplianceConfig lib)) (config : ApplianceConfig lib) : Prop :=
  faults .restart ≠ none ∨ faults .waitForHealth ≠ none ∨ faults .verifyServices ≠ none ∨
    (coldStorageChanged previous config = true ∧ faults .coldStorageCheck ≠ none) ∨ faults .runtimePolicy ≠ none

/-- A step fails after the timer was set. -/
def FinishFails (faults : Faults) (previous : Option (ApplianceConfig lib)) (config : ApplianceConfig lib)
    (s : Machine) : Prop :=
  (wantsTimer config s = true ∧ faults .startTimer ≠ none) ∨ (s.active = true ∧ ServicesFail faults previous config)

theorem wp_restartServices (hP : ∀ t, P { t with active := false } ↔ P t) :
    wp (restartServices faults previous config) (fun _ _ => True) (fun _ => P) s ↔
      (ServicesFail faults previous config → P s) := by
  unfold restartServices ServicesFail
  simp only [wp_bind]
  cases hrestart : faults .restart with
  | some e => simp [restart, hP]
  | none =>
    simp only [restart, wp_pure, wp_attempt_const]
    cases coldStorageChanged previous config <;> by_cases hhealth : faults .waitForHealth = none <;>
      by_cases hservices : faults .verifyServices = none <;> by_cases hcold : faults .coldStorageCheck = none <;>
        by_cases hpolicy : faults .runtimePolicy = none <;>
          simp [wp_attempt_const, hhealth, hservices, hcold, hpolicy]

theorem wp_startServices (hP : ∀ t, P { t with active := false } ↔ P t) :
    wp (onlyIf (HasService.running s) (restartServices faults previous config)) (fun _ _ => True) (fun _ => P) s ↔
      (s.active = true → ServicesFail faults previous config → P s) := by
  show wp (onlyIf s.active _) _ _ s ↔ _
  cases s.active with
  | false => simp
  | true =>
    rw [onlyIf_true, wp_restartServices hP]
    simp

theorem wp_finishSave (hP : ∀ t, P { t with active := false } ↔ P t) :
    wp (finishSave faults previous config) (fun _ _ => True) (fun _ => P) s ↔
      (¬TimerSet faults config s → P s) ∧
        (TimerSet faults config s → FinishFails faults previous config s →
          P { s with timer := timerAfter faults config s }) := by
  have hset : TimerSet faults config s ↔
      faults .daemonReload = none ∧ (wantsTimer config s = true → faults .enableTimer = none) :=
    ⟨fun h => ⟨h.reload, h.enable⟩, fun h => ⟨h.1, h.2⟩⟩
  unfold finishSave
  rw [wp_bind, reconcileICloudTimer, wp_bind, wp_attempt_const, hset, FinishFails, timerAfter]
  by_cases hreload : faults .daemonReload = none
  swap
  · simp [hreload]
  simp only [wp_bind, wp_get]
  show (_ → _) ∧ (_ → wp (if wantsTimer config s then _ else _) _ _ s) ↔ _
  cases wantsTimer config s with
  | true =>
    by_cases henable : faults .enableTimer = none
    · by_cases hstart : faults .startTimer = none
      · simp [hreload, henable, hstart, wp_attempt_const]
        exact wp_startServices hP
      · simp [hreload, henable, hstart, wp_attempt_const]
    · simp [hreload, henable, wp_attempt_const]
  | false =>
    cases hdisable : faults .disableTimer with
    | none =>
      simp [hreload]
      exact wp_startServices hP
    | some e =>
      simp [hreload]
      exact wp_startServices hP

end Finish

/-! ### When a failed save is undone -/

section Atomicity

variable {lib : Libraries} {faults : Faults} {yaml : Yaml String} {reprFloat : ℚ → String}
  {previous : Option (ApplianceConfig lib)} {config : ApplianceConfig lib} {updates : SecretWrites} {s : Machine}

/-- The checks before the first write pass. -/
structure Begun (faults : Faults) (yaml : Yaml String) (updates : SecretWrites) (s : Machine)
    (previous : Option (ApplianceConfig lib)) : Prop where
  requireRoot : faults .requireRoot = none
  lock : faults .lock = none
  validateHost : faults .validateHost = none
  previous : loadPrevious yaml (s.files configPath) = .ok previous
  readFiles : faults .readFiles = none
  beneath : ∀ update ∈ updates.items, update.1.dropLast = secretsPath

/-- The previous configuration enables the import and its schedule is armed. -/
def wantedTimer (lib : Libraries) (yaml : Yaml String) (s : Machine) : Bool :=
  match (loadPrevious yaml (s.files configPath) : Except PyError (Option (ApplianceConfig lib))) with
  | .ok (some previous) => wantsTimer previous s
  | _ => false

/-- The written files are as they were, and so is the timer if it was as it was wanted. -/
structure Machine.Unsaved (lib : Libraries) (yaml : Yaml String) (updates : SecretWrites) (s t : Machine) : Prop where
  files : ∀ path ∈ targets updates, t.files path = s.files path
  timer : s.timer = wantedTimer lib yaml s → t.timer = wantedTimer lib yaml s

/-- The files as the script leaves them. -/
def afterWrites (script : Script Path Bytes PyError) (s : Machine) : Machine := s.withFiles (script.written s.files)

/-- Every file that is written before a step fails was absent or a text. -/
def Restorable (script : Script Path Bytes PyError) (s : Machine) : Prop :=
  ∀ path ∈ script.done, ∀ content, s.files path = some content → IsText content

theorem armedPath_not_target (h : ∀ update ∈ updates.items, update.1.dropLast = secretsPath) :
    armedPath ∉ targets updates := by
  intro hmem
  rcases List.mem_append.mp hmem with hmem | hmem
  · revert hmem
    decide
  · obtain ⟨update, hupdate, hpath⟩ := List.mem_map.mp hmem
    have hparent := h update hupdate
    rw [hpath] at hparent
    revert hparent
    decide

theorem wantsTimer_written {script : Script Path Bytes PyError} (hkeys : script.keys = targets updates)
    (h : ∀ update ∈ updates.items, update.1.dropLast = secretsPath) : wantsTimer config (afterWrites script s) = wantsTimer config s := by
  have hnot : armedPath ∉ script.done := by
    intro hmem
    apply armedPath_not_target h
    rw [← hkeys]
    exact (Script.done_prefix_keys script).subset hmem
  have harmed : (afterWrites script s).files armedPath = s.files armedPath := Script.written_of_not_mem_done hnot
  unfold wantsTimer armed
  rw [harmed]

theorem undone_written_iff {script : Script Path Bytes PyError} (hkeys : script.keys = targets updates)
    (hputs : ∀ key content, .put key content ∈ script → IsText content) (timer : Bool) :
    s.Unsaved lib yaml updates (undone s.files (targets updates) { afterWrites script s with timer := timer }) ↔
      Restorable script s ∧ (s.timer = wantedTimer lib yaml s → timer = wantedTimer lib yaml s) := by
  have hdone : script.done <+: targets updates := hkeys ▸ Script.done_prefix_keys script
  have hundo := @Script.undo_written_iff _ _ _ _ script IsText _ s.files (targets updates) hdone hputs
  constructor
  · intro h
    exact ⟨hundo.1 h.files, h.timer⟩
  · intro h
    exact ⟨hundo.2 h.1, h.2⟩

/-- A step fails before the timer is set. -/
def FailsBefore (faults : Faults) (config : ApplianceConfig lib) (script : Script Path Bytes PyError) (s : Machine) : Prop :=
  script.fails = true ∨ ¬TimerSet faults config s

/-- A step fails after it. -/
def FailsAfter (faults : Faults) (previous : Option (ApplianceConfig lib)) (config : ApplianceConfig lib)
    (script : Script Path Bytes PyError) (s : Machine) : Prop :=
  script.fails = false ∧ TimerSet faults config s ∧ FinishFails faults previous config s

theorem wp_applyConfig (h : ∀ update ∈ updates.items, update.1.dropLast = secretsPath) :
    wp (do
        try applyConfig faults yaml reprFloat previous config updates
        catch e => do
          rollbackConfig yaml lib s.files updates
          throw e) (fun _ _ => True) (fun _ t => s.Unsaved lib yaml updates t) s ↔
      (FailsBefore faults config (saveScript faults yaml reprFloat config updates) s →
          Restorable (saveScript faults yaml reprFloat config updates) s) ∧
        (FailsAfter faults previous config (saveScript faults yaml reprFloat config updates) s →
          Restorable (saveScript faults yaml reprFloat config updates) s ∧
            (s.timer = wantedTimer lib yaml s → timerAfter faults config s = wantedTimer lib yaml s)) := by
  have hkeys := keys_saveScript faults yaml reprFloat config updates
  have hputs : ∀ key content, .put key content ∈ saveScript faults yaml reprFloat config updates → IsText content :=
    fun _ _ => isText_of_mem_saveScript faults yaml reprFloat
  rw [applyConfig_eq]
  generalize saveScript faults yaml reprFloat config updates = script at hkeys hputs ⊢
  have hhandler : ∀ (e : PyError) (t : Machine), wp (do rollbackConfig yaml lib s.files updates; throw e)
      (fun (_ : Unit) _ => True) (fun _ t => s.Unsaved lib yaml updates t) t ↔
        s.Unsaved lib yaml updates (undone s.files (targets updates) t) := by
    intro e t
    rw [wp_bind]
    exact wp_rollback
  have hactive : ∀ t : Machine, s.Unsaved lib yaml updates (undone s.files (targets updates) { t with active := false }) ↔
      s.Unsaved lib yaml updates (undone s.files (targets updates) t) :=
    fun t => ⟨fun h => ⟨h.files, h.timer⟩, fun h => ⟨h.files, h.timer⟩⟩
  have hbefore : s.Unsaved lib yaml updates (undone s.files (targets updates) (afterWrites script s)) ↔ Restorable script s := by
    have hsame := @undone_written_iff lib yaml updates s script hkeys hputs s.timer
    rw [and_iff_left id] at hsame
    exact hsame
  have hafter := @undone_written_iff lib yaml updates s script hkeys hputs (timerAfter faults config s)
  have hwants := @wantsTimer_written lib config updates s script hkeys h
  have hset : TimerSet faults config (afterWrites script s) ↔ TimerSet faults config s := by
    constructor
    · intro hset
      exact ⟨hset.reload, fun hw => hset.enable (hwants.trans hw)⟩
    · intro hset
      exact ⟨hset.reload, fun hw => hset.enable (hwants.symm.trans hw)⟩
  have htimer : timerAfter faults config (afterWrites script s) = timerAfter faults config s := by
    unfold timerAfter
    rw [hwants]
    rfl
  have hfinish : FinishFails faults previous config (afterWrites script s) ↔ FinishFails faults previous config s := by
    unfold FinishFails
    rw [hwants]
    rfl
  rw [wp_tryCatch]
  simp only [hhandler]
  rw [wp_bind]
  have hperform := @Script.wp_perform Path Bytes PyError Machine _ (fun files s => s.withFiles files) Machine.files
    (fun _ _ => rfl) (fun _ _ _ => rfl) (fun _ => rfl) script s
    (fun _ t => wp (finishSave faults previous config) (fun _ _ => True)
      (fun _ t => s.Unsaved lib yaml updates (undone s.files (targets updates) t)) t)
    (fun t => s.Unsaved lib yaml updates (undone s.files (targets updates) t))
  refine hperform.trans ?_
  show (_ → s.Unsaved lib yaml updates (undone s.files (targets updates) (afterWrites script s))) ∧
    (_ → wp _ _ _ (afterWrites script s)) ↔ _
  rw [wp_finishSave hactive, hbefore, hset, hfinish, htimer, hafter]
  unfold FailsBefore FailsAfter
  cases script.fails <;> simp

/-- A save that raises has changed nothing exactly if it has overwritten texts only, and has not set a
timer that was as the previous configuration wants it to something else. -/
theorem save_atomic_iff (faults : Faults) (yaml : Yaml String) (reprFloat : ℚ → String) (config : ApplianceConfig lib)
    (updates : SecretWrites) (s : Machine) :
    Atomic (Machine.Unsaved lib yaml updates) (saveConfig faults yaml reprFloat config updates) s ↔
      ∀ previous : Option (ApplianceConfig lib), Begun faults yaml updates s previous →
        (FailsBefore faults config (saveScript faults yaml reprFloat config updates) s →
            Restorable (saveScript faults yaml reprFloat config updates) s) ∧
          (FailsAfter faults previous config (saveScript faults yaml reprFloat config updates) s →
            Restorable (saveScript faults yaml reprFloat config updates) s ∧
              (s.timer = wantedTimer lib yaml s → timerAfter faults config s = wantedTimer lib yaml s)) := by
  have hself : s.Unsaved lib yaml updates s := ⟨fun _ _ => rfl, id⟩
  have hbegun : ∀ previous : Option (ApplianceConfig lib), Begun faults yaml updates s previous ↔
      faults .requireRoot = none ∧ faults .lock = none ∧ faults .validateHost = none ∧
        loadPrevious yaml (s.files configPath) = .ok previous ∧ faults .readFiles = none ∧
          (updates.items.all fun update => update.1.dropLast == secretsPath) = true := by
    intro previous
    simp only [List.all_eq_true, beq_iff_eq]
    exact ⟨fun h => ⟨h.requireRoot, h.lock, h.validateHost, h.previous, h.readFiles, h.beneath⟩,
      fun h => ⟨h.1, h.2.1, h.2.2.1, h.2.2.2.1, h.2.2.2.2.1, h.2.2.2.2.2⟩⟩
  unfold Atomic saveConfig
  simp only [wp_bind, wp_attempt_const, wp_get, wp_ofResult, hbegun]
  by_cases hroot : faults .requireRoot = none
  swap
  · simp [hroot, hself]
  by_cases hlock : faults .lock = none
  swap
  · simp [hroot, hlock, hself]
  by_cases hvalidate : faults .validateHost = none
  swap
  · simp [hroot, hlock, hvalidate, hself]
  cases hprevious : (loadPrevious yaml (s.files configPath) : Except PyError (Option (ApplianceConfig lib))) with
  | error e => simp [hroot, hlock, hvalidate, hself]
  | ok previous =>
    by_cases hread : faults .readFiles = none
    swap
    · simp [hroot, hlock, hvalidate, hread, hself]
    cases hall : updates.items.all fun update => update.1.dropLast == secretsPath with
    | false => simp [hroot, hlock, hvalidate, hread, hself]
    | true =>
      have hbeneath : ∀ update ∈ updates.items, update.1.dropLast = secretsPath := by
        simpa only [List.all_eq_true, beq_iff_eq] using hall
      have happly := @wp_applyConfig lib faults yaml reprFloat previous config updates s hbeneath
      simp only [hroot, hlock, hvalidate, hread, true_implies, ne_eq, not_true_eq_false, false_implies, true_and,
        reduceCtorEq, implies_true, Except.ok.injEq, forall_eq', Bool.not_true, onlyIf_false, wp_pure, and_true]
      exact happly

end Atomicity

/-- Files that hold their documents in some form. -/
def textYaml : Yaml String := ⟨Json.text, Json.ofText, Json.ofText_text⟩

def binarySecret : Path := secretsPath ++ ["rclone.conf"]

/-- A secret that is no text, and the services do not accept the new configuration. -/
def holdingBinary : Machine where
  files := Store.empty.put binarySecret [255]
  active := false
  timer := false
  loads _ := .ok ()

def composeFails : Faults
  | .composeConfig => some (.runtime "docker compose config failed")
  | _ => none

def replaced : SecretWrites := ⟨[(binarySecret, "token")], by decide⟩

theorem renderFault_standard : renderFault (fun _ => "") (standardConfig plainLibraries) = none := by
  have hvalues : ∀ item ∈ (standardConfig plainLibraries).environment (fun _ => ""), isLineValue item.2 = true := by
    simp only [ApplianceConfig.environment, List.forall_mem_cons]
    and_intros <;> first | exact isLineValue_ofList rfl | exact List.forall_mem_nil _ | decide +kernel
  obtain ⟨text, htext⟩ := renderEnvironment_isOk_iff.2 (isLineValue_runtimeEnvironment hvalues)
  rw [renderFault, htext]

theorem not_isText_binary : ¬IsText [255] := by
  decide +kernel

/-- The bytes of the secret are not put back. -/
theorem binary_secret_lost : ¬ ∀ (lib : Libraries) (faults : Faults) (yaml : Yaml String) (reprFloat : ℚ → String)
    (config : ApplianceConfig lib) (updates : SecretWrites) (s : Machine),
    Atomic (Machine.Unsaved lib yaml updates) (saveConfig faults yaml reprFloat config updates) s := by
  intro h
  have hatomic := h plainLibraries composeFails textYaml (fun _ => "") (standardConfig plainLibraries) replaced holdingBinary
  rw [save_atomic_iff] at hatomic
  have hbegun : Begun composeFails textYaml replaced holdingBinary (none : Option (ApplianceConfig plainLibraries)) :=
    ⟨rfl, rfl, rfl, rfl, rfl, by decide⟩
  have hrestorable := (hatomic none hbegun).1
  unfold saveScript at hrestorable
  rw [renderFault_standard] at hrestorable
  have hbinary := hrestorable (.inl rfl) binarySecret (by simp [Script.done, writeItems, composeFails, secretScript, replaced]) [255] rfl
  exact not_isText_binary hbinary

end Mnema.Appliance
