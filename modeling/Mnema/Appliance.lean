import Mnema.States
import Mnema.Lib.Effect

/-! The service of an appliance and the commands that start and stop it. Any step of a command may
fail; what stands in an `except` block may not. -/

namespace Mnema.Appliance

/-- The steps of the administration commands that may fail by themselves. -/
inductive Step where
  | requireRoot
  | hashArchive
  | lock
  | makeDirectory
  | extract
  | copyEnvironment
  | linkSecrets
  | composeConfig
  | tagRollback
  | build
  | tagRelease
  | stopService
  | makeBackups
  | backupDatabase
  | backupArchive
  | replaceInstalled
  | replaceStaged
  | writeMetadata
  | refreshCli
  | readMetadata
  | replacePrevious
  | tagImage
  | unlinkMetadata
  | startService
  | waitForHealth
  | verifyServices
  | coldStorageCheck
  | runtimePolicy
  -- a file is written up to the rename, and then its directory
  | write (path : List String)
  | sync (path : List String)
  | createDirectory (path : List String)
  | changeOwner (path : List String)
  | validateHost
  | readFiles
  | daemonReload
  | enableTimer
  | startTimer
  | disableTimer
  | restart
deriving DecidableEq, Repr

/-- What the steps that fail raise. -/
abbrev Faults := Step → Option PyError

open Effect

variable {σ : Type}

/-- What follows the start of the service while there is a configuration. -/
def checkStarted (faults : Faults) : Option (Except PyError Unit) → Effect σ PyError Unit
  | none => pure ()
  | some config => do
    ofResult config
    attempt (faults .waitForHealth)
    attempt (faults .verifyServices)
    attempt (faults .coldStorageCheck)
    attempt (faults .runtimePolicy)

/-- The checks of a started service fail. -/
def Unhealthy (faults : Faults) (config : Option (Except PyError Unit)) : Prop :=
  ∃ loaded, config = some loaded ∧ (loaded ≠ .ok () ∨ faults .waitForHealth ≠ none ∨
    faults .verifyServices ≠ none ∨ faults .coldStorageCheck ≠ none ∨ faults .runtimePolicy ≠ none)

section Checks

variable {faults : Faults} {s : σ} {Q : Unit → σ → Prop} {P : σ → Prop} {loaded : Option (Except PyError Unit)}

theorem wp_checkStarted :
    wp (checkStarted faults loaded) Q (fun _ => P) s ↔
      (Unhealthy faults loaded → P s) ∧ (¬Unhealthy faults loaded → Q () s) := by
  cases loaded with
  | none => simp [checkStarted, Unhealthy]
  | some loaded =>
    have hfails : Unhealthy faults (some loaded) ↔ loaded ≠ .ok () ∨ faults .waitForHealth ≠ none ∨
        faults .verifyServices ≠ none ∨ faults .coldStorageCheck ≠ none ∨ faults .runtimePolicy ≠ none := by
      simp [Unhealthy]
    rw [hfails]
    cases loaded with
    | error e => simp [checkStarted, ofResult]
    | ok u =>
      simp only [checkStarted, ofResult, wp_bind, wp_pure, wp_attempt_const]
      by_cases hhealth : faults .waitForHealth = none <;> by_cases hservices : faults .verifyServices = none <;>
        by_cases hcold : faults .coldStorageCheck = none <;> by_cases hpolicy : faults .runtimePolicy = none <;>
          simp [hhealth, hservices, hcold, hpolicy]

end Checks

/-- A state that the service is part of, with what `load_config` says of `config.yaml` if it is a file. -/
class HasService (σ : Type) where
  running : σ → Bool
  withRunning : σ → Bool → σ
  config : σ → Option (Except PyError Unit)

variable [HasService σ]

open HasService

def isActive : Effect σ PyError Bool := do
  return running (← get)

/-- `stop`; the import is stopped before, and that may fail. -/
def stop (fault : Option PyError) : Effect σ PyError Unit := do
  attempt fault
  modify fun s => withRunning s false

def start (faults : Faults) : Effect σ PyError Unit := do
  attempt (faults .startService)
  modify fun s => withRunning s true
  try
    checkStarted faults (config (← get))
  catch e =>
    stop none
    throw e

/-- `_start_rollback_stack`. -/
def startRollbackStack : Effect σ PyError Unit := modify fun s => withRunning s true

section Rules

variable {faults : Faults} {s : σ} {Q : Unit → σ → Prop} {P : σ → Prop}

@[simp] theorem wp_isActive {Q : Bool → σ → Prop} {E : PyError → σ → Prop} :
    wp (isActive : Effect σ PyError Bool) Q E s ↔ Q (running s) s := Iff.rfl

theorem wp_stop {fault : Option PyError} :
    wp (stop fault) Q (fun _ => P) s ↔ (fault ≠ none → P s) ∧ (fault = none → Q () (withRunning s false)) := by
  unfold stop
  rw [wp_bind, wp_attempt_const]
  rfl

/-- A start that fails leaves the service stopped, whether it came up or not. -/
theorem wp_start (hset : ∀ r r', withRunning (withRunning s r) r' = withRunning s r')
    (hconfig : ∀ r, config (withRunning s r) = config s) (hstopped : withRunning s false = s) :
    wp (start faults) Q (fun _ => P) s ↔
      (faults .startService ≠ none ∨ Unhealthy faults (config s) → P s) ∧
        (¬(faults .startService ≠ none ∨ Unhealthy faults (config s)) → Q () (withRunning s true)) := by
  unfold start
  rw [wp_bind, wp_attempt_const]
  simp only [wp_bind, wp_modify, wp_tryCatch, wp_get, wp_throw, hconfig]
  rw [wp_checkStarted]
  simp only [wp_stop, hset, hstopped]
  by_cases hstart : faults .startService = none <;> simp [hstart]

end Rules

end Mnema.Appliance
