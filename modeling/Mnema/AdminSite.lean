import Mnema.Passwords
import Mnema.Uploads
import Mnema.Lib.History
import Mnema.Lib.Store

/-! The administration site, and the commands that share its settings: `runtime_settings` as the
requests, the worker and the command line read and write it, one transaction at a time. -/

namespace Mnema.Admin

open Mnema

/-- `request.session`. -/
structure Session where
  csrf : Option String := none
  authenticated : Bool := false
deriving DecidableEq, Repr

inductive Response where
  | page (name : String)
  | redirect (location : String)
  | error (status : Nat) (detail : String)
  | health (status : String)
deriving DecidableEq, Repr

/-- An `HTTPException`, or any other exception. -/
inductive Fault where
  | http (status : Nat) (detail : String)
  | internal
deriving DecidableEq, Repr

inductive Op where
  | validateAccess (token : String)
  | session
  | respond (response : Response) (cookie : Option Session)
  | setting (key : String)
  | store (values : List (String × String))
  | onboardingToken
  | isDir (path : String)
  | separate (active backup : String)
  | resolve (path : String)
  | buildWorkflow
  | coldAvailable
  | csrfToken
  | urandom
  | content (page : String)
  | archive (policy : SourcePolicy)
  | restoreTest (itemId : Nat) (copyName : String)
  | audit (eventType : String)
  | startupHealthy
  | integrityCheck
  | execute (manifestId : Nat) (digest : String) (gatesReady : Bool)

abbrev Op.Value : Op → Type
  | .session => Session
  | .setting _ => Option String
  | .onboardingToken => Option String
  | .isDir _ => Bool
  | .separate _ _ => Bool
  | .resolve _ => String
  | .coldAvailable => Bool
  | .csrfToken => String
  | .urandom => Salt
  | .restoreTest _ _ => Except (Nat × String) String
  | .startupHealthy => Bool
  | .integrityCheck => Bool
  | .execute _ _ _ => Bool
  | _ => Unit

/-- Any call may raise. -/
abbrev Op.Ans (o : Op) : Type := Option o.Value

abbrev Handler := Prog Op Op.Ans Fault

def ask (o : Op) : Handler o.Value := do
  match ← Prog.op o with
  | some a => pure a
  | none => throw .internal

def refuse (c : Bool) (status : Nat) (detail : String) : Handler Unit :=
  if c then throw (.http status detail) else pure ()

/-- The settings that the site reads. -/
structure SiteSettings where
  cloudflareAccessRequired : Bool := false
  sourceRoot : String := "/data/test-source"
deriving DecidableEq, Repr

/-- What pydantic and `int` make of texts. -/
structure Libraries where
  integer : String → Option Int
  boolean : String → Option Bool
  int : String → Option Int
  dump : SourcePolicy → String
  load : String → Option SourcePolicy

structure SetupForm where
  adminName : String
  password : String
  onboardingToken : String
  activeRoot : String
  backupRoot : String
  csrf : String
deriving DecidableEq, Repr

structure PolicyForm where
  archiveAfterDays : String
  stabilityWindowHours : String
  quarantineDays : String
  minimumFileSize : String
  maximumFileSize : String := ""
  dryRun : String := "false"
  manualApproval : String := "false"
  csrf : String
deriving DecidableEq, Repr

def between (low high : Nat) (s : String) : Bool := low ≤ s.length && s.length ≤ high

/-- The bounds of `Form`. -/
def SetupForm.valid (form : SetupForm) : Bool :=
  between 1 100 form.adminName && between 12 256 form.password && between 16 256 form.onboardingToken

inductive Endpoint where
  | healthz
  | setup
  | setupSubmit (form : SetupForm)
  | login
  | loginSubmit (password csrf : String)
  | logout (csrf : String)
  | page (name : String)
  | savePolicy (form : PolicyForm)
  | archiveSource (csrf : String)
  | testRestore (itemId : Nat) (copyName csrf : String)
  | emergencyPause (csrf : String)
deriving DecidableEq, Repr

/-- The token that a form carries. -/
def Endpoint.csrf : Endpoint → Option String
  | .setupSubmit form => some form.csrf
  | .loginSubmit _ csrf => some csrf
  | .logout csrf => some csrf
  | .savePolicy form => some form.csrf
  | .archiveSource csrf => some csrf
  | .testRestore _ _ csrf => some csrf
  | .emergencyPause csrf => some csrf
  | _ => none

structure Request where
  endpoint : Endpoint
  client : Option String := none
  accessToken : String := ""
deriving DecidableEq, Repr

def pages : List String :=
  ["dashboard", "sources", "storage", "policies", "jobs", "archive", "quarantine", "restores",
    "audit", "settings", "diagnostics"]

/-- Two keys are closed, and a third says that the site has its administrator. -/
def deletionKey : String := "global_deletion_enabled"
def lockKey : String := "safety_lock"
def policyKey : String := "archive_policy"
def hashKey : String := "admin_password_hash"
def completeKey : String := "onboarding_complete"

section Handlers

variable (lib : Libraries) (scrypt : Scrypt) (config : SiteSettings)

/-- `context`: the session has a token when the page is made. -/
def context (session : Session) : Handler Session :=
  if session.csrf.getD "" = "" then do
    let token ← ask .csrfToken
    pure { session with csrf := some token }
  else pure session

def requireCsrf (session : Session) (token : String) : Handler Unit :=
  let expected := session.csrf.getD ""
  if expected = "" then throw (.http 403 "CSRF validation failed")
  else match compareDigest expected token with
    | none => throw .internal
    | some false => throw (.http 403 "CSRF validation failed")
    | some true => pure ()

def requireLogin (session : Session) : Handler Unit :=
  refuse (!session.authenticated) 401 "authentication required"

def runtimeValue (key default : String) : Handler String := do
  let value : Option String ← ask (.setting key)
  pure (value.getD default)

def setRuntimeValue (key value : String) : Handler Unit := ask (.store [(key, value)])

def archivePolicy : Handler SourcePolicy := do
  let value ← runtimeValue policyKey ""
  if value = "" then pure {}
  else match lib.load value with
    | some policy => pure policy
    | none => throw .internal

def render (name : String) (session : Session) : Handler (Response × Session) := do
  let session ← context session
  pure (.page name, session)

def health (session : Session) : Handler (Response × Session) := do
  let ok : Bool ← ask .integrityCheck
  pure (.health (if ok then "ok" else "unhealthy"), session)

def setup (session : Session) : Handler (Response × Session) := do
  let complete : Option String ← ask (.setting completeKey)
  if complete = some "true" then pure (.redirect "/login", session)
  else render "setup" session

/-- The settings of the last transaction of `setup_submit`. -/
def setupValues (form : SetupForm) (salt : Bytes) (active backup : String) : List (String × String) :=
  [("admin_name", form.adminName), (hashKey, scrypt.encoded form.password salt),
    ("active_root", active), ("backup_root", backup), (deletionKey, "false"), (lockKey, "true"),
    (policyKey, lib.dump {}), (completeKey, "true")]

def checkToken (expected token : String) : Handler Unit :=
  match compareDigest expected token with
  | none => throw .internal
  | some ok => refuse (!ok) 403 "invalid onboarding token"

/-- `setup_submit` up to its check of the onboarding token. -/
def mayOnboard (form : SetupForm) (session : Session) : Handler Unit := do
  requireCsrf session form.csrf
  let complete : Option String ← ask (.setting completeKey)
  refuse (complete == some "true") 409 "onboarding is already complete"
  let file : Option String ← ask .onboardingToken
  refuse file.isNone 503 "onboarding token is unavailable"
  checkToken (strip (file.getD "")) form.onboardingToken

/-- The checks of `setup_submit` on the storage, up to its one `await`. -/
def usableStorage (form : SetupForm) : Handler Unit := do
  let active : Bool ← ask (.isDir form.activeRoot)
  refuse (!active) 400 "storage paths must exist"
  let backup : Bool ← ask (.isDir form.backupRoot)
  refuse (!backup) 400 "storage paths must exist"
  let separate : Bool ← ask (.separate form.activeRoot form.backupRoot)
  refuse (!separate) 400 "active and backup storage must use different devices"
  let source : Bool ← ask (.isDir config.sourceRoot)
  refuse (!source) 400 "local test source path must exist"
  ask .buildWorkflow
  let available : Bool ← ask .coldAvailable
  refuse (!available) 503 "test object storage is unavailable"

def setupSubmit (form : SetupForm) (session : Session) : Handler (Response × Session) := do
  refuse (!form.valid) 422 "invalid form"
  mayOnboard form session
  usableStorage config form
  let salt ← ask .urandom
  let active ← ask (.resolve form.activeRoot)
  let backup ← ask (.resolve form.backupRoot)
  ask (.store (setupValues lib scrypt form salt.bytes active backup))
  render "setup" session

def loginSubmit (password csrf : String) (session : Session) : Handler (Response × Session) := do
  requireCsrf session csrf
  let stored : Option String ← ask (.setting hashKey)
  match stored with
  | none => throw (.http 401 "invalid credentials")
  | some encoded => do
    let random ← ask .urandom
    match scrypt.verifyPassword random password encoded with
    | none => throw .internal
    | some false => throw (.http 401 "invalid credentials")
    | some true => do
      let token ← ask .csrfToken
      pure (.redirect "/dashboard", ⟨some token, true⟩)

def logout (csrf : String) (session : Session) : Handler (Response × Session) := do
  requireLogin session
  requireCsrf session csrf
  pure (.redirect "/login", {})

/-- The reading of the policy or of the switches that some pages show. -/
def pageSettings (name : String) : Handler Unit :=
  if name = "sources" ∨ name = "policies" then (archivePolicy lib).void
  else if name = "settings" then do
    let _ ← runtimeValue deletionKey "false"
    let _ ← runtimeValue lockKey "true"
    pure ()
  else pure ()

def page (name : String) (session : Session) : Handler (Response × Session) := do
  refuse (!pages.contains name) 404 "Not Found"
  if session.authenticated then do
    ask (.content name)
    pageSettings lib name
    render name session
  else pure (.redirect "/login", session)

/-- `int(maximum_file_size)`, where the field is not blank. -/
def maximumSize (text : String) : Handler (Option Nat) :=
  if strip text = "" then pure none
  else match lib.int text with
    | none => throw (.http 422 "maximum file size must be an integer")
    | some n =>
      if n < 1 then throw (.http 422 "maximum file size must be positive") else pure (some n.toNat)

/-- The fields that FastAPI parses, with the bounds of `Form`. -/
def PolicyForm.parsed (form : PolicyForm) : Option SourcePolicy := do
  let archiveAfterDays ← lib.integer form.archiveAfterDays
  let stabilityWindowHours ← lib.integer form.stabilityWindowHours
  let quarantineDays ← lib.integer form.quarantineDays
  let minimumFileSize ← lib.integer form.minimumFileSize
  let dryRun ← lib.boolean form.dryRun
  let manualApproval ← lib.boolean form.manualApproval
  if 0 ≤ archiveAfterDays ∧ archiveAfterDays ≤ 36500 ∧ 0 ≤ stabilityWindowHours ∧
      stabilityWindowHours ≤ 8760 ∧ 1 ≤ quarantineDays ∧ quarantineDays ≤ 3650 ∧ 0 ≤ minimumFileSize then
    some {
      archiveAfterDays := archiveAfterDays.toNat
      stabilityWindowHours := stabilityWindowHours.toNat
      quarantineDays := quarantineDays.toNat
      minimumFileSize := minimumFileSize.toNat
      dryRun, manualApproval
      deletionEnabled := false }
  else none

def savePolicy (form : PolicyForm) (session : Session) : Handler (Response × Session) :=
  match form.parsed lib with
  | none => throw (.http 422 "invalid form")
  | some policy => do
    requireLogin session
    requireCsrf session form.csrf
    let maximum ← maximumSize lib form.maximumFileSize
    setRuntimeValue policyKey (lib.dump { policy with maximumFileSize := maximum })
    pure (.redirect "/policies?saved=1", session)

def archiveSource (csrf : String) (session : Session) : Handler (Response × Session) := do
  requireLogin session
  requireCsrf session csrf
  let policy ← archivePolicy lib
  refuse policy.dryRun 409 "disable dry-run before starting an archive"
  ask .buildWorkflow
  ask (.archive policy)
  pure (.redirect "/archive", session)

def testRestore (itemId : Nat) (copyName csrf : String) (session : Session) :
    Handler (Response × Session) := do
  requireLogin session
  requireCsrf session csrf
  refuse (copyName != "local" && copyName != "remote") 404 "unknown restore copy"
  let _ ← archivePolicy lib
  ask .buildWorkflow
  match ← ask (.restoreTest itemId copyName) with
  | .ok location => pure (.redirect location, session)
  | .error (status, detail) => throw (.http status detail)

def emergencyPause (csrf : String) (session : Session) : Handler (Response × Session) := do
  requireLogin session
  requireCsrf session csrf
  setRuntimeValue deletionKey "false"
  setRuntimeValue lockKey "true"
  ask (.audit "emergency_pause")
  pure (.redirect "/settings?paused=1", session)

def handle : Endpoint → Session → Handler (Response × Session)
  | .healthz => health
  | .setup => setup
  | .setupSubmit form => setupSubmit lib scrypt config form
  | .login => render "login"
  | .loginSubmit password csrf => loginSubmit scrypt password csrf
  | .logout csrf => logout csrf
  | .page name => page lib name
  | .savePolicy form => savePolicy lib form
  | .archiveSource csrf => archiveSource lib csrf
  | .testRestore itemId copyName csrf => testRestore lib itemId copyName csrf
  | .emergencyPause csrf => emergencyPause csrf

/-- `SessionMiddleware`: an `HTTPException` is a response with the session of the request; after
any other exception no cookie is sent. -/
def withSession (handler : Session → Handler (Response × Session)) : Handler Unit := do
  let session ← ask .session
  let (response, session) ← tryCatch (handler session) fun
    | .http status detail => pure (.error status detail, session)
    | .internal => throw .internal
  ask (.respond response (if session = {} then none else some session))

def Request.isLocalProbe (r : Request) : Bool :=
  r.endpoint == .healthz && (r.client == some "127.0.0.1" || r.client == some "::1")

/-- `CloudflareAccessMiddleware` around the site. -/
def serve (r : Request) : Handler Unit :=
  if config.cloudflareAccessRequired && !r.isLocalProbe then
    if r.accessToken = "" then ask (.respond (.error 403 "Cloudflare Access authentication required") none)
    else do
      match ← Prog.op (.validateAccess r.accessToken) with
      | none => ask (.respond (.error 403 "Cloudflare Access authentication required") none)
      | some _ => withSession (handle lib scrypt config r.endpoint)
  else withSession (handle lib scrypt config r.endpoint)

inductive Command where
  | applyPolicy (archiveAfterDays stabilityWindowHours quarantineDays : Nat)
  | pauseDeletion
  | resumeDeletion
  | approve (manifestId : Nat) (digest : String)
  | worker
deriving DecidableEq, Repr

def applyPolicy (archiveAfterDays stabilityWindowHours quarantineDays : Nat) : Handler Unit := do
  refuse (36500 < archiveAfterDays || 8760 < stabilityWindowHours || quarantineDays < 1 ||
    3650 < quarantineDays) 2 "Invalid value"
  setRuntimeValue policyKey (lib.dump
    { archiveAfterDays, stabilityWindowHours, quarantineDays, dryRun := true, manualApproval := true
      deletionEnabled := false })
  setRuntimeValue deletionKey "false"
  setRuntimeValue lockKey "true"

def pauseDeletion : Handler Unit := do
  setRuntimeValue deletionKey "false"
  setRuntimeValue lockKey "true"

def resumeDeletion : Handler Unit := do
  let healthy : Bool ← ask .startupHealthy
  refuse (!healthy) 2 "Refused: startup safety prerequisites failed."
  setRuntimeValue deletionKey "true"
  setRuntimeValue lockKey "false"

/-- `gates_ready`, from left to right. -/
def gatesReady : Handler Bool := do
  let healthy : Bool ← ask .startupHealthy
  ask .buildWorkflow
  if healthy then do
    let available : Bool ← ask .coldAvailable
    if available then do
      let enabled ← runtimeValue deletionKey "false"
      if enabled = "true" then do
        let lock ← runtimeValue lockKey "true"
        pure (lock == "false")
      else pure false
    else pure false
  else pure false

/-- Both switches are closed in one transaction. -/
def closeSwitches : Handler Unit := ask (.store [(deletionKey, "false"), (lockKey, "true")])

/-- `icloud-cleanup-approve-internal`. `execute` tells whether the result of a deletion is unclear;
then `_manual_review` commits the switches closed, and `execute` raises. -/
def approve (manifestId : Nat) (digest : String) : Handler Unit := do
  let ready ← gatesReady
  let unclear : Bool ← ask (.execute manifestId digest ready)
  if unclear then do
    closeSwitches
    throw (.http 2 "Refused: iCloud deletion result requires manual review")
  else pure ()

/-- The start of `Worker.run`. -/
def worker : Handler Unit := do
  let healthy : Bool ← ask .startupHealthy
  if healthy then pure ()
  else do
    closeSwitches
    throw .internal

def command : Command → Handler Unit
  | .applyPolicy a s q => applyPolicy lib a s q
  | .pauseDeletion => pauseDeletion
  | .resumeDeletion => resumeDeletion
  | .approve manifestId digest => approve manifestId digest
  | .worker => worker

end Handlers

/-- A request or a command; the number tells equal ones apart. -/
inductive Task where
  | web (n : Nat) (request : Request)
  | command (n : Nat) (command : Command)
deriving DecidableEq, Repr

abbrev Log := History Task Op Op.Ans

/-- What a call wrote to the settings; a transaction that raised was rolled back. -/
def written : Tasks.Entry Task Op Op.Ans → List (String × String)
  | ⟨_, .store values, some _⟩ => values
  | _ => []

def settings (log : Log) : Store String String :=
  log.foldl (fun s e => (written e).foldl (fun s v => s.put v.1 v.2) s) .empty

/-- A request presents no session, or one that a response has carried: the cookie is signed. -/
def Presents (log : Log) (session : Session) : Prop :=
  session = {} ∨ ∃ e ∈ log, ∃ response, e.op = .respond response (some session)

def allows (log : Log) : (o : Op) → o.Ans → Prop
  | .session, some session => Presents log session
  | .setting key, some value => settings log key = value
  | .execute _ _ ready, some unclear => unclear = true → ready = true
  | _, _ => True

/-- The site with the commands, on a database that starts empty. -/
def site (lib : Libraries) (scrypt : Scrypt) (config : SiteSettings) : Tasks Task Op Op.Ans Fault Unit where
  program
    | .web _ r => serve lib scrypt config r
    | .command _ c => command lib c
  allows := fun log _ o a => allows log o a

end Mnema.Admin
