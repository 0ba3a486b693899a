import Mnema.Config
import Mathlib.Logic.Relation

/-! The commands of `mnema configure`: what each one builds from the stored configuration, the
options it is given and the answers at the terminal, and how the result is saved. -/

namespace Mnema

/-- Who runs a command: the answers to its prompts, and the files that its options name. -/
structure Terminal where
  prompt : String → Option String → Except String String
  choose : String → List String → String → Except String String
  promptInt : String → Int → Except String Int
  confirm : String → Bool → Except String Bool
  isFile : PurePath → Bool
  readText : PurePath → Except String String

/-- `value or typer.prompt(text, default)`. -/
def Terminal.orPrompt (terminal : Terminal) (value : Option String) (text default : String) :
    Except String String :=
  if blank value then terminal.prompt text (some default) else .ok (value.getD "")

/-- `value or default`. -/
def orText (value : Option String) (default : String) : String :=
  if blank value then default else value.getD ""

/-- `value or default`, of an optional number. -/
def orNumber {α : Type} [OfNat α 0] [DecidableEq α] (value : Option α) (default : α) : α :=
  match value with
  | some n => if n = 0 then default else n
  | none => default

abbrev SecretUpdates := List (PurePath × String)

/-! ### Prompts -/

section Prompts

variable {lib : Libraries} (secrets : PurePath) (terminal : Terminal)

def promptStorage (current : StorageConfig) : Except String StorageConfig.rule.Valid := do
  let activeRoot ← terminal.prompt "Active storage mount" current.activeRoot.str
  let backupRoot ← terminal.prompt "Backup storage mount" current.backupRoot.str
  let sourceRoot ← terminal.prompt "Source directory" current.sourceRoot.str
  StorageConfig.rule.validate
    { activeRoot := .ofString activeRoot
      backupRoot := .ofString backupRoot
      sourceRoot := .ofString sourceRoot }

def secretFileUpdate (source destination : PurePath) : Except String SecretUpdates := do
  if !terminal.isFile source then
    throw ("secret source file does not exist: " ++ source.str)
  let text ← terminal.readText source
  let content := strip text
  if content == "" then
    throw ("secret source file is empty: " ++ source.str)
  return [(destination, content ++ "\n")]

/-- The branch of `_prompt_cold_storage` for rclone. -/
def promptRclone (current : ColdStorageConfig) :
    Except String ((ColdStorageConfig.rule lib).Valid × SecretUpdates) := do
  let target := secrets.join "rclone.conf"
  let reuse ← if terminal.isFile target then
      terminal.confirm ("Reuse existing " ++ target.str ++ "?") true
    else pure false
  let updates ← if reuse then pure [] else do
    let source ← terminal.prompt "Path to existing rclone config file" none
    secretFileUpdate terminal (.ofString source) target
  let rcloneRemoteRoot ← terminal.prompt "rclone remote root"
    (some (orText (some current.rcloneRemoteRoot) "remote:mnema"))
  let cold ← (ColdStorageConfig.rule lib).validate
    { transport := .rclone, rcloneRemoteRoot, rcloneConfigFile := target }
  return (cold, updates)

/-- The region and the endpoint of the chosen provider. -/
def promptRegion (current : ColdStorageConfig) (provider : String) : Except String (String × String) := do
  if provider == "scaleway" then
    let default := if ["fr-par", "nl-ams"].contains current.s3Region then current.s3Region else "fr-par"
    let region ← terminal.choose "Scaleway Glacier region" ["fr-par", "nl-ams"] default
    return (region, scalewayEndpoint region)
  else
    let region ← terminal.prompt "S3 region" (some current.s3Region)
    let endpoint ← terminal.prompt "S3 endpoint URL" (some current.s3EndpointUrl)
    return (region, endpoint)

/-- The branch of `_prompt_cold_storage` for direct S3. -/
def promptS3 (current : ColdStorageConfig) :
    Except String ((ColdStorageConfig.rule lib).Valid × SecretUpdates) := do
  let provider ← terminal.choose "S3 provider" ["scaleway", "generic"] current.provider.name
  let (region, endpoint) ← promptRegion terminal current provider
  let accessKey ← terminal.prompt "S3 access key" none
  let secretKey ← terminal.prompt "S3 secret key" none
  if strip accessKey == "" || strip secretKey == "" then
    throw "S3 credentials cannot be empty"
  let bucket ← terminal.prompt "S3 bucket" (some (orText (some current.s3Bucket) "mnema"))
  let provider ← S3Provider.ofName provider
  let cold ← (ColdStorageConfig.rule lib).validate
    { transport := .s3
      provider
      s3EndpointUrl := endpoint
      s3Region := region
      s3Bucket := bucket
      s3AccessKeyFile := secrets.join "s3_access_key"
      s3SecretKeyFile := secrets.join "s3_secret_key" }
  return (cold, [(secrets.join "s3_access_key", strip accessKey ++ "\n"),
    (secrets.join "s3_secret_key", strip secretKey ++ "\n")])

def promptColdStorage (current : ColdStorageConfig) :
    Except String ((ColdStorageConfig.rule lib).Valid × SecretUpdates) := do
  let transport ← terminal.choose "Cold-storage transport" ["rclone", "s3"] current.transport.name
  let integrationMinio ← terminal.confirm
    "Use local MinIO integration storage (not off-site backup)?" current.integrationMinio
  if transport == "rclone" && !integrationMinio then
    promptRclone secrets terminal current
  else if integrationMinio then
    let cold ← (ColdStorageConfig.rule lib).validate { transport := .s3, integrationMinio := true }
    return (cold, [])
  else promptS3 secrets terminal current

def tunnelQuestion : String := "Enable Cloudflare Tunnel for Mnema admin?"

def promptCloudflare (current : CloudflareConfig) :
    Except String ((CloudflareConfig.rule lib).Valid × Option String) := do
  let enabled ← terminal.confirm tunnelQuestion current.enabled
  if !enabled then
    let cloudflare ← (CloudflareConfig.rule lib).validate { enabled := false }
    return (cloudflare, none)
  let teamDomain ← terminal.prompt "Cloudflare Access team domain"
    (some (orText (some current.teamDomain) "https://team.cloudflareaccess.com"))
  let audience ← terminal.prompt "Cloudflare Access application audience" (some current.audience)
  let hostname ← terminal.prompt "Public Mnema admin hostname"
    (some (orText (some current.adminHostname) "admin.example.com"))
  let token ← terminal.prompt "Existing tunnel token" none
  let cloudflare ← (CloudflareConfig.rule lib).validate
    { enabled := true
      teamDomain := rstripSlash teamDomain
      audience
      adminHostname := hostname
      tunnelTokenFile := current.tunnelTokenFile }
  return (cloudflare, some token)

def cloudflareTokenUpdate (token : String) : Except String SecretUpdates :=
  if (strip token).toList.length < 32 || hasSpace (strip token) then
    .error "Cloudflare tunnel token is malformed"
  else .ok [(secrets.join "cloudflare_tunnel_token", strip token ++ "\n")]

/-- `secret_updates` of a token, where there is one. -/
def tokenUpdates (token : Option String) : Except String SecretUpdates :=
  match token with
  | some token => cloudflareTokenUpdate secrets token
  | none => pure []

def promptFileProvider (current : FileProviderConfig) (cloudflare : CloudflareConfig) :
    Except String (FileProviderConfig.rule lib).Valid := do
  let enabled ← terminal.confirm "Enable iPhone File Provider?" current.enabled
  if !enabled then
    (FileProviderConfig.rule lib).validate { enabled := false }
  else if !cloudflare.enabled then
    throw "File Provider internet access requires Cloudflare Tunnel"
  else
    let publicUrl ← terminal.prompt "Public File Provider URL"
      (some (orText (some current.publicUrl) "https://files.example.com"))
    (FileProviderConfig.rule lib).validate
      { current with enabled := true, publicUrl }

def promptICloud (current : ICloudConfig) : Except String (ICloudConfig.rule lib).Valid := do
  let enabled ← terminal.confirm "Enable read-only iCloud Photos archiving?" current.enabled
  if !enabled then
    (ICloudConfig.rule lib).validate { enabled := false }
  else
    let accepted ← terminal.confirm
      "I understand and have applied these Apple account requirements." false
    if !accepted then
      throw "iCloud setup stopped because Apple account requirements were not accepted"
    let capacityReliefEnabled ← terminal.confirm
      "Enable guarded capacity-relief proposals at 90% iCloud usage?" current.capacityReliefEnabled
    let appleId ← terminal.prompt "Dedicated Apple ID" (some current.appleId)
    let dailyAt ← terminal.prompt "Daily import time (HH:MM)" (some current.dailyAt)
    (ICloudConfig.rule lib).validate
      { enabled := true
        appleId
        dailyAt
        capacityReliefEnabled
        cleanupTriggerPercent := current.cleanupTriggerPercent
        cleanupTargetPercent := current.cleanupTargetPercent
        cleanupQuarantineDays := current.cleanupQuarantineDays
        cleanupMaxAssets := current.cleanupMaxAssets
        cleanupMaxQuotaPercent := current.cleanupMaxQuotaPercent }

/-- `value.split(",")`, each part stripped, without the empty ones. -/
def commaSeparated (value : String) : List String :=
  ((value.toList.splitOn ',').map fun part => strip (String.ofList part)).filter (· != "")

def parseTelegramUserIds (lib : Libraries) (value : String) : Except String (List Int) :=
  match (commaSeparated value).mapM lib.int with
  | none => .error "Telegram user IDs must be comma-separated integers"
  | some [] => .error "Telegram requires at least one allowed user ID"
  | some ids => .ok ids

def promptTelegram (lib : Libraries) (current : TelegramConfig) :
    Except String (TelegramConfig.rule.Valid × SecretUpdates) := do
  let enabled ← terminal.confirm "Enable Telegram administration bot?" current.enabled
  if !enabled then
    let telegram ← TelegramConfig.rule.validate { enabled := false }
    return (telegram, [])
  let source ← terminal.prompt "Path to Telegram bot token file" none
  let updates ← secretFileUpdate terminal (.ofString source) (secrets.join "telegram_bot_token")
  let rawIds ← terminal.prompt "Allowed Telegram user IDs (comma-separated)"
    (some (", ".intercalate (current.allowedUserIds.map toString)))
  let allowedUserIds ← parseTelegramUserIds lib rawIds
  let telegram ← TelegramConfig.rule.validate { enabled := true, allowedUserIds }
  return (telegram, updates)

end Prompts

/-! ### Commands -/

structure ColdStorageOptions where
  transport : Option String := none
  provider : Option String := none
  region : Option String := none
  remoteRoot : Option String := none
  s3Endpoint : Option String := none
  s3Bucket : Option String := none
  rcloneConfigFile : Option PurePath := none
  s3AccessKeyFile : Option PurePath := none
  s3SecretKeyFile : Option PurePath := none
  integrationMinio : Bool := false

/-- The subcommands of `configure` with their options, and the wizard. -/
inductive Command where
  | all
  | storage (activeRoot backupRoot sourceRoot : Option PurePath)
  | coldStorage (options : ColdStorageOptions)
  | cloudflare (enabled : Option Bool) (teamDomain audience hostname : Option String)
      (tokenFile : Option PurePath)
  | sftpgo (username bindAddress : Option String)
  | fileProvider (enabled : Option Bool) (publicUrl : Option String) (maxFileSize : Option Int)
      (minimumFreePercent : Option ℚ)
  | telegram (enabled : Option Bool) (tokenFile : Option PurePath) (allowedUserIds : Option String)
  | icloud (enabled : Option Bool) (appleId dailyAt : Option String) (capacityRelief readOnly : Bool)
  | policy (archiveAfterDays stabilityWindowHours quarantineDays : Option Int)

section Commands

variable {lib : Libraries} (secrets : PurePath) (terminal : Terminal) (current : ApplianceConfig lib)

/-- What a command asks to be saved. -/
abbrev Desired (lib : Libraries) := Except String (ApplianceConfig lib × SecretUpdates)

def configureAll : Desired lib := do
  let storage ← promptStorage terminal current.storage.val
  let (coldStorage, coldSecrets) ← promptColdStorage secrets terminal current.coldStorage.val
  let (cloudflare, token) ← promptCloudflare terminal current.cloudflare.val
  let fileProvider ← promptFileProvider terminal current.fileProvider.val cloudflare.val
  let icloud ← promptICloud terminal current.icloud.val
  let (telegram, telegramSecrets) ← promptTelegram secrets terminal lib current.telegram.val
  let username ← terminal.prompt "SFTPGo username" (some current.sftpgo.val.username)
  let bindAddress ← terminal.prompt "SFTP bind address" (some current.sftpgo.val.bindAddress)
  let sftpgo ← (SFTPGoConfig.rule lib).validate { username, bindAddress }
  let localBindAddress ← terminal.prompt "Local web bind address"
    (some current.service.val.localBindAddress)
  let startAtBoot ← terminal.confirm "Start Mnema automatically at boot?" current.service.val.startAtBoot
  let workerConcurrency ← terminal.promptInt "Worker concurrency" current.service.val.workerConcurrency
  let service ← (ServiceConfig.rule lib).validate { localBindAddress, startAtBoot, workerConcurrency }
  let tokenSecrets ← tokenUpdates secrets token
  return ({ current with storage, coldStorage, cloudflare, fileProvider, icloud, sftpgo, service, telegram },
    coldSecrets ++ tokenSecrets ++ telegramSecrets)

def configureStorage (activeRoot backupRoot sourceRoot : Option PurePath) : Desired lib := do
  let storage ← (match activeRoot, backupRoot, sourceRoot with
    | some activeRoot, some backupRoot, some sourceRoot =>
      StorageConfig.rule.validate { activeRoot, backupRoot, sourceRoot }
    | _, _, _ => promptStorage terminal current.storage.val)
  return ({ current with storage }, [])

/-- The branch of `configure_cold_storage` for `--transport rclone`. -/
def rcloneOptions (options : ColdStorageOptions) :
    Except String ((ColdStorageConfig.rule lib).Valid × SecretUpdates) := do
  let target := secrets.join "rclone.conf"
  let cold ← (ColdStorageConfig.rule lib).validate
    { transport := .rclone
      rcloneRemoteRoot := options.remoteRoot.getD ""
      rcloneConfigFile := target }
  match options.rcloneConfigFile with
  | some source => return (cold, ← secretFileUpdate terminal source target)
  | none =>
    if !terminal.isFile target then
      throw "--rclone-config-file is required for initial setup"
    return (cold, [])

/-- The branch of `configure_cold_storage` for direct S3. -/
def s3Options (options : ColdStorageOptions) :
    Except String ((ColdStorageConfig.rule lib).Valid × SecretUpdates) := do
  let provider := orText options.provider "generic"
  let region := orText options.region (if provider == "scaleway" then "fr-par" else "us-east-1")
  let provider' ← S3Provider.ofName provider
  let cold ← (ColdStorageConfig.rule lib).validate
    { transport := .s3
      provider := provider'
      s3EndpointUrl := if provider == "scaleway" then scalewayEndpoint region
        else options.s3Endpoint.getD ""
      s3Region := region
      s3Bucket := options.s3Bucket.getD ""
      integrationMinio := options.integrationMinio
      s3AccessKeyFile := secrets.join "s3_access_key"
      s3SecretKeyFile := secrets.join "s3_secret_key" }
  if options.integrationMinio then
    return (cold, [])
  match options.s3AccessKeyFile, options.s3SecretKeyFile with
  | some accessKeyFile, some secretKeyFile =>
    let access ← secretFileUpdate terminal accessKeyFile (secrets.join "s3_access_key")
    let secret ← secretFileUpdate terminal secretKeyFile (secrets.join "s3_secret_key")
    return (cold, access ++ secret)
  | _, _ => throw "direct S3 requires both credential files"

def configureColdStorage (options : ColdStorageOptions) : Desired lib := do
  let (coldStorage, updates) ←
    (if options.transport.isNone && options.provider.isNone then
      promptColdStorage secrets terminal current.coldStorage.val
    else if options.transport == some "rclone" then
      rcloneOptions secrets terminal options
    else if options.transport == some "s3" || options.provider == some "scaleway" then
      s3Options secrets terminal options
    else throw "transport must be rclone or s3; provider may be scaleway")
  return ({ current with coldStorage }, updates)

/-- The branch of `configure_cloudflare` for `--enabled`. -/
def tunnelOptions (teamDomain audience hostname : Option String) (tokenFile : Option PurePath) :
    Except String ((CloudflareConfig.rule lib).Valid × Option String) := do
  let cloudflare ← (CloudflareConfig.rule lib).validate
    { enabled := true
      teamDomain := rstripSlash (teamDomain.getD "")
      audience := audience.getD ""
      adminHostname := hostname.getD "" }
  match tokenFile with
  | none => throw "--token-file must reference an existing file"
  | some tokenFile =>
    if !terminal.isFile tokenFile then
      throw "--token-file must reference an existing file"
    let token ← terminal.readText tokenFile
    return (cloudflare, some (strip token))

def configureCloudflare (enabled : Option Bool) (teamDomain audience hostname : Option String)
    (tokenFile : Option PurePath) : Desired lib := do
  let (cloudflare, token) ← (match enabled with
    | none => promptCloudflare terminal current.cloudflare.val
    | some false => ((CloudflareConfig.rule lib).validate { enabled := false }).map (·, none)
    | some true => tunnelOptions terminal teamDomain audience hostname tokenFile)
  let updates ← tokenUpdates secrets token
  return ({ current with cloudflare }, updates)

def configureSftpgo (username bindAddress : Option String) : Desired lib := do
  let username ← terminal.orPrompt username "SFTPGo username" current.sftpgo.val.username
  let bindAddress ← terminal.orPrompt bindAddress "SFTP bind address" current.sftpgo.val.bindAddress
  let sftpgo ← (SFTPGoConfig.rule lib).validate { username, bindAddress }
  return ({ current with sftpgo }, [])

def configureFileProvider (enabled : Option Bool) (publicUrl : Option String) (maxFileSize : Option Int)
    (minimumFreePercent : Option ℚ) : Desired lib := do
  let useEnabled ← (match enabled with
    | some enabled => pure enabled
    | none => terminal.confirm "Enable iPhone File Provider?" current.fileProvider.val.enabled)
  if useEnabled && !current.cloudflare.val.enabled then
    throw "configure Cloudflare before enabling File Provider"
  let publicUrl ← (if useEnabled then
      terminal.orPrompt publicUrl "Public File Provider URL"
        (orText (some current.fileProvider.val.publicUrl) "https://files.example.com")
    else pure (publicUrl.getD ""))
  let fileProvider ← (FileProviderConfig.rule lib).validate
    { enabled := useEnabled
      publicUrl
      maxFileSize := orNumber maxFileSize current.fileProvider.val.maxFileSize
      minimumFreePercent := orNumber minimumFreePercent current.fileProvider.val.minimumFreePercent }
  return ({ current with fileProvider }, [])

/-- The branch of `configure_telegram` for `--enabled`. -/
def telegramOptions (lib : Libraries) (current : TelegramConfig) (tokenFile : Option PurePath)
    (allowedUserIds : Option String) : Except String (TelegramConfig.rule.Valid × SecretUpdates) := do
  match tokenFile with
  | none => throw "--token-file must reference the Telegram bot token"
  | some tokenFile =>
    let allowedUserIds ← (match allowedUserIds with
      | none => pure current.allowedUserIds
      | some ids => parseTelegramUserIds lib ids)
    let telegram ← TelegramConfig.rule.validate { enabled := true, allowedUserIds }
    let updates ← secretFileUpdate terminal tokenFile (secrets.join "telegram_bot_token")
    return (telegram, updates)

def configureTelegram (enabled : Option Bool) (tokenFile : Option PurePath)
    (allowedUserIds : Option String) : Desired lib := do
  let (telegram, updates) ← (match enabled with
    | none => promptTelegram secrets terminal lib current.telegram.val
    | some false => (TelegramConfig.rule.validate { enabled := false }).map (·, [])
    | some true => telegramOptions secrets terminal lib current.telegram.val tokenFile allowedUserIds)
  return ({ current with telegram }, updates)

/-- Which of the two flags is given decides; without either, nothing changes. -/
def capacityRelief (capacityRelief readOnly current : Bool) : Bool :=
  if capacityRelief then true else if readOnly then false else current

def configureICloud (enabled : Option Bool) (appleId dailyAt : Option String)
    (relief readOnly : Bool) : Desired lib := do
  let icloud ← (match enabled with
    | none => promptICloud terminal current.icloud.val
    | some false => (ICloudConfig.rule lib).validate { enabled := false }
    | some true =>
      let before := current.icloud.val
      (ICloudConfig.rule lib).validate
        { enabled := true
          appleId := orText appleId before.appleId
          dailyAt := orText dailyAt before.dailyAt
          capacityReliefEnabled := capacityRelief relief readOnly before.capacityReliefEnabled
          cleanupTriggerPercent := before.cleanupTriggerPercent
          cleanupTargetPercent := before.cleanupTargetPercent
          cleanupQuarantineDays := before.cleanupQuarantineDays
          cleanupMaxAssets := before.cleanupMaxAssets
          cleanupMaxQuotaPercent := before.cleanupMaxQuotaPercent })
  return ({ current with icloud }, [])

def configurePolicy (archiveAfterDays stabilityWindowHours quarantineDays : Option Int) :
    Desired lib := do
  let orPrompt (value : Option Int) (text : String) (default : Int) : Except String Int :=
    match value with
    | some n => pure n
    | none => terminal.promptInt text default
  let archiveAfterDays ← orPrompt archiveAfterDays "Archive after days"
    current.policy.val.archiveAfterDays
  let stabilityWindowHours ← orPrompt stabilityWindowHours "Stability window hours"
    current.policy.val.stabilityWindowHours
  let quarantineDays ← orPrompt quarantineDays "Quarantine days" current.policy.val.quarantineDays
  let policy ← PolicyConfig.rule.validate
    { archiveAfterDays, stabilityWindowHours, quarantineDays, dryRun := true, manualApproval := true }
  return ({ current with policy }, [])

def Command.desired : Command → Desired lib
  | .all => configureAll secrets terminal current
  | .storage activeRoot backupRoot sourceRoot =>
    configureStorage terminal current activeRoot backupRoot sourceRoot
  | .coldStorage options => configureColdStorage secrets terminal current options
  | .cloudflare enabled teamDomain audience hostname tokenFile =>
    configureCloudflare secrets terminal current enabled teamDomain audience hostname tokenFile
  | .sftpgo username bindAddress => configureSftpgo terminal current username bindAddress
  | .fileProvider enabled publicUrl maxFileSize minimumFreePercent =>
    configureFileProvider terminal current enabled publicUrl maxFileSize minimumFreePercent
  | .telegram enabled tokenFile allowedUserIds =>
    configureTelegram secrets terminal current enabled tokenFile allowedUserIds
  | .icloud enabled appleId dailyAt relief readOnly =>
    configureICloud terminal current enabled appleId dailyAt relief readOnly
  | .policy archiveAfterDays stabilityWindowHours quarantineDays =>
    configurePolicy terminal current archiveAfterDays stabilityWindowHours quarantineDays

/-- What is refused before the configuration is loaded. -/
def Command.usage : Command → Except String Unit
  | .icloud _ _ _ relief readOnly =>
    if relief && readOnly then .error "choose either --capacity-relief or --read-only" else .ok ()
  | _ => .ok ()

end Commands

/-! ### Saving -/

/-- How the host answers the steps of a save. -/
structure HostAnswers where
  requireRoot : Except String Unit
  validateHost : Except String Unit
  /-- The files are written, the services restarted and their health awaited. -/
  apply : Except String Unit

/-- One run of a command: its options, and what it meets. -/
structure Invocation where
  command : Command
  yes : Bool
  terminal : Terminal
  host : HostAnswers

section Save

variable {lib : Libraries} {τ : Type} (yaml : Yaml τ) (secrets : PurePath)

/-- `save_config`, with the file as it is left behind. -/
def saveConfig (host : HostAnswers) (config : ApplianceConfig lib) (secretUpdates : SecretUpdates)
    (file : Option τ) : Except String Unit × Option τ :=
  let checks : Except String Unit := do
    host.requireRoot
    host.validateHost
    let _ ← (loadConfig yaml file : Except String (ApplianceConfig lib))
    if secretUpdates.any fun update => update.1.parent != secrets then
      throw "secret updates must remain beneath Mnema secret root"
  match checks with
  | .error e => (.error e, file)
  | .ok () => match host.apply with
    -- whatever failed, the previous file is written back
    | .error e => (.error e, file)
    | .ok () => (.ok (), some (dumpConfig yaml config))

/-- `_save`: the configuration is shown, confirmed and saved. -/
def Invocation.save (inv : Invocation) (config : ApplianceConfig lib) (updates : SecretUpdates)
    (file : Option τ) : Except String (ApplianceConfig lib) × Option τ :=
  match if inv.yes then .ok true
      else inv.terminal.confirm "Apply configuration and restart affected services?" false with
  | .error e => (.error e, file)
  | .ok false => (.error "No changes made.", file)
  | .ok true => match saveConfig yaml secrets inv.host config updates file with
    | (.error e, left) => (.error e, left)
    | (.ok (), left) => (.ok config, left)

/-- The command, with the configuration that it saved and the file as it is left behind. -/
def Invocation.run (inv : Invocation) (file : Option τ) :
    Except String (ApplianceConfig lib) × Option τ :=
  let desired : Desired lib := do
    inv.command.usage
    let current ← loadConfig yaml file
    inv.command.desired secrets inv.terminal current
  match desired with
  | .error e => (.error e, file)
  | .ok (config, updates) => inv.save yaml secrets config updates file

end Save

/-- The command turns the tunnel off: it is told to, or the prompt for it is answered with no. -/
def Command.disablesTunnel (terminal : Terminal) (enabled : Bool) : Command → Bool
  | .cloudflare (some chosen) _ _ _ _ => !chosen
  | .cloudflare none _ _ _ _ => match terminal.confirm tunnelQuestion enabled with
    | .ok answer => !answer
    | .error _ => false
  | _ => false

/-- `configure cloudflare` turns the tunnel off under an enabled file provider. -/
def Invocation.DropsTunnel {lib : Libraries} (inv : Invocation) (current : ApplianceConfig lib) : Prop :=
  current.fileProvider.val.enabled = true ∧
    inv.command.disablesTunnel inv.terminal current.cloudflare.val.enabled = true

end Mnema
