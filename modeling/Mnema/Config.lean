import Mnema.Lib.Document
import Mnema.Lib.PurePath
import Mnema.Uploads
import Mathlib.Data.List.Dedup

/-! The appliance configuration: its sections with their validators, and the file they are
loaded from and dumped to. -/

namespace Mnema

/-- What `urlsplit` returns; reading the port may raise. -/
structure SplitResult where
  scheme : String
  hostname : Option String := none
  username : Option String := none
  password : Option String := none
  port : Except String (Option Nat) := .ok none
  path : String := ""
  query : String := ""
  fragment : String := ""

/-- What the standard library and pydantic provide: `urlsplit`, the version of an
`ip_address`, the digits of `\d`, `int`, and the conversions of values read from a file. -/
structure Libraries where
  urlsplit : String → Except String SplitResult
  ipVersion : String → Except String Nat
  isDecimal : Char → Bool
  int : String → Option Int
  toBool : Json → Except String Bool
  toNum : Json → Except String ℚ
  toInt : Json → Except String Int
  toStr : Json → Except String String
  ipVersion_any : ipVersion "0.0.0.0" = .ok 4
  ipVersion_loopback : ipVersion "127.0.0.1" = .ok 4
  isDecimal_digit : ∀ c, c.isDigit = true → isDecimal c = true
  toBool_bool : ∀ b, toBool (.bool b) = .ok b
  toNum_num : ∀ q, toNum (.num q) = .ok q
  toInt_num : ∀ n : Int, toInt (.num n) = .ok n
  toStr_str : ∀ s, toStr (.str s) = .ok s

namespace Libraries

variable (lib : Libraries)

def boolean : Codec Bool := ⟨.bool, lib.toBool, lib.toBool_bool⟩

def number : Codec ℚ := ⟨.num, lib.toNum, lib.toNum_num⟩

def integer : Codec Int := ⟨fun n => .num n, lib.toInt, lib.toInt_num⟩

def text : Codec String := ⟨.str, lib.toStr, lib.toStr_str⟩

def path : Codec PurePath :=
  lib.text.via (fun s => .ok (.ofString s)) PurePath.str fun p => congrArg Except.ok p.ofString_str

end Libraries

/-! ### Text -/

def contains (s sub : String) : Bool := s.toList.tails.any fun t => sub.toList.isPrefixOf t

def lineBreaks : List Char := ['\n', '\r', Char.ofNat 0]

def isWordChar (extra : String) (c : Char) : Bool := c.isAlphanum || extra.toList.contains c

/-- `partition(":")`, with whether there is a colon. -/
def partitionColon (s : String) : List Char × Bool × List Char :=
  let before := s.toList.takeWhile (· != ':')
  let rest := s.toList.drop before.length
  (before, !rest.isEmpty, rest.drop 1)

/-- `[A-Za-z0-9_-]+` before the colon, and a path after it. -/
def isRcloneRoot (s : String) : Bool :=
  let (remote, separator, path) := partitionColon s
  separator && !remote.isEmpty && remote.all (isWordChar "_-") && !path.isEmpty &&
    !path.any lineBreaks.contains

/-- `[a-z0-9][a-z0-9.-]{1,61}[a-z0-9]`. -/
def isBucketName (s : String) : Bool :=
  let plain (c : Char) : Bool := c.isLower || c.isDigit
  let cs := s.toList
  decide (3 ≤ cs.length) && decide (cs.length ≤ 63) && cs.all (fun c => plain c || c == '.' || c == '-') &&
    cs.head?.any plain && cs.getLast?.any plain

/-- `[A-Za-z0-9._%+-]+@[A-Za-z0-9.-]+\.[A-Za-z]{2,63}`. -/
def isEmail (s : String) : Bool :=
  match s.toList.splitOn '@' with
  | [user, domain] =>
    let top := (domain.reverse.takeWhile (· != '.')).reverse
    let host := (domain.take (domain.length - top.length)).dropLast
    !user.isEmpty && user.all (isWordChar "._%+-") && decide (top.length < domain.length) &&
      !host.isEmpty && host.all (isWordChar ".-") && top.all Char.isAlpha &&
      decide (2 ≤ top.length) && decide (top.length ≤ 63)
  | _ => false

/-- `(?:[01]\d|2[0-3]):[0-5]\d`. -/
def isDailyTime (lib : Libraries) (s : String) : Bool :=
  match s.toList with
  | [a, b, colon, c, d] =>
    ((a == '0' || a == '1') && lib.isDecimal b || a == '2' && "0123".toList.contains b) &&
      colon == ':' && "012345".toList.contains c && lib.isDecimal d
  | _ => false

/-- `any(character.isspace() for character in value)`. -/
def hasSpace (s : String) : Bool := s.toList.any PyText.isSpace

def rstripSlash (s : String) : String :=
  String.ofList (s.toList.reverse.dropWhile (· == '/')).reverse

/-- `not value`, of an optional string. -/
def blank (s : Option String) : Bool := s.getD "" == ""

open Rule (firstOf)

/-- The check of an HTTPS origin without a path, whose host name is as demanded. -/
def originProblem (lib : Libraries) (url : String) (hostOk : String → Bool) (message : String) :
    Option String :=
  match lib.urlsplit url with
  | .error e => some e
  | .ok parsed =>
    if parsed.scheme != "https" || blank parsed.hostname || !hostOk (parsed.hostname.getD "") ||
        parsed.username.isSome || parsed.password.isSome then some message
    else match parsed.port with
      | .error e => some e
      | .ok port =>
        if port.isSome || !(parsed.path == "" || parsed.path == "/") || parsed.query != "" ||
            parsed.fragment != "" then some message
        else none

/-! ### Sections -/

structure StorageConfig where
  activeRoot : PurePath := .ofString "/srv/mnema-active"
  backupRoot : PurePath := .ofString "/srv/mnema-backup"
  sourceRoot : PurePath := .ofString "/var/lib/mnema/test-source"

/-- `absolute_safe_path`. -/
def absoluteSafePath (p : PurePath) : Option String :=
  firstOf [(!p.isAbsolute, "storage paths must be absolute"),
    (p.text.any fun c => lineBreaks.contains c || c == '\\', "storage paths contain unsupported characters")]

def StorageConfig.rule : Rule StorageConfig := .ofCheck fun c =>
  absoluteSafePath c.activeRoot <|> absoluteSafePath c.backupRoot <|> absoluteSafePath c.sourceRoot <|>
    firstOf [(decide (c.activeRoot = c.backupRoot), "active and backup roots must differ")]

inductive Transport where
  | rclone | s3
deriving DecidableEq

def Transport.name : Transport → String
  | rclone => "rclone"
  | s3 => "s3"

/-- `Literal["rclone", "s3"]`. -/
def Transport.ofName : String → Except String Transport
  | "rclone" => .ok rclone
  | "s3" => .ok s3
  | _ => .error "Input should be 'rclone' or 's3'"

inductive S3Provider where
  | generic | scaleway
deriving DecidableEq

def S3Provider.name : S3Provider → String
  | generic => "generic"
  | scaleway => "scaleway"

/-- `Literal["generic", "scaleway"]`. -/
def S3Provider.ofName : String → Except String S3Provider
  | "generic" => .ok generic
  | "scaleway" => .ok scaleway
  | _ => .error "Input should be 'generic' or 'scaleway'"

structure ColdStorageConfig where
  transport : Transport := .s3
  provider : S3Provider := .generic
  rcloneRemoteRoot : String := ""
  rcloneConfigFile : PurePath := .ofString "/etc/mnema/secrets/rclone.conf"
  s3EndpointUrl : String := ""
  s3Region : String := "us-east-1"
  s3Bucket : String := ""
  s3AccessKeyFile : PurePath := .ofString "/etc/mnema/secrets/s3_access_key"
  s3SecretKeyFile : PurePath := .ofString "/etc/mnema/secrets/s3_secret_key"
  integrationMinio : Bool := true

def scalewayEndpoint (region : String) : String := "https://s3." ++ region ++ ".scw.cloud"

/-- The branch of `transport_is_complete` for direct S3. -/
def ColdStorageConfig.s3Problem (lib : Libraries) (c : ColdStorageConfig) : Option String :=
  match lib.urlsplit c.s3EndpointUrl with
  | .error e => some e
  | .ok endpoint => firstOf
    [(endpoint.scheme != "https" || blank endpoint.hostname || endpoint.username.isSome ||
        endpoint.password.isSome, "direct S3 requires an HTTPS endpoint without credentials"),
      (!isBucketName c.s3Bucket, "direct S3 bucket name is invalid"),
      (decide (c.provider = .scaleway) && !(["fr-par", "nl-ams"].contains c.s3Region),
        "Scaleway Glacier region must be fr-par or nl-ams"),
      (decide (c.provider = .scaleway) && c.s3EndpointUrl != scalewayEndpoint c.s3Region,
        "Scaleway endpoint must be " ++ scalewayEndpoint c.s3Region)]

def ColdStorageConfig.rule (lib : Libraries) : Rule ColdStorageConfig := .ofCheck fun c =>
  firstOf [(!c.rcloneConfigFile.isAbsolute || !c.s3AccessKeyFile.isAbsolute ||
      !c.s3SecretKeyFile.isAbsolute, "secret file paths must be absolute")] <|>
    if c.integrationMinio then
      firstOf [(decide (c.provider ≠ .generic), "local MinIO cannot use the Scaleway provider")]
    else match c.transport with
      | .rclone => firstOf
        [(decide (c.provider ≠ .generic), "Scaleway Glacier requires direct S3 transport"),
          (!isRcloneRoot c.rcloneRemoteRoot, "rclone remote root must use remote:path syntax")]
      | .s3 => c.s3Problem lib

structure CloudflareConfig where
  enabled : Bool := false
  teamDomain : String := ""
  audience : String := ""
  adminHostname : String := ""
  tunnelTokenFile : PurePath := .ofString "/etc/mnema/secrets/cloudflare_tunnel_token"

def CloudflareConfig.rule (lib : Libraries) : Rule CloudflareConfig := .ofCheck fun c =>
  firstOf [(!c.tunnelTokenFile.isAbsolute, "Cloudflare tunnel token path must be absolute")] <|>
    if c.enabled then
      originProblem lib c.teamDomain (fun h => ".cloudflareaccess.com".toList.isSuffixOf h.toList)
          "Cloudflare team domain must be https://<team>.cloudflareaccess.com" <|>
        firstOf [(c.audience == "" || hasSpace c.audience, "Cloudflare Access audience is required"),
          (c.adminHostname == "" || contains c.adminHostname "://" || contains c.adminHostname "/" ||
            !contains c.adminHostname "." || hasSpace c.adminHostname,
            "Cloudflare admin hostname must be a DNS hostname")]
    else none

structure FileProviderConfig where
  enabled : Bool := false
  publicUrl : String := ""
  maxFileSize : Int := 53687091200
  minimumFreePercent : ℚ := 10

def FileProviderConfig.rule (lib : Libraries) : Rule FileProviderConfig := .ofCheck fun c =>
  firstOf [(decide (c.maxFileSize ≤ 0), "Input should be greater than 0"),
    (decide (c.minimumFreePercent < 1), "Input should be greater than or equal to 1"),
    (decide (50 < c.minimumFreePercent), "Input should be less than or equal to 50")] <|>
    if c.enabled then originProblem lib c.publicUrl (fun _ => true)
      "File Provider public URL must be an HTTPS origin without a path"
    else none

structure TelegramConfig where
  enabled : Bool := false
  botTokenFile : PurePath := .ofString "/etc/mnema/secrets/telegram_bot_token"
  allowedUserIds : List Int := []

/-- `valid_user_ids` keeps the first of equal identifiers. -/
def TelegramConfig.rule : Rule TelegramConfig where
  normalize c := { c with allowedUserIds := c.allowedUserIds.reverse.dedup.reverse }
  normalize_idem c := by simp only [List.reverse_reverse, List.dedup_idem]
  check c := firstOf [(!c.botTokenFile.isAbsolute, "Telegram bot token path must be absolute"),
    (c.allowedUserIds.any fun id => decide (id ≤ 0), "Telegram user IDs must be positive integers"),
    (c.enabled && c.allowedUserIds.isEmpty, "Telegram requires at least one allowed user ID")]

/-- `Literal["Personal Library"]`. -/
inductive ICloudLibrary where
  | personal
deriving DecidableEq

def ICloudLibrary.name : ICloudLibrary → String
  | personal => "Personal Library"

def ICloudLibrary.ofName : String → Except String ICloudLibrary
  | "Personal Library" => .ok personal
  | _ => .error "Input should be 'Personal Library'"

structure ICloudConfig where
  enabled : Bool := false
  appleId : String := ""
  library : ICloudLibrary := .personal
  dailyAt : String := "03:00"
  sessionDirectory : PurePath := .ofString "/etc/mnema/icloud-session"
  capacityReliefEnabled : Bool := false
  cleanupTriggerPercent : ℚ := 90
  cleanupTargetPercent : ℚ := 80
  cleanupQuarantineDays : Int := 7
  cleanupMaxAssets : Int := 1000
  cleanupMaxQuotaPercent : ℚ := 10

/-- `Field(ge=.., le=..)` of an integer. -/
def rangeProblem (low high value : Int) : Option String :=
  firstOf [(decide (value < low), "Input should be greater than or equal to " ++ toString low),
    (decide (high < value), "Input should be less than or equal to " ++ toString high)]

theorem strip_strip (s : String) : strip (strip s) = strip s := by
  rw [strip, strip, String.toList_ofList, PyText.stripped_stripped]

def ICloudConfig.rule (lib : Libraries) : Rule ICloudConfig where
  normalize c := { c with appleId := strip c.appleId }
  normalize_idem c := by simp only [strip_strip]
  check c :=
    firstOf [(decide (c.cleanupTriggerPercent ≤ 0), "Input should be greater than 0"),
      (decide (100 < c.cleanupTriggerPercent), "Input should be less than or equal to 100"),
      (decide (c.cleanupTargetPercent < 0), "Input should be greater than or equal to 0"),
      (decide (100 ≤ c.cleanupTargetPercent), "Input should be less than 100")] <|>
    rangeProblem 1 3650 c.cleanupQuarantineDays <|> rangeProblem 1 1000 c.cleanupMaxAssets <|>
    firstOf [(decide (c.cleanupMaxQuotaPercent ≤ 0), "Input should be greater than 0"),
      (decide (10 < c.cleanupMaxQuotaPercent), "Input should be less than or equal to 10"),
      (c.appleId != "" && (!isEmail c.appleId || decide (254 < c.appleId.toList.length)),
        "Apple ID must be an email address"),
      (!isDailyTime lib c.dailyAt, "iCloud daily schedule must use HH:MM"),
      (decide (c.sessionDirectory ≠ .ofString "/etc/mnema/icloud-session"),
        "iCloud session directory must be /etc/mnema/icloud-session"),
      (c.enabled && c.appleId == "", "Apple ID is required when iCloud is enabled"),
      (decide (c.cleanupTriggerPercent ≤ c.cleanupTargetPercent),
        "iCloud cleanup target must be below trigger"),
      (c.capacityReliefEnabled && !c.enabled, "iCloud capacity relief requires iCloud Photos")]

structure SFTPGoConfig where
  username : String := "mnema-user"
  bindAddress : String := "0.0.0.0"

/-- `ipv4_bind_address`. -/
def bindProblem (lib : Libraries) (address message : String) : Option String :=
  match lib.ipVersion address with
  | .error e => some e
  | .ok version => firstOf [(version != 4, message)]

def SFTPGoConfig.rule (lib : Libraries) : Rule SFTPGoConfig := .ofCheck fun c =>
  firstOf [(c.username == "" || decide (64 < c.username.toList.length) ||
      !c.username.toList.all (isWordChar "._-"), "SFTPGo username contains unsupported characters")] <|>
    bindProblem lib c.bindAddress "SFTP bind address must be IPv4"

structure ServiceConfig where
  localBindAddress : String := "127.0.0.1"
  startAtBoot : Bool := true
  workerConcurrency : Int := 1

def ServiceConfig.rule (lib : Libraries) : Rule ServiceConfig := .ofCheck fun c =>
  bindProblem lib c.localBindAddress "local web bind address must be IPv4" <|>
    rangeProblem 1 2 c.workerConcurrency

structure PolicyConfig where
  archiveAfterDays : Int := 30
  stabilityWindowHours : Int := 24
  quarantineDays : Int := 7
  dryRun : Bool := true
  manualApproval : Bool := true

def PolicyConfig.rule : Rule PolicyConfig := .ofCheck fun c =>
  rangeProblem 0 36500 c.archiveAfterDays <|> rangeProblem 0 8760 c.stabilityWindowHours <|>
    rangeProblem 1 3650 c.quarantineDays

/-! ### The file -/

section Layouts

variable (lib : Libraries)

def transport : Codec Transport :=
  lib.text.via Transport.ofName Transport.name fun t => by cases t <;> rfl

def provider : Codec S3Provider :=
  lib.text.via S3Provider.ofName S3Provider.name fun p => by cases p <;> rfl

def library : Codec ICloudLibrary :=
  lib.text.via ICloudLibrary.ofName ICloudLibrary.name fun l => by cases l; rfl

def storageLayout : Layout StorageConfig :=
  let standard : StorageConfig := {}
  Layout.via
    (.cons "active_root" lib.path standard.activeRoot
    (.cons "backup_root" lib.path standard.backupRoot
    (.cons "source_root" lib.path standard.sourceRoot
     .nil rfl) rfl) rfl)
    (fun (activeRoot, backupRoot, sourceRoot, _) =>
      { activeRoot, backupRoot, sourceRoot })
    (fun c => (c.activeRoot, c.backupRoot, c.sourceRoot, ())) fun _ => rfl

def coldStorageLayout : Layout ColdStorageConfig :=
  let standard : ColdStorageConfig := {}
  Layout.via
    (.cons "transport" (transport lib) standard.transport
    (.cons "provider" (provider lib) standard.provider
    (.cons "rclone_remote_root" lib.text standard.rcloneRemoteRoot
    (.cons "rclone_config_file" lib.path standard.rcloneConfigFile
    (.cons "s3_endpoint_url" lib.text standard.s3EndpointUrl
    (.cons "s3_region" lib.text standard.s3Region
    (.cons "s3_bucket" lib.text standard.s3Bucket
    (.cons "s3_access_key_file" lib.path standard.s3AccessKeyFile
    (.cons "s3_secret_key_file" lib.path standard.s3SecretKeyFile
    (.cons "integration_minio" lib.boolean standard.integrationMinio
     .nil rfl) rfl) rfl) rfl) rfl) rfl) rfl) rfl) rfl) rfl)
    (fun (transport, provider, rcloneRemoteRoot, rcloneConfigFile, s3EndpointUrl, s3Region, s3Bucket,
        s3AccessKeyFile, s3SecretKeyFile, integrationMinio, _) =>
      { transport, provider, rcloneRemoteRoot, rcloneConfigFile, s3EndpointUrl, s3Region, s3Bucket,
        s3AccessKeyFile, s3SecretKeyFile, integrationMinio })
    (fun c => (c.transport, c.provider, c.rcloneRemoteRoot, c.rcloneConfigFile, c.s3EndpointUrl,
      c.s3Region, c.s3Bucket, c.s3AccessKeyFile, c.s3SecretKeyFile, c.integrationMinio, ())) fun _ => rfl

def cloudflareLayout : Layout CloudflareConfig :=
  let standard : CloudflareConfig := {}
  Layout.via
    (.cons "enabled" lib.boolean standard.enabled
    (.cons "team_domain" lib.text standard.teamDomain
    (.cons "audience" lib.text standard.audience
    (.cons "admin_hostname" lib.text standard.adminHostname
    (.cons "tunnel_token_file" lib.path standard.tunnelTokenFile
     .nil rfl) rfl) rfl) rfl) rfl)
    (fun (enabled, teamDomain, audience, adminHostname, tunnelTokenFile, _) =>
      { enabled, teamDomain, audience, adminHostname, tunnelTokenFile })
    (fun c => (c.enabled, c.teamDomain, c.audience, c.adminHostname, c.tunnelTokenFile, ())) fun _ => rfl

def fileProviderLayout : Layout FileProviderConfig :=
  let standard : FileProviderConfig := {}
  Layout.via
    (.cons "enabled" lib.boolean standard.enabled
    (.cons "public_url" lib.text standard.publicUrl
    (.cons "max_file_size" lib.integer standard.maxFileSize
    (.cons "minimum_free_percent" lib.number standard.minimumFreePercent
     .nil rfl) rfl) rfl) rfl)
    (fun (enabled, publicUrl, maxFileSize, minimumFreePercent, _) =>
      { enabled, publicUrl, maxFileSize, minimumFreePercent })
    (fun c => (c.enabled, c.publicUrl, c.maxFileSize, c.minimumFreePercent, ())) fun _ => rfl

def telegramLayout : Layout TelegramConfig :=
  let standard : TelegramConfig := {}
  Layout.via
    (.cons "enabled" lib.boolean standard.enabled
    (.cons "bot_token_file" lib.path standard.botTokenFile
    (.cons "allowed_user_ids" lib.integer.list standard.allowedUserIds
     .nil rfl) rfl) rfl)
    (fun (enabled, botTokenFile, allowedUserIds, _) =>
      { enabled, botTokenFile, allowedUserIds })
    (fun c => (c.enabled, c.botTokenFile, c.allowedUserIds, ())) fun _ => rfl

def iCloudLayout : Layout ICloudConfig :=
  let standard : ICloudConfig := {}
  Layout.via
    (.cons "enabled" lib.boolean standard.enabled
    (.cons "apple_id" lib.text standard.appleId
    (.cons "library" (library lib) standard.library
    (.cons "daily_at" lib.text standard.dailyAt
    (.cons "session_directory" lib.path standard.sessionDirectory
    (.cons "capacity_relief_enabled" lib.boolean standard.capacityReliefEnabled
    (.cons "cleanup_trigger_percent" lib.number standard.cleanupTriggerPercent
    (.cons "cleanup_target_percent" lib.number standard.cleanupTargetPercent
    (.cons "cleanup_quarantine_days" lib.integer standard.cleanupQuarantineDays
    (.cons "cleanup_max_assets" lib.integer standard.cleanupMaxAssets
    (.cons "cleanup_max_quota_percent" lib.number standard.cleanupMaxQuotaPercent
     .nil rfl) rfl) rfl) rfl) rfl) rfl) rfl) rfl) rfl) rfl) rfl)
    (fun (enabled, appleId, library, dailyAt, sessionDirectory, capacityReliefEnabled,
        cleanupTriggerPercent, cleanupTargetPercent, cleanupQuarantineDays, cleanupMaxAssets,
        cleanupMaxQuotaPercent, _) =>
      { enabled, appleId, library, dailyAt, sessionDirectory, capacityReliefEnabled, cleanupTriggerPercent,
        cleanupTargetPercent, cleanupQuarantineDays, cleanupMaxAssets, cleanupMaxQuotaPercent })
    (fun c => (c.enabled, c.appleId, c.library, c.dailyAt, c.sessionDirectory, c.capacityReliefEnabled,
      c.cleanupTriggerPercent, c.cleanupTargetPercent, c.cleanupQuarantineDays, c.cleanupMaxAssets,
      c.cleanupMaxQuotaPercent, ())) fun _ => rfl

def sftpgoLayout : Layout SFTPGoConfig :=
  let standard : SFTPGoConfig := {}
  Layout.via
    (.cons "username" lib.text standard.username
    (.cons "bind_address" lib.text standard.bindAddress
     .nil rfl) rfl)
    (fun (username, bindAddress, _) =>
      { username, bindAddress })
    (fun c => (c.username, c.bindAddress, ())) fun _ => rfl

def serviceLayout : Layout ServiceConfig :=
  let standard : ServiceConfig := {}
  Layout.via
    (.cons "local_bind_address" lib.text standard.localBindAddress
    (.cons "start_at_boot" lib.boolean standard.startAtBoot
    (.cons "worker_concurrency" lib.integer standard.workerConcurrency
     .nil rfl) rfl) rfl)
    (fun (localBindAddress, startAtBoot, workerConcurrency, _) =>
      { localBindAddress, startAtBoot, workerConcurrency })
    (fun c => (c.localBindAddress, c.startAtBoot, c.workerConcurrency, ())) fun _ => rfl

def policyLayout : Layout PolicyConfig :=
  let standard : PolicyConfig := {}
  Layout.via
    (.cons "archive_after_days" lib.integer standard.archiveAfterDays
    (.cons "stability_window_hours" lib.integer standard.stabilityWindowHours
    (.cons "quarantine_days" lib.integer standard.quarantineDays
    (.cons "dry_run" lib.boolean standard.dryRun
    (.cons "manual_approval" lib.boolean standard.manualApproval
     .nil rfl) rfl) rfl) rfl) rfl)
    (fun (archiveAfterDays, stabilityWindowHours, quarantineDays, dryRun, manualApproval, _) =>
      { archiveAfterDays, stabilityWindowHours, quarantineDays, dryRun, manualApproval })
    (fun c => (c.archiveAfterDays, c.stabilityWindowHours, c.quarantineDays, c.dryRun, c.manualApproval,
      ())) fun _ => rfl

end Layouts

/-! ### The appliance -/

section Appliance

variable (lib : Libraries)

theorem storage_standard : StorageConfig.rule.check {} = none := by decide +kernel

theorem coldStorage_standard : (ColdStorageConfig.rule lib).check {} = none := rfl

theorem cloudflare_standard : (CloudflareConfig.rule lib).check {} = none := rfl

theorem fileProvider_standard : (FileProviderConfig.rule lib).check {} = none := rfl

theorem telegram_standard : TelegramConfig.rule.check {} = none := rfl

theorem telegram_standard_normal : TelegramConfig.rule.normalize {} = {} := rfl

theorem policy_standard : PolicyConfig.rule.check {} = none := rfl

theorem isDailyTime_standard : isDailyTime lib "03:00" = true := by
  have hthree : lib.isDecimal '3' = true := lib.isDecimal_digit '3' rfl
  have hzero : lib.isDecimal '0' = true := lib.isDecimal_digit '0' rfl
  have hchars : "03:00".toList = ['0', '3', ':', '0', '0'] := rfl
  simp [isDailyTime, hchars, hthree, hzero]

theorem icloud_standard : (ICloudConfig.rule lib).check {} = none := by
  have hdaily : isDailyTime lib "03:00" = true := isDailyTime_standard lib
  simp only [ICloudConfig.rule, rangeProblem, firstOf, hdaily]
  decide +kernel

theorem icloud_standard_normal : (ICloudConfig.rule lib).normalize {} = {} := rfl

theorem sftpgo_standard : (SFTPGoConfig.rule lib).check {} = none := by
  simp only [SFTPGoConfig.rule, Rule.ofCheck, bindProblem, lib.ipVersion_any]
  decide +kernel

theorem service_standard : (ServiceConfig.rule lib).check {} = none := by
  simp only [ServiceConfig.rule, Rule.ofCheck, bindProblem, lib.ipVersion_loopback]
  decide +kernel

/-- The sections, each of which follows its own rule. -/
structure ApplianceConfig where
  storage : StorageConfig.rule.Valid := ⟨{}, rfl, storage_standard⟩
  coldStorage : (ColdStorageConfig.rule lib).Valid := ⟨{}, rfl, coldStorage_standard lib⟩
  cloudflare : (CloudflareConfig.rule lib).Valid := ⟨{}, rfl, cloudflare_standard lib⟩
  fileProvider : (FileProviderConfig.rule lib).Valid := ⟨{}, rfl, fileProvider_standard lib⟩
  telegram : TelegramConfig.rule.Valid := ⟨{}, telegram_standard_normal, telegram_standard⟩
  icloud : (ICloudConfig.rule lib).Valid := ⟨{}, icloud_standard_normal lib, icloud_standard lib⟩
  sftpgo : (SFTPGoConfig.rule lib).Valid := ⟨{}, rfl, sftpgo_standard lib⟩
  service : (ServiceConfig.rule lib).Valid := ⟨{}, rfl, service_standard lib⟩
  policy : PolicyConfig.rule.Valid := ⟨{}, rfl, policy_standard⟩

variable {lib} in
/-- The condition that `file_provider_uses_cloudflare` checks. -/
def ApplianceConfig.UsesCloudflare (config : ApplianceConfig lib) : Prop :=
  config.fileProvider.val.enabled = true → config.cloudflare.val.enabled = true

def ApplianceConfig.rule : Rule (ApplianceConfig lib) := .ofCheck fun config =>
  firstOf [(config.fileProvider.val.enabled && !config.cloudflare.val.enabled,
    "File Provider internet access requires Cloudflare Tunnel")]

/-- `Literal[1]`. -/
def version : Codec Unit where
  encode _ := .num 1
  decode
    | .num n => if n = 1 then .ok () else .error "Input should be 1"
    | _ => .error "Input should be 1"
  decode_encode _ := if_pos rfl

def applianceLayout : Layout (ApplianceConfig lib) :=
  let standard : ApplianceConfig lib := {}
  Layout.via
    (.cons "version" version ()
    (.cons "storage" ((storageLayout lib).codec _) standard.storage
    (.cons "cold_storage" ((coldStorageLayout lib).codec _) standard.coldStorage
    (.cons "cloudflare" ((cloudflareLayout lib).codec _) standard.cloudflare
    (.cons "file_provider" ((fileProviderLayout lib).codec _) standard.fileProvider
    (.cons "telegram" ((telegramLayout lib).codec _) standard.telegram
    (.cons "icloud" ((iCloudLayout lib).codec _) standard.icloud
    (.cons "sftpgo" ((sftpgoLayout lib).codec _) standard.sftpgo
    (.cons "service" ((serviceLayout lib).codec _) standard.service
    (.cons "policy" ((policyLayout lib).codec _) standard.policy
     .nil rfl) rfl) rfl) rfl) rfl) rfl) rfl) rfl) rfl) rfl)
    (fun (_, storage, coldStorage, cloudflare, fileProvider, telegram, icloud, sftpgo, service, policy, _) =>
      { storage, coldStorage, cloudflare, fileProvider, telegram, icloud, sftpgo, service, policy })
    (fun c => ((), c.storage, c.coldStorage, c.cloudflare, c.fileProvider, c.telegram, c.icloud, c.sftpgo,
      c.service, c.policy, ())) fun _ => rfl

/-- Every section as it is by default. -/
def standardConfig : ApplianceConfig lib := {}

end Appliance

/-- `safe_dump` and `safe_load`, over the contents of a file. -/
structure Yaml (τ : Type) where
  safeDump : Json → τ
  safeLoad : τ → Except String Json
  load_dump : ∀ j, safeLoad (safeDump j) = .ok j

section Files

variable {lib : Libraries} {τ : Type} (yaml : Yaml τ)

def modelValidate (payload : Json) : Except String (ApplianceConfig lib) :=
  ((applianceLayout lib).load (ApplianceConfig.rule lib) payload).map (·.val)

/-- The file is `none` where there is no such file. -/
def loadConfig (file : Option τ) : Except String (ApplianceConfig lib) :=
  match file with
  | none => .ok {}
  | some text => match yaml.safeLoad text with
    | .error e => .error e
    | .ok .null => modelValidate (.dict [])
    | .ok (.dict fields) => modelValidate (.dict fields)
    | .ok _ => .error "appliance configuration must be a YAML mapping"

def dumpConfig (config : ApplianceConfig lib) : τ :=
  yaml.safeDump (.dict ((applianceLayout lib).write config))

variable {yaml} {config : ApplianceConfig lib}

theorem check_eq_none : (ApplianceConfig.rule lib).check config = none ↔ config.UsesCloudflare := by
  unfold ApplianceConfig.UsesCloudflare
  show firstOf _ = none ↔ _
  cases config.fileProvider.val.enabled <;> cases config.cloudflare.val.enabled <;> simp [firstOf]

theorem usesCloudflare_of_modelValidate {payload : Json} (h : modelValidate payload = .ok config) :
    config.UsesCloudflare := by
  obtain ⟨valid, _, rfl⟩ := Except.of_map_eq_ok h
  exact check_eq_none.mp valid.passes

/-- What is loaded satisfies the rule between the sections. -/
theorem usesCloudflare_of_loadConfig {file : Option τ} (h : loadConfig yaml file = .ok config) :
    config.UsesCloudflare := by
  unfold loadConfig at h
  split at h
  · obtain rfl := Except.ok.inj h
    exact nofun
  · split at h
    · cases h
    · exact usesCloudflare_of_modelValidate h
    · exact usesCloudflare_of_modelValidate h
    · cases h

/-- A dumped file is loaded as it was, unless it breaks the rule between the sections. -/
theorem loadConfig_dumpConfig :
    loadConfig yaml (some (dumpConfig yaml config)) = .ok config ↔ config.UsesCloudflare := by
  refine ⟨usesCloudflare_of_loadConfig, fun h => ?_⟩
  have hload := (applianceLayout lib).load_write (ApplianceConfig.rule lib)
    ⟨config, rfl, check_eq_none.mpr h⟩
  unfold loadConfig dumpConfig
  simp only [yaml.load_dump, modelValidate, hload]
  rfl

end Files

end Mnema
