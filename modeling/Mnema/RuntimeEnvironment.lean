import Mnema.Config

/-! The environment of the services, and the file it is rendered to. -/

namespace Mnema

/-- The items of a dictionary in the order they were inserted. -/
abbrev Items := List (String × String)

namespace Items

/-- `dict.update`. -/
def update (items others : Items) : Items :=
  items.map (fun item => (item.1, (others.lookup item.1).getD item.2)) ++
    others.filter fun item => (items.lookup item.1).isNone

/-- `sorted`, of items with different keys. -/
def sorted (items : Items) : Items := items.mergeSort fun a b => decide (a.1 ≤ b.1)

end Items

section Environment

variable {lib : Libraries}

/-- `str` of a truth value, in lower case. -/
def boolText (b : Bool) : String := if b then "true" else "false"

def ApplianceConfig.profiles (config : ApplianceConfig lib) : List String :=
  (if config.coldStorage.val.integrationMinio then ["integration"] else []) ++
    (if config.cloudflare.val.enabled then ["cloudflare"] else []) ++
    (if config.fileProvider.val.enabled then ["file-provider"] else []) ++
    (if config.telegram.val.enabled then ["telegram"] else [])

/-- `json.dumps` of a list of integers. -/
def integersText (ids : List Int) : String := "[" ++ ", ".intercalate (ids.map toString) ++ "]"

/-- The keys that stand for the storage that runs beside the services. -/
def minioItems : Items :=
  [("MNEMA_COLD_STORAGE_TRANSPORT", "s3"),
    ("MNEMA_S3_PROVIDER", "generic"),
    ("MNEMA_S3_ENDPOINT_URL", "http://minio:9000"),
    ("MNEMA_S3_REGION", "us-east-1"),
    ("MNEMA_S3_BUCKET", "mnema-integration"),
    ("MNEMA_S3_ACCESS_KEY_FILE", "/run/secrets/minio_user"),
    ("MNEMA_S3_SECRET_KEY_FILE", "/run/secrets/minio_password")]

/-- `float.__repr__` is `reprFloat`. -/
def ApplianceConfig.environment (reprFloat : ℚ → String) (config : ApplianceConfig lib) : Items :=
  [("MNEMA_DATABASE_URL", "sqlite:////var/lib/mnema/mnema.db"),
    ("MNEMA_ACTIVE_ROOT", "/data/active"),
    ("MNEMA_BACKUP_ROOT", "/data/backup"),
    ("MNEMA_STAGING_ROOT", "/data/active/.mnema-staging"),
    ("MNEMA_SOURCE_ROOT", "/data/test-source"),
    ("MNEMA_HOST_ACTIVE_ROOT", config.storage.val.activeRoot.str),
    ("MNEMA_HOST_BACKUP_ROOT", config.storage.val.backupRoot.str),
    ("MNEMA_HOST_SOURCE_ROOT", config.storage.val.sourceRoot.str),
    ("MNEMA_HOST_CONFIG_ROOT", "/var/lib/mnema"),
    ("MNEMA_HOST_MINIO_ROOT", "/var/lib/mnema/minio"),
    ("MNEMA_HOST_SFTPGO_DATA_ROOT", "/var/lib/mnema/sftpgo-data"),
    ("MNEMA_HOST_SFTPGO_HOME_ROOT", "/var/lib/mnema/sftpgo-home"),
    ("MNEMA_HOST_ICLOUD_SESSION_ROOT", config.icloud.val.sessionDirectory.str),
    ("MNEMA_SECRET_KEY_FILE", "/run/secrets/mnema_secret_key"),
    ("MNEMA_COLD_ENCRYPTION_KEY_FILE", "/run/secrets/mnema_cold_key"),
    ("MNEMA_KOPIA_PASSWORD_FILE", "/run/secrets/kopia_password"),
    ("MNEMA_KOPIA_REPOSITORY", "/data/backup/kopia-repository"),
    ("MNEMA_KOPIA_CONFIG_FILE", "/var/lib/mnema/kopia/repository.config"),
    ("MNEMA_USE_EXTERNAL_TEST_STORAGE", "true"),
    ("MNEMA_COLD_STORAGE_TRANSPORT", config.coldStorage.val.transport.name),
    ("MNEMA_S3_PROVIDER", config.coldStorage.val.provider.name),
    ("MNEMA_RCLONE_CONFIG_FILE", "/run/secrets/rclone.conf"),
    ("MNEMA_RCLONE_REMOTE_ROOT", config.coldStorage.val.rcloneRemoteRoot),
    ("MNEMA_S3_ENDPOINT_URL", config.coldStorage.val.s3EndpointUrl),
    ("MNEMA_S3_REGION", config.coldStorage.val.s3Region),
    ("MNEMA_S3_BUCKET", config.coldStorage.val.s3Bucket),
    ("MNEMA_S3_ACCESS_KEY_FILE", "/run/secrets/s3_access_key"),
    ("MNEMA_S3_SECRET_KEY_FILE", "/run/secrets/s3_secret_key"),
    ("MNEMA_SFTPGO_ENDPOINT_URL", "http://sftpgo:8080"),
    ("MNEMA_SFTPGO_API_KEY_FILE", "/run/secrets/sftpgo_api_key"),
    ("MNEMA_SMART_HEALTH_FILE", "/var/lib/mnema/smart-health.json"),
    ("MNEMA_REQUIRE_SMART_HEALTH", "true"),
    ("MNEMA_ONBOARDING_TOKEN_FILE", "/run/secrets/onboarding_token"),
    ("MNEMA_GLOBAL_DELETION_ENABLED", "false"),
    ("MNEMA_SAFETY_LOCK", "true"),
    ("MNEMA_WORKER_CONCURRENCY", toString config.service.val.workerConcurrency),
    ("MNEMA_LOCAL_BIND", config.service.val.localBindAddress),
    ("MNEMA_SFTP_BIND", config.sftpgo.val.bindAddress),
    ("MNEMA_CLOUDFLARE_ACCESS_REQUIRED", "false"),
    ("MNEMA_CLOUDFLARE_TEAM_DOMAIN", config.cloudflare.val.teamDomain),
    ("MNEMA_CLOUDFLARE_AUDIENCE", config.cloudflare.val.audience),
    ("MNEMA_CLOUDFLARE_ADMIN_HOSTNAME", config.cloudflare.val.adminHostname),
    ("MNEMA_FILE_PROVIDER_ENABLED", boolText config.fileProvider.val.enabled),
    ("MNEMA_FILE_PROVIDER_PUBLIC_URL", rstripSlash config.fileProvider.val.publicUrl),
    ("MNEMA_FILE_PROVIDER_UPLOAD_ROOT", "/data/active/.mnema-file-provider"),
    ("MNEMA_FILE_PROVIDER_MAX_FILE_SIZE", toString config.fileProvider.val.maxFileSize),
    ("MNEMA_FILE_PROVIDER_MINIMUM_FREE_PERCENT", reprFloat config.fileProvider.val.minimumFreePercent),
    ("MNEMA_TELEGRAM_ENABLED", boolText config.telegram.val.enabled),
    ("MNEMA_TELEGRAM_BOT_TOKEN_FILE", "/run/secrets/telegram_bot_token"),
    ("MNEMA_TELEGRAM_ALLOWED_USER_IDS", integersText config.telegram.val.allowedUserIds),
    ("MNEMA_ICLOUD_ENABLED", boolText config.icloud.val.enabled),
    ("MNEMA_ICLOUD_APPLE_ID", config.icloud.val.appleId),
    ("MNEMA_ICLOUD_LIBRARY", "PrimarySync"),
    ("MNEMA_ICLOUD_SESSION_DIRECTORY", "/var/lib/mnema/icloud-session"),
    ("MNEMA_ICLOUD_IMPORT_ROOT", "/data/active/iCloud Photos"),
    ("MNEMA_ICLOUD_CAPACITY_RELIEF_ENABLED", boolText config.icloud.val.capacityReliefEnabled),
    ("MNEMA_ICLOUD_CLEANUP_TRIGGER_PERCENT", reprFloat config.icloud.val.cleanupTriggerPercent),
    ("MNEMA_ICLOUD_CLEANUP_TARGET_PERCENT", reprFloat config.icloud.val.cleanupTargetPercent),
    ("MNEMA_ICLOUD_CLEANUP_QUARANTINE_DAYS", toString config.icloud.val.cleanupQuarantineDays),
    ("MNEMA_ICLOUD_CLEANUP_MAX_ASSETS", toString config.icloud.val.cleanupMaxAssets),
    ("MNEMA_ICLOUD_CLEANUP_MAX_QUOTA_PERCENT", reprFloat config.icloud.val.cleanupMaxQuotaPercent),
    ("COMPOSE_PROFILES", ",".intercalate config.profiles)]

def ApplianceConfig.runtimeEnvironment (reprFloat : ℚ → String) (config : ApplianceConfig lib) : Items :=
  if config.coldStorage.val.integrationMinio then (config.environment reprFloat).update minioItems
  else config.environment reprFloat

/-- No character of the value ends a line. -/
def isLineValue (value : String) : Bool := !value.toList.any fun c => lineBreaks.contains c

def renderLines : Items → Except PyError (List String)
  | [] => .ok []
  | (key, value) :: rest =>
    if !isLineValue value then .error (.value ("runtime value for " ++ key ++ " contains an unsupported character"))
    else do
      let lines ← renderLines rest
      return (key ++ "=" ++ value) :: lines

def renderEnvironment (reprFloat : ℚ → String) (config : ApplianceConfig lib) : Except PyError String := do
  let lines ← renderLines (config.runtimeEnvironment reprFloat).sorted
  return "\n".intercalate lines ++ "\n"

/-! ### Reading the file back -/

/-- A line, split at its first equals sign. -/
def readLine (line : List Char) : String × String :=
  (String.ofList (line.takeWhile (· != '=')), String.ofList ((line.dropWhile (· != '=')).drop 1))

/-- The items of a file whose last line is ended. -/
def readEnvironment (text : String) : Items := ((text.toList.splitOn '\n').dropLast).map readLine

/-- A key ends neither its line nor itself. -/
def isKey (key : String) : Bool := key.toList.all fun c => c != '=' && c != '\n'

/-- The kernel reads the characters of a literal faster than it decodes its bytes. -/
theorem isKey_ofList {cs : List Char} (h : cs.all (fun c => c != '=' && c != '\n') = true) :
    isKey (String.ofList cs) = true := by
  rw [isKey, String.toList_ofList]
  exact h

theorem isLineValue_ofList {cs : List Char} (h : cs.any (fun c => lineBreaks.contains c) = false) :
    isLineValue (String.ofList cs) = true := by
  rw [isLineValue, String.toList_ofList, h]
  rfl

theorem renderLines_eq_ok_iff {items : Items} {lines : List String} : renderLines items = .ok lines ↔
    (∀ item ∈ items, isLineValue item.2 = true) ∧ lines = items.map fun item => item.1 ++ "=" ++ item.2 := by
  induction items generalizing lines with
  | nil =>
    constructor
    · intro h
      exact ⟨by simp, (Except.ok.inj h).symm⟩
    · intro h
      rw [h.2]
      rfl
  | cons item rest ih =>
    obtain ⟨key, value⟩ := item
    rw [renderLines, List.forall_mem_cons]
    cases hvalue : isLineValue value with
    | false => simp
    | true =>
      simp only [Bool.not_true, Bool.false_eq_true, if_false, true_and, List.map_cons]
      cases hrest : renderLines rest with
      | error e =>
        have hnone : ¬∀ item ∈ rest, isLineValue item.2 = true := by
          intro hall
          have hok := ih.2 ⟨hall, rfl⟩
          rw [hrest] at hok
          cases hok
        constructor
        · intro h
          cases h
        · intro h
          exact absurd h.1 hnone
      | ok lines' =>
        obtain ⟨hall, hlines⟩ := ih.1 hrest
        simp only [hlines, bind, Except.bind, pure, Except.pure, Except.ok.injEq]
        constructor
        · rintro rfl
          exact ⟨hall, rfl⟩
        · intro h
          exact h.2.symm

theorem readLine_line {key value : String} (h : isKey key = true) : readLine (key ++ "=" ++ value).toList = (key, value) := by
  have hkey : ∀ c ∈ key.toList, (c != '=') = true := by
    intro c hc
    have hall := List.all_eq_true.mp h c hc
    rw [Bool.and_eq_true] at hall
    exact hall.1
  have hline : (key ++ "=" ++ value).toList = key.toList ++ '=' :: value.toList := by
    simp [String.toList_append]
  rw [hline, readLine, List.takeWhile_append_of_pos hkey, List.dropWhile_append_of_pos hkey]
  simp

theorem not_newline_line {key value : String} (hkey : isKey key = true) (hvalue : isLineValue value = true) :
    '\n' ∉ (key ++ "=" ++ value).toList := by
  rw [String.toList_append, String.toList_append, List.mem_append, List.mem_append]
  rintro ((hmem | hmem) | hmem)
  · have hall := List.all_eq_true.mp hkey '\n' hmem
    cases hall
  · exact absurd hmem (by decide)
  · rw [isLineValue, Bool.not_eq_true', List.any_eq_false] at hvalue
    exact absurd (by decide) (hvalue '\n' hmem)

theorem intercalate_concat_nil {α : Type} (sep : List α) {lines : List (List α)} (h : lines ≠ []) :
    sep.intercalate (lines ++ [[]]) = sep.intercalate lines ++ sep := by
  induction lines with
  | nil => exact absurd rfl h
  | cons line rest ih =>
    rw [List.cons_append, List.intercalate_cons_of_ne_nil (by simp)]
    by_cases hrest : rest = []
    · rw [hrest]
      simp
    · rw [ih hrest, List.intercalate_cons_of_ne_nil hrest]
      simp only [List.append_assoc]

/-- What is rendered can be read back. -/
theorem readEnvironment_lines {items : Items} {lines : List String} (hkeys : ∀ item ∈ items, isKey item.1 = true)
    (hitems : items ≠ []) (h : renderLines items = .ok lines) :
    readEnvironment ("\n".intercalate lines ++ "\n") = items := by
  obtain ⟨hvalues, rfl⟩ := renderLines_eq_ok_iff.1 h
  have htext : ("\n".intercalate (items.map fun item => item.1 ++ "=" ++ item.2) ++ "\n").toList =
      ['\n'].intercalate ((items.map fun item => (item.1 ++ "=" ++ item.2).toList) ++ [[]]) := by
    rw [intercalate_concat_nil _ (by simpa using hitems), String.toList_append, String.toList_intercalate, List.map_map]
    rfl
  have hlines : ∀ line ∈ (items.map fun item => (item.1 ++ "=" ++ item.2).toList) ++ [[]], '\n' ∉ line := by
    intro line hline hmem
    rcases List.mem_append.mp hline with hline | hline
    · obtain ⟨item, hitem, rfl⟩ := List.mem_map.mp hline
      exact not_newline_line (hkeys item hitem) (hvalues item hitem) hmem
    · rw [List.mem_singleton.mp hline] at hmem
      cases hmem
  rw [readEnvironment, htext, List.splitOn_intercalate '\n' hlines (by simp), List.dropLast_concat, List.map_map]
  refine (List.map_congr_left ?_).trans (List.map_id items)
  intro item hitem
  exact readLine_line (hkeys item hitem)

theorem isKey_update {items others : Items} (hitems : ∀ item ∈ items, isKey item.1 = true)
    (hothers : ∀ item ∈ others, isKey item.1 = true) : ∀ item ∈ items.update others, isKey item.1 = true := by
  intro item hitem
  rcases List.mem_append.mp hitem with hitem | hitem
  · obtain ⟨before, hbefore, rfl⟩ := List.mem_map.mp hitem
    exact hitems before hbefore
  · exact hothers item (List.mem_of_mem_filter hitem)

theorem isKey_environment (reprFloat : ℚ → String) (config : ApplianceConfig lib) :
    ∀ item ∈ config.environment reprFloat, isKey item.1 = true := by
  have hkeys : ∀ key ∈ (config.environment reprFloat).map Prod.fst, isKey key = true := by
    simp only [ApplianceConfig.environment, List.map_cons, List.map_nil, List.forall_mem_cons]
    and_intros <;> first | exact isKey_ofList rfl | exact List.forall_mem_nil _
  intro item hitem
  exact hkeys item.1 (List.mem_map_of_mem hitem)

theorem isKey_runtimeEnvironment (reprFloat : ℚ → String) (config : ApplianceConfig lib) :
    ∀ item ∈ config.runtimeEnvironment reprFloat, isKey item.1 = true := by
  unfold ApplianceConfig.runtimeEnvironment
  split
  · have hminio : ∀ item ∈ minioItems, isKey item.1 = true := by
      simp only [minioItems, List.forall_mem_cons]
      and_intros <;> first | exact isKey_ofList rfl | exact List.forall_mem_nil _
    exact isKey_update (isKey_environment reprFloat config) hminio
  · exact isKey_environment reprFloat config

/-- Where the values that are replaced end no line, no value does. -/
theorem isLineValue_runtimeEnvironment {reprFloat : ℚ → String} {config : ApplianceConfig lib}
    (h : ∀ item ∈ config.environment reprFloat, isLineValue item.2 = true) :
    ∀ item ∈ config.runtimeEnvironment reprFloat, isLineValue item.2 = true := by
  have hminio : ∀ item ∈ minioItems, isLineValue item.2 = true := by
    simp only [minioItems, List.forall_mem_cons]
    and_intros <;> first | exact isLineValue_ofList rfl | exact List.forall_mem_nil _
  unfold ApplianceConfig.runtimeEnvironment
  split
  · intro item hitem
    rcases List.mem_append.mp hitem with hitem | hitem
    · obtain ⟨before, hbefore, rfl⟩ := List.mem_map.mp hitem
      cases hother : minioItems.lookup before.1 with
      | none => exact h before hbefore
      | some value =>
        obtain ⟨front, back, hsplit, -⟩ := List.lookup_eq_some_iff.mp hother
        exact hminio (before.1, value) (by rw [hsplit]; simp)
    · exact hminio item (List.mem_of_mem_filter hitem)
  · exact h

theorem runtimeEnvironment_ne_nil (reprFloat : ℚ → String) (config : ApplianceConfig lib) :
    config.runtimeEnvironment reprFloat ≠ [] := by
  unfold ApplianceConfig.runtimeEnvironment
  split
  · exact List.cons_ne_nil _ _
  · exact List.cons_ne_nil _ _

theorem perm_sorted (items : Items) : items.sorted.Perm items := List.mergeSort_perm _ _

theorem renderEnvironment_eq_ok_iff {reprFloat : ℚ → String} {config : ApplianceConfig lib} {text : String} :
    renderEnvironment reprFloat config = .ok text ↔
      ∃ lines, renderLines (config.runtimeEnvironment reprFloat).sorted = .ok lines ∧
        "\n".intercalate lines ++ "\n" = text := by
  unfold renderEnvironment
  cases renderLines (config.runtimeEnvironment reprFloat).sorted with
  | error e =>
    constructor
    · intro h
      cases h
    · rintro ⟨lines, hlines, -⟩
      cases hlines
  | ok lines =>
    constructor
    · intro h
      exact ⟨lines, rfl, Except.ok.inj h⟩
    · rintro ⟨lines', hlines, rfl⟩
      rw [Except.ok.inj hlines]
      rfl

/-- Rendering succeeds exactly if no value spans lines. -/
theorem renderEnvironment_isOk_iff {reprFloat : ℚ → String} {config : ApplianceConfig lib} :
    (∃ text, renderEnvironment reprFloat config = .ok text) ↔
      ∀ item ∈ config.runtimeEnvironment reprFloat, isLineValue item.2 = true := by
  simp only [renderEnvironment_eq_ok_iff, renderLines_eq_ok_iff, (perm_sorted _).mem_iff]
  constructor
  · rintro ⟨text, lines, ⟨hvalues, -⟩, -⟩
    exact hvalues
  · intro hvalues
    exact ⟨_, _, ⟨hvalues, rfl⟩, rfl⟩

/-- A rendered file has one line for each item, in the order of the keys. -/
theorem readEnvironment_render {reprFloat : ℚ → String} {config : ApplianceConfig lib} {text : String}
    (h : renderEnvironment reprFloat config = .ok text) :
    readEnvironment text = (config.runtimeEnvironment reprFloat).sorted := by
  obtain ⟨lines, hlines, rfl⟩ := renderEnvironment_eq_ok_iff.1 h
  apply readEnvironment_lines ?_ ?_ hlines
  · intro item hitem
    exact isKey_runtimeEnvironment reprFloat config item ((perm_sorted _).mem_iff.mp hitem)
  · intro hnil
    have hperm := perm_sorted (config.runtimeEnvironment reprFloat)
    rw [hnil] at hperm
    exact runtimeEnvironment_ne_nil reprFloat config hperm.symm.eq_nil

theorem renderLines_error {items : Items} {e : PyError} (h : renderLines items = .error e) :
    ∃ item ∈ items, isLineValue item.2 = false ∧
      e = .value ("runtime value for " ++ item.1 ++ " contains an unsupported character") := by
  induction items with
  | nil => cases h
  | cons item rest ih =>
    rw [renderLines] at h
    cases hvalue : isLineValue item.2 with
    | false =>
      rw [hvalue] at h
      exact ⟨item, List.mem_cons_self, hvalue, (Except.error.inj h).symm⟩
    | true =>
      rw [hvalue] at h
      cases hrest : renderLines rest with
      | error e' =>
        have he : e' = e := by
          rw [hrest] at h
          exact Except.error.inj h
        obtain ⟨bad, hbad, hfacts⟩ := ih (hrest.trans (congrArg _ he))
        exact ⟨bad, List.mem_cons_of_mem _ hbad, hfacts⟩
      | ok lines =>
        rw [hrest] at h
        cases h

/-- The two variables that keep deletion locked, which no configuration sets. -/
def locks : Items := [("MNEMA_GLOBAL_DELETION_ENABLED", "false"), ("MNEMA_SAFETY_LOCK", "true")]

theorem filter_environment (reprFloat : ℚ → String) (config : ApplianceConfig lib) {lock : String × String}
    (h : lock ∈ locks) : (config.environment reprFloat).filter (fun item => item.1 == lock.1) = [lock] := by
  rcases List.mem_cons.mp h with rfl | h
  · simp [ApplianceConfig.environment]
  · rw [List.mem_singleton.mp h]
    simp [ApplianceConfig.environment]

theorem lookup_eq_none {items : Items} {key : String} (h : ∀ item ∈ items, item.1 ≠ key) : items.lookup key = none := by
  induction items with
  | nil => rfl
  | cons item rest ih =>
    obtain ⟨hitem, hrest⟩ := List.forall_mem_cons.mp h
    rw [List.lookup_cons, beq_eq_false_iff_ne.mpr (Ne.symm hitem)]
    exact ih hrest

/-- An update leaves alone the keys it does not have. -/
theorem filter_update {items others : Items} {key : String} (h : ∀ item ∈ others, item.1 ≠ key) :
    (items.update others).filter (fun item => item.1 == key) = items.filter fun item => item.1 == key := by
  have hnew : (others.filter fun item => (items.lookup item.1).isNone).filter (fun item => item.1 == key) = [] := by
    rw [List.filter_eq_nil_iff]
    intro item hitem
    simpa using h item (List.mem_of_mem_filter hitem)
  rw [Items.update, List.filter_append, hnew, List.append_nil]
  clear hnew
  induction items with
  | nil => rfl
  | cons item rest ih =>
    obtain ⟨k, value⟩ := item
    rw [List.map_cons, List.filter_cons, List.filter_cons, ih]
    by_cases hkey : k = key
    · simp [hkey, lookup_eq_none h]
    · simp [hkey]

theorem filter_runtimeEnvironment (reprFloat : ℚ → String) (config : ApplianceConfig lib) {lock : String × String}
    (h : lock ∈ locks) : (config.runtimeEnvironment reprFloat).filter (fun item => item.1 == lock.1) = [lock] := by
  have hminio : ∀ item ∈ minioItems, item.1 ≠ lock.1 := by
    have hall : ∀ lock ∈ locks, ∀ item ∈ minioItems, item.1 ≠ lock.1 := by decide
    exact hall lock h
  unfold ApplianceConfig.runtimeEnvironment
  split
  · rw [filter_update hminio]
    exact filter_environment reprFloat config h
  · exact filter_environment reprFloat config h

/-- A configuration is rendered to a file that holds its variables and no others, with the locks
on deletion, or not at all because one of its values would end a line. -/
theorem rendered_locked (reprFloat : ℚ → String) (config : ApplianceConfig lib) :
    (∃ text, renderEnvironment reprFloat config = .ok text ∧
      readEnvironment text = (config.runtimeEnvironment reprFloat).sorted ∧
      ∀ lock ∈ locks, ∀ value, (lock.1, value) ∈ readEnvironment text ↔ value = lock.2) ∨
    ∃ item ∈ config.runtimeEnvironment reprFloat, isLineValue item.2 = false ∧
      renderEnvironment reprFloat config =
        .error (.value ("runtime value for " ++ item.1 ++ " contains an unsupported character")) := by
  cases hrender : renderEnvironment reprFloat config with
  | ok text =>
    have hread := readEnvironment_render hrender
    refine Or.inl ⟨text, rfl, hread, ?_⟩
    intro lock hlock value
    have hfilter := filter_runtimeEnvironment reprFloat config hlock
    have hmem : (lock.1, value) ∈ config.runtimeEnvironment reprFloat ↔ (lock.1, value) ∈ [lock] := by
      rw [← hfilter, List.mem_filter]
      simp
    rw [hread, (perm_sorted _).mem_iff, hmem, List.mem_singleton, Prod.ext_iff]
    exact and_iff_right rfl
  | error e =>
    have herror : renderLines (config.runtimeEnvironment reprFloat).sorted = .error e := by
      unfold renderEnvironment at hrender
      cases hlines : renderLines (config.runtimeEnvironment reprFloat).sorted with
      | error e' =>
        rw [hlines] at hrender
        have he : e' = e := Except.error.inj hrender
        rw [he]
      | ok lines =>
        rw [hlines] at hrender
        cases hrender
    obtain ⟨item, hitem, hvalue, rfl⟩ := renderLines_error herror
    exact Or.inr ⟨item, (perm_sorted _).mem_iff.mp hitem, hvalue, rfl⟩

end Environment

end Mnema
