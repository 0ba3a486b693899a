import Mnema.Configure

/-! Every command but one leaves a configuration behind that can be loaded again: only
`configure cloudflare` may turn the tunnel off under an enabled file provider. -/

namespace Mnema

variable {lib : Libraries} {secrets : PurePath} {terminal : Terminal}
  {current saved : ApplianceConfig lib} {updates : SecretUpdates}

theorem prod_of_pure {α β : Type} {a a' : α} {b b' : β}
    (h : (pure (a, b) : Except String (α × β)) = .ok (a', b')) : a = a' ∧ b = b' := Prod.mk.inj (Except.ok.inj h)

/-! ### What a command changes -/

/-- Neither the tunnel nor the file provider is changed. -/
def SameAccess (current saved : ApplianceConfig lib) : Prop :=
  saved.cloudflare = current.cloudflare ∧ saved.fileProvider = current.fileProvider

theorem SameAccess.usesCloudflare (h : SameAccess current saved) (hc : current.UsesCloudflare) :
    saved.UsesCloudflare := by
  unfold ApplianceConfig.UsesCloudflare
  rw [h.1, h.2]
  exact hc

theorem sameAccess_storage {a b s : Option PurePath}
    (h : configureStorage terminal current a b s = .ok (saved, updates)) : SameAccess current saved := by
  obtain ⟨storage, _, h⟩ := Except.of_bind_eq_ok h
  obtain ⟨rfl, _⟩ := prod_of_pure h
  exact ⟨rfl, rfl⟩

theorem sameAccess_coldStorage {options : ColdStorageOptions}
    (h : configureColdStorage secrets terminal current options = .ok (saved, updates)) :
    SameAccess current saved := by
  obtain ⟨cold, _, h⟩ := Except.of_bind_eq_ok h
  obtain ⟨rfl, _⟩ := prod_of_pure h
  exact ⟨rfl, rfl⟩

theorem sameAccess_sftpgo {username bindAddress : Option String}
    (h : configureSftpgo terminal current username bindAddress = .ok (saved, updates)) :
    SameAccess current saved := by
  obtain ⟨username, _, h⟩ := Except.of_bind_eq_ok h
  obtain ⟨bindAddress, _, h⟩ := Except.of_bind_eq_ok h
  obtain ⟨sftpgo, _, h⟩ := Except.of_bind_eq_ok h
  obtain ⟨rfl, _⟩ := prod_of_pure h
  exact ⟨rfl, rfl⟩

theorem sameAccess_telegram {enabled : Option Bool} {tokenFile : Option PurePath} {ids : Option String}
    (h : configureTelegram secrets terminal current enabled tokenFile ids = .ok (saved, updates)) :
    SameAccess current saved := by
  obtain ⟨telegram, _, h⟩ := Except.of_bind_eq_ok h
  obtain ⟨rfl, _⟩ := prod_of_pure h
  exact ⟨rfl, rfl⟩

theorem sameAccess_icloud {enabled : Option Bool} {appleId dailyAt : Option String} {relief readOnly : Bool}
    (h : configureICloud terminal current enabled appleId dailyAt relief readOnly = .ok (saved, updates)) :
    SameAccess current saved := by
  obtain ⟨icloud, _, h⟩ := Except.of_bind_eq_ok h
  obtain ⟨rfl, _⟩ := prod_of_pure h
  exact ⟨rfl, rfl⟩

theorem sameAccess_policy {days hours quarantine : Option Int}
    (h : configurePolicy terminal current days hours quarantine = .ok (saved, updates)) :
    SameAccess current saved := by
  obtain ⟨days, _, h⟩ := Except.of_bind_eq_ok h
  obtain ⟨hours, _, h⟩ := Except.of_bind_eq_ok h
  obtain ⟨quarantine, _, h⟩ := Except.of_bind_eq_ok h
  obtain ⟨policy, _, h⟩ := Except.of_bind_eq_ok h
  obtain ⟨rfl, _⟩ := prod_of_pure h
  exact ⟨rfl, rfl⟩

theorem usesCloudflare_fileProvider {enabled : Option Bool} {publicUrl : Option String}
    {maxFileSize : Option Int} {minimumFreePercent : Option ℚ}
    (h : configureFileProvider terminal current enabled publicUrl maxFileSize minimumFreePercent =
      .ok (saved, updates)) : saved.UsesCloudflare := by
  obtain ⟨useEnabled, _, h⟩ := Except.of_bind_eq_ok h
  dsimp only at h
  split at h
  case isTrue => cases h
  case isFalse hguard =>
    obtain ⟨publicUrl, _, h⟩ := Except.of_bind_eq_ok h
    obtain ⟨fileProvider, hvalid, h⟩ := Except.of_bind_eq_ok h
    obtain ⟨rfl, _⟩ := prod_of_pure h
    have hval : fileProvider.val.enabled = useEnabled :=
      congrArg FileProviderConfig.enabled (Rule.val_of_validate _ hvalid)
    intro henabled
    rw [hval] at henabled
    rw [henabled] at hguard
    show current.cloudflare.val.enabled = true
    simpa using hguard

/-! ### The tunnel -/

theorem enabled_of_validate {cloudflare : (CloudflareConfig.rule lib).Valid} {config : CloudflareConfig}
    (h : (CloudflareConfig.rule lib).validate config = .ok cloudflare) :
    cloudflare.val.enabled = config.enabled :=
  congrArg CloudflareConfig.enabled (Rule.val_of_validate _ h)

theorem confirm_of_promptCloudflare {before : CloudflareConfig}
    {cloudflare : (CloudflareConfig.rule lib).Valid} {token : Option String}
    (h : promptCloudflare terminal before = .ok (cloudflare, token)) :
    terminal.confirm tunnelQuestion before.enabled = .ok cloudflare.val.enabled := by
  obtain ⟨enabled, hconfirm, h⟩ := Except.of_bind_eq_ok h
  have henabled : cloudflare.val.enabled = enabled := by
    cases enabled with
    | false =>
      obtain ⟨_, hvalid, h⟩ := Except.of_bind_eq_ok h
      obtain ⟨rfl, _⟩ := prod_of_pure h
      exact enabled_of_validate hvalid
    | true =>
      obtain ⟨_, _, h⟩ := Except.of_bind_eq_ok h
      obtain ⟨_, _, h⟩ := Except.of_bind_eq_ok h
      obtain ⟨_, _, h⟩ := Except.of_bind_eq_ok h
      obtain ⟨_, _, h⟩ := Except.of_bind_eq_ok h
      obtain ⟨_, hvalid, h⟩ := Except.of_bind_eq_ok h
      obtain ⟨rfl, _⟩ := prod_of_pure h
      exact enabled_of_validate hvalid
  rw [henabled]
  exact hconfirm

theorem enabled_of_tunnelOptions {teamDomain audience hostname : Option String}
    {tokenFile : Option PurePath} {cloudflare : (CloudflareConfig.rule lib).Valid} {token : Option String}
    (h : tunnelOptions terminal teamDomain audience hostname tokenFile = .ok (cloudflare, token)) :
    cloudflare.val.enabled = true := by
  obtain ⟨_, hvalid, h⟩ := Except.of_bind_eq_ok h
  cases tokenFile with
  | none => cases h
  | some tokenFile =>
    dsimp only at h
    split at h
    · cases h
    · obtain ⟨_, _, h⟩ := Except.of_bind_eq_ok h
      obtain ⟨rfl, _⟩ := prod_of_pure h
      exact enabled_of_validate hvalid

/-- The file provider stays as it is, and the tunnel is off exactly if the command turns it off. -/
theorem disablesTunnel_cloudflare {enabled : Option Bool} {teamDomain audience hostname : Option String}
    {tokenFile : Option PurePath}
    (h : configureCloudflare secrets terminal current enabled teamDomain audience hostname tokenFile =
      .ok (saved, updates)) :
    saved.fileProvider = current.fileProvider ∧
      (Command.cloudflare enabled teamDomain audience hostname tokenFile).disablesTunnel terminal
        current.cloudflare.val.enabled = !saved.cloudflare.val.enabled := by
  obtain ⟨⟨cloudflare, token⟩, hchosen, h⟩ := Except.of_bind_eq_ok h
  obtain ⟨_, _, h⟩ := Except.of_bind_eq_ok h
  obtain ⟨rfl, _⟩ := prod_of_pure h
  refine ⟨rfl, ?_⟩
  show _ = !cloudflare.val.enabled
  cases enabled with
  | none =>
    have hconfirm := confirm_of_promptCloudflare hchosen
    simp only [Command.disablesTunnel, hconfirm]
  | some enabled =>
    cases enabled with
    | false =>
      obtain ⟨_, hvalid, hpair⟩ := Except.of_map_eq_ok hchosen
      obtain ⟨rfl, _⟩ := Prod.mk.inj hpair
      rw [enabled_of_validate hvalid]
      rfl
    | true =>
      have henabled := enabled_of_tunnelOptions hchosen
      rw [henabled]
      rfl

/-- The wizard asks for the file provider with the new tunnel at hand. -/
theorem usesCloudflare_promptFileProvider {before : FileProviderConfig} {cloudflare : CloudflareConfig}
    {fileProvider : (FileProviderConfig.rule lib).Valid}
    (h : promptFileProvider terminal before cloudflare = .ok fileProvider)
    (henabled : fileProvider.val.enabled = true) : cloudflare.enabled = true := by
  obtain ⟨enabled, _, h⟩ := Except.of_bind_eq_ok h
  split at h
  · have hval := Rule.val_of_validate _ h
    rw [hval] at henabled
    cases henabled
  · split at h
    · cases h
    · next htunnel => simpa using htunnel

theorem usesCloudflare_all (h : configureAll secrets terminal current = .ok (saved, updates)) :
    saved.UsesCloudflare := by
  obtain ⟨storage, _, h⟩ := Except.of_bind_eq_ok h
  obtain ⟨⟨cold, coldUpdates⟩, _, h⟩ := Except.of_bind_eq_ok h
  obtain ⟨⟨cloudflare, token⟩, _, h⟩ := Except.of_bind_eq_ok h
  obtain ⟨fileProvider, hprovider, h⟩ := Except.of_bind_eq_ok h
  obtain ⟨icloud, _, h⟩ := Except.of_bind_eq_ok h
  obtain ⟨⟨telegram, telegramUpdates⟩, _, h⟩ := Except.of_bind_eq_ok h
  obtain ⟨username, _, h⟩ := Except.of_bind_eq_ok h
  obtain ⟨bindAddress, _, h⟩ := Except.of_bind_eq_ok h
  obtain ⟨sftpgo, _, h⟩ := Except.of_bind_eq_ok h
  obtain ⟨localBindAddress, _, h⟩ := Except.of_bind_eq_ok h
  obtain ⟨startAtBoot, _, h⟩ := Except.of_bind_eq_ok h
  obtain ⟨workerConcurrency, _, h⟩ := Except.of_bind_eq_ok h
  obtain ⟨service, _, h⟩ := Except.of_bind_eq_ok h
  obtain ⟨tokenUpdates, _, h⟩ := Except.of_bind_eq_ok h
  obtain ⟨rfl, _⟩ := prod_of_pure h
  exact usesCloudflare_promptFileProvider hprovider

/-! ### What is saved can be loaded -/

theorem usesCloudflare_desired {command : Command} (hc : current.UsesCloudflare)
    (h : command.desired secrets terminal current = .ok (saved, updates)) :
    saved.UsesCloudflare ↔ ¬ (current.fileProvider.val.enabled = true ∧
      command.disablesTunnel terminal current.cloudflare.val.enabled = true) := by
  -- for every other command both sides hold
  have hother : command.disablesTunnel terminal current.cloudflare.val.enabled = false →
      saved.UsesCloudflare → (saved.UsesCloudflare ↔ ¬ (current.fileProvider.val.enabled = true ∧
        command.disablesTunnel terminal current.cloudflare.val.enabled = true)) := by
    intro hkeeps huses
    rw [hkeeps]
    exact iff_of_true huses nofun
  cases command with
  | all => exact hother rfl (usesCloudflare_all h)
  | storage _ _ _ => exact hother rfl ((sameAccess_storage h).usesCloudflare hc)
  | coldStorage _ => exact hother rfl ((sameAccess_coldStorage h).usesCloudflare hc)
  | cloudflare _ _ _ _ _ =>
    obtain ⟨hprovider, htunnel⟩ := disablesTunnel_cloudflare h
    rw [htunnel]
    unfold ApplianceConfig.UsesCloudflare
    rw [hprovider]
    cases current.fileProvider.val.enabled <;> cases saved.cloudflare.val.enabled <;> simp
  | sftpgo _ _ => exact hother rfl ((sameAccess_sftpgo h).usesCloudflare hc)
  | fileProvider _ _ _ _ => exact hother rfl (usesCloudflare_fileProvider h)
  | telegram _ _ _ => exact hother rfl ((sameAccess_telegram h).usesCloudflare hc)
  | icloud _ _ _ _ _ => exact hother rfl ((sameAccess_icloud h).usesCloudflare hc)
  | policy _ _ _ => exact hother rfl ((sameAccess_policy h).usesCloudflare hc)

section Runs

variable {τ : Type} {yaml : Yaml τ} {file left : Option τ} {inv : Invocation}
  {result : Except String (ApplianceConfig lib)}

theorem saveConfig_cases {host : HostAnswers} {answer : Except String Unit}
    (h : saveConfig yaml secrets host saved updates file = (answer, left)) :
    (∃ e, answer = .error e ∧ left = file) ∨ (answer = .ok () ∧ left = some (dumpConfig yaml saved)) := by
  unfold saveConfig at h
  dsimp only at h
  split at h
  · next e _ =>
    obtain ⟨rfl, rfl⟩ := Prod.mk.inj h
    exact .inl ⟨e, rfl, rfl⟩
  · split at h
    · next e _ =>
      obtain ⟨rfl, rfl⟩ := Prod.mk.inj h
      exact .inl ⟨e, rfl, rfl⟩
    · obtain ⟨rfl, rfl⟩ := Prod.mk.inj h
      exact .inr ⟨rfl, rfl⟩

theorem save_cases (h : inv.save yaml secrets saved updates file = (result, left)) :
    (∃ e, result = .error e ∧ left = file) ∨ (result = .ok saved ∧ left = some (dumpConfig yaml saved)) := by
  unfold Invocation.save at h
  split at h
  · next e _ =>
    obtain ⟨rfl, rfl⟩ := Prod.mk.inj h
    exact .inl ⟨e, rfl, rfl⟩
  · obtain ⟨rfl, rfl⟩ := Prod.mk.inj h
    exact .inl ⟨_, rfl, rfl⟩
  · split at h
    · next e _ hsave =>
      obtain ⟨rfl, rfl⟩ := Prod.mk.inj h
      rcases saveConfig_cases hsave with ⟨_, _, hleft⟩ | ⟨hok, _⟩
      · exact .inl ⟨e, rfl, hleft⟩
      · cases hok
    · next hsave =>
      obtain ⟨rfl, rfl⟩ := Prod.mk.inj h
      rcases saveConfig_cases hsave with ⟨_, herror, _⟩ | ⟨_, hleft⟩
      · cases herror
      · exact .inr ⟨rfl, hleft⟩

/-- A run leaves the file alone, or saves what the command made of the stored configuration. -/
theorem run_cases (h : inv.run yaml secrets file = (result, left)) :
    (∃ e, result = .error e ∧ left = file) ∨
      ∃ current saved updates, loadConfig yaml file = .ok current ∧
        inv.command.desired secrets inv.terminal current = .ok (saved, updates) ∧
        result = .ok saved ∧ left = some (dumpConfig yaml saved) := by
  unfold Invocation.run at h
  dsimp only at h
  split at h
  · next e _ =>
    obtain ⟨rfl, rfl⟩ := Prod.mk.inj h
    exact .inl ⟨e, rfl, rfl⟩
  · next saved updates hdesired =>
    obtain ⟨_, _, hdesired⟩ := Except.of_bind_eq_ok hdesired
    obtain ⟨current, hload, hdesired⟩ := Except.of_bind_eq_ok hdesired
    rcases save_cases h with hkept | ⟨hok, hleft⟩
    · exact .inl hkept
    · exact .inr ⟨current, saved, updates, hload, hdesired, hok, hleft⟩

/-- The file that a command leaves is loaded as it was saved, unless the command dropped the tunnel. -/
theorem loads_iff (hload : loadConfig yaml file = .ok current)
    (h : inv.run yaml secrets file = (.ok saved, left)) :
    loadConfig yaml left = .ok saved ↔ ¬ inv.DropsTunnel current := by
  rcases run_cases h with ⟨_, herror, _⟩ | ⟨before, after, updates, hbefore, hdesired, hok, rfl⟩
  · cases herror
  · obtain rfl := Except.ok.inj (hload.symm.trans hbefore)
    obtain rfl := Except.ok.inj hok
    rw [loadConfig_dumpConfig]
    exact usesCloudflare_desired (usesCloudflare_of_loadConfig hload) hdesired

variable (lib yaml secrets) in
/-- A command is run on the stored configuration, and does not drop the tunnel. -/
def KeepsTunnel (file left : Option τ) : Prop :=
  ∃ (inv : Invocation) (current : ApplianceConfig lib) (result : Except String (ApplianceConfig lib)),
    loadConfig yaml file = .ok current ∧ ¬ inv.DropsTunnel current ∧
      inv.run yaml secrets file = (result, left)

theorem loads_step (h : KeepsTunnel lib secrets yaml file left) :
    ∃ current : ApplianceConfig lib, loadConfig yaml left = .ok current := by
  obtain ⟨inv, current, result, hload, hkeeps, hrun⟩ := h
  rcases run_cases hrun with ⟨_, _, rfl⟩ | ⟨_, saved, _, _, _, rfl, _⟩
  · exact ⟨current, hload⟩
  · exact ⟨saved, (loads_iff hload hrun).mpr hkeeps⟩

theorem loads_of_run (hload : loadConfig yaml file = .ok current)
    (hrun : Relation.ReflTransGen (KeepsTunnel lib secrets yaml) file left) :
    ∃ current : ApplianceConfig lib, loadConfig yaml left = .ok current := by
  induction hrun with
  | refl => exact ⟨current, hload⟩
  | tail _ hstep _ => exact loads_step hstep

end Runs

/-- In a run that never drops the tunnel, every stored configuration loads and satisfies the rule
between its sections; and what the next command saves is loaded as it was saved exactly if that
command does not drop the tunnel either. -/
theorem saved_configuration_loads {τ : Type} (yaml : Yaml τ) (secrets : PurePath) {file left : Option τ}
    {first : ApplianceConfig lib} (hload : loadConfig yaml file = .ok first)
    (hrun : Relation.ReflTransGen (KeepsTunnel lib secrets yaml) file left) :
    ∃ current : ApplianceConfig lib, loadConfig yaml left = .ok current ∧ current.UsesCloudflare ∧
      ∀ (inv : Invocation) (saved : ApplianceConfig lib) (next : Option τ),
        inv.run yaml secrets left = (.ok saved, next) →
          (loadConfig yaml next = .ok saved ↔ ¬ inv.DropsTunnel current) := by
  obtain ⟨current, hcurrent⟩ := loads_of_run hload hrun
  exact ⟨current, hcurrent, usesCloudflare_of_loadConfig hcurrent, fun _ _ _ => loads_iff hcurrent⟩

/-! ### A house with the tunnel and the file provider enabled -/

/-- `urlsplit` on addresses of the form `scheme://host/path`. -/
def splitAddress (url : String) : Except String SplitResult :=
  let (scheme, _, rest) := partitionColon url
  let host := (rest.drop 2).takeWhile (· != '/')
  .ok { scheme := String.ofList scheme
        hostname := some (String.ofList host)
        path := String.ofList ((rest.drop 2).drop host.length) }

/-- `ip_address` on four decimal parts. -/
def versionOfParts (s : String) : Except String Nat :=
  let isOctet (part : List Char) : Bool := !part.isEmpty && part.all Char.isDigit &&
    (part.length == 1 || part.head? != some '0') &&
    decide (part.foldl (fun n c => 10 * n + (c.toNat - 48)) 0 < 256)
  let parts := s.toList.splitOn '.'
  if parts.length == 4 && parts.all isOctet then .ok 4
  else .error (s ++ " does not appear to be an IPv4 or IPv6 address")

theorem versionOfParts_any : versionOfParts "0.0.0.0" = .ok 4 := by decide +kernel

theorem versionOfParts_loopback : versionOfParts "127.0.0.1" = .ok 4 := by decide +kernel

def plainLibraries : Libraries where
  urlsplit := splitAddress
  ipVersion := versionOfParts
  isDecimal := Char.isDigit
  int := String.toInt?
  toBool
    | .bool b => .ok b
    | _ => .error "Input should be a valid boolean"
  toNum
    | .num q => .ok q
    | _ => .error "Input should be a valid number"
  toInt
    | .num q => if q.den = 1 then .ok q.num else .error "Input should be a valid integer"
    | _ => .error "Input should be a valid integer"
  toStr
    | .str s => .ok s
    | _ => .error "Input should be a valid string"
  ipVersion_any := versionOfParts_any
  ipVersion_loopback := versionOfParts_loopback
  isDecimal_digit _ h := h
  toBool_bool _ := rfl
  toNum_num _ := rfl
  toInt_num n := by simp
  toStr_str _ := rfl

/-- Files that hold their documents as they are. -/
def plainYaml : Yaml Json := ⟨id, .ok, fun _ => rfl⟩

def secretsDir : PurePath := .ofString "/etc/mnema/secrets"

/-- Nobody answers the prompts, and no option names a file. -/
def silent : Terminal where
  prompt _ _ := .error "Aborted."
  choose _ _ _ := .error "Aborted."
  promptInt _ _ := .error "Aborted."
  confirm _ _ := .error "Aborted."
  isFile _ := false
  readText _ := .error "No such file or directory"

def healthy : HostAnswers := ⟨.ok (), .ok (), .ok ()⟩

/-- Options alone, with `--yes`. -/
def unattended (command : Command) : Invocation := ⟨command, true, silent, healthy⟩

def cloudflareConfig : CloudflareConfig where
  enabled := true
  teamDomain := "https://team.cloudflareaccess.com"
  audience := "audience"
  adminHostname := "admin.example.com"

def fileProviderConfig : FileProviderConfig where
  enabled := true
  publicUrl := "https://files.example.com"

theorem cloudflareConfig_passes : (CloudflareConfig.rule plainLibraries).check cloudflareConfig = none := by
  decide +kernel

theorem fileProviderConfig_passes :
    (FileProviderConfig.rule plainLibraries).check fileProviderConfig = none := by
  decide +kernel

def publicConfig : ApplianceConfig plainLibraries :=
  { standardConfig plainLibraries with
    cloudflare := ⟨cloudflareConfig, rfl, cloudflareConfig_passes⟩
    fileProvider := ⟨fileProviderConfig, rfl, fileProviderConfig_passes⟩ }

def publicFile : Option Json := some (dumpConfig plainYaml publicConfig)

theorem loadConfig_publicFile : loadConfig plainYaml publicFile = .ok publicConfig :=
  loadConfig_dumpConfig.mpr fun _ => rfl

def disableTunnel : Invocation := unattended (.cloudflare (some false) none none none none)

def withoutTunnel : ApplianceConfig plainLibraries :=
  { publicConfig with cloudflare := ⟨{}, rfl, cloudflare_standard plainLibraries⟩ }

theorem desired_disableTunnel :
    disableTunnel.command.desired secretsDir silent publicConfig = .ok (withoutTunnel, []) := rfl

theorem run_of_desired {inv : Invocation} {τ : Type} {yaml : Yaml τ} {file : Option τ}
    (husage : inv.command.usage = .ok ()) (hload : loadConfig yaml file = .ok current)
    (hdesired : inv.command.desired secrets inv.terminal current = .ok (saved, updates)) :
    inv.run yaml secrets file = inv.save yaml secrets saved updates file := by
  unfold Invocation.run
  rw [husage, hload]
  simp only [bind, Except.bind, hdesired]

/-- A command that asks for nothing and updates no secret is saved on a healthy host. -/
theorem run_unattended {command : Command} {current saved : ApplianceConfig plainLibraries}
    {file : Option Json} (husage : command.usage = .ok ()) (hload : loadConfig plainYaml file = .ok current)
    (hdesired : command.desired secretsDir silent current = .ok (saved, [])) :
    (unattended command).run plainYaml secretsDir file = (.ok saved, some (dumpConfig plainYaml saved)) := by
  have hsave : saveConfig plainYaml secretsDir healthy saved [] file =
      (.ok (), some (dumpConfig plainYaml saved)) := by
    unfold saveConfig
    rw [hload]
    rfl
  rw [run_of_desired husage hload hdesired]
  unfold Invocation.save
  simp only [unattended, hsave]
  rfl

theorem disabled_tunnel_refused :
    ∃ (config saved : ApplianceConfig plainLibraries) (left : Option Json),
      loadConfig plainYaml publicFile = .ok config ∧
      disableTunnel.run plainYaml secretsDir publicFile = (.ok saved, left) ∧
      loadConfig plainYaml left ≠ .ok saved ∧ ¬ saved.UsesCloudflare := by
  have hbroken : ¬ withoutTunnel.UsesCloudflare := fun h => nomatch h rfl
  refine ⟨publicConfig, withoutTunnel, _, loadConfig_publicFile,
    run_unattended rfl loadConfig_publicFile desired_disableTunnel, ?_, hbroken⟩
  intro hload
  exact hbroken (usesCloudflare_of_loadConfig hload)

def disableFileProvider : Invocation := unattended (.fileProvider (some false) none none none)

def withoutFileProvider : ApplianceConfig plainLibraries :=
  { publicConfig with fileProvider := ⟨{}, rfl, fileProvider_standard plainLibraries⟩ }

def privateFile : Option Json := some (dumpConfig plainYaml withoutFileProvider)

theorem desired_disableFileProvider :
    disableFileProvider.command.desired secretsDir silent publicConfig = .ok (withoutFileProvider, []) := rfl

theorem keepsTunnel_disableFileProvider :
    KeepsTunnel plainLibraries secretsDir plainYaml publicFile privateFile := by
  have hkeeps : ¬ disableFileProvider.DropsTunnel publicConfig := fun h => Bool.noConfusion h.2
  exact ⟨disableFileProvider, publicConfig, .ok withoutFileProvider, loadConfig_publicFile, hkeeps,
    run_unattended rfl loadConfig_publicFile desired_disableFileProvider⟩

/-- With the file provider disabled first, the tunnel may be disabled. -/
theorem saved_configuration_loads_private :
    ∃ current : ApplianceConfig plainLibraries, loadConfig plainYaml privateFile = .ok current ∧
      current.UsesCloudflare ∧
      ∀ (inv : Invocation) (saved : ApplianceConfig plainLibraries) (next : Option Json),
        inv.run plainYaml secretsDir privateFile = (.ok saved, next) →
          (loadConfig plainYaml next = .ok saved ↔ ¬ inv.DropsTunnel current) :=
  saved_configuration_loads plainYaml secretsDir loadConfig_publicFile
    (.single keepsTunnel_disableFileProvider)

end Mnema
