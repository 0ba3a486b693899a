import Mnema.AdminDuties
import Mathlib.Data.List.Induction

/-! Who stands behind what the administration site does, in every history of requests and
commands. -/

namespace Mnema.Admin

section Settings

theorem puts_of_ne {values : List (String × String)} {key value : String} {s : Store String String}
    (h : values.foldl (fun s v => s.put v.1 v.2) s key = some value) (hs : s key ≠ some value) :
    (key, value) ∈ values := by
  induction values generalizing s with
  | nil => exact absurd h hs
  | cons v values ih =>
    rw [List.foldl_cons] at h
    by_cases hv : s.put v.1 v.2 key = some value
    · by_cases hk : key = v.1
      · subst hk
        rw [Store.put_self] at hv
        rw [← Option.some.inj hv]
        exact List.mem_cons_self
      · rw [Store.put_of_ne s hk] at hv
        exact absurd hv hs
    · exact List.mem_cons_of_mem _ (ih h hv)

theorem puts_stay {values : List (String × String)} {key value : String} {s : Store String String}
    (hall : ∀ v ∈ values, v.1 = key → v.2 = value) (h : s key = some value ∨ ∃ v ∈ values, v.1 = key) :
    values.foldl (fun s v => s.put v.1 v.2) s key = some value := by
  induction values generalizing s with
  | nil =>
    rcases h with h | ⟨v, hv, -⟩
    · exact h
    · exact absurd hv List.not_mem_nil
  | cons v values ih =>
    rw [List.foldl_cons]
    refine ih (fun w hw => hall w (List.mem_cons_of_mem _ hw)) ?_
    by_cases hk : v.1 = key
    · left
      rw [← hk, Store.put_self, hall v List.mem_cons_self hk]
    · rw [Store.put_of_ne s (Ne.symm hk)]
      refine h.imp_right ?_
      intro hw
      obtain ⟨w, hw, hwk⟩ := hw
      rcases List.mem_cons.mp hw with rfl | hw
      · exact absurd hwk hk
      · exact ⟨w, hw, hwk⟩

theorem settings_append (log more : Log) :
    settings (log ++ more) =
      more.foldl (fun s e => (written e).foldl (fun s v => s.put v.1 v.2) s) (settings log) :=
  List.foldl_append ..

/-- A value that the settings have come to hold was written. -/
theorem written_of_settings {log more : Log} {key value : String}
    (h : settings (log ++ more) key = some value) (hs : settings log key ≠ some value) :
    ∃ before e after, more = before ++ e :: after ∧ (key, value) ∈ written e := by
  induction more generalizing log with
  | nil => exact absurd (by simpa using h) hs
  | cons e more ih =>
    by_cases he : settings (log ++ [e]) key = some value
    · refine ⟨[], e, more, rfl, puts_of_ne (s := settings log) ?_ hs⟩
      simpa [settings_append] using he
    · have hmore : settings ((log ++ [e]) ++ more) key = some value := by simpa using h
      obtain ⟨before, x, after, rfl, hx⟩ := ih hmore he
      exact ⟨e :: before, x, after, rfl, hx⟩

/-- A value that is all that is written stays. -/
theorem settings_stay {log more : Log} {key value : String} (h : settings log key = some value)
    (hall : ∀ e ∈ more, ∀ v ∈ written e, v.1 = key → v.2 = value) :
    settings (log ++ more) key = some value := by
  induction more generalizing log with
  | nil => simpa using h
  | cons e more ih =>
    have he : settings (log ++ [e]) key = some value := by
      rw [settings_append]
      exact puts_stay (hall e List.mem_cons_self) (.inl h)
    have hmore := ih he fun x hx => hall x (List.mem_cons_of_mem _ hx)
    simpa using hmore

end Settings

/-- A setup that showed the onboarding token wrote `stored` for the password of its form. -/
def SetUp (scrypt : Scrypt) (log : Log) (form : SetupForm) (stored : String) : Prop :=
  ∃ n r salt, r.endpoint = .setupSubmit form ∧ stored = scrypt.encoded form.password salt ∧
    (∃ values, ⟨.web n r, .store values, some ()⟩ ∈ log ∧ (hashKey, stored) ∈ values) ∧
    ∃ file, ⟨.web n r, .onboardingToken, some (some file)⟩ ∈ log ∧ strip file = form.onboardingToken

/-- A login verified its password against the stored one, which a setup had written. -/
def LoggedIn (scrypt : Scrypt) (log : Log) : Prop :=
  ∃ n r password csrf stored random form, r.endpoint = .loginSubmit password csrf ∧
    ⟨.web n r, .setting hashKey, some (some stored)⟩ ∈ log ∧
    scrypt.verifyPassword random password stored = some true ∧ SetUp scrypt log form stored

theorem SetUp.append {scrypt : Scrypt} {log : Log} {form : SetupForm} {stored : String}
    (h : SetUp scrypt log form stored) (more : Log) : SetUp scrypt (log ++ more) form stored := by
  obtain ⟨n, r, salt, he, hs, ⟨values, hw, hv⟩, file, hf, ht⟩ := h
  exact ⟨n, r, salt, he, hs, ⟨values, List.mem_append_left _ hw, hv⟩, file,
    List.mem_append_left _ hf, ht⟩

theorem LoggedIn.append {scrypt : Scrypt} {log : Log} (h : LoggedIn scrypt log) (more : Log) :
    LoggedIn scrypt (log ++ more) := by
  obtain ⟨n, r, password, csrf, stored, random, form, he, hr, hv, hs⟩ := h
  exact ⟨n, r, password, csrf, stored, random, form, he, List.mem_append_left _ hr, hv, hs.append more⟩

section Explained

variable {lib : Libraries} {scrypt : Scrypt} {config : SiteSettings} {log : Log}

abbrev Told (lib : Libraries) (scrypt : Scrypt) (config : SiteSettings) (log : Log) : Prop :=
  (site lib scrypt config).Explained (showed lib scrypt) log

theorem written_eq {e : Tasks.Entry Task Op Op.Ans} {v : String × String} (h : v ∈ written e) :
    ∃ values, e = ⟨e.task, .store values, some ()⟩ ∧ v ∈ values := by
  unfold written at h
  split at h
  · exact ⟨_, rfl, h⟩
  · exact absurd h List.not_mem_nil

/-- Only setups write the hash. -/
theorem setUp_of_written (h : Told lib scrypt config log) {before after : Log}
    {e : Tasks.Entry Task Op Op.Ans} (hlog : log = before ++ e :: after) {stored : String}
    (hw : (hashKey, stored) ∈ written e) : ∃ form, SetUp scrypt (before ++ [e]) form stored := by
  obtain ⟨values, he, hv⟩ := written_eq hw
  obtain ⟨-, trace, hmade, hshowed⟩ := h before e after hlog
  cases htask : e.task with
  | command n c =>
    rw [he, htask] at hshowed
    exact absurd rfl (hshowed.2 _ hv).1
  | web n r =>
    rw [htask] at he hmade
    rw [he] at hshowed
    rcases hshowed.2 with ⟨-, hkeys⟩ | ⟨form, hset⟩
    · exact absurd rfl (hkeys _ hv).1
    · obtain ⟨salt, active, backup, rfl⟩ := hset.values_eq
      obtain ⟨file, hfile, hstrip⟩ := hset.token
      refine ⟨form, n, r, salt.bytes, hset.endpoint, ?_, ⟨_, ?_, hv⟩, file, ?_, hstrip⟩
      · simpa [setupValues, hashKey, deletionKey, lockKey, policyKey, completeKey] using hv
      · rw [he]
        exact List.mem_append_right _ List.mem_cons_self
      · exact List.mem_append_left _ (hmade _ hfile)

theorem setUp_of_setting (h : Told lib scrypt config log) {before after : Log}
    {e : Tasks.Entry Task Op Op.Ans} (hlog : log = before ++ e :: after) {i : Task} {stored : String}
    (he : e = ⟨i, .setting hashKey, some (some stored)⟩) : ∃ form, SetUp scrypt before form stored := by
  subst he
  have hread : settings before hashKey = some stored := (h _ _ _ hlog).1
  have hnil : settings ([] ++ before) hashKey = some stored := hread
  obtain ⟨b, x, c, rfl, hx⟩ := written_of_settings hnil (by intro h; cases h)
  have hpart : log = b ++ x :: (c ++ ⟨i, .setting hashKey, some (some stored)⟩ :: after) := by
    rw [hlog, List.append_assoc, List.cons_append]
  obtain ⟨form, hset⟩ := setUp_of_written h hpart hx
  have hsplit : b ++ x :: c = (b ++ [x]) ++ c := by simp
  exact ⟨form, hsplit ▸ hset.append c⟩

/-- A session that has signed in was sent out after a login. -/
theorem loggedIn_of_respond (h : Told lib scrypt config log) {before after : Log}
    {e : Tasks.Entry Task Op Op.Ans} (hlog : log = before ++ e :: after) {response : Response}
    {session : Session} (he : e.op = .respond response (some session))
    (ha : session.authenticated = true) : LoggedIn scrypt before := by
  induction hn : before.length using Nat.strong_induction_on generalizing before e after response session with
  | h n ih =>
    obtain ⟨-, trace, hmade, hshowed⟩ := h before e after hlog
    cases htask : e.task with
    | command n c =>
      rw [he, htask] at hshowed
      exact hshowed.elim
    | web k r =>
      rw [he, htask] at hshowed
      rw [htask] at hmade
      rcases hshowed ha with ⟨shown, hs, hsa⟩ | ⟨password, csrf, stored, random, hr, hread, hverify⟩
      · -- the session was presented, so an earlier response carried it
        obtain ⟨b, c, rfl⟩ := List.append_of_mem (hmade _ hs)
        have hpart : log = b ++ ⟨.web k r, .session, some shown⟩ :: (c ++ e :: after) := by
          rw [hlog, List.append_assoc, List.cons_append]
        have hallowed : Presents b shown := (h _ _ _ hpart).1
        rcases hallowed with rfl | ⟨x, hx, response', hxop⟩
        · cases hsa
        · obtain ⟨b₁, b₂, rfl⟩ := List.append_of_mem hx
          have hlt : b₁.length < n := by
            rw [← hn]
            simp only [List.length_append, List.length_cons]
            omega
          have hpart' : log = b₁ ++ x :: (b₂ ++ ⟨.web k r, .session, some shown⟩ :: (c ++ e :: after)) := by
            rw [hpart, List.append_assoc, List.cons_append]
          have hin := ih _ hlt hpart' hxop hsa rfl
          rw [List.append_assoc]
          exact hin.append _
      · obtain ⟨b, c, rfl⟩ := List.append_of_mem (hmade _ hread)
        have hpart : log = b ++ ⟨.web k r, .setting hashKey, some (some stored)⟩ :: (c ++ e :: after) := by
          rw [hlog, List.append_assoc, List.cons_append]
        obtain ⟨form, hset⟩ := setUp_of_setting h hpart rfl
        exact ⟨k, r, password, csrf, stored, random, form, hr, hmade _ hread, hverify, hset.append _⟩

/-- A presented session that has signed in is one that a login gave out. -/
theorem loggedIn_of_presented (h : Told lib scrypt config log) {before after : Log}
    (hlog : log = before ++ after) {i : Task} {session : Session}
    (hs : ⟨i, .session, some session⟩ ∈ before) (ha : session.authenticated = true) :
    LoggedIn scrypt before := by
  obtain ⟨b, c, rfl⟩ := List.append_of_mem hs
  have hpart : log = b ++ ⟨i, .session, some session⟩ :: (c ++ after) := by
    rw [hlog, List.append_assoc, List.cons_append]
  have hallowed : Presents b session := (h _ _ _ hpart).1
  rcases hallowed with rfl | ⟨x, hx, response, hxop⟩
  · cases ha
  · obtain ⟨b₁, b₂, rfl⟩ := List.append_of_mem hx
    have hpart' : log = b₁ ++ x :: (b₂ ++ ⟨i, .session, some session⟩ :: (c ++ after)) := by
      rw [hpart, List.append_assoc, List.cons_append]
    rw [List.append_assoc]
    exact (loggedIn_of_respond h hpart' hxop ha).append _

theorem completes_of_written (h : Told lib scrypt config log) {e : Tasks.Entry Task Op Op.Ans} (he : e ∈ log)
    {v : String × String} (hv : v ∈ written e) (hk : v.1 = completeKey) : v.2 = "true" := by
  obtain ⟨values, hstore, hmem⟩ := written_eq hv
  obtain ⟨before, after, hlog⟩ := List.append_of_mem he
  obtain ⟨-, trace, -, hshowed⟩ := h before e after hlog
  rw [hstore] at hshowed
  cases htask : e.task with
  | command n c =>
    rw [htask] at hshowed
    exact absurd hk (hshowed.2 v hmem).2
  | web n r =>
    rw [htask] at hshowed
    rcases hshowed.2 with ⟨-, hkeys⟩ | ⟨form, hset⟩
    · exact absurd hk (hkeys v hmem).2
    · obtain ⟨salt, active, backup, rfl⟩ := hset.values_eq
      obtain ⟨key, value⟩ := v
      obtain rfl : key = completeKey := hk
      simpa [setupValues, hashKey, deletionKey, lockKey, policyKey, completeKey] using hmem

end Explained

/-- A call that only the administrator may make. -/
def Op.guarded : Op → Bool
  | .content _ | .archive _ | .restoreTest _ _ | .audit _ => true
  | .store values => values.all fun v => v.1 != completeKey
  | _ => false

/-- In every history of requests and commands, whatever a request reads, starts or changes as the
administrator, it presents a session that has signed in, its form carries the token of that
session, and a login came before whose password passed against the hash that a setup with the
onboarding token had stored. -/
theorem actions_authorized {lib : Libraries} {scrypt : Scrypt} {config : SiteSettings} {log : Log}
    (h : (site lib scrypt config).Reachable log) {before after : Log} {e : Tasks.Entry Task Op Op.Ans}
    (hlog : log = before ++ e :: after) {n : Nat} {r : Request} (htask : e.task = .web n r)
    (hop : e.op.guarded = true) :
    ∃ session : Session, ⟨.web n r, .session, some session⟩ ∈ before ∧ session.authenticated = true ∧
      (∀ token, r.endpoint.csrf = some token → session.csrf = some token) ∧ LoggedIn scrypt before := by
  have htold := explained h
  obtain ⟨-, trace, hmade, hshowed⟩ := htold before e after hlog
  rw [htask] at hmade hshowed
  have hsigned : SignedIn r trace := by
    cases he : e.op with
    | store values =>
      rw [he] at hshowed hop
      rcases hshowed.2 with hsigned | ⟨form, hset⟩
      · exact hsigned.1
      · obtain ⟨salt, active, backup, rfl⟩ := hset.values_eq
        simp [Op.guarded, setupValues] at hop
    | content _ => rw [he] at hshowed; exact hshowed
    | archive _ => rw [he] at hshowed; exact hshowed
    | restoreTest _ _ => rw [he] at hshowed; exact hshowed
    | audit _ => rw [he] at hshowed; exact hshowed
    | _ => rw [he] at hop; cases hop
  obtain ⟨session, hs, ha, hcsrf⟩ := hsigned
  exact ⟨session, hmade _ hs, ha, hcsrf, loggedIn_of_presented htold hlog (hmade _ hs) ha⟩

/-! A history in which everything succeeds, and a request presents the last cookie. -/

def sampleText : String :=
  "\x7b\"included_directories\":[],\"excluded_directories\":[],\"included_globs\":[\"**/*\",\"*\"]," ++
  "\"excluded_globs\":[],\"minimum_file_size\":0,\"maximum_file_size\":null,\"archive_after_days\":30," ++
  "\"stability_window_hours\":24,\"quarantine_days\":7,\"dry_run\":true,\"manual_approval\":true," ++
  "\"deletion_enabled\":false\x7d"

def sampleLibraries : Libraries where
  integer _ := none
  boolean _ := none
  int _ := none
  dump _ := sampleText
  load s := if s = sampleText then some {} else none

/-- The digest of `correct horse` with the salt below. -/
def sampleScrypt : Scrypt where
  digest _ _ := [229, 52, 71, 7, 96, 41, 157, 241, 157, 52, 57, 119, 108, 211, 218, 18, 11, 128, 163, 54, 254, 191, 72, 242, 4, 21, 220, 25, 92, 172, 122, 86]

theorem length_sampleSalt : (List.replicate 16 (7 : UInt8)).length = 16 := rfl

def sampleSalt : Salt := ⟨List.replicate 16 7, length_sampleSalt⟩

def lastCookie (log : Log) : Session :=
  log.foldl (fun session e => match e.op with
    | .respond _ (some cookie) => cookie
    | _ => session) {}

def sampleAnswer (log : Log) (_ : Task) : (o : Op) → o.Ans
  | .session => some (lastCookie log)
  | .setting key => some (settings log key)
  | .onboardingToken => some (some "onboarding-token")
  | .isDir _ => some true
  | .separate _ _ => some true
  | .resolve path => some path
  | .coldAvailable => some true
  | .csrfToken => some "t"
  | .urandom => some sampleSalt
  | .restoreTest _ _ => some (.ok "/restores?verified=1")
  | .startupHealthy => some true
  | .integrityCheck => some true
  | .execute _ _ _ => some false
  | .validateAccess _ | .respond _ _ | .store _ | .buildWorkflow | .content _ | .archive _
  | .audit _ => some ()

theorem presents_lastCookie (log : Log) : Presents log (lastCookie log) := by
  induction log using List.reverseRecOn with
  | nil => exact .inl rfl
  | append_singleton log e ih =>
    have hkeep : Presents log (lastCookie log) → Presents (log ++ [e]) (lastCookie log) := by
      intro h
      exact h.imp_right fun ⟨x, hx, hop⟩ => ⟨x, List.mem_append_left _ hx, hop⟩
    rw [lastCookie, List.foldl_append, List.foldl_cons, List.foldl_nil]
    split
    · next response cookie hop =>
      exact .inr ⟨e, List.mem_append_right _ List.mem_cons_self, response, hop⟩
    · exact hkeep ih

theorem sampleAnswer_allowed (log : Log) (i : Task) (o : Op) : allows log o (sampleAnswer log i o) := by
  cases o with
  | session => exact presents_lastCookie log
  | setting key => exact rfl
  | execute manifestId digest ready => exact nofun
  | _ => trivial

def samplePlayed (order : List Task) : Log := (site sampleLibraries sampleScrypt {}).played sampleAnswer order

theorem reachable_samplePlayed (order : List Task) :
    (site sampleLibraries sampleScrypt {}).Reachable (samplePlayed order) :=
  Tasks.reachable_played sampleAnswer_allowed order

theorem eq_split_of_getElem? {α : Type} {l : List α} {n : Nat} {x : α} (h : l[n]? = some x) :
    l = l.take n ++ x :: l.drop (n + 1) := by
  obtain ⟨hn, rfl⟩ := List.getElem?_eq_some_iff.mp h
  rw [← List.drop_eq_getElem_cons hn, List.take_append_drop]

def sampleForm : SetupForm := ⟨"admin", "correct horse", "onboarding-token", "/data/active", "/data/backup", "t"⟩

/-- A setup, a login, and a look at the dashboard. -/
def firstVisit : Log :=
  samplePlayed (List.replicate 4 (.web 0 ⟨.setup, none, ""⟩) ++
    List.replicate 14 (.web 1 ⟨.setupSubmit sampleForm, none, ""⟩) ++
    List.replicate 5 (.web 2 ⟨.loginSubmit "correct horse" "t", none, ""⟩) ++
    List.replicate 2 (.web 3 ⟨.page "dashboard", none, ""⟩))

theorem firstVisit_dashboard : (firstVisit[24]?).map (fun e => (e.task, e.op.guarded)) =
    some (.web 3 ⟨.page "dashboard", none, ""⟩, true) := by decide +kernel

theorem dashboard_authorized :
    ∃ session : Session, ⟨.web 3 ⟨.page "dashboard", none, ""⟩, .session, some session⟩ ∈ firstVisit.take 24 ∧
      session.authenticated = true ∧
      (∀ token, (Endpoint.page "dashboard").csrf = some token → session.csrf = some token) ∧
      LoggedIn sampleScrypt (firstVisit.take 24) := by
  obtain ⟨e, he, heq⟩ := Option.map_eq_some_iff.mp firstVisit_dashboard
  obtain ⟨htask, hop⟩ := Prod.mk.inj heq
  exact actions_authorized (reachable_samplePlayed _) (eq_split_of_getElem? he) htask hop

/-- Once a setup has completed, the stored hash changes only through setups that had begun before:
a request that begins later never becomes the administrator. -/
theorem hash_after_setup {lib : Libraries} {scrypt : Scrypt} {config : SiteSettings} {log : Log}
    (h : (site lib scrypt config).Reachable log) {before between after : Log}
    {done e : Tasks.Entry Task Op Op.Ans} (hlog : log = before ++ done :: between ++ e :: after)
    (hdone : (completeKey, "true") ∈ written done) {stored : String}
    (he : (hashKey, stored) ∈ written e) : ∃ x ∈ before, x.task = e.task := by
  have htold := explained h
  by_contra hnone
  have hfresh : ∀ x ∈ before, x.task ≠ e.task := fun x hx hxe => hnone ⟨x, hx, hxe⟩
  obtain ⟨values, hstore, hmem⟩ := written_eq he
  obtain ⟨-, trace, hmade, hshowed⟩ := htold _ e after hlog
  rw [hstore] at hshowed
  cases htask : e.task with
  | command n c =>
    rw [htask] at hshowed
    exact absurd rfl (hshowed.2 _ hmem).1
  | web n r =>
    rw [htask] at hshowed
    rcases hshowed.2 with ⟨-, hkeys⟩ | ⟨form, hset⟩
    · exact absurd rfl (hkeys _ hmem).1
    · obtain ⟨complete, hread, hne⟩ := hset.incomplete
      have hbetween := hmade.of_append hfresh
      rcases List.mem_cons.mp (hbetween _ hread) with heq | hin
      · rw [← heq] at hdone
        exact absurd hdone List.not_mem_nil
      · obtain ⟨b, c, rfl⟩ := List.append_of_mem hin
        have hpart : log = (before ++ done :: b) ++
            ⟨e.task, .setting completeKey, some complete⟩ :: (c ++ e :: after) := by
          rw [hlog]
          simp
        have hallowed : settings (before ++ done :: b) completeKey = complete := (htold _ _ _ hpart).1
        have hmemlog : ∀ x ∈ done :: b, x ∈ log := by
          intro x hx
          rw [hpart]
          exact List.mem_append_left _ (List.mem_append_right _ hx)
        have hall : ∀ x ∈ done :: b, ∀ v ∈ written x, v.1 = completeKey → v.2 = "true" :=
          fun x hx v hv hk => completes_of_written htold (hmemlog x hx) hv hk
        have htrue : settings (before ++ [done]) completeKey = some "true" := by
          rw [settings_append]
          exact puts_stay (hall done List.mem_cons_self) (.inr ⟨_, hdone, rfl⟩)
        have hstay := settings_stay htrue fun x hx => hall x (List.mem_cons_of_mem _ hx)
        rw [List.append_assoc, List.singleton_append, hallowed] at hstay
        exact hne hstay

/-- Two setups, the second of which passes every check before the first has written. -/
def rivalSetups : Log :=
  samplePlayed (List.replicate 4 (.web 0 ⟨.setup, none, ""⟩) ++
    List.replicate 9 (.web 1 ⟨.setupSubmit sampleForm, none, ""⟩) ++
    List.replicate 13 (.web 2 ⟨.setupSubmit sampleForm, none, ""⟩) ++
    List.replicate 4 (.web 1 ⟨.setupSubmit sampleForm, none, ""⟩))

theorem rivalSetups_writes :
    ((rivalSetups[25]?).map fun e => (written e).contains (completeKey, "true")) = some true ∧
      ((rivalSetups[29]?).map fun e => (written e).any fun v => v.1 == hashKey) = some true := by
  decide +kernel

theorem rival_began_before :
    ∃ done e before between after, rivalSetups = before ++ done :: between ++ e :: after ∧
      (completeKey, "true") ∈ written done ∧ (∃ stored, (hashKey, stored) ∈ written e) ∧
      ∃ x ∈ before, x.task = e.task := by
  obtain ⟨hdone, he⟩ := rivalSetups_writes
  obtain ⟨done, hx, hdone⟩ := Option.map_eq_some_iff.mp hdone
  obtain ⟨e, hy, he⟩ := Option.map_eq_some_iff.mp he
  obtain ⟨⟨key, stored⟩, hmem, hkey⟩ := List.any_eq_true.mp he
  obtain rfl : key = hashKey := eq_of_beq hkey
  have hsplit := eq_split_of_getElem? hy
  have hfirst := @eq_split_of_getElem? _ (rivalSetups.take 29) 25 done
    (by rw [List.getElem?_take_of_lt (by omega), hx])
  rw [hfirst] at hsplit
  have hdone := List.contains_iff_mem.mp hdone
  exact ⟨done, e, _, _, _, hsplit, hdone, ⟨stored, hmem⟩,
    hash_after_setup (reachable_samplePlayed _) hsplit hdone hmem⟩

end Mnema.Admin
