import Mnema.AdminSite

/-! What a request of the administration site, and a command, has shown before each of its calls. -/

namespace Mnema.Admin

open Prog

abbrev Calls := Trace Op.Ans

def Presented (trace : Calls) : Prop :=
  ∃ session : Session, ⟨.session, some session⟩ ∈ trace ∧ session.authenticated = true

/-- The request presents a session that has signed in, and its form carries the session's token. -/
def SignedIn (r : Request) (trace : Calls) : Prop :=
  ∃ session : Session, ⟨.session, some session⟩ ∈ trace ∧ session.authenticated = true ∧
    ∀ token, r.endpoint.csrf = some token → session.csrf = some token

def Verified (scrypt : Scrypt) (r : Request) (trace : Calls) : Prop :=
  ∃ password csrf stored random, r.endpoint = .loginSubmit password csrf ∧
    ⟨.setting hashKey, some (some stored)⟩ ∈ trace ∧
    scrypt.verifyPassword random password stored = some true

/-- The onboarding token was shown, and the site found without an administrator. -/
structure Onboards (form : SetupForm) (trace : Calls) : Prop where
  token : ∃ file, ⟨.onboardingToken, some (some file)⟩ ∈ trace ∧ strip file = form.onboardingToken
  incomplete : ∃ complete, ⟨.setting completeKey, some complete⟩ ∈ trace ∧ complete ≠ some "true"

/-- What a setup has shown when it writes. -/
structure SetsUp (lib : Libraries) (scrypt : Scrypt) (r : Request) (trace : Calls) (form : SetupForm)
    (values : List (String × String)) : Prop extends Onboards form trace where
  endpoint : r.endpoint = .setupSubmit form
  values_eq : ∃ salt : Salt, ∃ active backup, values = setupValues lib scrypt form salt.bytes active backup

/-- A written value keeps deletion off. -/
def Shut (lib : Libraries) (v : String × String) : Prop :=
  (v.1 = deletionKey → v.2 = "false") ∧ (v.1 = lockKey → v.2 = "true") ∧
    (v.1 = policyKey → ∃ policy : SourcePolicy, policy.deletionEnabled = false ∧ v.2 = lib.dump policy)

/-- What a request has shown before a call. -/
def due (lib : Libraries) (scrypt : Scrypt) (r : Request) (trace : Calls) : Op → Prop
  | .content _ | .archive _ | .restoreTest _ _ | .audit _ => SignedIn r trace
  | .store values =>
    (∀ v ∈ values, Shut lib v) ∧
      ((SignedIn r trace ∧ ∀ v ∈ values, v.1 ≠ hashKey ∧ v.1 ≠ completeKey) ∨
        ∃ form, SetsUp lib scrypt r trace form values)
  | .respond _ (some session) => session.authenticated = true → Presented trace ∨ Verified scrypt r trace
  | .execute _ _ _ => False
  | _ => True

section Rules

variable {α : Type} {pre : Calls → Op → Prop} {t : Calls}

/-- The rest of a program after a call, which may also have raised. -/
theorem wp_ask {β : Type} {o : Op} {f : o.Value → Handler β} {Q : β → Calls → Prop} (hpre : pre t o)
    (h : ∀ a, (f a).wp pre recording Q (fun _ _ => True) (t ++ [⟨o, some a⟩])) :
    (ask o >>= f).wp pre recording Q (fun _ _ => True) t := by
  unfold ask
  rw [wp_bind, wp_bind, wp_op]
  refine ⟨hpre, fun a s' hs => ?_⟩
  subst hs
  cases a with
  | none => trivial
  | some a => exact h a

theorem wp_refuse {β : Type} {c : Bool} {status : Nat} {detail : String} {f : Unit → Handler β}
    {Q : β → Calls → Prop} (h : c = false → (f ()).wp pre recording Q (fun _ _ => True) t) :
    (refuse c status detail >>= f).wp pre recording Q (fun _ _ => True) t := by
  unfold refuse
  rw [wp_bind]
  cases c with
  | true => trivial
  | false => exact h rfl

theorem wp_runtimeValue {β : Type} {key default : String} {f : String → Handler β} {Q : β → Calls → Prop}
    (hpre : pre t (.setting key))
    (h : ∀ value : Option String, (f (value.getD default)).wp pre recording Q (fun _ _ => True)
      (t ++ [⟨.setting key, some value⟩])) :
    (runtimeValue key default >>= f).wp pre recording Q (fun _ _ => True) t := by
  unfold runtimeValue
  rw [wp_bind]
  exact wp_ask hpre fun value => h value

theorem wp_requireLogin {β : Type} {session : Session} {f : Unit → Handler β} {Q : β → Calls → Prop}
    (h : session.authenticated = true → (f ()).wp pre recording Q (fun _ _ => True) t) :
    (requireLogin session >>= f).wp pre recording Q (fun _ _ => True) t :=
  wp_refuse fun ha => h (by simpa using ha)

theorem wp_requireCsrf {β : Type} {session : Session} {token : String} {f : Unit → Handler β}
    {Q : β → Calls → Prop}
    (h : session.csrf = some token → (f ()).wp pre recording Q (fun _ _ => True) t) :
    (requireCsrf session token >>= f).wp pre recording Q (fun _ _ => True) t := by
  rw [wp_bind]
  dsimp only [requireCsrf]
  split
  · trivial
  · next hne =>
    split
    · trivial
    · trivial
    · next heq =>
      refine h ?_
      have hexp := compareDigest_eq_true heq
      cases hs : session.csrf with
      | none => simp [hs] at hne
      | some c => simpa [hs] using hexp

theorem wp_context {session : Session} (hpre : ∀ t, pre t .csrfToken) :
    (context session).wp pre recording (fun session' _ => session'.authenticated = session.authenticated)
      (fun _ _ => True) t := by
  unfold context
  split
  · exact wp_ask (hpre t) fun _ => rfl
  · exact rfl

/-- A trace is only added to. -/
theorem wp_growing {p : Handler α} {Q : α → Calls → Prop}
    (h : p.wp pre recording Q (fun _ _ => True) t) :
    p.wp pre recording (fun a t' => Q a t' ∧ t <+: t') (fun _ t' => t <+: t') t := by
  have hstep : ∀ s o a s', pre s o → t <+: s → recording s o a s' → t <+: s' := by
    intro s o a s' _ hs henv
    rw [show s' = s ++ [⟨o, a⟩] from henv]
    exact hs.trans (List.prefix_append ..)
  exact (h.frame hstep (List.prefix_refl t)).mono (fun _ _ hp => hp.1) (fun _ _ hq => hq)
    fun _ _ he => he.2

theorem wp_after {β : Type} {p : Handler α} {f : α → Handler β} {Q : α → Calls → Prop} {Q' : β → Calls → Prop}
    (h : p.wp pre recording Q (fun _ _ => True) t)
    (hf : ∀ a more, Q a (t ++ more) → (f a).wp pre recording Q' (fun _ _ => True) (t ++ more)) :
    (p >>= f).wp pre recording Q' (fun _ _ => True) t := by
  rw [wp_bind]
  refine (wp_growing h).mono (fun _ _ hp => hp) ?_ fun _ _ _ => trivial
  intro a t' ha
  obtain ⟨hq, more, rfl⟩ := ha
  exact hf a more hq

end Rules

section Handlers

variable {lib : Libraries} {scrypt : Scrypt} {config : SiteSettings} {r : Request} {t : Calls}
  {session : Session}

/-- A response carries a session that signed in only if the request presented it or has just
verified the password. -/
def Answers (scrypt : Scrypt) (r : Request) (session : Session) (out : Response × Session) (t : Calls) :
    Prop :=
  out.2.authenticated = true → session.authenticated = true ∨ Verified scrypt r t

def Sound (lib : Libraries) (scrypt : Scrypt) (r : Request) (session : Session)
    (handler : Handler (Response × Session)) (t : Calls) : Prop :=
  handler.wp (due lib scrypt r) recording (Answers scrypt r session) (fun _ _ => True) t

theorem answers_self (response : Response) : Answers scrypt r session (response, session) t := Or.inl

theorem sound_render (name : String) : Sound lib scrypt r session (render name session) t := by
  unfold Sound render
  rw [wp_bind]
  exact (wp_context fun _ => trivial).post fun session' t' hs ha => .inl (hs ▸ ha)

theorem sound_health : Sound lib scrypt r session (health session) t :=
  wp_ask trivial fun _ => answers_self _

theorem sound_setup : Sound lib scrypt r session (setup session) t := by
  refine wp_ask trivial fun complete => ?_
  split
  · exact answers_self _
  · exact sound_render "setup"

theorem signedIn_of_checks (hs : ⟨.session, some session⟩ ∈ t) (ha : session.authenticated = true)
    {token : String} (he : r.endpoint.csrf = some token) (hc : session.csrf = some token) :
    SignedIn r t :=
  ⟨session, hs, ha, fun token' ht => by rw [hc, ← he, ht]⟩

theorem SignedIn.append {more : Calls} (h : SignedIn r t) : SignedIn r (t ++ more) := by
  obtain ⟨session, hs, h⟩ := h
  exact ⟨session, List.mem_append_left _ hs, h⟩

theorem shut_setupValues (form : SetupForm) (salt : Bytes) (active backup : String) :
    ∀ v ∈ setupValues lib scrypt form salt active backup, Shut lib v := by
  have hkeys : deletionKey ≠ lockKey ∧ deletionKey ≠ policyKey ∧ lockKey ≠ policyKey := by decide
  intro v hv
  simp only [setupValues, List.mem_cons, List.not_mem_nil, or_false] at hv
  rcases hv with rfl | rfl | rfl | rfl | rfl | rfl | rfl | rfl
  all_goals simp [Shut, deletionKey, lockKey, policyKey, hashKey, completeKey]
  exact ⟨{}, rfl, rfl⟩

theorem wp_checkToken {expected token : String} {pre : Calls → Op → Prop} :
    (checkToken expected token).wp pre recording (fun _ t' => t' = t ∧ expected = token)
      (fun _ _ => True) t := by
  unfold checkToken
  split
  · trivial
  · next ok hok =>
    unfold refuse
    cases ok with
    | false => trivial
    | true => exact ⟨rfl, compareDigest_eq_true hok⟩

theorem Onboards.append {form : SetupForm} {more : Calls} (h : Onboards form t) :
    Onboards form (t ++ more) := by
  obtain ⟨⟨file, hf, hstrip⟩, complete, hc, hne⟩ := h
  exact ⟨⟨file, List.mem_append_left _ hf, hstrip⟩, complete, List.mem_append_left _ hc, hne⟩

theorem wp_mayOnboard {form : SetupForm} :
    (mayOnboard form session).wp (due lib scrypt r) recording (fun _ => Onboards form)
      (fun _ _ => True) t := by
  refine wp_requireCsrf fun _ => ?_
  refine wp_ask trivial fun complete => ?_
  refine wp_refuse fun hcomplete => ?_
  refine wp_ask trivial fun file => ?_
  refine wp_refuse fun hfile => ?_
  generalize hexpected : strip (Option.getD file "") = expected
  refine wp.post wp_checkToken fun _ t' htoken => ?_
  obtain ⟨rfl, htoken⟩ := htoken
  constructor
  · cases file with
    | none => cases hfile
    | some file => exact ⟨file, List.mem_append_right _ List.mem_cons_self, hexpected.trans htoken⟩
  · refine ⟨complete, ?_, ?_⟩
    · exact List.mem_append_left _ (List.mem_append_right _ List.mem_cons_self)
    · intro h
      rw [h] at hcomplete
      cases hcomplete

theorem wp_usableStorage {form : SetupForm} :
    (usableStorage config form).wp (due lib scrypt r) recording (fun _ _ => True) (fun _ _ => True) t := by
  refine wp_ask trivial fun _ => wp_refuse fun _ => ?_
  refine wp_ask trivial fun _ => wp_refuse fun _ => ?_
  refine wp_ask trivial fun _ => wp_refuse fun _ => ?_
  refine wp_ask trivial fun _ => wp_refuse fun _ => ?_
  refine wp_ask trivial fun _ => ?_
  refine wp_ask trivial fun available => ?_
  unfold refuse
  split <;> trivial

theorem sound_setupSubmit {form : SetupForm} (he : r.endpoint = .setupSubmit form) :
    Sound lib scrypt r session (setupSubmit lib scrypt config form session) t := by
  refine wp_refuse fun _ => ?_
  refine wp_after wp_mayOnboard fun _ _ h₁ => ?_
  refine wp_after wp_usableStorage fun _ more _ => ?_
  refine wp_ask trivial fun salt => wp_ask trivial fun active => wp_ask trivial fun backup => ?_
  refine wp_ask ⟨shut_setupValues form salt.bytes active backup, .inr ⟨form, ?_⟩⟩ fun _ => ?_
  · exact ⟨h₁.append.append.append.append, he, salt, active, backup, rfl⟩
  · exact sound_render "setup"

theorem sound_loginSubmit {password csrf : String} (he : r.endpoint = .loginSubmit password csrf) :
    Sound lib scrypt r session (loginSubmit scrypt password csrf session) t := by
  refine wp_requireCsrf fun _ => ?_
  refine wp_ask trivial fun stored => ?_
  split
  · trivial
  · next encoded =>
    refine wp_ask trivial fun random => ?_
    split
    · trivial
    · trivial
    · next hverify =>
      refine wp_ask trivial fun token => ?_
      refine fun _ => .inr ⟨password, csrf, encoded, random, he, ?_, hverify⟩
      simp

theorem sound_logout {csrf : String} : Sound lib scrypt r session (logout csrf session) t := by
  refine wp_requireLogin fun _ => wp_requireCsrf fun _ => ?_
  intro h
  cases h

theorem wp_archivePolicy {pre : Calls → Op → Prop} (hpre : ∀ t, pre t (.setting policyKey)) :
    (archivePolicy lib).wp pre recording (fun _ _ => True) (fun _ _ => True) t := by
  refine wp_runtimeValue (hpre t) fun value => ?_
  split
  · trivial
  · split <;> trivial

theorem wp_pageSettings {name : String} {pre : Calls → Op → Prop} (hpre : ∀ t key, pre t (.setting key)) :
    (pageSettings lib name).wp pre recording (fun _ _ => True) (fun _ _ => True) t := by
  unfold pageSettings
  split
  · rw [wp_void]
    exact wp_archivePolicy fun t => hpre t _
  · split
    · exact wp_runtimeValue (hpre _ _) fun _ => wp_runtimeValue (hpre _ _) fun _ => trivial
    · trivial

theorem sound_page {name : String} (he : r.endpoint = .page name) (hs : ⟨.session, some session⟩ ∈ t) :
    Sound lib scrypt r session (page lib name session) t := by
  refine wp_refuse fun _ => ?_
  split
  · next ha =>
    have hsigned : SignedIn r t := ⟨session, hs, ha, fun token ht => by rw [he] at ht; cases ht⟩
    refine wp_ask hsigned fun _ => ?_
    rw [wp_bind]
    refine wp.post (wp_pageSettings fun _ _ => trivial) fun _ t' _ => ?_
    exact sound_render name
  · exact answers_self _

theorem shut_policy {policy : SourcePolicy} (h : policy.deletionEnabled = false) :
    Shut lib (policyKey, lib.dump policy) :=
  ⟨fun hk => absurd hk (by decide : policyKey ≠ deletionKey),
    fun hk => absurd hk (by decide : policyKey ≠ lockKey), fun _ => ⟨policy, h, rfl⟩⟩

theorem shut_deletion : Shut lib (deletionKey, "false") :=
  ⟨fun _ => rfl, fun hk => absurd hk (by decide), fun hk => absurd hk (by decide)⟩

theorem shut_lock : Shut lib (lockKey, "true") :=
  ⟨fun hk => absurd hk (by decide), fun _ => rfl, fun hk => absurd hk (by decide)⟩

/-- A signed-in request may write one of its keys. -/
theorem due_store {key value : String} (hv : Shut lib (key, value))
    (hkey : key ≠ hashKey ∧ key ≠ completeKey) (hs : SignedIn r t) :
    due lib scrypt r t (.store [(key, value)]) := by
  constructor
  · intro w hw
    rwa [List.mem_singleton.mp hw]
  · left
    refine ⟨hs, fun w hw => ?_⟩
    rwa [List.mem_singleton.mp hw]

theorem wp_maximumSize {text : String} {pre : Calls → Op → Prop} :
    (maximumSize lib text).wp pre recording (fun _ t' => t' = t) (fun _ _ => True) t := by
  unfold maximumSize
  split
  · exact rfl
  · split
    · trivial
    · split
      · trivial
      · exact rfl

theorem deletionEnabled_parsed {form : PolicyForm} {policy : SourcePolicy}
    (h : form.parsed lib = some policy) : policy.deletionEnabled = false := by
  simp only [PolicyForm.parsed, Option.bind_eq_bind, Option.bind_eq_some_iff] at h
  obtain ⟨_, _, _, _, _, _, _, _, _, _, _, _, h⟩ := h
  split at h
  · rw [← Option.some.inj h]
  · cases h

theorem sound_savePolicy {form : PolicyForm} (he : r.endpoint = .savePolicy form)
    (hs : ⟨.session, some session⟩ ∈ t) :
    Sound lib scrypt r session (savePolicy lib form session) t := by
  unfold Sound savePolicy
  split
  · trivial
  · next policy hpolicy =>
    refine wp_requireLogin fun ha => wp_requireCsrf fun hc => ?_
    have hsigned : SignedIn r t := signedIn_of_checks hs ha (by rw [he]; rfl) hc
    rw [wp_bind]
    refine wp.post wp_maximumSize fun maximum t' ht => ?_
    subst ht
    have hoff : policy.deletionEnabled = false := deletionEnabled_parsed hpolicy
    have hshut : Shut lib (policyKey, lib.dump { policy with maximumFileSize := maximum }) :=
      shut_policy hoff
    exact wp_ask (due_store hshut ⟨by decide, by decide⟩ hsigned) fun _ => answers_self _

theorem sound_archiveSource {csrf : String} (he : r.endpoint = .archiveSource csrf)
    (hs : ⟨.session, some session⟩ ∈ t) :
    Sound lib scrypt r session (archiveSource lib csrf session) t := by
  refine wp_requireLogin fun ha => wp_requireCsrf fun hc => ?_
  have hsigned : SignedIn r t := signedIn_of_checks hs ha (by rw [he]; rfl) hc
  refine wp_after (wp_archivePolicy fun _ => trivial) fun policy more _ => ?_
  refine wp_refuse fun _ => wp_ask trivial fun _ => ?_
  exact wp_ask hsigned.append.append fun _ => answers_self _

theorem sound_testRestore {itemId : Nat} {copyName csrf : String}
    (he : r.endpoint = .testRestore itemId copyName csrf) (hs : ⟨.session, some session⟩ ∈ t) :
    Sound lib scrypt r session (testRestore lib itemId copyName csrf session) t := by
  refine wp_requireLogin fun ha => wp_requireCsrf fun hc => ?_
  have hsigned : SignedIn r t := signedIn_of_checks hs ha (by rw [he]; rfl) hc
  refine wp_refuse fun _ => ?_
  refine wp_after (wp_archivePolicy fun _ => trivial) fun policy more _ => ?_
  refine wp_ask trivial fun _ => wp_ask hsigned.append.append fun outcome => ?_
  split
  · exact answers_self _
  · trivial

theorem sound_emergencyPause {csrf : String} (he : r.endpoint = .emergencyPause csrf)
    (hs : ⟨.session, some session⟩ ∈ t) :
    Sound lib scrypt r session (emergencyPause csrf session) t := by
  refine wp_requireLogin fun ha => wp_requireCsrf fun hc => ?_
  have hsigned : SignedIn r t := signedIn_of_checks hs ha (by rw [he]; rfl) hc
  refine wp_ask (due_store shut_deletion ⟨by decide, by decide⟩ hsigned) fun _ => ?_
  refine wp_ask (due_store shut_lock ⟨by decide, by decide⟩ hsigned.append) fun _ => ?_
  exact wp_ask hsigned.append.append fun _ => answers_self _

/-- Every handler keeps to what is due. -/
theorem sound_handle (hs : ⟨.session, some session⟩ ∈ t) :
    Sound lib scrypt r session (handle lib scrypt config r.endpoint session) t := by
  cases he : r.endpoint with
  | healthz => exact sound_health
  | setup => exact sound_setup
  | setupSubmit form => exact sound_setupSubmit he
  | login => exact sound_render "login"
  | loginSubmit password csrf => exact sound_loginSubmit he
  | logout csrf => exact sound_logout
  | page name => exact sound_page he hs
  | savePolicy form => exact sound_savePolicy he hs
  | archiveSource csrf => exact sound_archiveSource he hs
  | testRestore itemId copyName csrf => exact sound_testRestore he hs
  | emergencyPause csrf => exact sound_emergencyPause he hs

theorem wp_last {pre : Calls → Op → Prop} {o : Op} (hpre : pre t o) :
    (ask o).wp pre recording (fun _ _ => True) (fun _ _ => True) t := by
  unfold ask
  rw [wp_bind, wp_op]
  refine ⟨hpre, fun a t' _ => ?_⟩
  cases a <;> trivial

/-- The cookie that a response carries. -/
theorem due_respond {response : Response} {out : Session} (hs : ⟨.session, some session⟩ ∈ t)
    (h : out.authenticated = true → session.authenticated = true ∨ Verified scrypt r t) :
    due lib scrypt r t (.respond response (if out = {} then none else some out)) := by
  by_cases hout : out = {}
  · rw [if_pos hout]
    trivial
  · rw [if_neg hout]
    intro ha
    rcases h ha with hp | hv
    · exact .inl ⟨session, hs, hp⟩
    · exact .inr hv

theorem wp_withSession :
    (withSession (handle lib scrypt config r.endpoint)).wp (due lib scrypt r) recording (fun _ _ => True)
      (fun _ _ => True) t := by
  refine wp_ask trivial fun session => ?_
  have hs : ⟨.session, some session⟩ ∈ t ++ [⟨Op.session, some session⟩] :=
    List.mem_append_right _ List.mem_cons_self
  generalize t ++ [⟨Op.session, some session⟩] = t₁ at hs
  rw [wp_bind, wp_tryCatch]
  refine (wp_growing (sound_handle hs)).mono (fun _ _ hp => hp) ?_ ?_
  · intro out t₂ h₂
    exact wp_last (due_respond (h₂.2.subset hs) h₂.1)
  · intro fault t₂ h₂
    cases fault with
    | http status detail => exact wp_last (due_respond (h₂.subset hs) .inl)
    | internal => trivial

/-- Every request keeps to what is due. -/
theorem wp_serve :
    (serve lib scrypt config r).wp (due lib scrypt r) recording (fun _ _ => True) (fun _ _ => True) t := by
  unfold serve
  split
  · split
    · exact wp_last trivial
    · rw [wp_bind, wp_op]
      refine ⟨trivial, fun a t' _ => ?_⟩
      cases a with
      | none => exact wp_last trivial
      | some _ => exact wp_withSession
  · exact wp_withSession

end Handlers

/-! ### Commands -/

/-- The readings on which `approve` opens its gates. -/
structure GatesSeen (trace : Calls) : Prop where
  healthy : ⟨.startupHealthy, some true⟩ ∈ trace
  available : ⟨.coldAvailable, some true⟩ ∈ trace
  enabled : ⟨.setting deletionKey, some (some "true")⟩ ∈ trace
  unlocked : ⟨.setting lockKey, some (some "false")⟩ ∈ trace

/-- Only `resume-deletion` opens a switch, after the host was found healthy. -/
def Opens (c : Command) (trace : Calls) : Prop :=
  c = .resumeDeletion ∧ ⟨.startupHealthy, some true⟩ ∈ trace

def dueCommand (lib : Libraries) (c : Command) (trace : Calls) : Op → Prop
  | .store values =>
    ((∀ v ∈ values, Shut lib v) ∨ Opens c trace ∧ ∃ v, values = [v] ∧ v.1 ≠ policyKey) ∧
      ∀ v ∈ values, v.1 ≠ hashKey ∧ v.1 ≠ completeKey
  | .execute _ _ ready => ready = true → GatesSeen trace
  | .content _ | .archive _ | .restoreTest _ _ | .audit _ | .respond _ _ => False
  | _ => True

section Commands

variable {lib : Libraries} {c : Command} {t : Calls}

theorem dueCommand_store {key value : String} (hv : Shut lib (key, value))
    (hkey : key ≠ hashKey ∧ key ≠ completeKey) : dueCommand lib c t (.store [(key, value)]) := by
  constructor
  · left
    intro w hw
    rwa [List.mem_singleton.mp hw]
  · intro w hw
    rwa [List.mem_singleton.mp hw]

theorem wp_pauseDeletion :
    pauseDeletion.wp (dueCommand lib c) recording (fun _ _ => True) (fun _ _ => True) t :=
  wp_ask (dueCommand_store shut_deletion ⟨by decide, by decide⟩) fun _ =>
    wp_last (dueCommand_store shut_lock ⟨by decide, by decide⟩)

theorem wp_applyPolicy {a s q : Nat} :
    (applyPolicy lib a s q).wp (dueCommand lib c) recording (fun _ _ => True) (fun _ _ => True) t :=
  wp_refuse fun _ => wp_ask (dueCommand_store (shut_policy rfl) ⟨by decide, by decide⟩) fun _ =>
    wp_pauseDeletion

theorem dueCommand_open {key value : String} (h : Opens c t)
    (hkey : key ≠ policyKey ∧ key ≠ hashKey ∧ key ≠ completeKey) :
    dueCommand lib c t (.store [(key, value)]) := by
  constructor
  · exact .inr ⟨h, _, rfl, hkey.1⟩
  · intro w hw
    rw [List.mem_singleton.mp hw]
    exact hkey.2

theorem wp_resumeDeletion :
    resumeDeletion.wp (dueCommand lib .resumeDeletion) recording (fun _ _ => True) (fun _ _ => True) t := by
  refine wp_ask trivial fun healthy => wp_refuse fun hhealthy => ?_
  have hopens : Opens .resumeDeletion (t ++ [⟨Op.startupHealthy, some healthy⟩]) := by
    refine ⟨rfl, List.mem_append_right _ ?_⟩
    cases healthy with
    | false => cases hhealthy
    | true => exact List.mem_cons_self
  refine wp_ask (dueCommand_open hopens ⟨by decide, by decide, by decide⟩) fun _ => ?_
  have hopens' : Opens .resumeDeletion (t ++ [⟨Op.startupHealthy, some healthy⟩] ++
      [⟨Op.store [(deletionKey, "true")], some ()⟩]) := ⟨rfl, List.mem_append_left _ hopens.2⟩
  exact wp_last (dueCommand_open hopens' ⟨by decide, by decide, by decide⟩)

theorem wp_gatesReady :
    gatesReady.wp (dueCommand lib c) recording (fun ready t' => ready = true → GatesSeen t')
      (fun _ _ => True) t := by
  refine wp_ask trivial fun healthy => wp_ask trivial fun _ => ?_
  by_cases hhealthy : healthy = true
  · rw [if_pos hhealthy]
    refine wp_ask trivial fun available => ?_
    by_cases havailable : available = true
    · rw [if_pos havailable]
      refine wp_runtimeValue trivial fun enabled => ?_
      by_cases henabled : enabled.getD "false" = "true"
      · rw [if_pos henabled]
        refine wp_runtimeValue trivial fun lock => ?_
        intro hlock
        have henabled : enabled = some "true" := by
          cases enabled with
          | none => exact absurd henabled (by decide)
          | some v => exact congrArg some henabled
        have hlock : lock = some "false" := by
          have hlock := eq_of_beq hlock
          cases lock with
          | none => exact absurd hlock (by decide)
          | some v => exact congrArg some hlock
        subst hhealthy havailable henabled hlock
        constructor <;> simp
      · rw [if_neg henabled]
        intro h
        cases h
    · rw [if_neg havailable]
      intro h
      cases h
  · rw [if_neg hhealthy]
    intro h
    cases h

theorem dueCommand_closed : dueCommand lib c t (.store [(deletionKey, "false"), (lockKey, "true")]) := by
  refine ⟨.inl ?_, ?_⟩
  · intro v hv
    simp only [List.mem_cons, List.not_mem_nil, or_false] at hv
    rcases hv with rfl | rfl
    · exact shut_deletion
    · exact shut_lock
  · intro v hv
    simp only [List.mem_cons, List.not_mem_nil, or_false] at hv
    rcases hv with rfl | rfl <;> exact ⟨by decide, by decide⟩

theorem wp_approve {manifestId : Nat} {digest : String} :
    (approve manifestId digest).wp (dueCommand lib c) recording (fun _ _ => True) (fun _ _ => True) t := by
  refine wp_after wp_gatesReady fun ready more hready => wp_ask hready fun unclear => ?_
  cases unclear with
  | true => exact wp_ask dueCommand_closed fun _ => trivial
  | false => trivial

theorem wp_worker :
    worker.wp (dueCommand lib c) recording (fun _ _ => True) (fun _ _ => True) t := by
  refine wp_ask trivial fun healthy => ?_
  split
  · trivial
  · exact wp_ask dueCommand_closed fun _ => trivial

theorem wp_command :
    (command lib c).wp (dueCommand lib c) recording (fun _ _ => True) (fun _ _ => True) t := by
  cases c with
  | applyPolicy a s q => exact wp_applyPolicy
  | pauseDeletion => exact wp_pauseDeletion
  | resumeDeletion => exact wp_resumeDeletion
  | approve manifestId digest => exact wp_approve
  | worker => exact wp_worker

end Commands

/-- What a task has shown before a call. -/
def showed (lib : Libraries) (scrypt : Scrypt) : Task → Calls → Op → Prop
  | .web _ r => due lib scrypt r
  | .command _ c => dueCommand lib c

theorem explained {lib : Libraries} {scrypt : Scrypt} {config : SiteSettings} {log : Log}
    (h : (site lib scrypt config).Reachable log) :
    (site lib scrypt config).Explained (showed lib scrypt) log := by
  refine h.explained fun i => ?_
  cases i with
  | web n r => exact wp_serve
  | command n c => exact wp_command

end Mnema.Admin
