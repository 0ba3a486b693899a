import Mnema.WebAccess

/-! The switches of deletion, over every history of the processes that write and read them. -/

namespace Mnema.Admin

variable {lib : Libraries} {scrypt : Scrypt} {config : SiteSettings} {log : Log}

/-- `x` wrote `value` under `key` for a `resume-deletion` that had found the host healthy. -/
def Resumed (before : Log) (x : Tasks.Entry Task Op Op.Ans) (key value : String) : Prop :=
  (key, value) ∈ written x ∧ ∃ n, x.task = .command n .resumeDeletion ∧
    ⟨x.task, .startupHealthy, some true⟩ ∈ before

/-- What opens a switch is a `resume-deletion`. -/
theorem resumed_of_written (h : Told lib scrypt config log) {before after : Log}
    {x : Tasks.Entry Task Op Op.Ans} (hlog : log = before ++ x :: after) {key value : String}
    (hw : (key, value) ∈ written x) (hopen : ¬ Shut lib (key, value)) : Resumed before x key value := by
  obtain ⟨values, hx, hmem⟩ := written_eq hw
  obtain ⟨-, trace, hmade, hshowed⟩ := h before x after hlog
  rw [hx] at hshowed
  cases htask : x.task with
  | web n r =>
    rw [htask] at hshowed
    exact absurd (hshowed.1 _ hmem) hopen
  | command n c =>
    rw [htask] at hshowed
    rcases hshowed.1 with hshut | ⟨⟨rfl, hhealthy⟩, -⟩
    · exact absurd (hshut _ hmem) hopen
    · exact ⟨hw, n, htask, hmade _ hhealthy⟩

theorem open_lock : ¬ Shut lib (lockKey, "false") := by
  intro h
  exact absurd (h.2.1 rfl) (by decide)

theorem open_deletion : ¬ Shut lib (deletionKey, "true") := by
  intro h
  exact absurd (h.1 rfl) (by decide)

/-- What an approval reads after `before` holds another value than a switch had there. -/
theorem resumed_of_read (h : Told lib scrypt config log) {before between after : Log} {i : Task}
    {key value : String}
    (hlog : log = before ++ between ++ ⟨i, .setting key, some (some value)⟩ :: after)
    (hbefore : settings before key ≠ some value) (hopen : ¬ Shut lib (key, value)) :
    ∃ b x c, between = b ++ x :: c ∧ Resumed (before ++ b) x key value := by
  have hread : settings (before ++ between) key = some value := (h _ _ _ hlog).1
  obtain ⟨b, x, c, rfl, hw⟩ := written_of_settings hread hbefore
  have hpart : log = (before ++ b) ++ x :: (c ++ ⟨i, .setting key, some (some value)⟩ :: after) := by
    rw [hlog]
    simp
  exact ⟨b, x, c, rfl, resumed_of_written h hpart hw hopen⟩

theorem gatesSeen_of_execute (h : Told lib scrypt config log) {before after : Log}
    {e : Tasks.Entry Task Op Op.Ans} (hlog : log = before ++ e :: after) {manifestId : Nat} {digest : String}
    (he : e.op = .execute manifestId digest true) :
    ∃ trace, Tasks.MadeIn before e.task trace ∧ GatesSeen trace := by
  obtain ⟨-, trace, hmade, hshowed⟩ := h before e after hlog
  rw [he] at hshowed
  cases htask : e.task with
  | web n r =>
    rw [htask] at hshowed
    exact hshowed.elim
  | command n c =>
    rw [htask] at hshowed hmade
    exact ⟨trace, hmade, hshowed rfl⟩

/-- A transaction that locks writes nothing else to the lock. -/
theorem locks_of_written (h : Told lib scrypt config log) {x : Tasks.Entry Task Op Op.Ans} (hx : x ∈ log)
    (hw : (lockKey, "true") ∈ written x) : ∀ v ∈ written x, v.1 = lockKey → v.2 = "true" := by
  obtain ⟨values, hstore, hmem⟩ := written_eq hw
  obtain ⟨before, after, hlog⟩ := List.append_of_mem hx
  obtain ⟨-, trace, -, hshowed⟩ := h before x after hlog
  have hwritten : written x = values := by rw [hstore]; rfl
  rw [hwritten]
  rw [hstore] at hshowed
  intro v hv hk
  cases htask : x.task with
  | web n r =>
    rw [htask] at hshowed
    exact (hshowed.1 v hv).2.1 hk
  | command n c =>
    rw [htask] at hshowed
    rcases hshowed.1 with hshut | ⟨-, w, rfl, -⟩
    · exact (hshut v hv).2.1 hk
    · rw [List.mem_singleton.mp hv, ← List.mem_singleton.mp hmem]

/-- In every history of requests, commands and worker starts, a pause holds: an approval that
begins after deletion was locked deletes with open gates only if, between the two, a
`resume-deletion` that had found the host healthy unlocked it. -/
theorem pause_holds (h : (site lib scrypt config).Reachable log) {before between after : Log}
    {pause e : Tasks.Entry Task Op Op.Ans} (hlog : log = before ++ pause :: between ++ e :: after)
    (hpause : (lockKey, "true") ∈ written pause) {manifestId : Nat} {digest : String}
    (he : e.op = .execute manifestId digest true) (hnew : ∀ x ∈ before, x.task ≠ e.task) :
    ∃ b x c, between = b ++ x :: c ∧ Resumed (before ++ pause :: b) x lockKey "false" := by
  have htold := explained h
  obtain ⟨trace, hmade, hseen⟩ := gatesSeen_of_execute htold hlog he
  have hread := hmade.of_append hnew _ hseen.unlocked
  rcases List.mem_cons.mp hread with heq | hin
  · rw [← heq] at hpause
    exact absurd hpause List.not_mem_nil
  · obtain ⟨b, c, rfl⟩ := List.append_of_mem hin
    have hpart : log = (before ++ [pause]) ++ b ++
        ⟨e.task, .setting lockKey, some (some "false")⟩ :: (c ++ e :: after) := by
      rw [hlog]
      simp
    have hmem : pause ∈ log := by
      rw [hlog]
      simp
    have hlocked : settings (before ++ [pause]) lockKey = some "true" := by
      rw [settings_append]
      exact puts_stay (locks_of_written htold hmem hpause) (.inr ⟨_, hpause, rfl⟩)
    have hne : settings (before ++ [pause]) lockKey ≠ some "false" := by
      rw [hlocked]
      decide
    obtain ⟨b₁, x, b₂, rfl, hx⟩ := resumed_of_read htold hpart hne open_lock
    rw [List.append_assoc, List.singleton_append] at hx
    exact ⟨b₁, x, b₂ ++ _, by rw [List.append_assoc]; rfl, hx⟩

/-! A pause, a resume, and an approval. -/

def resumedApproval : Log :=
  samplePlayed ([.command 0 .pauseDeletion, .command 0 .pauseDeletion, .command 1 .resumeDeletion,
    .command 1 .resumeDeletion, .command 1 .resumeDeletion] ++ List.replicate 6 (.command 2 (.approve 4 "digest")))

def opensGates : Op → Bool
  | .execute manifestId digest ready => manifestId == 4 && digest == "digest" && ready
  | _ => false

theorem opensGates_eq {o : Op} (h : opensGates o = true) : o = .execute 4 "digest" true := by
  unfold opensGates at h
  split at h
  · simp only [Bool.and_eq_true, beq_iff_eq] at h
    rw [h.1.1, h.1.2, h.2]
  · cases h

theorem resumedApproval_entries :
    (resumedApproval.take 1).all (fun x => x.task != .command 2 (.approve 4 "digest")) = true ∧
      ((resumedApproval[1]?).map fun e => (written e).contains (lockKey, "true")) = some true ∧
      ((resumedApproval[10]?).map fun e => (e.task, opensGates e.op)) =
        some (.command 2 (.approve 4 "digest"), true) := by
  decide +kernel

theorem resumedApproval_resumed :
    ∃ before pause between e after, resumedApproval = before ++ pause :: between ++ e :: after ∧
      (lockKey, "true") ∈ written pause ∧ e.op = .execute 4 "digest" true ∧
      ∃ b x c, between = b ++ x :: c ∧ Resumed (before ++ pause :: b) x lockKey "false" := by
  obtain ⟨hfirst, hpause, he⟩ := resumedApproval_entries
  obtain ⟨pause, hx, hpause⟩ := Option.map_eq_some_iff.mp hpause
  obtain ⟨e, hy, heq⟩ := Option.map_eq_some_iff.mp he
  obtain ⟨htask, hop⟩ := Prod.mk.inj heq
  have hlocks := List.contains_iff_mem.mp hpause
  have hsplit := eq_split_of_getElem? hy
  rw [@eq_split_of_getElem? _ (resumedApproval.take 10) 1 pause
    (by rw [List.getElem?_take_of_lt (by omega), hx])] at hsplit
  refine ⟨_, pause, _, e, _, hsplit, hlocks, opensGates_eq hop, ?_⟩
  refine pause_holds (reachable_samplePlayed _) hsplit hlocks (opensGates_eq hop) fun x hxmem => ?_
  rw [List.take_take, Nat.min_eq_left (by omega)] at hxmem
  rw [htask]
  exact bne_iff_ne.mp (List.all_eq_true.mp hfirst x hxmem)

/-- On a database that starts empty, deletion with open gates was resumed: each switch was opened by
a `resume-deletion` that had found the host healthy, and the approval has itself seen a healthy host
and cold storage that answers. -/
theorem open_gates_resumed (h : (site lib scrypt config).Reachable log) {before after : Log}
    {e : Tasks.Entry Task Op Op.Ans} (hlog : log = before ++ e :: after) {manifestId : Nat} {digest : String}
    (he : e.op = .execute manifestId digest true) :
    (∃ b x c, before = b ++ x :: c ∧ Resumed b x deletionKey "true") ∧
      (∃ b x c, before = b ++ x :: c ∧ Resumed b x lockKey "false") ∧
      ⟨e.task, .startupHealthy, some true⟩ ∈ before ∧ ⟨e.task, .coldAvailable, some true⟩ ∈ before := by
  have htold := explained h
  obtain ⟨trace, hmade, hseen⟩ := gatesSeen_of_execute htold hlog he
  have hresumed : ∀ key value, ⟨.setting key, some (some value)⟩ ∈ trace → ¬ Shut lib (key, value) →
      ∃ b x c, before = b ++ x :: c ∧ Resumed b x key value := by
    intro key value hread hopen
    obtain ⟨b, c, rfl⟩ := List.append_of_mem (hmade _ hread)
    have hpart : log = [] ++ b ++ ⟨e.task, .setting key, some (some value)⟩ :: (c ++ e :: after) := by
      rw [hlog]
      simp
    obtain ⟨b₁, x, b₂, rfl, hx⟩ := resumed_of_read htold hpart (by intro h; cases h) hopen
    exact ⟨b₁, x, b₂ ++ _, by rw [List.append_assoc]; rfl, hx⟩
  exact ⟨hresumed _ _ hseen.enabled open_deletion, hresumed _ _ hseen.unlocked open_lock,
    hmade _ hseen.healthy, hmade _ hseen.available⟩

theorem resumedApproval_open :
    ∃ before e after, resumedApproval = before ++ e :: after ∧ e.op = .execute 4 "digest" true ∧
      (∃ b x c, before = b ++ x :: c ∧ Resumed b x deletionKey "true") ∧
      (∃ b x c, before = b ++ x :: c ∧ Resumed b x lockKey "false") ∧
      ⟨e.task, .startupHealthy, some true⟩ ∈ before ∧ ⟨e.task, .coldAvailable, some true⟩ ∈ before := by
  obtain ⟨e, he, heq⟩ := Option.map_eq_some_iff.mp resumedApproval_entries.2.2
  have hop := opensGates_eq (Prod.mk.inj heq).2
  have hsplit := eq_split_of_getElem? he
  exact ⟨_, e, _, hsplit, hop, open_gates_resumed (reachable_samplePlayed _) hsplit hop⟩

/-- In every history the policy on record is one that a request or a command wrote with deletion
off, whatever the forms and options said. -/
theorem recorded_policy (h : (site lib scrypt config).Reachable log) {text : String}
    (ht : settings log policyKey = some text) :
    ∃ policy : SourcePolicy, policy.deletionEnabled = false ∧ text = lib.dump policy := by
  have htold := explained h
  have hnil : settings ([] ++ log) policyKey = some text := ht
  obtain ⟨before, x, after, hlog, hw⟩ := written_of_settings hnil (by intro h; cases h)
  obtain ⟨values, hx, hmem⟩ := written_eq hw
  obtain ⟨-, trace, -, hshowed⟩ := htold before x after hlog
  rw [hx] at hshowed
  cases htask : x.task with
  | web n r =>
    rw [htask] at hshowed
    exact (hshowed.1 _ hmem).2.2 rfl
  | command n c =>
    rw [htask] at hshowed
    rcases hshowed.1 with hshut | ⟨-, v, rfl, hne⟩
    · exact (hshut _ hmem).2.2 rfl
    · rw [← List.mem_singleton.mp hmem] at hne
      exact absurd rfl hne

def appliedPolicy : Log := samplePlayed [.command 0 (.applyPolicy 30 24 7)]

theorem appliedPolicy_recorded :
    ∃ policy : SourcePolicy, policy.deletionEnabled = false ∧ sampleText = sampleLibraries.dump policy :=
  @recorded_policy sampleLibraries sampleScrypt {} appliedPolicy (reachable_samplePlayed _) sampleText
    (by decide +kernel)

end Mnema.Admin
