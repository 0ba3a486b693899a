import Mnema.Runs

/-! The upload API and the startup of a worker, two processes on one database: any
order of their transactions, with the worker's lists kept from one to the next. -/

namespace Mnema

/-- What a transaction does to a world. -/
def transactions {σ : Type} (X : ExtEnv σ) : Transactions (World σ) Op Op.Ans where
  env := World.env X
  commit := World.commit
  rollback := World.rollback

/-- The transactions of the API on uploads. -/
inductive ApiCall (settings : Settings) : Flow Unit → Prop where
  | createUpload (request : UploadRequest) : ApiCall settings (createUpload settings request).void
  | appendUpload (uploadId : String) (offset : Nat) (body : List Bytes) (broken : Option PyError) :
      ApiCall settings (appendUpload settings uploadId offset body broken).void
  | completeBegin (uploadId : String) : ApiCall settings (completeBegin uploadId).void
  | completeSeal (uploadId : String) : ApiCall settings (completeSeal settings uploadId)

/-- How far the startup of the worker has come, with what it has read so far. -/
inductive Phase where
  | stopped
  | restarted
  | sealing (pending : List String)
  | failing (uploadId : String) (pending : List String)
  | reaping (now : Time) (uploads : List FileProviderUpload)

namespace Phase

/-- The next transaction of the worker. The two halves of `reap_expired_uploads` count as two. -/
def run (settings : Settings) : Phase → Flow Phase
  | stopped => do
    let _ ← reconcileInterruptedItems false
    pure restarted
  | restarted => do
    let pending ← listSealing
    pure (sealing pending)
  | sealing (uploadId :: pending) => do
    reconcileSealing settings uploadId
    pure (sealing pending)
  | failing uploadId pending => do
    failSealing uploadId
    pure (sealing pending)
  | sealing [] => do
    let now ← ext .utcnow
    let uploads ← db (.uploadsByStatus .openUpload)
    pure (reaping now uploads)
  | reaping now uploads => do
    let _ ← reapUploads settings now uploads
    pure stopped

/-- `except (ValueError, OSError, RuntimeError)`. -/
def caught (e : PyError) : Bool := e.isValueError || e.isOSError || e.isRuntimeError

/-- Where the worker goes on: other exceptions end the startup, as does a crash. -/
def next : Phase → Option (Except PyError Phase) → Phase
  | _, some (.ok phase) => phase
  | sealing (uploadId :: pending), some (.error e) =>
    if caught e then failing uploadId pending else stopped
  | _, _ => stopped

end Phase

namespace Startup

/-- A transaction of the API, or one of the worker that `G` permits. -/
inductive Next {σ : Type} (X : ExtEnv σ) (settings : Settings) (G : World σ → Phase → Prop) :
    World σ × Phase → World σ × Phase → Prop where
  | api {w w' : World σ} {phase : Phase} {p : Flow Unit} {r : Option (Except PyError Unit)}
      (hp : ApiCall settings p) (h : (transactions X).Ends p w r w') :
      Next X settings G (w, phase) (w', phase)
  | worker {w w' : World σ} {phase : Phase} {r : Option (Except PyError Phase)}
      (hG : G w phase) (h : (transactions X).Ends (phase.run settings) w r w') :
      Next X settings G (w, phase) (w', phase.next r)

/-- Any number of transactions in any order. -/
abbrev Run {σ : Type} (X : ExtEnv σ) (settings : Settings) (G : World σ → Phase → Prop) :=
  Relation.ReflTransGen (Next X settings G)

end Startup

/-! ### Between two transactions -/

/-- No transaction is open. -/
structure World.Idle {σ : Type} (w : World σ) : Prop where
  txn : w.txn = w.db
  pend : w.pend = []

/-- What identifies an upload and what it belongs to. -/
def FileProviderUpload.key (u : FileProviderUpload) : String × String × Nat :=
  (u.id, u.itemId, u.archiveItemId)

namespace Db

def uploadKeys (d : Db) : List (String × String × Nat) := d.uploads.rows.map (·.key)

/-- Every upload has a file and an archive item of its own. -/
def UniqueUploads (d : Db) : Prop :=
  ∀ a ∈ d.uploadKeys, ∀ b ∈ d.uploadKeys, a.2.1 = b.2.1 ∨ a.2.2 = b.2.2 → a.1 = b.1

structure Tidy (d : Db) : Prop where
  unique : d.UniqueUploads
  settled : ∀ row ∈ d.items.rows, row.state ≠ .deleting

theorem tidy_empty : ({} : Db).Tidy :=
  ⟨fun _ ha => absurd ha List.not_mem_nil, fun _ hr => absurd hr List.not_mem_nil⟩

end Db

section Steps

variable {σ α : Type} {X : ExtEnv σ} {w w' : World σ} {o : Op} {a : o.Ans}

theorem World.Idle.ready (h : w.Idle) : w.Ready :=
  ⟨fun _ hr => absurd (h.pend ▸ hr) List.not_mem_nil,
    fun _ hi => .inr ⟨h.txn ▸ hi, fun _ hr => absurd (h.pend ▸ hr) List.not_mem_nil⟩⟩

/-- An operation leaves the durable rows as they are, or makes the open ones durable. -/
theorem World.db_step (h : World.env X w o a w') :
    w'.db = w.db ∨ (w'.db = w.txn ∧ w'.txn = w.txn) := by
  cases o with
  | ext o =>
    obtain ⟨x, _, _, rfl⟩ := h
    exact .inl rfl
  | db o =>
    rw [(World.env_db.mp h).2]
    cases o with
    | commit => exact .inr ⟨rfl, rfl⟩
    | setUploadStatus _ _ | setReceivedSize _ _ =>
      left
      simp only [World.dbStep, World.setUpload]
      split <;> rfl
    | addItem _ | addUpload _ | addFpItem _ | saveFpItem _ =>
      left
      simp only [World.dbStep]
      split <;> rfl
    | _ => exact .inl rfl

/-- What every operation keeps of the open rows, a transaction keeps of the durable ones. -/
theorem db_of_ends {p : Flow α} {r : Option (Except PyError α)}
    (h : (transactions X).Ends p w r w') {C : World σ → Op → Prop} {Q : α → World σ → Prop}
    (hp : p.wp C (World.env X) Q (fun _ _ => True) w) {R : Db → Prop}
    (hstep : ∀ w o a w', C w o → R w.txn → World.env X w o a w' → R w'.txn)
    (hw : w.Idle) (hR : R w.db) :
    w'.Idle ∧ R w'.db ∧ ∀ a, r = some (.ok a) → ∃ t, Q a t ∧ w' = t.commit := by
  obtain ⟨t, ⟨hdb, htxn⟩, hend⟩ := h.holds (I := fun w => R w.db ∧ R w.txn) hp
    (fun w o a w' hc hI he => by
      have hdb := World.db_step (X := X) he
      refine ⟨?_, hstep w o a w' hc hI.2 he⟩
      rcases hdb with hdb | ⟨hdb, -⟩
      · exact hdb ▸ hI.1
      · exact hdb ▸ hI.2) ⟨hR, hw.txn ▸ hR⟩
  rcases hend with ⟨rfl, hnot⟩ | ⟨a, rfl, hq, rfl⟩
  · exact ⟨⟨rfl, rfl⟩, hdb, fun a ha => absurd ha (hnot a)⟩
  · exact ⟨⟨rfl, rfl⟩, htxn, fun b hb => ⟨t, Except.ok.inj (Option.some.inj hb) ▸ hq, rfl⟩⟩

theorem key_injective_id {u v : FileProviderUpload} (h : u.key = v.key) : u.id = v.id :=
  congrArg Prod.fst h

theorem uploadKeys_setUpload (id : String) {f : FileProviderUpload → FileProviderUpload}
    (hf : ∀ u, (f u).key = u.key) : (w.setUpload id f).txn.uploadKeys = w.txn.uploadKeys := by
  unfold World.setUpload
  split
  case h_2 => rfl
  case h_1 u hu =>
    simp only [World.txn_setTxn, Db.uploadKeys, Table.put, List.map_map]
    refine List.map_congr_left fun v hv => ?_
    by_cases hid : v.id = (f u).id
    · have hvu : v = u := by
        have hv := Table.get_of_mem hv
        rw [hid, key_injective_id (hf u)] at hv
        exact Option.some.inj (hv.symm.trans ((Table.key_of_get hu).symm ▸ hu))
      rw [Function.comp_apply, if_pos hid, hf, hvu]
    · simp [hid]

/-- Uploads are never removed, and keep what identifies them. -/
theorem uploadKeys_step (h : World.env X w o a w') :
    w'.txn.uploadKeys = w.txn.uploadKeys ∨
      ∃ row, w.txn.uploadTaken row = false ∧ w'.txn.uploadKeys = w.txn.uploadKeys ++ [row.key] := by
  cases o with
  | ext o =>
    obtain ⟨x, _, _, rfl⟩ := h
    exact .inl rfl
  | db o =>
    rw [(World.env_db.mp h).2]
    cases o with
    | setUploadStatus id st => exact .inl (uploadKeys_setUpload id fun _ => rfl)
    | setReceivedSize id n => exact .inl (uploadKeys_setUpload id fun _ => rfl)
    | addUpload row =>
      simp only [World.dbStep]
      split
      case isTrue => exact .inl rfl
      case isFalse ht =>
        have ht : w.txn.uploadTaken row = false := by simpa using ht
        refine .inr ⟨row, ht, ?_⟩
        have hk : row.id ∉ w.txn.uploads.rows.map (·.id) := fun hm => by
          obtain ⟨u, hu, hid⟩ := List.mem_map.mp hm
          have := (List.any_eq_false.mp ht) u hu
          simp [hid] at this
        simp [Db.uploadKeys, Table.insert, hk]
    | addItem _ | addFpItem _ | saveFpItem _ =>
      left
      simp only [World.dbStep]
      split <;> rfl
    | _ => exact .inl rfl

/-- The moves of these transactions on item rows. -/
def startupMove : Moves := fun _ _ old new => UploadMove old new ∨ RecoveryMove old new

theorem startupMove_state {actor : String} {log : List Event} {old new : ArchiveItem}
    (h : startupMove actor log old new) : new.state ≠ .deleting := by
  rcases h with h | h <;> cases h <;> simp

theorem Db.UniqueUploads.append {d d' : Db} (h : d.UniqueUploads) {row : FileProviderUpload}
    (ht : d.uploadTaken row = false) (hk : d'.uploadKeys = d.uploadKeys ++ [row.key]) :
    d'.UniqueUploads := by
  have hnew : ∀ k ∈ d.uploadKeys, ¬(k.2.1 = row.key.2.1 ∨ k.2.2 = row.key.2.2) := by
    intro k hk hc
    obtain ⟨u, hu, rfl⟩ := List.mem_map.mp hk
    have := (List.any_eq_false.mp ht) u hu
    rcases hc with hc | hc <;> simp_all [FileProviderUpload.key]
  intro a ha b hb hc
  rw [hk] at ha hb
  rcases List.mem_append.mp ha with ha | ha <;> rcases List.mem_append.mp hb with hb | hb
  · exact h a ha b hb hc
  · exact absurd (List.mem_singleton.mp hb ▸ hc) (hnew a ha)
  · exact absurd (List.mem_singleton.mp ha ▸ hc.imp Eq.symm Eq.symm) (hnew b hb)
  · rw [List.mem_singleton.mp ha, List.mem_singleton.mp hb]

theorem tidy_step (hc : Conforms startupMove w o) (h : w.txn.Tidy) (he : World.env X w o a w') :
    w'.txn.Tidy := by
  have hsettled : ∀ row ∈ w'.txn.items.rows, row.state ≠ .deleting := by
    cases o with
    | ext o =>
      obtain ⟨x, _, _, rfl⟩ := he
      exact h.settled
    | db o =>
      obtain ⟨-, rfl⟩ := World.env_db.mp he
      cases hq : o.writesItem with
      | false => exact (World.sameRows_dbStep (w := w) hq).1.txn ▸ h.settled
      | true =>
        cases o with
        | flush row event =>
          obtain ⟨old, -, hM, -⟩ := hc
          intro r hr
          rcases Table.mem_put hr with rfl | ⟨hr, -⟩
          · exact startupMove_state hM
          · exact h.settled r hr
        | save row =>
          obtain ⟨old, -, ⟨_, hM⟩, -⟩ := hc
          intro r hr
          rcases Table.mem_put hr with rfl | ⟨hr, -⟩
          · exact startupMove_state hM
          · exact h.settled r hr
        | addItem row =>
          simp only [World.dbStep]
          split
          · exact h.settled
          · intro r hr
            rcases Table.mem_insert hr with hr | rfl
            · exact h.settled r hr
            · simp [show row.state = .discovered from hc]
        | commit => exact h.settled
        | _ => simp [DbOp.writesItem] at hq
  refine ⟨?_, hsettled⟩
  rcases uploadKeys_step he with hk | ⟨row, ht, hk⟩
  · unfold Db.UniqueUploads
    exact hk ▸ h.unique
  · exact h.unique.append ht hk

/-! ### What the transactions keep -/

theorem startup_sound {settings : Settings} (h : w.Ready) {p : Flow Unit}
    (hp : ApiCall settings p) : Sound startupMove X (fun _ w => w.Ready) p w := by
  have hmove : ∀ {β : Type} {q : Flow β}, Sound (fun _ _ => UploadMove) X (fun _ w => w.Ready) q w →
      Sound startupMove X (fun _ w => w.Ready) q w :=
    fun hq => sound_mono hq fun _ _ _ _ => .inl
  have hquiet : ∀ {q : Flow Unit}, Quiet (fun _ => True) q →
      Sound startupMove X (fun _ w => w.Ready) q w :=
    fun hq => sound_quiet hq h fun _ _ hw => h.of_same hw
  cases hp with
  | createUpload request => exact (Prog.wp_void _).mpr (hmove (createUpload_sound settings h request))
  | appendUpload => exact hquiet (.seq (silent_appendUpload settings _ _ _ _).quiet fun _ => trivial)
  | completeBegin => exact hquiet (.seq (silent_completeBegin _).quiet fun _ => trivial)
  | completeSeal uploadId => exact hmove (completeSeal_sound settings h uploadId)

theorem phase_sound (settings : Settings) (h : w.Ready) (phase : Phase) :
    Sound startupMove X (fun _ w => w.Ready) (phase.run settings) w := by
  have hmove : ∀ {β : Type} {q : Flow β}, Sound (fun _ _ => UploadMove) X (fun _ w => w.Ready) q w →
      Sound startupMove X (fun _ w => w.Ready) q w :=
    fun hq => sound_mono hq fun _ _ _ _ => .inl
  unfold Phase.run
  split
  all_goals simp only [Prog.wp_bind, Prog.wp_pure]
  case h_1 => exact sound_mono (reconcileInterruptedItems_sound h false) fun _ _ _ _ => .inr
  case h_2 => exact sound_quiet silent_listSealing.quiet h fun _ _ hw => h.of_same hw
  case h_3 uploadId _ => exact hmove (reconcileSealing_sound settings h uploadId)
  case h_4 => exact sound_quiet (silent_failSealing _).quiet h fun _ _ hw => h.of_same hw
  case h_5 => exact sound_ext trivial h fun _ _ _ => sound_quiet (quiet_db rfl) h.answered fun _ _ hw =>
    h.answered.of_same hw
  case h_6 now uploads => exact hmove (reapUploads_sound settings now uploads h)

/-- What is known of the uploads that the worker has selected. -/
def Phase.Known (d : Db) : Phase → Prop
  | reaping _ uploads => ∀ u ∈ uploads, u.key ∈ d.uploadKeys
  | _ => True

/-- What holds between two transactions. -/
structure Between (c : World σ × Phase) : Prop where
  idle : c.1.Idle
  tidy : c.1.db.Tidy
  known : c.2.Known c.1.db

theorem phase_known (settings : Settings) (phase : Phase) (w : World σ) :
    (phase.run settings).wp (fun _ _ => True) (World.env X) (fun phase w => phase.Known w.txn)
      (fun _ _ => True) w := by
  unfold Phase.run
  split
  all_goals simp only [Prog.wp_bind, Prog.wp_pure]
  case h_5 =>
    refine wp_ext.mpr ⟨trivial, fun now x _ _ => ?_, fun _ _ _ _ => trivial⟩
    refine (wp_db_ok rfl).mpr ⟨trivial, fun u hu => ?_⟩
    exact List.mem_map.mpr ⟨u, (List.mem_filter.mp hu).1, rfl⟩
  all_goals exact (Prog.wp_true _ _).mono (fun _ _ h => h) (fun _ _ _ => trivial) fun _ _ h => h

theorem Phase.Known.mono {d d' : Db} {phase : Phase} (h : phase.Known d)
    (hk : ∀ k ∈ d.uploadKeys, k ∈ d'.uploadKeys) : phase.Known d' := by
  cases phase with
  | reaping now uploads => exact fun u hu => hk _ (h u hu)
  | _ => trivial

/-- The rows of a transaction stay tidy, and no upload is lost. -/
theorem tidy_of_ends {p : Flow α} {r : Option (Except PyError α)} {Q : α → World σ → Prop}
    (h : (transactions X).Ends p w r w') (hp : Sound startupMove X Q p w) (hw : w.Idle)
    (ht : w.db.Tidy) : w'.Idle ∧ w'.db.Tidy ∧ ∀ k ∈ w.db.uploadKeys, k ∈ w'.db.uploadKeys := by
  have hstep : ∀ w₁ o a w₂, Conforms startupMove w₁ o →
      (w₁.txn.Tidy ∧ ∀ k ∈ w.db.uploadKeys, k ∈ w₁.txn.uploadKeys) → World.env X w₁ o a w₂ →
      w₂.txn.Tidy ∧ ∀ k ∈ w.db.uploadKeys, k ∈ w₂.txn.uploadKeys := by
    intro w₁ o a w₂ hc hR he
    refine ⟨tidy_step hc hR.1 he, fun k hk => ?_⟩
    rcases uploadKeys_step he with hs | ⟨row, -, hs⟩
    · exact hs ▸ hR.2 k hk
    · exact hs ▸ List.mem_append_left _ (hR.2 k hk)
  obtain ⟨hidle, hR, -⟩ := db_of_ends (R := fun d => d.Tidy ∧ ∀ k ∈ w.db.uploadKeys, k ∈ d.uploadKeys)
    h (hp.mono (fun _ _ hc => hc) (fun _ _ hq => hq) fun _ _ _ => trivial) hstep hw
    ⟨ht, fun _ hk => hk⟩
  exact ⟨hidle, hR⟩

variable {settings : Settings} {G : World σ → Phase → Prop} {c c' : World σ × Phase}

theorem between_next (h : Between c) (hn : Startup.Next X settings G c c') : Between c' := by
  cases hn with
  | api hp he =>
    obtain ⟨hidle, htidy, hkeys⟩ := tidy_of_ends he (startup_sound h.idle.ready hp) h.idle h.tidy
    exact ⟨hidle, htidy, h.known.mono hkeys⟩
  | @worker w w' phase r hG he =>
    obtain ⟨hidle, htidy, hkeys⟩ := tidy_of_ends he (phase_sound settings h.idle.ready phase)
      h.idle h.tidy
    refine ⟨hidle, htidy, ?_⟩
    match r with
    | some (.ok phase') =>
      obtain ⟨t, hq, rfl⟩ := (db_of_ends (R := fun _ => True) he (phase_known settings phase w)
        (fun _ _ _ _ _ _ _ => trivial) h.idle trivial).2.2 phase' rfl
      cases phase <;> exact hq
    | some (.error e) =>
      cases phase with
      | sealing pending =>
        cases pending with
        | nil => trivial
        | cons uploadId pending =>
          change Phase.Known _ (if Phase.caught e then .failing uploadId pending else .stopped)
          split <;> trivial
      | _ => trivial
    | none => cases phase <;> trivial

theorem between_run (h : Between c) (hr : Startup.Run X settings G c c') : Between c' := by
  induction hr with
  | refl => exact h
  | tail _ hn ih => exact between_next ih hn

theorem between_fresh (x : σ) : Between (World.fresh x, Phase.stopped) :=
  ⟨⟨rfl, rfl⟩, Db.tidy_empty, trivial⟩

end Steps

end Mnema
