import Mnema.Host

/-! Which content a recorded digest belongs to. The metadata of an item is recorded by a
scan and its digest by a later download, and the source may change in between. -/

namespace Mnema

/-- The states from `LOCAL_STAGED` through `QUARANTINED`. -/
def digestStates : List ArchiveState := .localStaged :: inPipeline

/-- The answers of a source whose versions determine its content, whose digests are `digest`. -/
def Versioned (provider : String) (digest : String → String → Digest) :
    (o : ExtOp) → Except PyError o.Res → Prop
  | .sourceDownload p sourceId _, .ok r => p = provider → r.sha256 = digest sourceId r.version
  | _, _ => True

/-- Where a digest is recorded, the last download delivered the version on record. -/
def deliversRecorded {σ : Type} (w : World σ) (o : Op) : Bool :=
  match o.written, w.log.getLast? with
  | some row, some (.downloaded _ _ r) =>
    row.state != .localStaged || r.version == row.sourceVersion
  | _, _ => true

/-- The digest on record is that of the version on record. -/
def Bound (digest : String → String → Digest) (_ : List Event) (row : ArchiveItem) : Prop :=
  row.state ∈ digestStates →
    row.plaintextSha256 = some (digest row.sourceIdentifier row.sourceVersion)

section Binding

variable {σ : Type} {provider : String} {digest : String → String → Digest}

theorem bound_of_not_mem {log : List Event} {row : ArchiveItem} (h : row.state ∉ digestStates) :
    Bound digest log row := fun hs => absurd hs h

theorem Bound.of_eq {log log' : List Event} {row new : ArchiveItem} (h : Bound digest log row)
    (hs : new.state ∈ digestStates → row.state ∈ digestStates)
    (hsha : new.plaintextSha256 = row.plaintextSha256)
    (hid : new.sourceIdentifier = row.sourceIdentifier)
    (hv : new.sourceVersion = row.sourceVersion) : Bound digest log' new := fun hn => by
  rw [hsha, hid, hv]
  exact h (hs hn)

theorem digestStates_archiveSteps {s t : ArchiveState} (h : (s, t) ∈ archiveSteps) :
    t ∈ digestStates → s ∈ digestStates := by
  revert s t
  decide

/-- What a download event says of the content that was delivered. -/
def Event.Versioned (provider : String) (digest : String → String → Digest) : Event → Prop
  | .downloaded p sourceId r => p = provider → r.sha256 = digest sourceId r.version
  | _ => True

theorem versioned_observe {o : ExtOp} {a : Except PyError o.Res}
    (h : Versioned provider digest o a) {e : Event} (he : e ∈ observe o a) :
    e.Versioned provider digest := by
  unfold observe at he
  split at he
  case h_1 =>
    split at he
    · exact (List.mem_singleton.mp he) ▸ trivial
    · exact absurd he List.not_mem_nil
  case h_2 => exact (List.mem_singleton.mp he) ▸ h
  case h_7 => exact absurd he List.not_mem_nil
  all_goals exact (List.mem_singleton.mp he) ▸ trivial

theorem bound_moved {w : World σ} {o : Op} {old new : ArchiveItem}
    (hG : deliversRecorded w o = true) (ho : o.written = some new)
    (hL : ∀ e ∈ w.log, e.Versioned provider digest) (hM : SyncMove provider w.log old new)
    {log log' : List Event} (h : Bound digest log old) : Bound digest log' new := by
  rcases hM with hM | hM
  · cases hM with
    | metadata source hs =>
      exact bound_of_not_mem (by simp [ArchiveWorkflow.withMetadata, hs, digestStates, inPipeline])
    | _ => exact bound_of_not_mem (by simp [digestStates, inPipeline])
  · cases hM with
    | step hs => exact h.of_eq (digestStates_archiveSteps hs) rfl rfl rfl
    | @staged r hs hl =>
      have hr := hL _ (List.mem_of_getLast? hl) rfl
      simp only [deliversRecorded, ho, hl, bne_self_eq_false, Bool.false_or, beq_iff_eq] at hG
      intro _
      simp only [hr, hG]
    | placed _ _ hs | backedUp _ hs | uploaded _ _ hs | verified _ hs | archived _ hs
    | quarantined _ hs =>
      exact h.of_eq (fun _ => by rw [hs]; decide) rfl rfl rfl

theorem bound_invariant {X : ExtEnv σ} (hX : ∀ x o a x', X x o a x' → Versioned provider digest o a) :
    RowInvariant (fun _ => SyncMove provider) X (fun w o => deliversRecorded w o = true)
      (Event.Versioned provider digest) (Bound digest) where
  events _ _ _ _ hx _ _ he := versioned_observe (hX _ _ _ _ hx) he
  committed _ := trivial
  observed _ _ _ _ _ h := h
  added _ row hs := bound_of_not_mem (by rw [hs]; decide)
  other _ _ _ _ h := h
  moved _ _ _ _ _ hG ho hL _ hM h _ := bound_moved hG ho hL hM h

/-- In every run of scans and archiving in which each download delivers the version that is
on record, over any source whose versions determine its content: every durable row from
`LOCAL_STAGED` through `QUARANTINED` has the digest of the content at the version it records. -/
theorem digest_of_deliversRecorded {X : ExtEnv σ} {x : σ}
    (hX : ∀ x o a x', X x o a x' → Versioned provider digest o a)
    {c : (runs X (SyncCall provider) fun w o => deliversRecorded w o = true).Config}
    (hr : (runs X (SyncCall provider) fun w o => deliversRecorded w o = true).Reachable
      (World.fresh x) c)
    {item : ArchiveItem} (hi : item ∈ c.1.db.items.rows) (hs : item.state ∈ digestStates) :
    item.plaintextSha256 = some (digest item.sourceIdentifier item.sourceVersion) :=
  ((bound_invariant hX).reachable (fun _ _ => syncCall_sound) hr).db item hi hs

end Binding

/-! ### On the host -/

/-- The objects of the host are the content that their versions stand for. -/
def Host.Consistent (content : String → String → Bytes) (h : Host) : Prop :=
  ∀ o ∈ h.objects, o.2 = content o.1.sourceId o.1.version

/-- The local source, whatever becomes of its objects, is such a source. -/
theorem versioned_envWithin {c : Crypto} {content : String → String → Bytes} {provider : String}
    (h : Host) (o : ExtOp) (a : Except PyError o.Res) (h' : Host)
    (hx : Host.envWithin c (Host.Consistent content) h o a h') :
    Versioned provider (fun sourceId version => c.sha256 (content sourceId version)) o a := by
  obtain ⟨h₁, -, hc, ha⟩ := hx
  cases o with
  | sourceDownload p sourceId destination =>
    cases a with
    | error e => trivial
    | ok r =>
      intro _
      have ha : (h₁.sourceDownload c sourceId destination).1 = .ok r := (congrArg Prod.fst ha).symm
      unfold Host.sourceDownload at ha
      split at ha
      · simp [Host.missing] at ha
      · rename_i o b ho
        split at ha
        · simp at ha
        · obtain rfl := Except.ok.inj ha
          have hid : o.sourceId = sourceId := by simpa using List.find?_some ho
          have hb : b = content o.sourceId o.version := hc _ (List.mem_of_find?_eq_some ho)
          rw [hb, hid]
  | _ => trivial

/-- The content of the examples: `[1]` at first, `[2]` in the version that follows. -/
def twoVersions (_ version : String) : Bytes := if version = "v1" then [1] else [2]

theorem onHost_holding {c : Crypto} {content : String → String → Bytes} (source : SourceObject) :
    OnHost c (Host.holding source (content source.sourceId source.version))
      (Host.envWithin c (Host.Consistent content)) :=
  onHost_envWithin (Host.drift_holding _ _) fun _ _ ho =>
    List.mem_singleton.mp ho ▸ rfl

/-- One object, scanned in the first version and archived while the source holds `source`. -/
def archivedWhile (source : SourceObject) : World Host :=
  let w := (World.fresh (Host.start [])).after .plain (Host.holding first [1])
    (plainWorkflow.discover 1).void
  w.after .plain (Host.holding source (twoVersions source.sourceId source.version))
    (onItem w 1 fun item => (plainWorkflow.archive item).void)

theorem digest_of_deliversRecorded_first :
    ∃ item ∈ (archivedWhile first).db.items.rows, item.state = .quarantined ∧
      item.plaintextSha256 = some (Crypto.plain.sha256 [1]) := by
  obtain ⟨item, hi, hs, hv⟩ : ∃ item ∈ (archivedWhile first).db.items.rows,
      item.state = .quarantined ∧ item.sourceVersion = "v1" := by decide
  have hr : (runs (Host.envWithin .plain (Host.Consistent twoVersions)) (SyncCall "local_test")
      fun w o => deliversRecorded w o = true).Reachable (World.fresh (Host.start []))
      (archivedWhile first, none) :=
    reachable_after_onItem_of_respects
      (reachable_after_of_respects .refl (.discover plainWorkflow rfl 1) (onHost_holding first)
        (fun _ _ ho => ho) (by decide))
      (fun _ hi => .archive plainWorkflow rfl hi) (onHost_holding first) (fun _ _ ho => ho) (by decide)
  refine ⟨item, hi, hs, ?_⟩
  rw [digest_of_deliversRecorded versioned_envWithin hr hi (by rw [hs]; decide), hv]
  rfl

/-- The object changes between the scan and the download: the item is quarantined with the
digest of the new content under the version of the old. -/
theorem digest_of_other_version :
    ∃ c : (runs (Host.envWithin .plain (Host.Consistent twoVersions)) (SyncCall "local_test")
        anyOp).Config,
      (runs (Host.envWithin .plain (Host.Consistent twoVersions)) (SyncCall "local_test")
        anyOp).Reachable (World.fresh (Host.start [])) c ∧
      ∃ item ∈ c.1.db.items.rows, item.state = .quarantined ∧
        item.plaintextSha256 ≠
          some (Crypto.plain.sha256 (twoVersions item.sourceIdentifier item.sourceVersion)) := by
  refine ⟨(archivedWhile second, none), ?_, ?_⟩
  · exact reachable_after_onItem (reachable_after .refl (.discover plainWorkflow rfl 1) (onHost_holding first))
      (fun _ hi => .archive plainWorkflow rfl hi) (onHost_holding second)
  · decide

end Mnema
