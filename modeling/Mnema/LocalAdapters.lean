import Mnema.Host
import Mnema.ColdObject

/-! The adapters that keep their copies in a directory, one file operation after another, and what
a crash between two of them leaves for the next call. -/

namespace Mnema.LocalAdapters

open Crypto

/-- The directory of an adapter, and the file that is copied into it. -/
structure Disk where
  files : Store String Bytes
  source : Bytes

def Disk.put (s : Disk) (name : String) (content : Bytes) : Disk :=
  { s with files := s.files.put name content }

def Disk.rename (s : Disk) (temporary target : String) (content : Bytes) : Disk :=
  { s with files := (s.files.erase temporary).put target content }

inductive Op where
  | exists (name : String)
  | readSource
  | urandom
  | create (name : String)
  | write (name : String) (byte : UInt8)
  | fsync
  | replace (temporary target : String)
  | fsyncDirectory
  | read (name : String)

abbrev Op.Res : Op → Type
  | .exists _ => Bool
  | .readSource => Bytes
  | .urandom => Bytes
  | .read _ => Bytes
  | _ => Unit

abbrev Placing (α : Type) := Prog Op (fun o => Except PyError o.Res) PyError α

def perform (o : Op) : Placing o.Res := Prog.op o >>= Prog.ofExcept

/-- What each operation does. The buffer of a file may reach the disk after any byte, so a file
is written byte by byte. -/
def env : Prog.Env Disk Op (fun o => Except PyError o.Res)
  | s, .exists name, a, t => a = .ok (s.files name).isSome ∧ t = s
  | s, .readSource, a, t => a = .ok s.source ∧ t = s
  | s, .urandom, a, t => ∃ nonce : Bytes, nonce.length = nonceLength ∧ a = .ok nonce ∧ t = s
  | s, .create name, a, t =>
    if (s.files name).isSome then a = .error (.os "File exists") ∧ t = s
    else a = .ok () ∧ t = s.put name []
  | s, .write name byte, a, t =>
    a = .ok () ∧ t = s.put name ((s.files name).getD [] ++ [byte])
  | s, .fsync, a, t => a = .ok () ∧ t = s
  | s, .replace temporary target, a, t =>
    match s.files temporary with
    | none => a = .error (.fileNotFound "") ∧ t = s
    | some content => a = .ok () ∧ t = s.rename temporary target content
  | s, .fsyncDirectory, a, t => a = .ok () ∧ t = s
  | s, .read name, a, t =>
    match s.files name with
    | none => a = .error (.fileNotFound "") ∧ t = s
    | some content => a = .ok content ∧ t = s

/-! ### The adapters -/

def writeAll (name : String) : Bytes → Placing Unit
  | [] => pure ()
  | byte :: rest => do
    perform (.write name byte)
    writeAll name rest

/-- `os.fsync` of the file, where an adapter calls it. -/
def flush (synced : Bool) : Placing Unit := if synced then perform .fsync else pure ()

/-- A file is written under a temporary name, opened for exclusive creation, and then renamed. -/
def place (target temporary : String) (content : Placing Bytes) (synced : Bool) : Placing Unit := do
  let present ← perform (.exists target)
  if !present then
    let bytes ← content
    perform (.create temporary)
    writeAll temporary bytes
    flush synced
    perform (.replace temporary target)
    perform .fsyncDirectory

/-- `target.with_suffix(".partial")` for a target that is a key and a suffix. A key is taken as one
file name, which `item-<id>` is: a key with a slash would name a file of another directory. -/
def partialName (idempotencyKey suffix : String) : String :=
  (if idempotencyKey.isEmpty then suffix else idempotencyKey) ++ ".partial"

/-- `FilesystemVersionedBackup.snapshot`. -/
def snapshot (idempotencyKey : String) : Placing BackupReceipt := do
  place (Host.snapshotName idempotencyKey) (partialName idempotencyKey ".snapshot")
    (perform .readSource) true
  return ⟨Host.snapshotName idempotencyKey⟩

/-- `FilesystemVersionedBackup.restore`: what the destination holds. -/
def restoreSnapshot (s : Disk) (receipt : BackupReceipt) : Option Bytes := s.files receipt.snapshotId

/-- What `encrypt_file` writes. -/
def encrypted (gcm : AesGcm) (key : Bytes) : Placing Bytes := do
  let nonce ← perform .urandom
  let source ← perform .readSource
  Prog.ofExcept (encryptFile gcm key nonce source none)

/-- `LocalEncryptedColdStorage.upload`. -/
def upload (gcm : AesGcm) (key : Bytes) (sha256 : Bytes → Digest) (idempotencyKey : String) :
    Placing ColdReceipt := do
  place (Host.objectName idempotencyKey) (partialName idempotencyKey ".mnema") (encrypted gcm key) false
  let cipher ← perform (.read (Host.objectName idempotencyKey))
  return {
    provider := "local-test"
    bucket := "mnema-test"
    objectIdentifier := Host.objectName idempotencyKey
    encryptionMode := "AES-256-GCM"
    remoteSize := cipher.length
    remoteChecksum := some (sha256 cipher) }

/-- `LocalEncryptedColdStorage.restore`: what the destination holds. -/
def restoreObject (gcm : AesGcm) (key : Bytes) (s : Disk) (receipt : ColdReceipt) : Option Bytes :=
  (s.files receipt.objectIdentifier).bind fun cipher => (decryptFile gcm key cipher none).toOption

/-- The temporary file never has the name of the target. -/
theorem append_ne_partialName {idempotencyKey suffix : String} (hother : suffix ≠ ".partial")
    (hlonger : suffix ≠ suffix ++ ".partial") : idempotencyKey ++ suffix ≠ partialName idempotencyKey suffix := by
  unfold partialName
  intro heq
  have hlist := congrArg String.toList heq
  by_cases hempty : idempotencyKey = ""
  · apply hlonger
    rw [hempty] at heq
    simpa using heq
  · have hnot : idempotencyKey.isEmpty = false := by simpa using hempty
    apply hother
    rw [← String.toList_inj]
    simpa [hnot] using hlist

/-! ### Disks -/

namespace Disk

variable {s : Disk} {name other temporary target : String} {content bytes : Bytes}

@[simp] theorem files_put_self : (s.put name content).files name = some content := Store.put_self ..

theorem files_put_of_ne (h : other ≠ name) : (s.put name content).files other = s.files other :=
  Store.put_of_ne _ h _

theorem put_put : (s.put name content).put name bytes = s.put name bytes := by
  unfold put
  rw [Store.put_put]

theorem put_of_some (h : s.files name = some content) : s.put name content = s := by
  unfold put
  rw [Store.put_of_some h]

@[simp] theorem files_rename_target : (s.rename temporary target content).files target = some content :=
  Store.put_self ..

theorem files_rename_temporary (h : temporary ≠ target) :
    (s.rename temporary target content).files temporary = none := by
  show (s.files.erase temporary).put target content temporary = none
  rw [Store.put_of_ne _ h, Store.erase_self]

end Disk

/-! ### What a call promises -/

variable {α : Type} {target temporary : String} {good : Bytes → Prop} {source : Bytes} {s t : Disk}
  {E : PyError → Disk → Prop} {pre : Disk → Op → Prop}

/-- The source is there, and whatever is stored restores to it. -/
structure Intact (good : Bytes → Prop) (target temporary : String) (source : Bytes) (s : Disk) : Prop where
  source : s.source = source
  good : ∀ content, s.files target = some content → good content ∧ s.files temporary = none

/-- Every call of `p` is made while the disk is intact, and `p` ends with `Q`. -/
abbrev Keeps (good : Bytes → Prop) (target temporary : String) (source : Bytes) (p : Placing α)
    (Q : α → Disk → Prop) (s : Disk) : Prop :=
  p.wp (fun s _ => Intact good target temporary source s) env Q (fun _ _ => False) s

/-- Before there is a target, the temporary file may hold anything. -/
theorem Intact.writing (h : Intact good target temporary source s) (hnone : s.files target = none)
    (hne : target ≠ temporary) (content : Bytes) :
    Intact good target temporary source (s.put temporary content) := by
  refine ⟨h.source, fun other hother => ?_⟩
  rw [Disk.files_put_of_ne hne, hnone] at hother
  cases hother

/-- A temporary file means that there is no target yet. -/
theorem Intact.target_none (h : Intact good target temporary source s) (htemp : s.files temporary ≠ none) :
    s.files target = none := by
  by_contra hpresent
  obtain ⟨bytes, hbytes⟩ := Option.ne_none_iff_exists'.1 hpresent
  exact htemp (h.good bytes hbytes).2

theorem perform_iff {o : Op} {Q : o.Res → Disk → Prop} :
    (perform o).wp pre env Q E s ↔ pre s o ∧ ∀ a t, env s o a t →
      (∀ r, a = .ok r → Q r t) ∧ ∀ e, a = .error e → E e t := by
  unfold perform
  rw [Prog.wp_bind, Prog.wp_op]
  simp only [Prog.wp_ofExcept]

/-- An operation with one answer. -/
theorem keeps_perform (o : Op) {r : o.Res} {Q : o.Res → Disk → Prop}
    (h : ∀ a t', env s o a t' ↔ a = .ok r ∧ t' = t) :
    Keeps good target temporary source (perform o) Q s ↔
      Intact good target temporary source s ∧ Q r t := by
  unfold Keeps
  rw [perform_iff]
  refine and_congr_right fun _ => ⟨fun hall => ?_, fun hq a t' henv => ?_⟩
  · exact (hall _ _ ((h _ _).2 ⟨rfl, rfl⟩)).1 r rfl
  · obtain ⟨rfl, rfl⟩ := (h a t').1 henv
    refine ⟨fun r' hr => ?_, fun e he => by cases he⟩
    rw [← Except.ok.inj hr]
    exact hq

section Rules

variable {Q : Unit → Disk → Prop}

theorem keeps_exists {Q : Bool → Disk → Prop} {name : String} :
    Keeps good target temporary source (perform (.exists name)) Q s ↔
      Intact good target temporary source s ∧ Q (s.files name).isSome s :=
  keeps_perform (.exists name) fun _ _ => Iff.rfl

theorem keeps_readSource {Q : Bytes → Disk → Prop} :
    Keeps good target temporary source (perform .readSource) Q s ↔
      Intact good target temporary source s ∧ Q s.source s :=
  keeps_perform .readSource fun _ _ => Iff.rfl

theorem keeps_create (h : s.files temporary = none) :
    Keeps good target temporary source (perform (.create temporary)) Q s ↔
      Intact good target temporary source s ∧ Q () (s.put temporary []) := by
  apply keeps_perform (.create temporary)
  intro a t
  simp only [env, h, Option.isSome_none, Bool.false_eq_true, if_false]

theorem keeps_write {name : String} {byte : UInt8} :
    Keeps good target temporary source (perform (.write name byte)) Q s ↔
      Intact good target temporary source s ∧
        Q () (s.put name ((s.files name).getD [] ++ [byte])) :=
  keeps_perform (.write name byte) fun _ _ => Iff.rfl

theorem keeps_fsync : Keeps good target temporary source (perform .fsync) Q s ↔
    Intact good target temporary source s ∧ Q () s :=
  keeps_perform .fsync fun _ _ => Iff.rfl

theorem keeps_flush {synced : Bool} (h : Intact good target temporary source s) (hQ : Q () s) :
    Keeps good target temporary source (flush synced) Q s := by
  cases synced with
  | false => exact hQ
  | true => exact keeps_fsync.2 ⟨h, hQ⟩

theorem keeps_fsyncDirectory : Keeps good target temporary source (perform .fsyncDirectory) Q s ↔
    Intact good target temporary source s ∧ Q () s :=
  keeps_perform .fsyncDirectory fun _ _ => Iff.rfl

theorem keeps_replace {content : Bytes} (h : s.files temporary = some content) :
    Keeps good target temporary source (perform (.replace temporary target)) Q s ↔
      Intact good target temporary source s ∧
        Q () (s.rename temporary target content) := by
  apply keeps_perform (.replace temporary target)
  intro a t
  simp only [env, h]

theorem keeps_read {Q : Bytes → Disk → Prop} {name : String} {content : Bytes}
    (h : s.files name = some content) :
    Keeps good target temporary source (perform (.read name)) Q s ↔
      Intact good target temporary source s ∧ Q content s := by
  apply keeps_perform (.read name)
  intro a t
  simp only [env, h]

theorem keeps_writeAll (hne : target ≠ temporary) (rest done : Bytes) {s : Disk}
    (h : Intact good target temporary source s) (hnone : s.files target = none)
    (htemp : s.files temporary = some done) (hQ : Q () (s.put temporary (done ++ rest))) :
    Keeps good target temporary source (writeAll temporary rest) Q s := by
  induction rest generalizing done s with
  | nil =>
    rw [List.append_nil, Disk.put_of_some htemp] at hQ
    exact hQ
  | cons byte rest ih =>
    rw [writeAll, Keeps, Prog.wp_bind]
    apply keeps_write.2
    refine ⟨h, ih (done ++ [byte]) ?_ ?_ ?_ ?_⟩
    · exact h.writing hnone hne _
    · rw [Disk.files_put_of_ne hne, hnone]
    · rw [htemp, Disk.files_put_self]
      rfl
    · rw [Disk.put_put, List.append_assoc]
      exact hQ

end Rules

/-- The content of a target, if there is one, stands for the source, and no temporary file is left. -/
def Settled (good : Bytes → Prop) (target temporary : String) (source : Bytes) (s : Disk) : Prop :=
  Intact good target temporary source s ∧ s.files temporary = none

theorem keeps_place (hne : target ≠ temporary) {content : Placing Bytes} {synced : Bool}
    (hcontent : ∀ s, Intact good target temporary source s →
      Keeps good target temporary source content (fun bytes t => t = s ∧ good bytes) s)
    (h : Settled good target temporary source s) :
    Keeps good target temporary source (place target temporary content synced)
      (fun _ t => Intact good target temporary source t ∧ ∃ bytes, t.files target = some bytes ∧ good bytes) s := by
  rw [place, Keeps, Prog.wp_bind]
  apply keeps_exists.2
  refine ⟨h.1, ?_⟩
  cases htarget : s.files target with
  | some bytes => exact ⟨h.1, bytes, htarget, (h.1.good bytes htarget).1⟩
  | none =>
    simp only [Option.isSome_none, Bool.not_false, if_true]
    rw [Prog.wp_bind]
    refine (hcontent s h.1).post ?_
    rintro bytes t ⟨rfl, hgood⟩
    rw [Prog.wp_bind]
    apply (keeps_create h.2).2
    refine ⟨h.1, ?_⟩
    rw [Prog.wp_bind]
    have hcreated := h.1.writing htarget hne []
    apply keeps_writeAll hne bytes [] hcreated
    · rw [Disk.files_put_of_ne hne, htarget]
    · exact Disk.files_put_self
    rw [Disk.put_put, List.nil_append, Prog.wp_bind]
    have hwritten := h.1.writing htarget hne bytes
    apply keeps_flush hwritten
    rw [Prog.wp_bind]
    apply (keeps_replace Disk.files_put_self).2
    refine ⟨hwritten, ?_⟩
    have hplaced : Intact good target temporary source ((t.put temporary bytes).rename temporary target bytes) := by
      refine ⟨h.1.source, fun other hother => ?_⟩
      rw [Disk.files_rename_target] at hother
      rw [← Option.some.inj hother]
      exact ⟨hgood, Disk.files_rename_temporary (Ne.symm hne)⟩
    exact keeps_fsyncDirectory.2 ⟨hplaced, hplaced, bytes, Disk.files_rename_target, hgood⟩

theorem intact_of_steps {p q : Placing α} {Q : α → Disk → Prop}
    (h : Keeps good target temporary source p Q s)
    (hQ : ∀ a t, Q a t → Intact good target temporary source t)
    (hs : Prog.Steps env (s, p) (t, q)) : Intact good target temporary source t := by
  have hw := Prog.wp.steps h hs
  cases q with
  | ret a => exact hQ a t hw
  | raise e => exact hw.elim
  | call o k => exact hw.1

/-- `p` ends, and what it returns restores to the content. -/
def Repeats (p : Placing α) (restore : Disk → α → Option Bytes) (content : Bytes) (s : Disk) : Prop :=
  p.wp (fun _ _ => True) env (fun receipt t => restore t receipt = some content) (fun _ _ => False) s

/-- A file of the temporary name that was left behind stops the next call. -/
theorem not_repeats_place {content : Placing Bytes} {synced : Bool} {Q : Unit → Disk → Prop}
    (hcontent : ∀ R : Bytes → Disk → Prop,
      content.wp (fun _ _ => True) env R (fun _ _ => False) s → ∃ bytes, R bytes s)
    (htarget : s.files target = none) (htemp : (s.files temporary).isSome) :
    ¬(place target temporary content synced).wp (fun _ _ => True) env Q (fun _ _ => False) s := by
  intro h
  rw [place, Prog.wp_bind, perform_iff] at h
  have hnext := (h.2 (.ok false) s ⟨by rw [htarget]; rfl, rfl⟩).1 false rfl
  simp only [Bool.not_false, if_true] at hnext
  rw [Prog.wp_bind] at hnext
  obtain ⟨bytes, hbytes⟩ := hcontent _ hnext
  rw [Prog.wp_bind] at hbytes
  have hcreate := (perform_iff (o := .create temporary)).1 hbytes
  have hexists : env s (.create temporary) (.error (.os "File exists")) s := by
    simp [env, htemp]
  exact (hcreate.2 _ s hexists).2 _ rfl

theorem steps_perform {o : Op} {r : o.Res} (h : env s o (.ok r) t) :
    Prog.Steps env (s, perform o) (t, pure r) := by
  have hstep : Prog.Step env (s, perform o) (t, Prog.ofExcept (.ok r)) := Prog.Step.call h
  exact .single hstep

/-- A point of every call that finds no target: the temporary file has been created. -/
theorem steps_created (synced : Bool) {content : Placing Bytes} {bytes : Bytes}
    (hcontent : Prog.Steps env (s, content) (s, pure bytes)) (htarget : s.files target = none)
    (htemp : s.files temporary = none) :
    ∃ q, Prog.Steps env (s, place target temporary content synced) (s.put temporary [], q) := by
  have hexists : Prog.Steps env (s, perform (.exists target)) (s, pure false) :=
    steps_perform ⟨by rw [htarget]; rfl, rfl⟩
  have hcreate : Prog.Steps env (s, perform (.create temporary)) (s.put temporary [], pure ()) := by
    apply steps_perform
    simp [env, htemp]
  exact ⟨_, ((hexists.bind _).trans (hcontent.bind _)).trans (hcreate.bind _)⟩

theorem steps_writeAll (rest done : Bytes) (htemp : s.files temporary = some done) :
    Prog.Steps env (s, writeAll temporary rest) (s.put temporary (done ++ rest), pure ()) := by
  induction rest generalizing done s with
  | nil =>
    rw [List.append_nil, Disk.put_of_some htemp]
    exact .refl
  | cons byte rest ih =>
    have hwrite : Prog.Steps env (s, perform (.write temporary byte))
        (s.put temporary (done ++ [byte]), pure ()) :=
      steps_perform ⟨rfl, by rw [htemp]; rfl⟩
    have hrest := @ih (s.put temporary (done ++ [byte])) (done ++ [byte]) Disk.files_put_self
    rw [Disk.put_put, List.append_assoc] at hrest
    exact (hwrite.bind _).trans hrest

theorem steps_flush (synced : Bool) : Prog.Steps env (s, flush synced) (s, pure ()) := by
  cases synced with
  | false => exact .refl
  | true => exact steps_perform ⟨rfl, rfl⟩

/-- A later point: the file has been written and renamed. -/
theorem steps_renamed (synced : Bool) {content : Placing Bytes} {bytes : Bytes}
    (hcontent : Prog.Steps env (s, content) (s, pure bytes)) (htarget : s.files target = none)
    (htemp : s.files temporary = none) :
    ∃ q, Prog.Steps env (s, place target temporary content synced)
      ((s.put temporary bytes).rename temporary target bytes, q) := by
  have hexists : Prog.Steps env (s, perform (.exists target)) (s, pure false) :=
    steps_perform ⟨by rw [htarget]; rfl, rfl⟩
  have hcreate : Prog.Steps env (s, perform (.create temporary)) (s.put temporary [], pure ()) := by
    apply steps_perform
    simp [env, htemp]
  have hwrite : Prog.Steps env (s.put temporary [], writeAll temporary bytes)
      (s.put temporary bytes, pure ()) := by
    have hall := steps_writeAll bytes [] (s := s.put temporary []) Disk.files_put_self
    rwa [Disk.put_put, List.nil_append] at hall
  have hreplace : Prog.Steps env (s.put temporary bytes, perform (.replace temporary target))
      ((s.put temporary bytes).rename temporary target bytes, pure ()) := by
    apply steps_perform
    simp [env]
  exact ⟨_, (hexists.bind _).trans ((hcontent.bind _).trans ((hcreate.bind _).trans ((hwrite.bind _).trans
    (((steps_flush synced).bind _).trans (hreplace.bind _)))))⟩

/-! ### `FilesystemVersionedBackup` -/

variable {content : Bytes} {idempotencyKey : String}

theorem snapshotName_ne (idempotencyKey : String) :
    Host.snapshotName idempotencyKey ≠ partialName idempotencyKey ".snapshot" :=
  append_ne_partialName (by decide) (by decide)

abbrev SnapshotSettled (content : Bytes) (idempotencyKey : String) (s : Disk) : Prop :=
  Settled (· = content) (Host.snapshotName idempotencyKey) (partialName idempotencyKey ".snapshot") content s

theorem keeps_snapshot (h : SnapshotSettled content idempotencyKey s) :
    Keeps (· = content) (Host.snapshotName idempotencyKey) (partialName idempotencyKey ".snapshot") content
      (snapshot idempotencyKey) (fun receipt t =>
        Intact (· = content) (Host.snapshotName idempotencyKey) (partialName idempotencyKey ".snapshot")
          content t ∧ restoreSnapshot t receipt = some content) s := by
  rw [snapshot, Keeps, Prog.wp_bind]
  have hread : ∀ s, Intact (· = content) (Host.snapshotName idempotencyKey)
      (partialName idempotencyKey ".snapshot") content s →
      Keeps (· = content) (Host.snapshotName idempotencyKey) (partialName idempotencyKey ".snapshot") content
        (perform .readSource) (fun bytes t => t = s ∧ bytes = content) s :=
    fun s hs => keeps_readSource.2 ⟨hs, rfl, hs.source⟩
  refine (keeps_place (snapshotName_ne idempotencyKey) hread h).post ?_
  rintro u t ⟨hintact, bytes, hbytes, rfl⟩
  exact ⟨hintact, hbytes⟩

/-- After a crash anywhere in a snapshot, the same call works exactly where no temporary file is left. -/
theorem snapshot_repeats_iff (h : SnapshotSettled content idempotencyKey s) {q : Placing BackupReceipt}
    (hs : Prog.Steps env (s, snapshot idempotencyKey) (t, q)) :
    Repeats (snapshot idempotencyKey) restoreSnapshot content t ↔
      t.files (partialName idempotencyKey ".snapshot") = none := by
  have hintact := intact_of_steps (keeps_snapshot h) (fun _ _ hQ => hQ.1) hs
  constructor
  · intro hrepeats
    by_contra htemp
    have hsome := Option.isSome_iff_ne_none.2 htemp
    have htarget := hintact.target_none htemp
    rw [Repeats, snapshot, Prog.wp_bind] at hrepeats
    refine not_repeats_place (fun R hR => ?_) htarget hsome hrepeats
    have hanswer := (perform_iff (o := .readSource)).1 hR
    exact ⟨t.source, (hanswer.2 _ t ⟨rfl, rfl⟩).1 _ rfl⟩
  · intro htemp
    exact (keeps_snapshot ⟨hintact, htemp⟩).mono (fun _ _ _ => trivial) (fun _ _ hQ => hQ.2)
      (fun _ _ hE => hE)

/-! ### `LocalEncryptedColdStorage` -/

variable {gcm : AesGcm} {key : Bytes} {sha256 : Bytes → Digest}

theorem objectName_ne (idempotencyKey : String) :
    Host.objectName idempotencyKey ≠ partialName idempotencyKey ".mnema" :=
  append_ne_partialName (by decide) (by decide)

/-- The object decrypts to the content. -/
def Decrypts (gcm : AesGcm) (key content cipher : Bytes) : Prop := decryptFile gcm key cipher none = .ok content

abbrev UploadSettled (gcm : AesGcm) (key content : Bytes) (idempotencyKey : String) (s : Disk) : Prop :=
  Settled (Decrypts gcm key content) (Host.objectName idempotencyKey) (partialName idempotencyKey ".mnema")
    content s

theorem keeps_encrypted (hkey : key.length = 32)
    (h : Intact (Decrypts gcm key content) target temporary content s) :
    Keeps (Decrypts gcm key content) target temporary content (encrypted gcm key)
      (fun bytes t => t = s ∧ Decrypts gcm key content bytes) s := by
  rw [encrypted, Keeps, Prog.wp_bind]
  apply (perform_iff (o := .urandom)).2
  refine ⟨h, ?_⟩
  rintro a t ⟨nonce, hnonce, rfl, rfl⟩
  refine ⟨fun bytes hbytes => ?_, fun e he => by cases he⟩
  rw [← Except.ok.inj hbytes, Prog.wp_bind]
  apply keeps_readSource.2
  refine ⟨h, ?_⟩
  obtain ⟨cipher, hcipher, hdecrypts⟩ := decrypt_of_encrypt gcm hkey hnonce content
  rw [h.source, hcipher]
  exact ⟨rfl, hdecrypts⟩

theorem steps_encrypted (hkey : key.length = 32) :
    ∃ bytes, Prog.Steps env (s, encrypted gcm key) (s, pure bytes) := by
  have hnonce : Prog.Steps env (s, perform .urandom) (s, pure (List.replicate nonceLength 0)) :=
    steps_perform ⟨_, List.length_replicate, rfl, rfl⟩
  have hread : Prog.Steps env (s, perform .readSource) (s, pure s.source) := steps_perform ⟨rfl, rfl⟩
  have hlast : Prog.Steps env (s, encrypted gcm key)
      (s, Prog.ofExcept (encryptFile gcm key (List.replicate nonceLength 0) s.source none)) :=
    (hnonce.bind _).trans (hread.bind _)
  rw [encryptFile_ok hkey] at hlast
  exact ⟨_, hlast⟩

theorem keeps_upload (hkey : key.length = 32) (h : UploadSettled gcm key content idempotencyKey s) :
    Keeps (Decrypts gcm key content) (Host.objectName idempotencyKey)
      (partialName idempotencyKey ".mnema") content (upload gcm key sha256 idempotencyKey)
      (fun receipt t => Intact (Decrypts gcm key content) (Host.objectName idempotencyKey)
        (partialName idempotencyKey ".mnema") content t ∧
          restoreObject gcm key t receipt = some content) s := by
  rw [upload, Keeps, Prog.wp_bind]
  refine (keeps_place (objectName_ne idempotencyKey) (fun s hs => keeps_encrypted hkey hs) h).post ?_
  rintro u t ⟨hintact, bytes, hbytes, hdecrypts⟩
  rw [Prog.wp_bind]
  apply (keeps_read hbytes).2
  refine ⟨hintact, hintact, ?_⟩
  show ((t.files (Host.objectName idempotencyKey)).bind _) = some content
  rw [hbytes, Option.bind_some, hdecrypts]
  rfl

/-- After a crash anywhere in an upload, the same call works exactly where no temporary file is left. -/
theorem upload_repeats_iff (hkey : key.length = 32) (h : UploadSettled gcm key content idempotencyKey s)
    {q : Placing ColdReceipt} (hs : Prog.Steps env (s, upload gcm key sha256 idempotencyKey) (t, q)) :
    Repeats (upload gcm key sha256 idempotencyKey) (restoreObject gcm key) content t ↔
      t.files (partialName idempotencyKey ".mnema") = none := by
  have hintact := intact_of_steps (keeps_upload hkey h) (fun _ _ hQ => hQ.1) hs
  constructor
  · intro hrepeats
    by_contra htemp
    have hsome := Option.isSome_iff_ne_none.2 htemp
    have htarget := hintact.target_none htemp
    rw [Repeats, upload, Prog.wp_bind] at hrepeats
    refine not_repeats_place (fun R hR => ?_) htarget hsome hrepeats
    rw [encrypted, Prog.wp_bind] at hR
    have hanswer := (perform_iff (o := .urandom)).1 hR
    have hnonce : (List.replicate nonceLength (0 : UInt8)).length = nonceLength := List.length_replicate
    have hsource := (hanswer.2 _ t ⟨_, hnonce, rfl, rfl⟩).1 _ rfl
    rw [Prog.wp_bind] at hsource
    have hread := (perform_iff (o := .readSource)).1 hsource
    have hencrypt := (hread.2 _ t ⟨rfl, rfl⟩).1 _ rfl
    rw [encryptFile_ok hkey] at hencrypt
    exact ⟨_, hencrypt⟩
  · intro htemp
    exact (keeps_upload hkey ⟨hintact, htemp⟩).mono (fun _ _ _ => trivial) (fun _ _ hQ => hQ.2)
      (fun _ _ hE => hE)

end Mnema.LocalAdapters

namespace Mnema

open Crypto LocalAdapters

/-- A call that crashed anywhere works when it is repeated, exactly where the crash left no temporary
file: before the file is created or after it was renamed. -/
theorem local_adapters_repeat (gcm : AesGcm) {key : Bytes} (content : Bytes) (sha256 : Bytes → Digest)
    (idempotencyKey : String) {s t : Disk} (hkey : key.length = 32) :
    (∀ q, SnapshotSettled content idempotencyKey s → Prog.Steps env (s, snapshot idempotencyKey) (t, q) →
      (Repeats (snapshot idempotencyKey) restoreSnapshot content t ↔
        t.files (partialName idempotencyKey ".snapshot") = none)) ∧
    ∀ q, UploadSettled gcm key content idempotencyKey s →
      Prog.Steps env (s, upload gcm key sha256 idempotencyKey) (t, q) →
      (Repeats (upload gcm key sha256 idempotencyKey) (restoreObject gcm key) content t ↔
        t.files (partialName idempotencyKey ".mnema") = none) :=
  ⟨fun _ h hs => snapshot_repeats_iff h hs, fun _ h hs => upload_repeats_iff hkey h hs⟩

/-- An empty directory, and a file to copy. -/
def startDisk (content : Bytes) : Disk := ⟨Store.empty, content⟩

theorem settled_startDisk (good : Bytes → Prop) (target temporary : String) (content : Bytes) :
    Settled good target temporary content (startDisk content) :=
  ⟨⟨rfl, fun _ h => by cases h⟩, rfl⟩

/-- Two bytes are copied, the process dies right after the rename, and the call is repeated. -/
theorem local_adapters_repeat_renamed :
    (∃ t q, Prog.Steps env (startDisk [104, 105], snapshot "a") (t, q) ∧
      (t.files "a.snapshot").isSome ∧ Repeats (snapshot "a") restoreSnapshot [104, 105] t) ∧
    ∃ t q, Prog.Steps env (startDisk [104, 105],
        upload zeroGcm (List.replicate 32 0) (fun _ => "") "a") (t, q) ∧
      (t.files "a.mnema").isSome ∧
      Repeats (upload zeroGcm (List.replicate 32 0) (fun _ => "") "a")
        (restoreObject zeroGcm (List.replicate 32 0)) [104, 105] t := by
  have hkey : (List.replicate 32 (0 : UInt8)).length = 32 := rfl
  have hrepeat := fun t => local_adapters_repeat zeroGcm [104, 105] (fun _ => "") "a"
    (s := startDisk [104, 105]) (t := t) hkey
  constructor
  · have hread : Prog.Steps env (startDisk [104, 105], perform .readSource)
        (startDisk [104, 105], pure [104, 105]) := steps_perform ⟨rfl, rfl⟩
    obtain ⟨q, hrenamed⟩ := steps_renamed true hread
      (by rfl : (startDisk [104, 105]).files "a.snapshot" = none)
      (by rfl : (startDisk [104, 105]).files "a.partial" = none)
    refine ⟨_, _, hrenamed.bind _, rfl, ?_⟩
    exact ((hrepeat _).1 _ (settled_startDisk ..) (hrenamed.bind _)).2
      (Disk.files_rename_temporary (by decide))
  · obtain ⟨cipher, hcipher⟩ : ∃ cipher, Prog.Steps env (startDisk [104, 105],
        encrypted zeroGcm (List.replicate 32 0)) (startDisk [104, 105], pure cipher) := steps_encrypted hkey
    obtain ⟨q, hrenamed⟩ := steps_renamed false hcipher
      (by rfl : (startDisk [104, 105]).files "a.mnema" = none)
      (by rfl : (startDisk [104, 105]).files "a.partial" = none)
    refine ⟨_, _, hrenamed.bind _, rfl, ?_⟩
    exact ((hrepeat _).2 _ (settled_startDisk ..) (hrenamed.bind _)).2
      (Disk.files_rename_temporary (by decide))

/-- A crash right after the temporary file is created leaves it, and the next call cannot create it. -/
theorem created_file_blocks :
    ¬∀ (content : Bytes) (idempotencyKey : String) (s t : Disk) (q : Placing BackupReceipt),
      SnapshotSettled content idempotencyKey s → Prog.Steps env (s, snapshot idempotencyKey) (t, q) →
      Repeats (snapshot idempotencyKey) restoreSnapshot content t := by
  intro h
  have hread : Prog.Steps env (startDisk [], perform .readSource) (startDisk [], pure []) := steps_perform ⟨rfl, rfl⟩
  obtain ⟨q, hcreated⟩ := steps_created true hread (by rfl : (startDisk []).files "a.snapshot" = none)
    (by rfl : (startDisk []).files "a.partial" = none)
  have hrepeats := h [] "a" (startDisk []) _ _ (settled_startDisk ..) (hcreated.bind _)
  have hnone := (snapshot_repeats_iff (settled_startDisk ..) (hcreated.bind _)).1 hrepeats
  rw [partialName] at hnone
  cases hnone

end Mnema
