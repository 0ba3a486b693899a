import Mnema.UploadConformance
import Mnema.Lib.Space
import Mathlib.Algebra.BigOperators.Fin
import Mathlib.Tactic.Linarith

/-! What an accepted upload needs of active storage: the copy that arrives, and the scratch that
archiving it takes and gives back, against the reserve that `create_upload` asks for. -/

namespace Mnema

open SpaceUse (Fits after writes temporary)

/-- `SCRATCH_MARGIN_BYTES`. -/
@[irreducible] def scratchMarginBytes : Nat := 64 * 1024 * 1024

/-! ### Archiving -/

@[irreducible] def chunkSize : Nat := 1024 * 1024

/-- The chunks that `read(1024 * 1024)` returns before the end of the file. -/
def readChunks (size : Nat) : List Nat :=
  List.replicate (size / chunkSize) chunkSize ++ if size % chunkSize = 0 then [] else [size % chunkSize]

theorem sum_readChunks (size : Nat) : (readChunks size).sum = size := by
  have hdiv := Nat.div_add_mod' size chunkSize
  unfold readChunks
  by_cases hr : size % chunkSize = 0
  · simp only [hr, if_true, List.append_nil, List.sum_replicate, smul_eq_mul]
    omega
  · simp only [hr, if_false, List.sum_append, List.sum_replicate, smul_eq_mul, List.sum_singleton]
    exact hdiv

def magicSize : Nat := 6
def nonceSize : Nat := 12
def tagSize : Nat := 16

def encryptedSize (size : Nat) : Nat := magicSize + nonceSize + size + tagSize

def encryptFile (size : Nat) : List SpaceUse :=
  writes ([magicSize, nonceSize] ++ readChunks size ++ [tagSize])

def decryptFile (size : Nat) : List SpaceUse :=
  writes (readChunks (size - magicSize - nonceSize - tagSize))

/-- What stands at the destination when the plaintext is committed: nothing, the same bytes, or other
bytes, where the name of the collision may be taken by a file that is then replaced. -/
inductive Destination where
  | vacant
  | same
  | collision (replaced : Nat)
deriving DecidableEq

def Destination.released (size : Nat) : Destination → Nat
  | vacant => 0
  | same => size
  | collision replaced => replaced

/-- The staged file is renamed, within active storage, or removed where its bytes are there. -/
def commitPlaintext (size : Nat) (destination : Destination) : List SpaceUse :=
  match destination with
  | .vacant => []
  | .same => [.release size]
  | .collision replaced => [.release replaced]

/-- `S3EncryptedColdStorage.upload`. -/
def coldUploadUses (plaintextSize : Nat) : List SpaceUse :=
  temporary (plaintextSize + scratchMarginBytes) (encryptFile plaintextSize) (encryptedSize plaintextSize)

/-- `S3EncryptedColdStorage.restore`, which leaves the plaintext at its destination. -/
def coldRestoreUses (remoteSize : Nat) : List SpaceUse :=
  temporary (remoteSize + scratchMarginBytes) (.write remoteSize :: decryptFile remoteSize) remoteSize

/-- `S3EncryptedColdStorage.verify`. -/
def coldVerifyUses (remoteSize : Nat) : List SpaceUse :=
  temporary (2 * remoteSize + scratchMarginBytes) (coldRestoreUses remoteSize)
    (remoteSize - magicSize - nonceSize - tagSize)

def archiveUses (size : Nat) (destination : Destination) : List SpaceUse :=
  commitPlaintext size destination ++ coldUploadUses size ++ coldVerifyUses (encryptedSize size)

variable {free size : Nat} {destination : Destination}

theorem encryptedSize_eq : encryptedSize size = size + 34 := by
  unfold encryptedSize magicSize nonceSize tagSize
  omega

theorem scratchMarginBytes_eq : scratchMarginBytes = 67108864 := by
  unfold scratchMarginBytes
  norm_num

theorem fits_commitPlaintext : Fits free (commitPlaintext size destination) := by
  cases destination <;> trivial

theorem after_commitPlaintext :
    after free (commitPlaintext size destination) = free + destination.released size := by
  cases destination <;> rfl

theorem sum_encryptFile :
    ([magicSize, nonceSize] ++ readChunks size ++ [tagSize]).sum = encryptedSize size := by
  simp only [List.sum_append, List.sum_cons, List.sum_nil, sum_readChunks]
  unfold encryptedSize
  omega

theorem sum_decryptFile :
    (readChunks (encryptedSize size - magicSize - nonceSize - tagSize)).sum = size := by
  rw [sum_readChunks]
  unfold encryptedSize
  omega

theorem fits_coldUploadUses : Fits free (coldUploadUses size) ↔ size + scratchMarginBytes ≤ free := by
  have hmargin : encryptedSize size ≤ size + scratchMarginBytes := by
    rw [encryptedSize_eq, scratchMarginBytes_eq]
    omega
  unfold coldUploadUses encryptFile
  rw [SpaceUse.fits_temporary, SpaceUse.fits_writes, sum_encryptFile]
  omega

theorem after_coldUploadUses (h : Fits free (coldUploadUses size)) :
    after free (coldUploadUses size) = free := by
  have hfits := (SpaceUse.fits_temporary.mp h).2
  unfold encryptFile at hfits
  rw [SpaceUse.fits_writes, sum_encryptFile] at hfits
  unfold coldUploadUses encryptFile
  rw [SpaceUse.after_temporary, SpaceUse.after_writes, sum_encryptFile]
  omega

theorem fits_coldRestoreUses : Fits free (coldRestoreUses (encryptedSize size)) ↔
    encryptedSize size + scratchMarginBytes ≤ free ∧ encryptedSize size + size ≤ free := by
  unfold coldRestoreUses decryptFile
  rw [SpaceUse.fits_temporary]
  simp only [Fits]
  rw [SpaceUse.fits_writes, sum_decryptFile]
  omega

theorem after_coldRestoreUses (h : Fits free (coldRestoreUses (encryptedSize size))) :
    after free (coldRestoreUses (encryptedSize size)) = free - size := by
  have hfits := (fits_coldRestoreUses.mp h).2
  unfold coldRestoreUses decryptFile
  rw [SpaceUse.after_temporary]
  simp only [after]
  rw [SpaceUse.after_writes, sum_decryptFile]
  omega

theorem fits_coldVerifyUses : Fits free (coldVerifyUses (encryptedSize size)) ↔
    2 * encryptedSize size + scratchMarginBytes ≤ free := by
  have hsize : size ≤ encryptedSize size := by
    rw [encryptedSize_eq]
    omega
  unfold coldVerifyUses
  rw [SpaceUse.fits_temporary, fits_coldRestoreUses]
  omega

theorem after_coldVerifyUses (h : Fits free (coldVerifyUses (encryptedSize size))) :
    after free (coldVerifyUses (encryptedSize size)) = free := by
  have hrestore := (SpaceUse.fits_temporary.mp h).2
  have hsize := (fits_coldRestoreUses.mp hrestore).2
  unfold coldVerifyUses
  rw [SpaceUse.after_temporary, after_coldRestoreUses hrestore]
  unfold encryptedSize
  omega

/-- Verification is what asks for most: two copies of the object and the margin. -/
theorem fits_archiveUses : Fits free (archiveUses size destination) ↔
    2 * (size + 34) + scratchMarginBytes ≤ free + destination.released size := by
  have hdivide : Fits free (archiveUses size destination) ↔
      Fits (free + destination.released size) (coldUploadUses size) ∧
        Fits (free + destination.released size) (coldVerifyUses (encryptedSize size)) := by
    rw [archiveUses, List.append_assoc, SpaceUse.fits_append, SpaceUse.fits_append,
      after_commitPlaintext, iff_true_intro fits_commitPlaintext, true_and]
    refine and_congr_right fun hupload => ?_
    rw [after_coldUploadUses hupload]
  rw [hdivide, fits_coldVerifyUses, fits_coldUploadUses, encryptedSize_eq]
  omega

theorem after_archiveUses (h : Fits free (archiveUses size destination)) :
    after free (archiveUses size destination) = free + destination.released size := by
  rw [archiveUses, List.append_assoc] at h ⊢
  obtain ⟨-, hrest⟩ := SpaceUse.fits_append.mp h
  rw [after_commitPlaintext] at hrest
  obtain ⟨hupload, hverify⟩ := SpaceUse.fits_append.mp hrest
  rw [after_coldUploadUses hupload] at hverify
  rw [SpaceUse.after_append, SpaceUse.after_append, after_commitPlaintext,
    after_coldUploadUses hupload, after_coldVerifyUses hverify]

/-! ### Requests and arriving bytes -/

/-- The size is within the limit, and three copies leave the reserve. -/
def admits (settings : Settings) (usage : DiskUsage) (size : Nat) : Bool :=
  decide (size ≤ settings.fileProviderMaxFileSize) &&
    sparesSpace usage size settings.fileProviderMinimumFreePercent

theorem wp_trivial {σ α : Type} {X : ExtEnv σ} {w : World σ} {P : α → World σ → Prop} (p : Flow α)
    (hP : ∀ a w, P a w) : p.wp (fun _ _ => True) (World.env X) P (fun _ _ => True) w :=
  (Prog.wp_true p w).mono (fun _ _ h => h) (fun a w _ => hP a w) fun _ _ h => h

/-- `create_upload` returns an upload only if the disk it looks at admits it. -/
theorem createUpload_admits {σ : Type} {X : ExtEnv σ} {settings : Settings} {usage : DiskUsage}
    (husage : ∀ x a x', X x (.diskUsage settings.activeRoot) (.ok a) x' → a = usage)
    (request : UploadRequest) (w : World σ) :
    (createUpload settings request).wp (fun _ _ => True) (World.env X)
      (fun _ _ => admits settings usage request.size = true) (fun _ _ => True) w := by
  simp only [createUpload, Prog.wp_bind]
  -- neither the roots nor the name have a say in the rest
  generalize bootstrapRoots = boot
  generalize validateUploadName request.name = validated
  refine wp_trivial _ fun _ w => wp_trivial _ fun _ w => wp_raiseIf.mpr ⟨fun hlimit => ?_, fun _ => trivial⟩
  refine wp_ext.mpr ⟨trivial, fun a x hx _ => (Prog.wp_ofExcept _).mpr ⟨fun lacking hlacks => ?_,
    fun _ _ => trivial⟩, fun _ _ _ _ => trivial⟩
  refine wp_raiseIf.mpr ⟨fun hspace => ?_, fun _ => trivial⟩
  have hadmits : admits settings usage request.size = true := by
    rw [husage _ _ _ hx, hspace] at hlacks
    have hle : request.size ≤ settings.fileProviderMaxFileSize := by
      simpa using hlimit
    simp [admits, hle, sparesSpace_iff.mpr hlacks]
  simp only [← Prog.wp_bind]
  exact wp_trivial _ fun _ _ => hadmits

/-- An upload is accepted, or bytes of an accepted one are written; uploads are numbered in the
order in which they were accepted. -/
inductive UploadEvent where
  | create (size : Nat)
  | receive (upload bytes : Nat)
deriving DecidableEq

namespace UploadEvent

def size? : UploadEvent → Option Nat
  | create size => some size
  | receive _ _ => none

def bytes : UploadEvent → Nat
  | create _ => 0
  | receive _ bytes => bytes

/-- The bytes that arrive for one upload. -/
def bytesFor (upload : Nat) : UploadEvent → Nat
  | create _ => 0
  | receive other bytes => if other = upload then bytes else 0

def uses : UploadEvent → List SpaceUse
  | create _ => []
  | receive _ bytes => [.write bytes]

end UploadEvent

def acceptedSizes (events : List UploadEvent) : List Nat := events.filterMap UploadEvent.size?

def receivedBytes (events : List UploadEvent) (upload : Nat) : Nat :=
  (events.map (UploadEvent.bytesFor upload)).sum

/-- Every upload was admitted when it was requested, with what was free by then. -/
def Admitted (settings : Settings) (total : Nat) : Nat → List UploadEvent → Prop
  | _, [] => True
  | free, .create size :: rest => admits settings ⟨total, free⟩ size = true ∧ Admitted settings total free rest
  | free, .receive _ bytes :: rest => Admitted settings total (free - bytes) rest

/-- Bytes arrive for the uploads accepted so far, of which there are `count` at first. -/
def Ordered : Nat → List UploadEvent → Prop
  | _, [] => True
  | count, .create _ :: rest => Ordered (count + 1) rest
  | count, .receive upload _ :: rest => upload < count ∧ Ordered count rest

instance decidableAdmitted (settings : Settings) (total : Nat) :
    ∀ free events, Decidable (Admitted settings total free events)
  | _, [] => isTrue trivial
  | free, .create size :: rest =>
    have := decidableAdmitted settings total free rest
    inferInstanceAs (Decidable (admits settings ⟨total, free⟩ size = true ∧
      Admitted settings total free rest))
  | free, .receive _ bytes :: rest => decidableAdmitted settings total (free - bytes) rest

instance decidableOrdered : ∀ count events, Decidable (Ordered count events)
  | _, [] => isTrue trivial
  | count, .create _ :: rest => decidableOrdered (count + 1) rest
  | count, .receive upload _ :: rest =>
    have := decidableOrdered count rest
    inferInstanceAs (Decidable (upload < count ∧ Ordered count rest))

/-- Uploads are accepted, in any order with the arrival of their bytes, and received in full. -/
structure Intake (settings : Settings) (total free : Nat) (events : List UploadEvent) : Prop where
  admitted : Admitted settings total free events
  ordered : Ordered 0 events
  complete : ∀ upload (h : upload < (acceptedSizes events).length),
    receivedBytes events upload = (acceptedSizes events)[upload]

theorem sum_received_of_lt {events : List UploadEvent} {count : Nat}
    (h : ∀ upload bytes, .receive upload bytes ∈ events → upload < count) :
    ∑ upload : Fin count, receivedBytes events upload = (events.map UploadEvent.bytes).sum := by
  induction events with
  | nil => simp [receivedBytes]
  | cons event events ih =>
    have hrest := ih fun upload bytes hm => h upload bytes (List.mem_cons_of_mem _ hm)
    simp only [receivedBytes, List.map_cons, List.sum_cons, Finset.sum_add_distrib] at hrest ⊢
    rw [hrest]
    cases event with
    | create size => simp [UploadEvent.bytesFor, UploadEvent.bytes]
    | receive upload bytes =>
      have hlt : upload < count := h upload bytes List.mem_cons_self
      have hone : ∑ other : Fin count, UploadEvent.bytesFor other (.receive upload bytes) = bytes := by
        simp only [UploadEvent.bytesFor]
        rw [Finset.sum_eq_single (⟨upload, hlt⟩ : Fin count)]
        · exact if_pos rfl
        · intro other _ hne
          exact if_neg fun he => hne (Fin.ext he.symm)
        · intro hm
          exact absurd (Finset.mem_univ _) hm
      rw [hone]
      rfl

theorem lt_of_ordered {events : List UploadEvent} {count upload bytes : Nat} (h : Ordered count events)
    (hm : .receive upload bytes ∈ events) : upload < count + (acceptedSizes events).length := by
  induction events generalizing count with
  | nil => cases hm
  | cons event events ih =>
    cases event with
    | create size =>
      have hh := ih h (List.mem_of_ne_of_mem (by simp) hm)
      simp only [acceptedSizes, List.filterMap_cons, UploadEvent.size?, List.length_cons] at hh ⊢
      omega
    | receive other n =>
      obtain ⟨hother, hrest⟩ := h
      simp only [acceptedSizes, List.filterMap_cons, UploadEvent.size?] at ih ⊢
      rcases List.mem_cons.mp hm with he | hm
      · obtain ⟨rfl, rfl⟩ := UploadEvent.receive.inj he
        omega
      · exact ih hrest hm

variable {settings : Settings} {total : Nat} {events : List UploadEvent} {order : List (Nat × Destination)}

/-- All that arrives are the sizes of the accepted uploads. -/
theorem Intake.sum_bytes (h : Intake settings total free events) :
    (events.map UploadEvent.bytes).sum = (acceptedSizes events).sum := by
  have hlt : ∀ upload bytes, .receive upload bytes ∈ events → upload < (acceptedSizes events).length := by
    intro upload bytes hm
    have hh := lt_of_ordered h.ordered hm
    omega
  rw [← sum_received_of_lt hlt]
  have hsizes : ∀ upload : Fin (acceptedSizes events).length,
      receivedBytes events upload = (acceptedSizes events)[upload.val] := fun upload => h.complete _ upload.isLt
  rw [Finset.sum_congr rfl fun upload _ => hsizes upload]
  exact Fin.sum_univ_getElem (acceptedSizes events)

theorem fits_events :
    Fits free (events.flatMap UploadEvent.uses) ↔ (events.map UploadEvent.bytes).sum ≤ free := by
  induction events generalizing free with
  | nil => simp [Fits]
  | cons event events ih =>
    cases event with
    | create size => simpa [UploadEvent.uses, UploadEvent.bytes] using ih
    | receive upload bytes =>
      have hrest := @ih (free - bytes)
      simp only [List.flatMap_cons, UploadEvent.uses, List.singleton_append, Fits, hrest, List.map_cons,
        List.sum_cons, UploadEvent.bytes]
      omega

theorem after_events :
    after free (events.flatMap UploadEvent.uses) = free - (events.map UploadEvent.bytes).sum := by
  induction events generalizing free with
  | nil => rfl
  | cons event events ih =>
    cases event with
    | create size => simpa [UploadEvent.uses, UploadEvent.bytes] using ih
    | receive upload bytes =>
      have hrest := @ih (free - bytes)
      simp only [List.flatMap_cons, UploadEvent.uses, List.singleton_append, after, hrest, List.map_cons,
        List.sum_cons, UploadEvent.bytes]
      omega

/-- What the commits of these uploads give back. -/
def releasedBytes (order : List (Nat × Destination)) : Nat :=
  (order.map fun a => a.2.released a.1).sum

theorem fits_archives : Fits free (order.flatMap fun a => archiveUses a.1 a.2) ↔
    ∀ pre a post, order = pre ++ a :: post →
      2 * (a.1 + 34) + scratchMarginBytes ≤ free + releasedBytes (pre ++ [a]) := by
  have hreleased : ∀ pre (a : Nat × Destination),
      releasedBytes (pre ++ [a]) = (pre.map fun a => a.2.released a.1).sum + a.2.released a.1 := by
    intro pre a
    rw [releasedBytes, List.map_append, List.sum_append, List.map_singleton, List.sum_singleton]
  have hgain : Fits free (order.flatMap fun a => archiveUses a.1 a.2) ↔ _ :=
    SpaceUse.fits_flatMap fun a free h => after_archiveUses h
  rw [hgain]
  refine forall₄_congr fun pre a post _ => ?_
  rw [fits_archiveUses, hreleased, Nat.add_assoc]

/-- Once the uploads have arrived and are archived one after another, in any order and whatever
stands at their destinations: no write and no preflight falls short exactly if the free space holds
all of them, and when the turn of an upload comes, all of them with two more copies of it and the
margin fit into that space and what the commits have given back. -/
theorem admission_covers_archiving (h : Intake settings total free events)
    (horder : (order.map Prod.fst).Perm (acceptedSizes events)) :
    Fits free (events.flatMap UploadEvent.uses ++ order.flatMap fun a => archiveUses a.1 a.2) ↔
      (acceptedSizes events).sum ≤ free ∧ ∀ pre a post, order = pre ++ a :: post →
        (order.map Prod.fst).sum + (2 * (a.1 + 34) + scratchMarginBytes) ≤
          free + releasedBytes (pre ++ [a]) := by
  have hsum := h.sum_bytes
  rw [SpaceUse.fits_append, fits_events, after_events, fits_archives, hsum, horder.sum_eq]
  refine and_congr_right fun hreceived => forall₄_congr fun pre a post _ => ?_
  omega

/-- A lone upload is covered wherever the reserve, rounded as the check rounds it, is more than
the margin and 67 bytes. -/
theorem lone_upload_covered {size : Nat} {destination : Destination}
    (h : Intake settings total free events) (hone : acceptedSizes events = [size])
    (hreserve : Double.ofRat (((scratchMarginBytes + 67 : Nat) : ℚ) * 100 / total) <
      settings.fileProviderMinimumFreePercent) :
    Fits free (events.flatMap UploadEvent.uses ++ archiveUses size destination) := by
  have hadmits : admits settings ⟨total, free⟩ size = true := by
    cases events with
    | nil => cases hone
    | cons event events =>
      cases event with
      | create other =>
        obtain ⟨rfl, _⟩ := List.cons.inj hone
        exact h.admitted.1
      | receive upload bytes => exact absurd h.ordered.1 (Nat.not_lt_zero upload)
  simp only [admits, Bool.and_eq_true, sparesSpace_iff] at hadmits
  obtain ⟨hprojected, -, hpercent⟩ := lacksSpace_eq_false_iff.mp hadmits.2
  have hroom : size * 3 + (scratchMarginBytes + 68) ≤ free := by
    by_contra hlack
    have hless : ((free - size * 3 : Nat) : ℚ) ≤ (scratchMarginBytes + 67 : Nat) := by
      exact_mod_cast (by omega : free - size * 3 ≤ scratchMarginBytes + 67)
    have hrounded : Double.ofRat (((free - size * 3 : Nat) : ℚ) * 100 / total) ≤
        Double.ofRat (((scratchMarginBytes + 67 : Nat) : ℚ) * 100 / total) :=
      Double.ofRat_mono (by positivity) (by gcongr)
    exact absurd (hpercent.trans hrounded) (not_le.mpr hreserve)
  have hsum := h.sum_bytes
  rw [hone, List.sum_singleton] at hsum
  rw [SpaceUse.fits_append, fits_events, after_events, fits_archiveUses, hsum]
  constructor
  · omega
  · omega

/-! ### Two outstanding uploads -/

def mebibyte : Nat := 1024 * 1024

def admissionSettings : Settings :=
  { activeRoot := ["data", "active"], stagingRoot := ["data", "active", "staging"]
    fileProviderUploadRoot := ["data", "active", "uploads"] }

/-- Two uploads of 300 MiB, the second requested before the first has arrived. -/
def twoUploads : List UploadEvent :=
  [.create (300 * mebibyte), .create (300 * mebibyte), .receive 0 (300 * mebibyte),
    .receive 1 (300 * mebibyte)]

/-- They are archived in turn; the bytes of the second were archived before. -/
def twoArchived : List (Nat × Destination) := [(300 * mebibyte, .vacant), (300 * mebibyte, .same)]

/-- On a disk of 2000 MiB, both are covered. -/
theorem admission_covers_archiving_two :
    Fits (2000 * mebibyte) (twoUploads.flatMap UploadEvent.uses ++
      twoArchived.flatMap fun a => archiveUses a.1 a.2) := by
  have hintake : Intake admissionSettings (2000 * mebibyte) (2000 * mebibyte) twoUploads :=
    { admitted := by decide +kernel
      ordered := by decide +kernel
      complete := by decide +kernel }
  refine (admission_covers_archiving hintake (.refl _)).mpr ⟨by decide +kernel, ?_⟩
  intro pre a post horder
  have hsum : (twoArchived.map Prod.fst).sum = 600 * mebibyte := by decide +kernel
  have hsize : a.1 = 300 * mebibyte := by
    have hmem : a ∈ twoArchived := horder ▸ List.mem_append_right _ List.mem_cons_self
    rcases List.mem_cons.mp hmem with rfl | hmem
    · rfl
    · rw [List.mem_singleton.mp hmem]
  rw [hsum, hsize, scratchMarginBytes_eq, mebibyte]
  omega

/-- On a disk of 1000 MiB, both are accepted and received, and the first cannot be verified. -/
theorem outstanding_uploads_fall_short :
    ∃ (settings : Settings) (total free : Nat) (events : List UploadEvent)
      (order : List (Nat × Destination)), Intake settings total free events ∧
      (order.map Prod.fst).Perm (acceptedSizes events) ∧
      ¬ Fits free (events.flatMap UploadEvent.uses ++ order.flatMap fun a => archiveUses a.1 a.2) := by
  refine ⟨admissionSettings, 1000 * mebibyte, 1000 * mebibyte, twoUploads,
    [(300 * mebibyte, .vacant), (300 * mebibyte, .vacant)], ⟨?_, ?_, ?_⟩, .refl _, ?_⟩
  · decide +kernel
  · decide +kernel
  · decide +kernel
  · decide +kernel

end Mnema
