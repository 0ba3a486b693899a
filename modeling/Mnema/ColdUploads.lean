import Mnema.S3
import Mnema.Lib.Store

/-! The bucket that the requests act on, and what repeated uploads under one idempotency key leave in
it. -/

namespace Mnema.S3

open Crypto (AesGcm nonceLength)
open Prog (Env Steps)

structure S3Object where
  body : Bytes
  storageClass : Option String
  metadata : List (String × String)

structure UploadedPart where
  part : Part
  body : Bytes

/-- A multipart upload that is neither completed nor aborted. -/
structure PendingUpload where
  key : String
  storageClass : Option String
  metadata : List (String × String)
  parts : List UploadedPart

/-- A bucket, with the nonces drawn so far. -/
structure Bucket where
  objects : Store String S3Object
  pending : Store String PendingUpload
  nonces : List Bytes

def Bucket.empty : Bucket := { objects := Store.empty, pending := Store.empty, nonces := [] }

def Bucket.store (s : Bucket) (key : String) (object : S3Object) : Bucket :=
  { s with objects := s.objects.put key object }

@[simp] theorem Bucket.objects_store (s : Bucket) (key : String) (object : S3Object) :
    (s.store key object).objects key = some object := by
  show s.objects.put key object key = some object
  exact Store.put_self ..

def rangeOf (body : Bytes) (range : CopyRange) : Bytes :=
  (body.drop range.first).take (range.last + 1 - range.first)

/-- The bodies of the parts that the completing request lists, in its order. -/
def assemble (uploaded : List UploadedPart) (parts : List Part) : Option Bytes :=
  (parts.mapM fun part => (uploaded.find? (·.part = part)).map (·.body)).map List.flatten

/-- What a request does where it succeeds, and what it answers. -/
def Performs (s : Bucket) : (o : Op) → Reply o → Bucket → Prop
  | .scratchDirectory _, _, s' | .headBucket, _, s' | .createBucket, _, s'
  | .restoreObject .., _, s' => s' = s
  | .urandom length, nonce, s' =>
    nonce.length = length ∧ nonce ∉ s.nonces ∧ s' = { s with nonces := nonce :: s.nonces }
  | .headObject key, head, s' =>
    s' = s ∧ ∃ object, s.objects key = some object ∧ head.contentLength = object.body.length ∧
      head.storageClass = object.storageClass ∧ head.metadata = object.metadata
  | .uploadFile body key metadata, _, s' => s' = s.store key { body, storageClass := none, metadata }
  | .copyObject key source storageClass, _, s' =>
    ∃ object, s.objects source.key = some object ∧ s' = s.store key { object with storageClass }
  | .createMultipartUpload key metadata storageClass, created, s' =>
    ∃ uploadId, created = some uploadId ∧ s.pending uploadId = none ∧
      s' = { s with pending := s.pending.put uploadId { key, storageClass, metadata, parts := [] } }
  | .uploadPartCopy key source range uploadId, copied, s' =>
    ∃ upload object etag, s.pending uploadId = some upload ∧ upload.key = key ∧
      s.objects source.key = some object ∧ copied = some etag ∧
      s' = { s with pending := s.pending.put uploadId { upload with
        parts := upload.parts ++
          [{ part := { etag, partNumber := range.number }, body := rangeOf object.body range }] } }
  | .completeMultipartUpload key uploadId parts, _, s' =>
    ∃ upload body, s.pending uploadId = some upload ∧ upload.key = key ∧
      assemble upload.parts parts = some body ∧
      s' = { s.store key { body, storageClass := upload.storageClass, metadata := upload.metadata } with
        pending := s.pending.erase uploadId }
  | .abortMultipartUpload _ uploadId, _, s' => s' = { s with pending := s.pending.erase uploadId }
  | .downloadFile _ key, body, s' =>
    s' = s ∧ ∃ object, s.objects key = some object ∧ body = object.body

/-- A request that fails may have been performed all the same. -/
def s3 : Env Bucket Op Answer := fun s o answer s' =>
  match answer with
  | .ok reply => Performs s o reply s'
  | .error _ => s' = s ∨ ∃ reply, Performs s o reply s'

/-! ### Calls -/

inductive Call where
  | upload (source : Bytes) (idempotencyKey : String)
  | verify (receipt : ColdReceipt) (expectedSha256 : String)
  | archiveVerified (receipt : ColdReceipt)

variable (gcm : AesGcm) (storage : S3EncryptedColdStorage) (sha256 : Bytes → String)

def Call.run : Call → S3Prog Unit
  | .upload source idempotencyKey => (S3.upload gcm storage source idempotencyKey).void
  | .verify receipt expected => (S3.verify gcm storage sha256 receipt expected).void
  | .archiveVerified receipt => S3.archiveVerified storage receipt

/-- A call, up to its end or up to where it is cut off. -/
def Called (s s' : Bucket) : Prop := ∃ call q, Steps s3 (s, Call.run gcm storage sha256 call) (s', q)

abbrev Runs : Bucket → Bucket → Prop := Relation.ReflTransGen (Called gcm storage sha256)

/-- The requests are answered as `s3` allows, where no `ClientError` hides an object that is stored. -/
def answering (key : String) : Env Bucket Op Answer := fun s o answer s' =>
  s3 s o answer s' ∧
    (o = .headObject key → (s.objects key).isSome → ∀ code, answer ≠ .error (.client code))

/-! ### What is stored stays stored -/

variable {gcm storage sha256} {s s' : Bucket} {key : String}

theorem isSome_store {object : S3Object} {k : String} (h : (s.objects key).isSome) :
    ((s.store k object).objects key).isSome := by
  unfold Bucket.store
  by_cases hk : key = k
  · rw [hk]
    simp
  · simp only [Store.put_of_ne _ hk]
    exact h

theorem performs_isSome {o : Op} {reply : Reply o} (hp : Performs s o reply s')
    (h : (s.objects key).isSome) : (s'.objects key).isSome := by
  cases o with
  | uploadFile body k metadata =>
    obtain rfl : s' = _ := hp
    exact isSome_store h
  | copyObject k source storageClass =>
    obtain ⟨object, -, rfl⟩ := hp
    exact isSome_store h
  | completeMultipartUpload k uploadId parts =>
    obtain ⟨upload, body, -, -, -, rfl⟩ := hp
    exact isSome_store h
  | urandom length =>
    obtain ⟨-, -, rfl⟩ := hp
    exact h
  | headObject k =>
    obtain ⟨rfl, -⟩ := hp
    exact h
  | createMultipartUpload k metadata storageClass =>
    obtain ⟨uploadId, -, -, rfl⟩ := hp
    exact h
  | uploadPartCopy k source range uploadId =>
    obtain ⟨upload, object, etag, -, -, -, -, rfl⟩ := hp
    exact h
  | downloadFile b k =>
    obtain ⟨rfl, -⟩ := hp
    exact h
  | _ =>
    obtain rfl : s' = _ := hp
    exact h

theorem s3_isSome {o : Op} {answer : Answer o} (hs : s3 s o answer s')
    (h : (s.objects key).isSome) : (s'.objects key).isSome := by
  rcases answer with e | reply
  · rcases hs with rfl | ⟨reply, hp⟩
    · exact h
    · exact performs_isSome hp h
  · exact performs_isSome hs h

theorem Runs.isSome (hr : Runs gcm storage sha256 s s') (h : (s.objects key).isSome) :
    (s'.objects key).isSome := by
  induction hr with
  | refl => exact h
  | tail _ hcall ih =>
    obtain ⟨call, q, hsteps⟩ := hcall
    exact Prog.wp.along (I := fun t => (t.objects key).isSome) (Prog.wp_true _ _)
      (fun _ _ _ _ _ hI hs => s3_isSome hs hI) ih hsteps

/-! ### Later uploads -/

/-- The requests of `upload` other than the one that stores. -/
def storesNothing : Op → Bool
  | .scratchDirectory _ | .urandom _ | .headBucket | .createBucket | .headObject _ => true
  | _ => false

variable {object : S3Object}

theorem objects_of_performs {o : Op} {reply : Reply o} (ho : storesNothing o = true)
    (hp : Performs s o reply s') : s'.objects = s.objects := by
  cases o with
  | urandom length =>
    obtain ⟨-, -, rfl⟩ := hp
    rfl
  | headObject k =>
    obtain ⟨rfl, -⟩ := hp
    rfl
  | scratchDirectory n =>
    obtain rfl : s' = s := hp
    rfl
  | headBucket =>
    obtain rfl : s' = s := hp
    rfl
  | createBucket =>
    obtain rfl : s' = s := hp
    rfl
  | _ => cases ho

theorem objects_of_answering {o : Op} {answer : Answer o} (ho : storesNothing o = true)
    (hs : answering key s o answer s') : s'.objects = s.objects := by
  obtain ⟨hs, -⟩ := hs
  rcases answer with e | reply
  · rcases hs with rfl | ⟨reply, hp⟩
    · rfl
    · exact objects_of_performs ho hp
  · exact objects_of_performs ho hs

theorem headOrUpload_keeps {idempotencyKey : String} {encrypted : Bytes}
    (h : s.objects key = some object) :
    (headOrUpload key idempotencyKey encrypted).wp (fun _ o => storesNothing o = true) (answering key)
      (fun _ t => t.objects key = some object) (fun _ t => t.objects key = some object) s := by
  unfold headOrUpload
  rw [Prog.wp_tryCatch]
  refine ⟨rfl, ?_⟩
  intro answer t hs
  have ht : t.objects key = some object := by
    rw [objects_of_answering rfl hs]
    exact h
  rcases answer with e | head
  · cases e with
    | client code => exact absurd rfl (hs.2 rfl (by rw [h]; rfl) code)
    | key name => exact ht
    | restorePending requested => exact ht
    | raised error => exact ht
  · exact ht

theorem calls_request {o : Op} (ho : storesNothing o = true) :
    (request o).Calls (fun o => storesNothing o = true) (fun _ => True) fun _ => True := by
  refine ⟨ho, fun answer => ?_⟩
  cases answer with
  | ok reply => trivial
  | error e => trivial

/-- A part of `upload` that stores nothing, before the rest of it. -/
theorem keeps_bind {α β : Type} {p : S3Prog α} {f : α → S3Prog β}
    (hp : p.Calls (fun o => storesNothing o = true) (fun _ => True) fun _ => True)
    (hf : ∀ a t, t.objects key = some object →
      (f a).wp (fun _ o => storesNothing o = true) (answering key)
        (fun _ t => t.objects key = some object) (fun _ t => t.objects key = some object) t)
    (h : s.objects key = some object) :
    (p >>= f).wp (fun _ o => storesNothing o = true) (answering key)
      (fun _ t => t.objects key = some object) (fun _ t => t.objects key = some object) s := by
  rw [Prog.wp_bind]
  have hstep : ∀ t o a t', storesNothing o = true → t.objects key = some object →
      answering key t o a t' → t'.objects key = some object := by
    intro t o a t' ho ht hs
    rw [objects_of_answering ho hs]
    exact ht
  exact (hp.wp (fun _ _ ho _ => ho) hstep h).mono (fun _ _ ho => ho) (fun a t ht => hf a t ht.2)
    fun _ _ he => he.2

theorem calls_ensureBucket : (ensureBucket storage).Calls (fun o => storesNothing o = true)
    (fun _ => True) fun _ => True := by
  unfold ensureBucket
  rw [Prog.calls_tryCatch]
  refine ⟨rfl, fun answer => ?_⟩
  rcases answer with e | done
  · cases e with
    | client code =>
      show Prog.Calls _ _ _ (if storage.createBucketIfMissing then _ else _)
      rw [Prog.calls_ite]
      exact ⟨fun _ => calls_request rfl, fun _ => trivial⟩
    | key name => trivial
    | restorePending requested => trivial
    | raised error => trivial
  · trivial

theorem upload_keeps {source : Bytes} {idempotencyKey : String}
    (h : s.objects (objectKey idempotencyKey) = some object) :
    (upload gcm storage source idempotencyKey).wp (fun _ o => storesNothing o = true)
      (answering (objectKey idempotencyKey))
      (fun _ t => t.objects (objectKey idempotencyKey) = some object)
      (fun _ t => t.objects (objectKey idempotencyKey) = some object) s := by
  unfold upload
  by_cases hkey : (!isIdempotencyKey idempotencyKey.toList) = true
  · rw [if_pos hkey]
    exact h
  · rw [if_neg hkey]
    refine keeps_bind calls_ensureBucket (fun _ t ht => ?_) h
    refine keeps_bind (calls_request rfl) (fun _ t ht => ?_) ht
    refine keeps_bind (calls_request rfl) (fun nonce t ht => ?_) ht
    refine keeps_bind ?_ (fun encrypted t ht => ?_) ht
    · rw [Prog.calls_ofExcept]
      exact ⟨fun _ _ => trivial, fun _ _ => trivial⟩
    · rw [Prog.wp_bind]
      exact headOrUpload_keeps ht

theorem cold_uploads_idempotent {source : Bytes} {idempotencyKey : String} {s'' : Bucket}
    {q : S3Prog ColdReceipt} (hstored : (s.objects (objectKey idempotencyKey)).isSome)
    (hrun : Runs gcm storage sha256 s s')
    (hupload : Steps (answering (objectKey idempotencyKey))
      (s', upload gcm storage source idempotencyKey) (s'', q)) :
    (s'.objects (objectKey idempotencyKey)).isSome ∧
      s''.objects (objectKey idempotencyKey) = s'.objects (objectKey idempotencyKey) := by
  have hsome := hrun.isSome hstored
  obtain ⟨object, hobject⟩ := Option.isSome_iff_exists.mp hsome
  have hstep : ∀ t o a t', storesNothing o = true → t.objects (objectKey idempotencyKey) = some object →
      answering (objectKey idempotencyKey) t o a t' →
      t'.objects (objectKey idempotencyKey) = some object := by
    intro t o a t' ho ht hs
    rw [objects_of_answering ho hs]
    exact ht
  have hkept := (upload_keeps hobject).along hstep hobject hupload
  exact ⟨hsome, hkept.trans hobject.symm⟩

/-! ### A head request that is refused -/

def encrypted (gcm : AesGcm) (key nonce source : Bytes) : Bytes :=
  Crypto.magic ++ nonce ++ gcm.encrypt key nonce source ++
    gcm.tag key nonce (gcm.encrypt key nonce source)

def receiptOf (storage : S3EncryptedColdStorage) (idempotencyKey : String) (head : Head) :
    ColdReceipt :=
  { provider := storage.providerName
    bucket := storage.bucket
    objectIdentifier := objectKey idempotencyKey
    encryptionMode := "AES-256-GCM"
    remoteSize := head.contentLength
    remoteChecksum := remoteChecksum head.etag }

def Bucket.draw (s : Bucket) (nonce : Bytes) : Bucket := { s with nonces := nonce :: s.nonces }

section Steps

variable {source nonce : Bytes} {idempotencyKey : String} {env : Env Bucket Op Answer}

/-- `upload` up to its first head request. -/
theorem steps_before_head (hkey : storage.key.length = 32)
    (hvalid : isIdempotencyKey idempotencyKey.toList = true) (hnonce : nonce.length = nonceLength)
    (hfresh : nonce ∉ s.nonces)
    (henv : ∀ t o reply t', storesNothing o = true → Performs t o reply t' → env t o (.ok reply) t') :
    Steps env (s, upload gcm storage source idempotencyKey)
      (s.draw nonce, headOrUpload (objectKey idempotencyKey) idempotencyKey
        (encrypted gcm storage.key nonce source) >>= fun head =>
          pure (receiptOf storage idempotencyKey head)) := by
  unfold upload
  rw [hvalid]
  simp only [Crypto.encryptFile_ok hkey]
  apply Relation.ReflTransGen.head (Prog.Step.call (henv s .headBucket () s rfl rfl))
  apply Relation.ReflTransGen.head (Prog.Step.call (henv s (.scratchDirectory _) () s rfl rfl))
  apply Relation.ReflTransGen.head (Prog.Step.call (henv s (.urandom nonceLength) nonce
    (s.draw nonce) rfl ⟨hnonce, hfresh, rfl⟩))
  exact .refl

def headOf (object : S3Object) : Head :=
  { contentLength := object.body.length, etag := none, storageClass := object.storageClass
    versionId := none, metadata := object.metadata, restore := none }

theorem performs_head (h : s.objects key = some object) :
    Performs s (.headObject key) (headOf object) s :=
  ⟨rfl, object, h, rfl, rfl, rfl⟩

/-- An upload that finds the object. -/
theorem steps_found (hkey : storage.key.length = 32)
    (hvalid : isIdempotencyKey idempotencyKey.toList = true) (hnonce : nonce.length = nonceLength)
    (hfresh : nonce ∉ s.nonces) (h : s.objects (objectKey idempotencyKey) = some object) :
    Steps (answering (objectKey idempotencyKey)) (s, upload gcm storage source idempotencyKey)
      (s.draw nonce, pure (receiptOf storage idempotencyKey (headOf object))) := by
  have henv : ∀ t o reply t', storesNothing o = true → Performs t o reply t' →
      answering (objectKey idempotencyKey) t o (.ok reply) t' := by
    intro t o reply t' _ hp
    exact ⟨hp, fun _ _ _ => nofun⟩
  have hhead : Performs (s.draw nonce) (.headObject (objectKey idempotencyKey)) (headOf object)
      (s.draw nonce) := performs_head h
  refine (steps_before_head hkey hvalid hnonce hfresh henv).trans ?_
  apply Relation.ReflTransGen.head (Prog.Step.call (henv _ _ _ _ rfl hhead))
  exact .refl

/-- What an upload stores. -/
def uploaded (gcm : AesGcm) (key nonce source : Bytes) (idempotencyKey : String) : S3Object :=
  { body := encrypted gcm key nonce source, storageClass := none
    metadata := uploadMetadata idempotencyKey }

/-- An upload whose first head request is refused: whatever is stored, it is written again. -/
theorem steps_refused (hkey : storage.key.length = 32)
    (hvalid : isIdempotencyKey idempotencyKey.toList = true) (hnonce : nonce.length = nonceLength)
    (hfresh : nonce ∉ s.nonces) (code : String) :
    Steps s3 (s, upload gcm storage source idempotencyKey)
      ((s.draw nonce).store (objectKey idempotencyKey)
        (uploaded gcm storage.key nonce source idempotencyKey),
        pure (receiptOf storage idempotencyKey
          (headOf (uploaded gcm storage.key nonce source idempotencyKey)))) := by
  have hhead : Performs ((s.draw nonce).store (objectKey idempotencyKey)
      (uploaded gcm storage.key nonce source idempotencyKey)) (.headObject (objectKey idempotencyKey))
      (headOf (uploaded gcm storage.key nonce source idempotencyKey)) _ :=
    performs_head (Bucket.objects_store ..)
  refine (steps_before_head hkey hvalid hnonce hfresh fun _ _ _ _ _ hp => hp).trans ?_
  apply Relation.ReflTransGen.head (Prog.Step.call (a := Except.error (.client code)) (.inl rfl))
  apply Relation.ReflTransGen.head (Prog.Step.call (a := Except.ok ()) rfl)
  apply Relation.ReflTransGen.head (Prog.Step.call (a := Except.ok (headOf _)) hhead)
  exact .refl

end Steps

/-! ### Two uploads -/

def zeroStorage : S3EncryptedColdStorage :=
  { bucket := "cold", key := List.replicate 32 0, createBucketIfMissing := false
    providerName := "scaleway-glacier", archiveStorageClass := some "GLACIER", restoreDays := 1 }

/-- An object that was archived, and an upload that finds it. -/
theorem cold_uploads_idempotent_found :
    let object : S3Object := { body := [], storageClass := some "GLACIER", metadata := [] }
    let s := Bucket.empty.store (objectKey "a") object
    s.objects (objectKey "a") = some object ∧
      (s.draw (List.replicate 12 0)).objects (objectKey "a") = s.objects (objectKey "a") := by
  intro object s
  have hobject : s.objects (objectKey "a") = some object := Bucket.objects_store ..
  refine ⟨hobject, ?_⟩
  have hsome : (s.objects (objectKey "a")).isSome := by rw [hobject]; rfl
  have hupload : Steps (answering (objectKey "a")) (s, upload Crypto.zeroGcm zeroStorage [] "a")
      (s.draw (List.replicate 12 0), _) :=
    steps_found rfl (by decide) rfl (by simp [s, Bucket.store, Bucket.empty]) hobject
  have hrun : Runs Crypto.zeroGcm zeroStorage (fun _ => "") s s := .refl
  exact (cold_uploads_idempotent hsome hrun hupload).2

theorem refused_head_overwrites : ¬ ∀ (gcm : AesGcm) (storage : S3EncryptedColdStorage)
    (sha256 : Bytes → String) (source : Bytes) (idempotencyKey : String) (s s' s'' : Bucket)
    (receipt : ColdReceipt),
    Runs gcm storage sha256 Bucket.empty s → (s.objects (objectKey idempotencyKey)).isSome →
    Runs gcm storage sha256 s s' →
    Steps s3 (s', upload gcm storage source idempotencyKey) (s'', pure receipt) →
    s''.objects (objectKey idempotencyKey) = s'.objects (objectKey idempotencyKey) := by
  intro h
  let gcm := Crypto.zeroGcm
  let first : Bytes := List.replicate 12 0
  let second : Bytes := List.replicate 12 1
  let s := (Bucket.empty.draw first).store (objectKey "a")
    (uploaded gcm zeroStorage.key first [] "a")
  have hvalid : isIdempotencyKey "a".toList = true := by decide
  have hfirst : Steps s3 (Bucket.empty, upload gcm zeroStorage [] "a") (s, _) :=
    steps_refused rfl hvalid rfl (by simp [Bucket.empty]) "NoSuchKey"
  have hfresh : second ∉ [first] := by decide
  have hsecond : Steps s3 (s, upload gcm zeroStorage [] "a")
      ((s.draw second).store (objectKey "a") (uploaded gcm zeroStorage.key second [] "a"), _) :=
    steps_refused rfl hvalid rfl hfresh "SlowDown"
  have hrun : Runs gcm zeroStorage (fun _ => "") Bucket.empty s :=
    .single ⟨.upload [] "a", _, hfirst.bind fun _ => .ret ()⟩
  have hstored : s.objects (objectKey "a") = some (uploaded gcm zeroStorage.key first [] "a") :=
    Bucket.objects_store ..
  have heq := h gcm zeroStorage _ [] "a" _ s _ _ hrun (by rw [hstored]; rfl) .refl hsecond
  rw [hstored] at heq
  have hbody : encrypted gcm zeroStorage.key second [] = encrypted gcm zeroStorage.key first [] :=
    congrArg S3Object.body (Option.some.inj ((Bucket.objects_store ..).symm.trans heq))
  have hnonces := congrArg Crypto.nonceOf hbody
  have hnonce : ∀ nonce : Bytes, nonce.length = 12 →
      Crypto.nonceOf (encrypted gcm zeroStorage.key nonce []) = nonce := fun nonce hn =>
    (Crypto.parts_of_object hn _ _ (gcm.length_tag ..)).1
  rw [hnonce second rfl, hnonce first rfl] at hnonces
  exact absurd hnonces (by decide)

end Mnema.S3
