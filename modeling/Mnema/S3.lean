import Mnema.ColdObject
import Mnema.UploadAdmission
import Mnema.Lib.Double

/-! Encrypted cold storage on S3: the requests that are sent, and the methods that send them. -/

namespace Mnema.S3

open Crypto (AesGcm nonceLength)

/-- Exceptions; `client` is a `ClientError` with its code. -/
inductive Error where
  | client (code : String)
  | key (name : String)
  | restorePending (requested : Bool)
  | raised (error : PyError)
deriving DecidableEq

structure Head where
  contentLength : Nat
  etag : Option String
  storageClass : Option String
  versionId : Option String
  metadata : List (String × String)
  restore : Option String

structure CopySource where
  bucket : String
  key : String
  versionId : Option String
deriving DecidableEq

/-- The bytes `first` to `last` of the source, as one part. -/
structure CopyRange where
  number : Nat
  first : Nat
  last : Nat
deriving DecidableEq

structure Part where
  etag : String
  partNumber : Nat
deriving DecidableEq

inductive Op where
  | scratchDirectory (requiredBytes : Nat)
  | urandom (length : Nat)
  | headBucket
  | createBucket
  | headObject (key : String)
  | uploadFile (body : Bytes) (key : String) (metadata : List (String × String))
  | copyObject (key : String) (source : CopySource) (storageClass : Option String)
  | createMultipartUpload (key : String) (metadata : List (String × String))
      (storageClass : Option String)
  | uploadPartCopy (key : String) (source : CopySource) (range : CopyRange) (uploadId : String)
  | completeMultipartUpload (key uploadId : String) (parts : List Part)
  | abortMultipartUpload (key uploadId : String)
  | restoreObject (key : String) (days : Nat)
  | downloadFile (bucket key : String)
deriving DecidableEq

/-- What the answer to a request holds; a field that may be missing is an `Option`. -/
abbrev Reply : Op → Type
  | .urandom _ | .downloadFile .. => Bytes
  | .headObject _ => Head
  | .createMultipartUpload .. | .uploadPartCopy .. => Option String
  | _ => Unit

abbrev Answer (o : Op) : Type := Except Error (Reply o)

abbrev S3Prog (α : Type) : Type := Prog Op Answer Error α

def request (o : Op) : S3Prog (Reply o) := do
  let answer ← Prog.op o
  Prog.ofExcept answer

/-- `response[name]`. -/
def field (name : String) (value : Option String) : S3Prog String :=
  Prog.ofExcept (match value with
    | some text => .ok text
    | none => .error (.key name))

structure S3EncryptedColdStorage where
  bucket : String
  key : Bytes
  createBucketIfMissing : Bool
  providerName : String
  archiveStorageClass : Option String
  restoreDays : Nat

/-! ### Keys -/

def isAlphanumeric (c : Char) : Bool :=
  ('A' ≤ c && c ≤ 'Z') || ('a' ≤ c && c ≤ 'z') || ('0' ≤ c && c ≤ '9')

/-- The pattern `[A-Za-z0-9][A-Za-z0-9._-]\x7b0,127\x7d`. -/
def isIdempotencyKey : List Char → Bool
  | [] => false
  | c :: rest =>
    isAlphanumeric c && rest.length ≤ 127 &&
      rest.all fun c => isAlphanumeric c || c == '.' || c == '_' || c == '-'

def objectKey (idempotencyKey : String) : String := "mnema/" ++ idempotencyKey ++ ".mnema"

/-- `_OBJECT_KEY.fullmatch`. -/
def isObjectKey (key : String) : Bool :=
  let middle := (key.toList.drop 6).dropLast.dropLast.dropLast.dropLast.dropLast.dropLast
  isIdempotencyKey middle && key.toList == "mnema/".toList ++ middle ++ ".mnema".toList

/-! ### Storing and reading back -/

variable (gcm : AesGcm) (storage : S3EncryptedColdStorage)

def ensureBucket : S3Prog Unit :=
  tryCatch (request .headBucket) fun e =>
    match e with
    | .client code =>
      if storage.createBucketIfMissing then request .createBucket else throw (.client code)
    | e => throw e

/-- `etag.strip('"') or None`. -/
def remoteChecksum (etag : Option String) : Option String :=
  let text := ((etag.getD "").toList.dropWhile (· == '"')).reverse.dropWhile (· == '"')
  if text = [] then none else some (String.ofList text.reverse)

def uploadMetadata (idempotencyKey : String) : List (String × String) :=
  [("mnema-idempotency-key", idempotencyKey), ("mnema-encryption", "AES-256-GCM")]

/-- The `try` of `upload`: every `ClientError` of the first request means that nothing is stored. -/
def headOrUpload (key idempotencyKey : String) (encrypted : Bytes) : S3Prog Head :=
  tryCatch (request (.headObject key)) fun e =>
    match e with
    | .client _ => do
      request (.uploadFile encrypted key (uploadMetadata idempotencyKey))
      request (.headObject key)
    | e => throw e

def upload (source : Bytes) (idempotencyKey : String) : S3Prog ColdReceipt :=
  if !isIdempotencyKey idempotencyKey.toList then
    throw (.raised (.value "invalid S3 idempotency key"))
  else do
    ensureBucket storage
    let key := objectKey idempotencyKey
    request (.scratchDirectory (source.length + scratchMarginBytes))
    let nonce ← request (.urandom nonceLength)
    let encrypted ← Prog.ofExcept
      ((Crypto.encryptFile gcm storage.key nonce source none).mapError .raised)
    let head ← headOrUpload key idempotencyKey encrypted
    pure
      { provider := storage.providerName
        bucket := storage.bucket
        objectIdentifier := key
        encryptionMode := "AES-256-GCM"
        remoteSize := head.contentLength
        remoteChecksum := remoteChecksum head.etag }

def validateReceipt (receipt : ColdReceipt) : Except Error Unit :=
  if receipt.provider ≠ storage.providerName || receipt.bucket ≠ storage.bucket ||
      !isObjectKey receipt.objectIdentifier then
    .error (.raised (.value "S3 receipt does not belong to configured cold storage"))
  else .ok ()

/-- `text in whole`. -/
def occursIn (text whole : String) : Bool :=
  whole.toList.tails.any (text.toList.isPrefixOf ·)

/-- `restore_object`, with whether the retrieval was requested now. -/
def requestRestore (key : String) : S3Prog Bool :=
  tryCatch (do request (.restoreObject key storage.restoreDays); pure true) fun e =>
    match e with
    | .client code =>
      if code = "RestoreAlreadyInProgress" then pure false else throw (.client code)
    | e => throw e

/-- `restore`: what the destination then holds. -/
def restore (receipt : ColdReceipt) : S3Prog Bytes := do
  Prog.ofExcept (validateReceipt storage receipt)
  let head ← request (.headObject receipt.objectIdentifier)
  let status := head.restore.getD ""
  if head.storageClass = some "GLACIER" && !occursIn "ongoing-request=\"false\"" status then
    if occursIn "ongoing-request=\"true\"" status then throw (.restorePending false)
    else
      let requested ← requestRestore storage receipt.objectIdentifier
      throw (.restorePending requested)
  else
    request (.scratchDirectory (receipt.remoteSize + scratchMarginBytes))
    let encrypted ← request (.downloadFile receipt.bucket receipt.objectIdentifier)
    Prog.ofExcept ((Crypto.decryptFile gcm storage.key encrypted none).mapError .raised)

def verify (sha256 : Bytes → String) (receipt : ColdReceipt) (expected : String) : S3Prog Bool := do
  request (.scratchDirectory (2 * receipt.remoteSize + scratchMarginBytes))
  let plain ← restore gcm storage receipt
  pure (sha256 plain == expected)

/-! ### Moving to the archive class -/

/-- `_SINGLE_COPY_LIMIT`. -/
@[irreducible] def singleCopyLimit : Nat := 5 * 1024 ^ 3

/-- `_MIN_COPY_PART_SIZE`. -/
@[irreducible] def minCopyPartSize : Nat := 64 * 1024 ^ 2

/-- `_MAX_MULTIPART_PARTS`. -/
def maxMultipartParts : Nat := 10000

def partSize (size : Nat) : Nat :=
  max minCopyPartSize ⌈Double.ofRat ((size : ℚ) / (maxMultipartParts : ℚ))⌉.toNat

/-- `range(0, stop, step)`. -/
def stepsTo (stop step : Nat) : List Nat := (List.range ((stop + step - 1) / step)).map (· * step)

/-- The parts that the loop of `_multipart_archive_copy` copies. -/
def copyRanges (size partSize : Nat) : List CopyRange :=
  ((stepsTo size partSize).zipIdx 1).map fun (start, number) =>
    { number, first := start, last := min (start + partSize) size - 1 }

def copyParts (key : String) (source : CopySource) (uploadId : String) :
    List CopyRange → List Part → S3Prog (List Part)
  | [], parts => pure parts
  | range :: rest, parts => do
    let copied ← request (.uploadPartCopy key source range uploadId)
    let etag ← field "ETag" copied
    copyParts key source uploadId rest (parts ++ [{ etag, partNumber := range.number }])

def copyAndComplete (key : String) (source : CopySource) (uploadId : String) (size : Nat) :
    S3Prog Unit := do
  let parts ← copyParts key source uploadId (copyRanges size (partSize size)) []
  request (.completeMultipartUpload key uploadId parts)

def multipartArchiveCopy (key : String) (source : CopySource) (size : Nat)
    (metadata : List (String × String)) : S3Prog Unit := do
  let created ← request (.createMultipartUpload key metadata storage.archiveStorageClass)
  let uploadId ← field "UploadId" created
  tryCatch (copyAndComplete key source uploadId size) fun e => do
    request (.abortMultipartUpload key uploadId)
    throw e

/-- The copy of `archive_verified`, in one request or in parts. -/
def archiveCopy (key : String) (head : Head) : S3Prog Unit :=
  let source :=
    { bucket := storage.bucket, key, versionId := head.versionId.filter (· ≠ "") }
  if head.contentLength ≤ singleCopyLimit then
    request (.copyObject key source storage.archiveStorageClass)
  else multipartArchiveCopy storage key source head.contentLength head.metadata

def archiveVerified (receipt : ColdReceipt) : S3Prog Unit :=
  if storage.archiveStorageClass = none then pure ()
  else do
    Prog.ofExcept (validateReceipt storage receipt)
    let key := receipt.objectIdentifier
    let head ← request (.headObject key)
    if head.storageClass = storage.archiveStorageClass then pure ()
    else
      archiveCopy storage key head
      let archived ← request (.headObject key)
      if archived.storageClass = storage.archiveStorageClass then pure ()
      else throw (.raised
        (.runtime "S3 object storage-class transition was not independently observed"))

end Mnema.S3
