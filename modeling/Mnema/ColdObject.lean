import Mnema.ContentRange

/-! The format of a cold object: a magic, a nonce, the ciphertext and its tag, written and read
back in chunks. -/

namespace Mnema.Crypto

/-- AES-GCM as a stream: what has been fed so far decides what the next chunk becomes. -/
structure AesGcm where
  encrypt : Bytes → Bytes → Bytes → Bytes
  decrypt : Bytes → Bytes → Bytes → Bytes
  encryptNext : Bytes → Bytes → Bytes → Bytes → Bytes
  decryptNext : Bytes → Bytes → Bytes → Bytes → Bytes
  tag : Bytes → Bytes → Bytes → Bytes
  encrypt_nil : ∀ key nonce, encrypt key nonce [] = []
  decrypt_nil : ∀ key nonce, decrypt key nonce [] = []
  encrypt_append : ∀ key nonce fed chunk,
    encrypt key nonce (fed ++ chunk) = encrypt key nonce fed ++ encryptNext key nonce fed chunk
  decrypt_append : ∀ key nonce fed chunk,
    decrypt key nonce (fed ++ chunk) = decrypt key nonce fed ++ decryptNext key nonce fed chunk
  length_encrypt : ∀ key nonce text, (encrypt key nonce text).length = text.length
  decrypt_encrypt : ∀ key nonce text, decrypt key nonce (encrypt key nonce text) = text
  length_tag : ∀ key nonce text, (tag key nonce text).length = 16

def magic : Bytes := [0x4d, 0x4e, 0x45, 0x4d, 0x41, 0x31]

def nonceLength : Nat := 12

def tagLength : Nat := 16

/-- The loop of `encrypt_file`, with the plaintext and the ciphertext so far and what is left to read. -/
def encryptChunks (gcm : AesGcm) (key nonce : Bytes) (fed written rest : Bytes) : Bytes × Bytes :=
  let chunk := rest.take streamChunk
  if chunk = [] then (fed, written)
  else encryptChunks gcm key nonce (fed ++ chunk) (written ++ gcm.encryptNext key nonce fed chunk)
    (rest.drop streamChunk)
termination_by rest.length
decreasing_by
  rename_i hchunk
  have hrest : rest ≠ [] := fun h => hchunk (by simp [chunk, h])
  have hpos := List.length_pos_iff.mpr hrest
  rw [List.length_drop]
  exact Nat.sub_lt hpos (by decide)

/-- `destination.open("xb")`. -/
def openNew (destination : Option Bytes) : Except PyError Unit :=
  if destination.isSome then .error (.os "File exists") else .ok ()

/-- `encrypt_file`, with the nonce that `os.urandom` returns: what the destination then holds. -/
def encryptFile (gcm : AesGcm) (key nonce source : Bytes) (destination : Option Bytes) :
    Except PyError Bytes :=
  if key.length ≠ 32 then .error (.value "cold encryption key must contain exactly 32 bytes")
  else
    match openNew destination with
    | .error e => .error e
    | .ok () =>
      let (_, ciphertext) := encryptChunks gcm key nonce [] [] source
      .ok (magic ++ nonce ++ ciphertext ++ gcm.tag key nonce ciphertext)

/-- The loop of `decrypt_file`, with the ciphertext and the plaintext so far and what follows in the
file. -/
def decryptChunks (gcm : AesGcm) (key nonce : Bytes) (fed written rest : Bytes) (remaining : Nat) :
    Except PyError (Bytes × Bytes) :=
  if remaining = 0 then .ok (fed, written)
  else
    let chunk := rest.take (min streamChunk remaining)
    if chunk = [] then .error (.value "encrypted object ended unexpectedly")
    else decryptChunks gcm key nonce (fed ++ chunk) (written ++ gcm.decryptNext key nonce fed chunk)
      (rest.drop chunk.length) (remaining - chunk.length)
termination_by remaining
decreasing_by
  rename_i hremaining hchunk
  exact Nat.sub_lt (Nat.pos_of_ne_zero hremaining) (List.length_pos_iff.mpr hchunk)

/-- The key sizes that AES takes. -/
def keySizes : List Nat := [16, 24, 32]

def nonceOf (file : Bytes) : Bytes := (file.drop magic.length).take nonceLength

/-- `reader.seek(-TAG_SIZE, os.SEEK_END)` and what is read there. -/
def tagOf (file : Bytes) : Bytes := (file.drop (file.length - tagLength)).take tagLength

/-- `decrypt_file`: what the destination holds when it returns. -/
def decryptFile (gcm : AesGcm) (key source : Bytes) (destination : Option Bytes) :
    Except PyError Bytes :=
  let size := source.length
  if size < magic.length + nonceLength + tagLength then .error (.value "encrypted object is truncated")
  else if source.take magic.length ≠ magic then .error (.value "encrypted object header is invalid")
  else if !keySizes.contains key.length then .error (.value "Invalid key size for AES.")
  else
    match openNew destination with
    | .error e => .error e
    | .ok () =>
      match decryptChunks gcm key (nonceOf source) [] [] (source.drop (magic.length + nonceLength))
          (size - magic.length - nonceLength - tagLength) with
      | .error e => .error e
      | .ok (fed, plaintext) =>
        if tagOf source = gcm.tag key (nonceOf source) fed then .ok plaintext
        else .error (.runtime "InvalidTag")

/-- What is between the nonce and the tag. -/
def bodyOf (file : Bytes) : Bytes :=
  (file.drop (magic.length + nonceLength)).take (file.length - magic.length - nonceLength - tagLength)

/-! ### What the loops read and write -/

variable {gcm : AesGcm} {key nonce : Bytes}

theorem encryptChunks_eq (gcm : AesGcm) (key nonce fed rest : Bytes) :
    encryptChunks gcm key nonce fed (gcm.encrypt key nonce fed) rest =
      (fed ++ rest, gcm.encrypt key nonce (fed ++ rest)) := by
  generalize hn : rest.length = n
  induction n using Nat.strong_induction_on generalizing fed rest with
  | _ n ih =>
    unfold encryptChunks
    by_cases hrest : rest = []
    · simp [hrest]
    · have hpos : 0 < rest.length := List.length_pos_iff.mpr hrest
      have hchunk : rest.take streamChunk ≠ [] := by
        intro hnil
        have hlen := congrArg List.length hnil
        rw [List.length_take, List.length_nil] at hlen
        have hstream : 0 < streamChunk := by decide
        omega
      have hless : (rest.drop streamChunk).length < n := by
        have hstream : 0 < streamChunk := by decide
        rw [List.length_drop]
        omega
      simp only [if_neg hchunk]
      rw [← gcm.encrypt_append, ih _ hless _ _ rfl, List.append_assoc, List.take_append_drop]

theorem decryptChunks_eq (gcm : AesGcm) (key nonce fed rest : Bytes) (remaining : Nat) (hlen : remaining ≤ rest.length) :
    decryptChunks gcm key nonce fed (gcm.decrypt key nonce fed) rest remaining =
      .ok (fed ++ rest.take remaining, gcm.decrypt key nonce (fed ++ rest.take remaining)) := by
  induction remaining using Nat.strong_induction_on generalizing fed rest with
  | _ remaining ih =>
    unfold decryptChunks
    by_cases hr : remaining = 0
    · simp [hr]
    · have hstream : 0 < streamChunk := by decide
      have htake : (rest.take (min streamChunk remaining)).length = min streamChunk remaining := by
        rw [List.length_take]
        omega
      have hchunk : rest.take (min streamChunk remaining) ≠ [] := by
        apply List.ne_nil_of_length_pos
        omega
      simp only [if_neg hr, if_neg hchunk, htake]
      rw [← gcm.decrypt_append, ih _ (by omega) _ _ (by rw [List.length_drop]; omega)]
      have hsum : remaining = min streamChunk remaining + (remaining - min streamChunk remaining) := by
        omega
      have happ : rest.take (min streamChunk remaining) ++
          (rest.drop (min streamChunk remaining)).take (remaining - min streamChunk remaining) =
            rest.take remaining := by
        rw [← List.take_add, ← hsum]
      rw [List.append_assoc, happ]

theorem encryptFile_ok (hkey : key.length = 32) (plaintext : Bytes) :
    encryptFile gcm key nonce plaintext none =
      .ok (magic ++ nonce ++ gcm.encrypt key nonce plaintext ++
        gcm.tag key nonce (gcm.encrypt key nonce plaintext)) := by
  have hchunks := encryptChunks_eq gcm key nonce [] plaintext
  rw [gcm.encrypt_nil, List.nil_append] at hchunks
  simp [encryptFile, openNew, hkey, hchunks]

/-- The file is a cold object: long enough, with the magic and a tag that fits its body. -/
structure ValidColdObject (gcm : AesGcm) (key file : Bytes) : Prop where
  long : 34 ≤ file.length
  begins : magic <+: file
  authentic : tagOf file = gcm.tag key (nonceOf file) (bodyOf file)

theorem decryptFile_ok {file : Bytes} (hkey : key.length = 32) (h : ValidColdObject gcm key file) :
    decryptFile gcm key file none = .ok (gcm.decrypt key (nonceOf file) (bodyOf file)) := by
  have hlong := h.long
  have hsize : ¬ file.length < magic.length + nonceLength + tagLength := Nat.not_lt.mpr h.long
  have hbegins : file.take magic.length = magic := (List.prefix_iff_eq_take.mp h.begins).symm
  have hbody := decryptChunks_eq gcm key (nonceOf file) []
    (file.drop (magic.length + nonceLength)) (file.length - magic.length - nonceLength - tagLength)
    (by rw [List.length_drop]; omega)
  rw [gcm.decrypt_nil, List.nil_append] at hbody
  have htag := h.authentic
  unfold bodyOf at htag ⊢
  unfold decryptFile
  rw [if_neg hsize, if_neg (not_not.mpr hbegins), hkey]
  simp only [hbody, if_pos htag, openNew, keySizes]
  rfl

theorem valid_of_decryptFile {file plaintext : Bytes}
    (h : decryptFile gcm key file none = .ok plaintext) : ValidColdObject gcm key file := by
  unfold decryptFile at h
  by_cases hsize : file.length < magic.length + nonceLength + tagLength
  · rw [if_pos hsize] at h
    cases h
  · rw [if_neg hsize] at h
    have hlong : 34 ≤ file.length := Nat.not_lt.mp hsize
    by_cases hbegins : file.take magic.length = magic
    · rw [if_neg (not_not.mpr hbegins)] at h
      have hbody := decryptChunks_eq gcm key (nonceOf file) []
        (file.drop (magic.length + nonceLength)) (file.length - magic.length - nonceLength - tagLength)
        (by rw [List.length_drop]; omega)
      rw [gcm.decrypt_nil, List.nil_append] at hbody
      by_cases hsizes : (!keySizes.contains key.length) = true
      · rw [if_pos hsizes] at h
        cases h
      · rw [if_neg hsizes] at h
        simp only [openNew, hbody] at h
        by_cases htag : tagOf file = gcm.tag key (nonceOf file) (bodyOf file)
        · exact ⟨hlong, List.prefix_iff_eq_take.mpr hbegins.symm, htag⟩
        · unfold bodyOf at htag
          simp [htag] at h
    · rw [if_pos hbegins] at h
      cases h

/-! ### The format -/

theorem parts_of_object (hnonce : nonce.length = 12) (ciphertext : Bytes) (tag : Bytes)
    (htag : tag.length = 16) :
    nonceOf (magic ++ nonce ++ ciphertext ++ tag) = nonce ∧
    bodyOf (magic ++ nonce ++ ciphertext ++ tag) = ciphertext ∧
    tagOf (magic ++ nonce ++ ciphertext ++ tag) = tag := by
  have hmagic : magic.length = 6 := rfl
  have hsize : (magic ++ nonce ++ ciphertext ++ tag).length = 18 + ciphertext.length + 16 := by
    simp only [List.length_append]
    omega
  have hhead : (magic ++ nonce).length = magic.length + nonceLength := by
    rw [List.length_append, hnonce]
    rfl
  have hfront : (magic ++ nonce ++ ciphertext).length = 18 + ciphertext.length + 16 - tagLength := by
    simp only [List.length_append, tagLength]
    omega
  have hbody : ciphertext.length =
      18 + ciphertext.length + 16 - magic.length - nonceLength - tagLength := by
    simp only [hmagic, nonceLength, tagLength]
    omega
  have h12 : nonceLength = nonce.length := hnonce.symm
  refine ⟨?_, ?_, ?_⟩
  · unfold nonceOf
    rw [List.append_assoc, List.append_assoc, List.drop_left, h12, List.take_left]
  · unfold bodyOf
    rw [hsize, ← hbody, List.append_assoc, ← hhead, List.drop_left, List.take_left]
  · unfold tagOf
    rw [hsize, ← hfront, List.drop_left]
    exact List.take_of_length_le (by rw [htag]; exact Nat.le_refl 16)

theorem valid_object (gcm : AesGcm) (key : Bytes) (hnonce : nonce.length = 12) (ciphertext : Bytes) :
    ValidColdObject gcm key (magic ++ nonce ++ ciphertext ++ gcm.tag key nonce ciphertext) := by
  obtain ⟨hn, hb, ht⟩ := parts_of_object hnonce ciphertext _ (gcm.length_tag key nonce ciphertext)
  have hmagic : magic.length = 6 := rfl
  constructor
  · have htag := gcm.length_tag key nonce ciphertext
    simp only [List.length_append]
    omega
  · rw [List.append_assoc, List.append_assoc]
    exact List.prefix_append _ _
  · rw [hn, hb, ht]

theorem decrypt_of_encrypt (gcm : AesGcm) (hkey : key.length = 32) (hnonce : nonce.length = nonceLength)
    (plaintext : Bytes) :
    ∃ file, encryptFile gcm key nonce plaintext none = .ok file ∧
      decryptFile gcm key file none = .ok plaintext := by
  have hvalid := valid_object gcm key hnonce (gcm.encrypt key nonce plaintext)
  obtain ⟨hn, hb, -⟩ := parts_of_object hnonce (gcm.encrypt key nonce plaintext) _
    (gcm.length_tag key nonce _)
  have hdecrypt := decryptFile_ok hkey hvalid
  rw [hn, hb, gcm.decrypt_encrypt] at hdecrypt
  exact ⟨_, encryptFile_ok hkey plaintext, hdecrypt⟩

theorem cold_object_format (gcm : AesGcm) {key : Bytes} (hkey : key.length = 32) :
    (∀ nonce plaintext : Bytes, nonce.length = nonceLength →
      ∃ file, encryptFile gcm key nonce plaintext none = .ok file ∧
        decryptFile gcm key file none = .ok plaintext) ∧
    ∀ file : Bytes,
      (∃ plaintext, decryptFile gcm key file none = .ok plaintext) ↔ ValidColdObject gcm key file := by
  constructor
  · exact fun nonce plaintext hnonce => decrypt_of_encrypt gcm hkey hnonce plaintext
  · intro file
    constructor
    · rintro ⟨plaintext, hplain⟩
      exact valid_of_decryptFile hplain
    · intro hvalid
      exact ⟨_, decryptFile_ok hkey hvalid⟩

/-! ### The zero key and nonce -/

/-- Counter mode with a given key stream, from one position on. -/
def mask (stream : List UInt8) : Nat → Bytes → Bytes
  | _, [] => []
  | i, b :: rest => (b ^^^ stream.getD i 0) :: mask stream (i + 1) rest

theorem mask_append (stream : List UInt8) (i : Nat) (fed chunk : Bytes) :
    mask stream i (fed ++ chunk) = mask stream i fed ++ mask stream (i + fed.length) chunk := by
  induction fed generalizing i with
  | nil => simp [mask]
  | cons b rest ih =>
    simp only [List.cons_append, mask, ih, List.length_cons]
    rw [Nat.add_right_comm, Nat.add_assoc]

theorem length_mask (stream : List UInt8) (i : Nat) (text : Bytes) :
    (mask stream i text).length = text.length := by
  induction text generalizing i with
  | nil => rfl
  | cons b rest ih => simp [mask, ih]

theorem mask_mask (stream : List UInt8) (i : Nat) (text : Bytes) :
    mask stream i (mask stream i text) = text := by
  induction text generalizing i with
  | nil => rfl
  | cons b rest ih =>
    have hxor : b ^^^ stream.getD i 0 ^^^ stream.getD i 0 = b := by
      rw [UInt8.xor_assoc, UInt8.xor_self, UInt8.xor_zero]
    simp only [mask, ih, hxor]

/-- The first block of the key stream of the zero key and nonce. -/
def zeroStream : List UInt8 :=
  [0xce, 0xa7, 0x40, 0x3d, 0x4d, 0x60, 0x6b, 0x6e, 0x07, 0x4e, 0xc5, 0xd3, 0xba, 0xf3, 0x9d, 0x18]

/-- The tags that the zero key and nonce give to no block and to a zero block. -/
def zeroTag (ciphertext : Bytes) : Bytes :=
  if ciphertext = [] then
    [0x53, 0x0f, 0x8a, 0xfb, 0xc7, 0x45, 0x36, 0xb9, 0xa9, 0x63, 0xb4, 0xf1, 0xc4, 0xcb, 0x73, 0x8b]
  else if ciphertext = zeroStream then
    [0xd0, 0xd1, 0xc8, 0xa7, 0x99, 0x99, 0x6b, 0xf0, 0x26, 0x5b, 0x98, 0xb5, 0xd4, 0x8a, 0xb9, 0x19]
  else List.replicate 16 0

def zeroGcm : AesGcm where
  encrypt _ _ text := mask zeroStream 0 text
  decrypt _ _ text := mask zeroStream 0 text
  encryptNext _ _ fed chunk := mask zeroStream fed.length chunk
  decryptNext _ _ fed chunk := mask zeroStream fed.length chunk
  tag _ _ ciphertext := zeroTag ciphertext
  encrypt_nil _ _ := rfl
  decrypt_nil _ _ := rfl
  encrypt_append _ _ fed chunk := by rw [mask_append, Nat.zero_add]
  decrypt_append _ _ fed chunk := by rw [mask_append, Nat.zero_add]
  length_encrypt _ _ text := length_mask _ 0 text
  decrypt_encrypt _ _ text := mask_mask _ 0 text
  length_tag _ _ ciphertext := by
    unfold zeroTag
    split
    · rfl
    · split
      · rfl
      · exact List.length_replicate

theorem cold_object_format_zero :
    ∃ file, encryptFile zeroGcm (List.replicate 32 0) (List.replicate 12 0) (List.replicate 16 0) none =
        .ok file ∧
      decryptFile zeroGcm (List.replicate 32 0) file none = .ok (List.replicate 16 0) :=
  (cold_object_format zeroGcm rfl).1 _ _ rfl

end Mnema.Crypto
