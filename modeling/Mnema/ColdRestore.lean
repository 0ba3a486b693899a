import Mnema.ColdObject
import Mnema.Lib.Document

/-! What `decrypt_file` leaves at its destination, whatever the reads of the object answer. -/

namespace Mnema.Crypto

/-- The calls on the encrypted object: a read gives at most what was asked for, and may fail. -/
structure Source where
  stat : Except PyError Nat
  opens : Except PyError Unit
  read : Nat → Nat → Except PyError Bytes
  length_read : ∀ position size chunk, read position size = .ok chunk → chunk.length ≤ size
  /-- `seek(-TAG_SIZE, os.SEEK_END)`: the position there. -/
  seekTag : Except PyError Nat
  seekBody : Except PyError Unit

/-- A file that nothing disturbs. -/
def Source.of (file : Bytes) : Source where
  stat := .ok file.length
  opens := .ok ()
  read position size := .ok ((file.drop position).take size)
  length_read _ _ _ h := by
    rw [← Except.ok.inj h]
    exact List.length_take_le _ _
  seekTag := .ok (file.length - tagLength)
  seekBody := .ok ()

def headerLength : Nat := magic.length + nonceLength

/-- `if not holds: raise ValueError(message)`. -/
def demand (holds : Prop) [Decidable holds] (message : String) : Except PyError Unit :=
  if holds then .ok () else .error (.value message)

/-- `decrypt_file` before it opens the destination: the nonce, the tag and the length between them. -/
def readHeader (key : Bytes) (source : Source) : Except PyError (Bytes × Bytes × Nat) := do
  let size ← source.stat
  demand (headerLength + tagLength ≤ size) "encrypted object is truncated"
  source.opens
  let head ← source.read 0 magic.length
  demand (head = magic) "encrypted object header is invalid"
  let nonce ← source.read magic.length nonceLength
  let position ← source.seekTag
  let tag ← source.read position tagLength
  source.seekBody
  demand (key.length ∈ keySizes) "Invalid key size for AES."
  demand (8 ≤ nonce.length) "initialization_vector must be between 8 and 128 bytes"
  demand (tagLength ≤ tag.length) "Authentication tag must be 16 bytes or longer."
  return (nonce, tag, size - headerLength - tagLength)

/-- The loop of `decrypt_file`, with the ciphertext read and the plaintext written so far: the
ciphertext as a whole or the error, and what is written by then. -/
def decryptLoop (gcm : AesGcm) (key nonce : Bytes) (source : Source) (position : Nat)
    (fed written : Bytes) (remaining : Nat) : Except PyError Bytes × Bytes :=
  if remaining = 0 then (.ok fed, written)
  else
    match source.read position (min streamChunk remaining) with
    | .error e => (.error e, written)
    | .ok chunk =>
      if chunk = [] then (.error (.value "encrypted object ended unexpectedly"), written)
      else decryptLoop gcm key nonce source (position + chunk.length) (fed ++ chunk)
        (written ++ gcm.decryptNext key nonce fed chunk) (remaining - chunk.length)
termination_by remaining
decreasing_by
  rename_i hchunk
  have hpos := List.length_pos_iff.mpr hchunk
  omega

/-- `decrypt_file`: its result, and what is at the destination afterwards. -/
def decryptInto (gcm : AesGcm) (key : Bytes) (source : Source) (destination : Option Bytes)
    (create : Except PyError Unit) : Except PyError Unit × Option Bytes :=
  match readHeader key source with
  | .error e => (.error e, destination)
  | .ok (nonce, tag, remaining) =>
    match openNew destination >>= fun _ => create with
    | .error e => (.error e, destination)
    | .ok () =>
      match decryptLoop gcm key nonce source headerLength [] [] remaining with
      | (.error e, written) => (.error e, some written)
      | (.ok fed, written) =>
        if tag = gcm.tag key nonce fed then (.ok (), some written)
        else (.error (.runtime "InvalidTag"), some written)

/-! ### What the object delivers -/

/-- Everything that is read before the destination is opened is there. -/
structure Opened (key : Bytes) (source : Source) (nonce tag : Bytes) (size : Nat) : Prop where
  stat : source.stat = .ok size
  long : headerLength + tagLength ≤ size
  opens : source.opens = .ok ()
  head : source.read 0 magic.length = .ok magic
  readNonce : source.read magic.length nonceLength = .ok nonce
  readTag : ∃ position, source.seekTag = .ok position ∧ source.read position tagLength = .ok tag
  seekBody : source.seekBody = .ok ()
  keySize : key.length ∈ keySizes
  nonceSize : 8 ≤ nonce.length
  tagSize : tagLength ≤ tag.length

/-- The reads from a position on deliver so many bytes, and these. -/
inductive Delivers (source : Source) : Nat → Nat → Bytes → Prop
  | done {position : Nat} : Delivers source position 0 []
  | more {position remaining : Nat} {chunk body : Bytes} (hremaining : remaining ≠ 0)
    (hread : source.read position (min streamChunk remaining) = .ok chunk) (hchunk : chunk ≠ [])
    (hrest : Delivers source (position + chunk.length) (remaining - chunk.length) body) :
    Delivers source position remaining (chunk ++ body)

variable {gcm : AesGcm} {key nonce tag : Bytes} {source : Source} {create : Except PyError Unit}

theorem of_demand {holds : Prop} [Decidable holds] {message : String} {u : Unit}
    (h : demand holds message = .ok u) : holds := by
  unfold demand at h
  by_cases hholds : holds
  · exact hholds
  · rw [if_neg hholds] at h
    cases h

theorem demand_of {holds : Prop} [Decidable holds] {message : String} (h : holds) :
    demand holds message = .ok () := if_pos h

theorem readHeader_of_opened {size : Nat} (h : Opened key source nonce tag size) :
    readHeader key source = .ok (nonce, tag, size - headerLength - tagLength) := by
  obtain ⟨position, hseek, htag⟩ := h.readTag
  unfold readHeader
  rw [h.stat, h.opens, h.head, h.readNonce, hseek, h.seekBody]
  show (do
    demand (headerLength + tagLength ≤ size) "encrypted object is truncated"
    demand (magic = magic) "encrypted object header is invalid"
    let tag ← source.read position tagLength
    demand (key.length ∈ keySizes) "Invalid key size for AES."
    demand (8 ≤ nonce.length) "initialization_vector must be between 8 and 128 bytes"
    demand (tagLength ≤ tag.length) "Authentication tag must be 16 bytes or longer."
    return (nonce, tag, size - headerLength - tagLength)) = _
  rw [htag, demand_of h.long, demand_of rfl, demand_of h.keySize, demand_of h.nonceSize]
  show (do
    demand (tagLength ≤ tag.length) "Authentication tag must be 16 bytes or longer."
    return (nonce, tag, size - headerLength - tagLength)) = _
  rw [demand_of h.tagSize]
  rfl

theorem opened_of_readHeader {remaining : Nat} (h : readHeader key source = .ok (nonce, tag, remaining)) :
    ∃ size, Opened key source nonce tag size ∧ remaining = size - headerLength - tagLength := by
  unfold readHeader at h
  obtain ⟨size, hstat, h⟩ := Except.of_bind_eq_ok h
  obtain ⟨_, hlong, h⟩ := Except.of_bind_eq_ok h
  obtain ⟨_, hopens, h⟩ := Except.of_bind_eq_ok h
  obtain ⟨head, hhead, h⟩ := Except.of_bind_eq_ok h
  obtain ⟨_, hmagic, h⟩ := Except.of_bind_eq_ok h
  obtain ⟨first, hnonce, h⟩ := Except.of_bind_eq_ok h
  obtain ⟨position, hseek, h⟩ := Except.of_bind_eq_ok h
  obtain ⟨last, htag, h⟩ := Except.of_bind_eq_ok h
  obtain ⟨_, hbody, h⟩ := Except.of_bind_eq_ok h
  obtain ⟨_, hkey, h⟩ := Except.of_bind_eq_ok h
  obtain ⟨_, hnoncesize, h⟩ := Except.of_bind_eq_ok h
  obtain ⟨_, htagsize, h⟩ := Except.of_bind_eq_ok h
  have heq := Except.ok.inj h
  rw [Prod.mk.injEq, Prod.mk.injEq] at heq
  obtain ⟨rfl, rfl, rfl⟩ := heq
  rw [of_demand hmagic] at hhead
  exact ⟨size, ⟨hstat, of_demand hlong, hopens, hhead, hnonce, ⟨position, hseek, htag⟩, hbody,
    of_demand hkey, of_demand hnoncesize, of_demand htagsize⟩, rfl⟩

theorem decryptLoop_of_delivers {position remaining : Nat} {body : Bytes}
    (h : Delivers source position remaining body) (fed written : Bytes) :
    (decryptLoop gcm key nonce source position fed written remaining).1 = .ok (fed ++ body) := by
  induction h generalizing fed written with
  | done =>
    rw [decryptLoop, if_pos rfl, List.append_nil]
  | more hremaining hread hchunk _ ih =>
    rw [decryptLoop, if_neg hremaining, hread]
    simp only [if_neg hchunk]
    rw [ih, List.append_assoc]

theorem delivers_of_decryptLoop {position remaining : Nat} {fed written whole : Bytes}
    (h : (decryptLoop gcm key nonce source position fed written remaining).1 = .ok whole) :
    ∃ body, Delivers source position remaining body ∧ whole = fed ++ body := by
  induction remaining using Nat.strong_induction_on generalizing position fed written with
  | _ remaining ih =>
    rw [decryptLoop] at h
    by_cases hremaining : remaining = 0
    · rw [if_pos hremaining] at h
      rw [hremaining]
      exact ⟨[], .done, by rw [List.append_nil, Except.ok.inj h]⟩
    · rw [if_neg hremaining] at h
      cases hread : source.read position (min streamChunk remaining) with
      | error e =>
        simp only [hread] at h
        cases h
      | ok chunk =>
        simp only [hread] at h
        by_cases hchunk : chunk = []
        · rw [if_pos hchunk] at h
          cases h
        · rw [if_neg hchunk] at h
          have hpos := List.length_pos_iff.mpr hchunk
          obtain ⟨body, hbody, hwhole⟩ := ih (remaining - chunk.length) (by omega) h
          exact ⟨chunk ++ body, .more hremaining hread hchunk hbody, by rw [hwhole, List.append_assoc]⟩

theorem Delivers.unique {position remaining : Nat} {body other : Bytes}
    (h : Delivers source position remaining body) (h' : Delivers source position remaining other) :
    body = other := by
  induction h generalizing other with
  | done =>
    cases h' with
    | done => rfl
    | more hremaining => exact absurd rfl hremaining
  | more hremaining hread _ _ ih =>
    cases h' with
    | done => exact absurd rfl hremaining
    | more _ hread' _ hrest' =>
      rw [hread] at hread'
      obtain rfl := Except.ok.inj hread'
      rw [ih hrest']

/-- An error leaves no file, if there was none. -/
def LeavesNothing (gcm : AesGcm) (key : Bytes) (source : Source) (create : Except PyError Unit) : Prop :=
  ∀ e, (decryptInto gcm key source none create).1 = .error e →
    (decryptInto gcm key source none create).2 = none

/-- Whatever is read far enough for the destination to be opened is delivered and authentic. -/
def Sincere (gcm : AesGcm) (key : Bytes) (source : Source) (create : Except PyError Unit) : Prop :=
  ∀ nonce tag size, Opened key source nonce tag size → create = .ok () →
    ∃ body, Delivers source headerLength (size - headerLength - tagLength) body ∧
      tag = gcm.tag key nonce body

theorem decryptInto_eq {size : Nat} (h : Opened key source nonce tag size) :
    decryptInto gcm key source none (.ok ()) =
      match decryptLoop gcm key nonce source headerLength [] [] (size - headerLength - tagLength) with
      | (.error e, written) => (.error e, some written)
      | (.ok fed, written) =>
        if tag = gcm.tag key nonce fed then (.ok (), some written)
        else (.error (.runtime "InvalidTag"), some written) := by
  unfold decryptInto
  rw [readHeader_of_opened h]
  rfl

theorem decryptInto_of_opened (gcm : AesGcm) {size : Nat} (h : Opened key source nonce tag size) :
    ∃ written, (decryptInto gcm key source none (.ok ())).2 = some written ∧
      ((decryptInto gcm key source none (.ok ())).1 = .ok () ↔
        ∃ body, Delivers source headerLength (size - headerLength - tagLength) body ∧
          tag = gcm.tag key nonce body) := by
  rw [decryptInto_eq h]
  generalize hloop : decryptLoop gcm key nonce source headerLength [] []
    (size - headerLength - tagLength) = ended
  obtain ⟨result, written⟩ := ended
  have hdelivered : ∀ body, Delivers source headerLength (size - headerLength - tagLength) body →
      result = .ok body := by
    intro body hbody
    have hok : (decryptLoop gcm key nonce source headerLength [] []
        (size - headerLength - tagLength)).1 = .ok ([] ++ body) := decryptLoop_of_delivers hbody [] []
    rw [hloop] at hok
    exact hok
  cases result with
  | error e =>
    refine ⟨written, rfl, ?_⟩
    constructor
    · intro herror
      cases herror
    · rintro ⟨body, hbody, -⟩
      cases hdelivered body hbody
  | ok fed =>
    obtain ⟨body, hbody, hfed⟩ := delivers_of_decryptLoop (congrArg Prod.fst hloop)
    rw [List.nil_append] at hfed
    by_cases htag : tag = gcm.tag key nonce fed
    · simp only [if_pos htag]
      exact ⟨written, rfl, fun _ => ⟨body, hbody, by rw [← hfed]; exact htag⟩, fun _ => trivial⟩
    · simp only [if_neg htag]
      refine ⟨written, rfl, ?_⟩
      constructor
      · intro herror
        cases herror
      · rintro ⟨other, hother, hauthentic⟩
        rw [← Except.ok.inj (hdelivered other hother)] at hauthentic
        exact absurd hauthentic htag

theorem decryptInto_of_unopened (h : ∀ nonce tag size, Opened key source nonce tag size → create ≠ .ok ()) :
    (decryptInto gcm key source none create).2 = none := by
  unfold decryptInto
  cases hheader : readHeader key source with
  | error e => rfl
  | ok parts =>
    obtain ⟨nonce, tag, remaining⟩ := parts
    obtain ⟨size, hopened, -⟩ := opened_of_readHeader hheader
    cases create with
    | error e => rfl
    | ok u => exact absurd rfl (h nonce tag size hopened)

/-- An exception leaves nothing at the destination exactly where it comes before the destination
is opened: what is read after that has to be delivered whole and be authentic. -/
theorem nothing_left_iff (gcm : AesGcm) (key : Bytes) (source : Source) (create : Except PyError Unit) :
    LeavesNothing gcm key source create ↔ Sincere gcm key source create := by
  constructor
  · rintro h nonce tag size hopened rfl
    obtain ⟨written, hwritten, hok⟩ := decryptInto_of_opened gcm hopened
    apply hok.1
    cases hresult : (decryptInto gcm key source none (.ok ())).1 with
    | ok u => rfl
    | error e =>
      have hnone := h e hresult
      rw [hwritten] at hnone
      cases hnone
  · intro h e herror
    apply decryptInto_of_unopened
    rintro nonce tag size hopened rfl
    obtain ⟨written, -, hok⟩ := decryptInto_of_opened gcm hopened
    rw [hok.2 (h nonce tag size hopened rfl)] at herror
    cases herror

/-! ### Files that nothing disturbs -/

theorem decryptLoop_of_file (gcm : AesGcm) (key nonce file : Bytes) (fed written : Bytes) (position remaining : Nat) :
    (∃ e, decryptChunks gcm key nonce fed written (file.drop position) remaining = .error e ∧
        (decryptLoop gcm key nonce (.of file) position fed written remaining).1 = .error e) ∨
      ∃ whole plaintext, decryptChunks gcm key nonce fed written (file.drop position) remaining =
          .ok (whole, plaintext) ∧
        decryptLoop gcm key nonce (.of file) position fed written remaining = (.ok whole, plaintext) := by
  induction remaining using Nat.strong_induction_on generalizing position fed written with
  | _ remaining ih =>
    rw [decryptChunks, decryptLoop]
    by_cases hremaining : remaining = 0
    · rw [if_pos hremaining, if_pos hremaining]
      exact .inr ⟨fed, written, rfl, rfl⟩
    · rw [if_neg hremaining, if_neg hremaining]
      simp only [Source.of]
      by_cases hchunk : (file.drop position).take (min streamChunk remaining) = []
      · rw [if_pos hchunk, if_pos hchunk]
        exact .inl ⟨_, rfl, rfl⟩
      · rw [if_neg hchunk, if_neg hchunk, List.drop_drop]
        have hpos := List.length_pos_iff.mpr hchunk
        exact ih _ (by omega) _ _ _

theorem opened_of_file {file : Bytes} (hlong : headerLength + tagLength ≤ file.length)
    (hbegins : file.take magic.length = magic) (hkey : key.length ∈ keySizes) :
    Opened key (.of file) (nonceOf file) (tagOf file) file.length := by
  have hmagic : magic.length = 6 := rfl
  have hnonce : nonceLength = 12 := rfl
  have htag : tagLength = 16 := rfl
  unfold headerLength at hlong
  refine ⟨rfl, hlong, rfl, ?_, rfl, ⟨file.length - tagLength, rfl, rfl⟩, rfl, hkey, ?_, ?_⟩
  · show Except.ok ((file.drop 0).take magic.length) = _
    rw [List.drop_zero, hbegins]
  · rw [nonceOf, List.length_take, List.length_drop]
    omega
  · rw [tagOf, List.length_take, List.length_drop]
    omega

/-- On such a file this is the `decrypt_file` of the format. -/
theorem decryptInto_of_file {file plaintext : Bytes} (h : decryptFile gcm key file none = .ok plaintext) :
    decryptInto gcm key (.of file) none (.ok ()) = (.ok (), some plaintext) := by
  unfold decryptFile at h
  by_cases hsize : file.length < magic.length + nonceLength + tagLength
  · rw [if_pos hsize] at h
    cases h
  rw [if_neg hsize] at h
  by_cases hbegins : file.take magic.length = magic
  · rw [if_neg (not_not.mpr hbegins)] at h
    by_cases hkey : key.length ∈ keySizes
    · rw [if_neg (by simpa using hkey)] at h
      have hopened := opened_of_file (Nat.not_lt.mp hsize) hbegins hkey
      have hlength : file.length - magic.length - nonceLength - tagLength =
          file.length - headerLength - tagLength := by
        unfold headerLength
        omega
      rw [hlength] at h
      simp only [openNew] at h
      rw [decryptInto_eq hopened]
      rcases decryptLoop_of_file gcm key (nonceOf file) file [] [] headerLength
        (file.length - headerLength - tagLength) with ⟨e, hchunks, -⟩ | ⟨whole, written, hchunks, hloop⟩
      · have hnone : decryptChunks gcm key (nonceOf file) [] [] (file.drop (magic.length + nonceLength))
            (file.length - headerLength - tagLength) = .error e := hchunks
        simp [hnone] at h
      · have hsome : decryptChunks gcm key (nonceOf file) [] [] (file.drop (magic.length + nonceLength))
            (file.length - headerLength - tagLength) = .ok (whole, written) := hchunks
        simp only [hsome] at h
        rw [hloop]
        by_cases htag : tagOf file = gcm.tag key (nonceOf file) whole
        · simp only [Option.isSome_none, Bool.false_eq_true, if_false, if_pos htag] at h ⊢
          rw [Except.ok.inj h]
        · simp [htag] at h
    · rw [if_pos (by simpa using hkey)] at h
      cases h
  · rw [if_pos hbegins] at h
    cases h

/-- An object with a body of one block, and a tag that is not its own. -/
def forged : Bytes := magic ++ List.replicate 12 0 ++ List.replicate 16 0 ++ List.replicate 16 1

/-- The plaintext of a forged object is left at the destination. -/
theorem forged_object_left :
    ¬∀ (gcm : AesGcm) (key : Bytes) (source : Source) (create : Except PyError Unit),
      LeavesNothing gcm key source create := by
  intro h
  have hnothing := h zeroGcm (List.replicate 32 0) (.of forged) (.ok ())
  have hopened : Opened (List.replicate 32 0) (.of forged) (nonceOf forged) (tagOf forged) forged.length :=
    opened_of_file (by decide) (by decide) (by decide)
  have hbody : Delivers (.of forged) headerLength (forged.length - headerLength - tagLength)
      (List.replicate 16 0 ++ []) :=
    .more (by decide) (by rfl) (by decide) .done
  obtain ⟨written, hwritten, hok⟩ := decryptInto_of_opened zeroGcm hopened
  cases hresult : (decryptInto zeroGcm (List.replicate 32 0) (.of forged) none (.ok ())).1 with
  | error e =>
    rw [hnothing e hresult] at hwritten
    cases hwritten
  | ok u =>
    obtain ⟨body, hdelivered, htag⟩ := hok.1 hresult
    rw [← hbody.unique hdelivered] at htag
    revert htag
    decide

end Mnema.Crypto
