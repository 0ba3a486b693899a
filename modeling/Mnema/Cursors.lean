import Mnema.Lib.Base64
import Mnema.Lib.PythonJson

/-! The cursors of the change journal: what `encode_cursor` writes, `decode_cursor` reads back. -/

namespace Mnema.Cursors

open PyJson PyText Base64

inductive CursorError where
  | valueError
  | keyError
  | typeError
  | recursionError
deriving DecidableEq

/-- What `decode_cursor` turns into its own `ValueError`. -/
def CursorError.caught : CursorError → Bool
  | .recursionError => false
  | _ => true

def keyG : Text := [ofChar 'g']

def keyS : Text := [ofChar 's']

/-- `json.dumps({"g": generation, "s": sequence}, separators=(",", ":"))`, the digits being written. -/
def payloadText (generation : Text) (digits : List Char) : List Char :=
  '{' :: (dumpsStr keyG ++ (':' :: (dumpsStr generation ++ (',' :: (dumpsStr keyS ++
    (':' :: (digits ++ ['}'])))))))

def encodeCursor (generation : Text) (sequence : ℤ) : Except CursorError Text :=
  match dumpsInt sequence with
  | none => .error .valueError
  | some digits =>
    .ok (ofChars (unpadded (urlsafeEncode (utf8Encode (payloadText generation digits)))))

/-- `text.encode("ascii")`. -/
def ascii (text : Text) : Option (List Char) :=
  text.mapM fun c => if c.val < 0x80 then some (Char.ofNat c.val) else none

/-- The text that a cursor stands for; whatever fails here raises a `ValueError`. -/
def document (cursor : Text) : Option (List Char) := do
  let characters ← ascii (padded (ofChar '=') cursor)
  let bytes ← urlsafeDecode characters
  utf8Decode bytes

/-- `payload[key]`. -/
def subscript (payload : Value) (key : Text) : Except CursorError Value :=
  match payload with
  | .dict items =>
    match item key items with
    | some v => .ok v
    | none => .error .keyError
  | _ => .error .typeError

/-- The `try` block of `decode_cursor`. -/
def readCursor (limit : ℕ) (cursor : Text) : Except CursorError (Value × Value) :=
  match document cursor with
  | none => .error .valueError
  | some text =>
    match loads limit text with
    | .error .valueError => .error .valueError
    | .error .recursionError => .error .recursionError
    | .ok payload => do
      let generation ← subscript payload keyG
      let sequence ← subscript payload keyS
      return (generation, sequence)

def decodeCursor (limit : ℕ) (cursor : Text) : Except CursorError (Text × Value) :=
  match readCursor limit cursor with
  | .error e => .error (if e.caught then .valueError else e)
  | .ok (.str generation, sequence) =>
    match sequence.asInt with
    | some n => if n < 0 then .error .valueError else .ok (generation, sequence)
    | none => .error .valueError
  | .ok _ => .error .valueError

variable {limit : ℕ} {generation cursor : Text} {s : ℕ}

/-! ### Round trip -/

theorem ascii_ofChars {cs : List Char} (h : ∀ c ∈ cs, c.toNat < 0x80) : ascii (ofChars cs) = some cs := by
  induction cs with
  | nil => rfl
  | cons c cs ih =>
    have hc : (ofChar c).val < 0x80 := h c List.mem_cons_self
    have hback : Char.ofNat (ofChar c).val = c := Char.ofNat_toNat c
    have hrest := ih fun d hd => h d (List.mem_cons_of_mem c hd)
    rw [ascii, ofChars] at hrest ⊢
    rw [List.map_cons, List.mapM_cons, if_pos hc, hback, hrest]
    rfl

theorem padded_ofChars (cs : List Char) : padded (ofChar '=') (ofChars cs) = ofChars (padded '=' cs) := by
  simp [padded, ofChars]

theorem document_of_encoded (text : List Char) :
    document (ofChars (unpadded (urlsafeEncode (utf8Encode text)))) = some text := by
  have hsmall : ∀ c ∈ padded '=' (unpadded (urlsafeEncode (utf8Encode text))), c.toNat < 0x80 := by
    intro c hc
    rcases List.mem_append.1 hc with hletter | hpad
    · exact (isUrlsafe_of_mem hletter).2
    · rw [List.eq_of_mem_replicate hpad]
      decide
  rw [document, padded_ofChars, ascii_ofChars hsmall]
  show (urlsafeDecode (padded '=' (unpadded (urlsafeEncode (utf8Encode text))))).bind utf8Decode = _
  rw [decode_padded_unpadded, Option.bind_some, utf8Decode_utf8Encode]

theorem tokenize_payloadText (h : (Nat.toDigits 10 s).length ≤ maxDigits) :
    tokenize (payloadText generation (Nat.toDigits 10 s)) =
      [.punct '{', .str keyG, .punct ':', .str (join generation), .punct ',', .str keyS, .punct ':',
        .value (.int s), .punct '}'] := by
  rw [tokenize, payloadText, tokensFrom_punct (by decide), tokensFrom_dumpsStr, tokensFrom_punct (by decide),
    tokensFrom_dumpsStr, tokensFrom_punct (by decide), tokensFrom_dumpsStr, tokensFrom_punct (by decide),
    tokensFrom_toDigits h (by decide), tokensFrom_punct (by decide)]
  rfl

theorem loads_payloadText (hlimit : 0 < limit) (h : (Nat.toDigits 10 s).length ≤ maxDigits) :
    loads limit (payloadText generation (Nat.toDigits 10 s)) =
      .ok (.dict [(keyG, .str (join generation)), (keyS, .int s)]) := by
  have hone : ¬limit < 1 := by omega
  rw [loads, tokenize_payloadText h]
  simp [loadsFrom, step, begin, deliver, State.depth, hone]

theorem dumpsInt_ofNat (h : (Nat.toDigits 10 s).length ≤ maxDigits) :
    dumpsInt s = some (Nat.toDigits 10 s) := by
  simp [dumpsInt, Nat.not_lt.2 h]

theorem encodeCursor_ofNat (h : (Nat.toDigits 10 s).length ≤ maxDigits) :
    encodeCursor generation s = .ok (ofChars (unpadded (urlsafeEncode
      (utf8Encode (payloadText generation (Nat.toDigits 10 s)))))) := by
  rw [encodeCursor, dumpsInt_ofNat h]

/-- What was encoded is decoded, with the surrogate pairs of the generation joined. -/
theorem decodeCursor_of_encoded (hlimit : 0 < limit) (h : (Nat.toDigits 10 s).length ≤ maxDigits)
    (hencode : encodeCursor generation s = .ok cursor) :
    decodeCursor limit cursor = .ok (join generation, .int s) := by
  rw [encodeCursor_ofNat h] at hencode
  obtain rfl := Except.ok.inj hencode
  have hread : readCursor limit (ofChars (unpadded (urlsafeEncode
      (utf8Encode (payloadText generation (Nat.toDigits 10 s)))))) =
      .ok (.str (join generation), .int s) := by
    rw [readCursor, document_of_encoded]
    simp only [loads_payloadText hlimit h]
    rfl
  rw [decodeCursor, hread]
  simp [Value.asInt]

theorem encodeCursor_of_large (h : ¬(Nat.toDigits 10 s).length ≤ maxDigits) :
    encodeCursor generation s = .error .valueError := by
  have hnone : dumpsInt s = none := by simp [dumpsInt, Nat.not_le.1 h]
  rw [encodeCursor, hnone]

/-- The cursor is of the letters of URL-safe base64, and stands for what was encoded. -/
def RoundTrip (limit : ℕ) (generation : Text) (s : ℕ) : Prop :=
  ∃ cursor, encodeCursor generation s = .ok cursor ∧
    (∀ c ∈ cursor, ∃ letter : Char, isUrlsafe letter = true ∧ c = ofChar letter) ∧
    decodeCursor limit cursor = .ok (generation, .int s)

theorem roundTrip_iff (hlimit : 0 < limit) :
    RoundTrip limit generation s ↔ Unpaired generation ∧ s < 10 ^ maxDigits := by
  have hdigits : (Nat.toDigits 10 s).length ≤ maxDigits ↔ s < 10 ^ maxDigits :=
    Nat.length_toDigits_le_iff (by decide) (by decide)
  rw [← hdigits, ← join_eq_self_iff]
  constructor
  · rintro ⟨cursor, hencode, -, hdecode⟩
    by_cases hshort : (Nat.toDigits 10 s).length ≤ maxDigits
    · rw [decodeCursor_of_encoded hlimit hshort hencode] at hdecode
      have hpair := Except.ok.inj hdecode
      exact ⟨(Prod.mk.inj hpair).1, hshort⟩
    · rw [encodeCursor_of_large hshort] at hencode
      cases hencode
  · rintro ⟨hjoin, hshort⟩
    have hencode : encodeCursor generation s = .ok _ := encodeCursor_ofNat hshort
    refine ⟨_, hencode, ?_, ?_⟩
    · intro c hc
      obtain ⟨letter, hletter, rfl⟩ := List.mem_map.1 hc
      exact ⟨letter, (isUrlsafe_of_mem hletter).1, rfl⟩
    · rw [decodeCursor_of_encoded hlimit hshort hencode, hjoin]

/-! ### Any cursor -/

/-- A refusal, or a sequence that a column of 64 bits can hold. -/
def Sound (limit : ℕ) (cursor : Text) : Prop :=
  decodeCursor limit cursor = .error .valueError ∨
    ∃ generation v n, decodeCursor limit cursor = .ok (generation, v) ∧ v.asInt = some n ∧ 0 ≤ n ∧ n < 2 ^ 63

/-- The cursor stands for a text that nests too deep for the reader. -/
def TooDeep (limit : ℕ) (cursor : Text) : Prop :=
  ∃ text, document cursor = some text ∧ NestsBeyond limit text

/-- The cursor stands for an object with a generation and a sequence of more than 63 bits. -/
def TooLarge (cursor : Text) : Prop :=
  ∃ text items generation, ∃ n : ℤ, document cursor = some text ∧ read text = some (.dict items) ∧
    item keyG items = some (.str generation) ∧ item keyS items = some (.int n) ∧ 2 ^ 63 ≤ n

theorem caught_of_subscript {payload : Value} {key : Text} {e : CursorError}
    (h : subscript payload key = .error e) : e.caught = true := by
  cases payload with
  | dict items =>
    rw [subscript] at h
    split at h
    · cases h
    · obtain rfl := Except.error.inj h
      rfl
  | _ =>
    obtain rfl := Except.error.inj h
    rfl

theorem item_of_subscript {payload v : Value} {key : Text} (h : subscript payload key = .ok v) :
    ∃ items, payload = .dict items ∧ item key items = some v := by
  cases payload with
  | dict items =>
    rw [subscript] at h
    split at h
    · rename_i hitem
      obtain rfl := Except.ok.inj h
      exact ⟨items, rfl, hitem⟩
    · cases h
  | _ => cases h

theorem decodeCursor_of_caught {e : CursorError} (h : readCursor limit cursor = .error e)
    (hcaught : e.caught = true) : decodeCursor limit cursor = .error .valueError := by
  rw [decodeCursor, h]
  simp [hcaught]

theorem decodeCursor_of_deep (h : TooDeep limit cursor) :
    decodeCursor limit cursor = .error .recursionError := by
  obtain ⟨text, hdocument, hnests⟩ := h
  have hread : readCursor limit cursor = .error .recursionError := by
    rw [readCursor, hdocument]
    simp only [loads_of_nests hnests]
  rw [decodeCursor, hread]
  rfl

theorem readCursor_of_read {text : List Char} {payload : Value} (hdeep : ¬TooDeep limit cursor)
    (hdocument : document cursor = some text) (hread : read text = some payload) :
    readCursor limit cursor = do
      let generation ← subscript payload keyG
      let sequence ← subscript payload keyS
      return (generation, sequence) := by
  have hnests : ¬NestsBeyond limit text := fun h => hdeep ⟨text, hdocument, h⟩
  rw [readCursor, hdocument]
  simp only [loads_of_read hnests hread]

theorem not_sound_of_large (hdeep : ¬TooDeep limit cursor) (h : TooLarge cursor) : ¬Sound limit cursor := by
  obtain ⟨text, items, generation, n, hdocument, hread, hgeneration, hsequence, hn⟩ := h
  have hpair : readCursor limit cursor = .ok (.str generation, .int n) := by
    rw [readCursor_of_read hdeep hdocument hread]
    simp only [subscript, hgeneration, hsequence]
    rfl
  have hdecode : decodeCursor limit cursor = .ok (generation, .int n) := by
    rw [decodeCursor, hpair]
    simp only [Value.asInt]
    rw [if_neg (by omega)]
  rintro (hrefused | ⟨other, v, m, hok, hasInt, -, hm⟩)
  · rw [hdecode] at hrefused
    cases hrefused
  · rw [hdecode] at hok
    obtain ⟨-, rfl⟩ := Prod.mk.inj (Except.ok.inj hok)
    obtain rfl := Option.some.inj hasInt
    omega

theorem sound_of_pair {g v : Value} (hpair : readCursor limit cursor = .ok (g, v))
    (hsmall : ∀ n : ℤ, v = .int n → ∀ generation, g = .str generation → n < 2 ^ 63) :
    Sound limit cursor := by
  cases g with
  | str generation =>
    cases hasInt : v.asInt with
    | none =>
      left
      rw [decodeCursor, hpair]
      simp only [hasInt]
    | some n =>
      by_cases hneg : n < 0
      · left
        rw [decodeCursor, hpair]
        simp only [hasInt, if_pos hneg]
      · right
        refine ⟨generation, v, n, ?_, hasInt, by omega, ?_⟩
        · rw [decodeCursor, hpair]
          simp only [hasInt, if_neg hneg]
        · cases v with
          | int m =>
            obtain rfl := Option.some.inj hasInt
            exact hsmall m rfl generation rfl
          | bool b =>
            obtain rfl := Option.some.inj hasInt
            cases b <;> decide
          | _ => cases hasInt
  | _ =>
    left
    rw [decodeCursor, hpair]

theorem sound_of_small (hdeep : ¬TooDeep limit cursor) (hlarge : ¬TooLarge cursor) : Sound limit cursor := by
  cases hdocument : document cursor with
  | none =>
    have hrefused : readCursor limit cursor = .error .valueError := by rw [readCursor, hdocument]
    exact .inl (decodeCursor_of_caught hrefused rfl)
  | some text =>
    have hnests : ¬NestsBeyond limit text := fun h => hdeep ⟨text, hdocument, h⟩
    cases hread : read text with
    | none =>
      have hrefused : readCursor limit cursor = .error .valueError := by
        rw [readCursor, hdocument]
        simp only [loads_of_not_read hnests hread]
      exact .inl (decodeCursor_of_caught hrefused rfl)
    | some payload =>
      have hbody := readCursor_of_read hdeep hdocument hread
      cases hg : subscript payload keyG with
      | error e =>
        rw [hg] at hbody
        exact .inl (decodeCursor_of_caught hbody (caught_of_subscript hg))
      | ok g =>
        cases hs : subscript payload keyS with
        | error e =>
          rw [hg, hs] at hbody
          exact .inl (decodeCursor_of_caught hbody (caught_of_subscript hs))
        | ok v =>
          rw [hg, hs] at hbody
          apply sound_of_pair hbody
          intro n hn generation hgeneration
          by_contra hbig
          obtain ⟨items, rfl, hitem⟩ := item_of_subscript hg
          obtain ⟨others, hothers, hsequence⟩ := item_of_subscript hs
          obtain rfl := Value.dict.inj hothers
          rw [hgeneration] at hitem
          rw [hn] at hsequence
          exact hlarge ⟨text, items, generation, n, hdocument, hread, hitem, hsequence, by omega⟩

theorem sound_iff : Sound limit cursor ↔ ¬TooDeep limit cursor ∧ ¬TooLarge cursor := by
  constructor
  · intro hsound
    have hdeep : ¬TooDeep limit cursor := by
      intro hdeep
      rcases hsound with hrefused | ⟨generation, v, n, hok, -⟩
      · rw [decodeCursor_of_deep hdeep] at hrefused
        cases hrefused
      · rw [decodeCursor_of_deep hdeep] at hok
        cases hok
    exact ⟨hdeep, fun hlarge => not_sound_of_large hdeep hlarge hsound⟩
  · rintro ⟨hdeep, hlarge⟩
    exact sound_of_small hdeep hlarge

end Cursors

open Cursors

/-- A cursor of a generation without split pairs and of a sequence that `int` can print comes back
as it was, and a cursor is read safely unless it nests too deep or names a sequence too large. -/
theorem cursors_hold {limit : ℕ} (hlimit : 0 < limit) :
    (∀ (generation : PyJson.Text) (s : ℕ),
      RoundTrip limit generation s ↔ PyJson.Unpaired generation ∧ s < 10 ^ PyText.maxDigits) ∧
      ∀ cursor : PyJson.Text, Sound limit cursor ↔ ¬TooDeep limit cursor ∧ ¬TooLarge cursor :=
  ⟨fun _ _ => roundTrip_iff hlimit, fun _ => sound_iff⟩

theorem cursors_hold_once :
    (∀ (generation : PyJson.Text) (s : ℕ),
      RoundTrip 1 generation s ↔ PyJson.Unpaired generation ∧ s < 10 ^ PyText.maxDigits) ∧
      ∀ cursor : PyJson.Text, Sound 1 cursor ↔ ¬TooDeep 1 cursor ∧ ¬TooLarge cursor :=
  cursors_hold (by decide)

/-- A cursor that a client made of the sequence `2 ^ 63` is accepted. -/
theorem large_cursor_accepted :
    ¬∀ limit : ℕ, 0 < limit → (∀ generation s, RoundTrip limit generation s) ∧
      ∀ cursor, Sound limit cursor := by
  intro h
  have hshort : (Nat.toDigits 10 (2 ^ 63)).length ≤ PyText.maxDigits := by decide +kernel
  have hencode : encodeCursor [] ((2 ^ 63 : ℕ) : ℤ) = .ok _ := encodeCursor_ofNat hshort
  have hdecode : decodeCursor 1 _ = .ok (PyJson.join [], .int ((2 ^ 63 : ℕ) : ℤ)) :=
    decodeCursor_of_encoded (by decide) hshort hencode
  rcases (h 1 (by decide)).2 _ with hrefused | ⟨generation, v, n, hok, hasInt, -, hn⟩
  · rw [hdecode] at hrefused
    cases hrefused
  · rw [hdecode] at hok
    obtain ⟨-, rfl⟩ := Prod.mk.inj (Except.ok.inj hok)
    obtain rfl := Option.some.inj hasInt
    omega

end Mnema
