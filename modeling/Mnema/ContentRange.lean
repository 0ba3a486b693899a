import Mnema.Uploads
import Mathlib.Tactic.Ring

/-! The content endpoint: the range that a header asks for, and the bytes that are streamed. -/

namespace Mnema

open PyText

/-- What Python knows of characters: `str.isdigit`, and the value of a decimal digit. -/
structure Characters where
  isDigit : Char → Bool
  decimal : Char → Option Nat

/-- The digits of `int(text)`: single underscores may stand between them. -/
def Characters.digits (chars : Characters) : List Char → Option (List Nat)
  | [] => none
  | [c] => (chars.decimal c).map ([·])
  | c :: '_' :: rest =>
    match chars.decimal c, chars.digits rest with
    | some d, some ds => some (d :: ds)
    | _, _ => none
  | c :: rest =>
    match chars.decimal c, chars.digits rest with
    | some d, some ds => some (d :: ds)
    | _, _ => none

def invalidLiteral (text : List Char) : PyError :=
  .value ("invalid literal for int() with base 10: '" ++ String.ofList text ++ "'")

/-- The sign that a number starts with, and what follows it. -/
def signOf : List Char → Int × List Char
  | '-' :: rest => (-1, rest)
  | '+' :: rest => (1, rest)
  | body => (1, body)

/-- `int(text)`. -/
def Characters.int (chars : Characters) (text : List Char) : Except PyError Int :=
  let (sign, body) := signOf (stripped isNumberSpace text)
  match chars.digits body with
  | none => .error (invalidLiteral text)
  | some digits =>
    if maxDigits < digits.length then
      .error (.value "Exceeds the limit (4300 digits) for integer string conversion")
    else .ok (sign * (digits.foldl (fun n d => 10 * n + d) 0 : Nat))

inductive ContentError where
  | httpException (status : Nat) (detail : String)
  | raised (error : PyError)

/-- `value.removeprefix("bytes=").partition("-")`. -/
def rangeBounds (value : List Char) : List Char × Bool × List Char :=
  let bounds := value.drop "bytes=".toList.length
  let start := bounds.takeWhile (· != '-')
  let rest := bounds.drop start.length
  (start, !rest.isEmpty, rest.drop 1)

def isByteRange (value : List Char) : Bool :=
  "bytes=".toList.isPrefixOf value && !value.contains ','

/-- `_content_range`. -/
def contentRange (chars : Characters) (value : Option String) (size : Nat) :
    Except ContentError (Int × Int × Nat) :=
  match value with
  | none => .ok (0, size - 1, 200)
  | some value =>
    if !isByteRange value.toList then .error (.httpException 416 "unsupported byte range")
    else
      let (startText, separator, endText) := rangeBounds value.toList
      if !separator || startText.isEmpty || !startText.all chars.isDigit then
        .error (.httpException 416 "invalid byte range")
      else match chars.int startText with
        | .error e => .error (.raised e)
        | .ok start =>
          match if endText.isEmpty then .ok ((size : Int) - 1) else chars.int endText with
          | .error e => .error (.raised e)
          | .ok stop =>
            if (size : Int) ≤ start ∨ stop < start ∨ (size : Int) ≤ stop then
              .error (.httpException 416 "byte range is outside file")
            else .ok (start, stop, 206)

/-- The size of the chunks of `_file_chunks`. -/
def streamChunk : Nat := 1024 * 1024

/-- `_file_chunks`, from the position the stream is at. -/
def fileChunks (content : Bytes) (position remaining : Nat) : List Bytes :=
  if remaining = 0 then []
  else
    let chunk := (content.drop position).take (min streamChunk remaining)
    if chunk = [] then []
    else chunk :: fileChunks content (position + chunk.length) (remaining - chunk.length)
termination_by remaining
decreasing_by
  rename_i hremaining hchunk
  exact Nat.sub_lt (Nat.pos_of_ne_zero hremaining) (List.length_pos_iff.mpr hchunk)

structure ContentResponse where
  status : Nat
  headers : List (String × String)
  chunks : List Bytes

/-- The end of `content`, for a file of the given bytes that is ready. -/
def contentResponse (chars : Characters) (content : Bytes) (contentVersion : String)
    (rangeHeader : Option String) : Except ContentError ContentResponse :=
  match contentRange chars rangeHeader content.length with
  | .error e => .error e
  | .ok (start, stop, status) => .ok
    { status
      headers :=
        [("Accept-Ranges", "bytes"), ("ETag", "\"" ++ contentVersion ++ "\""),
          ("Content-Length", toString (stop - start + 1))] ++
        if status = 206 then
          [("Content-Range", "bytes " ++ toString start ++ "-" ++ toString stop ++ "/" ++
            toString content.length)]
        else []
      chunks := fileChunks content start.toNat (stop - start + 1).toNat }

/-! ### What is streamed -/

variable {chars : Characters} {content : Bytes} {size : Nat}

theorem flatten_fileChunks (content : Bytes) (position remaining : Nat) :
    (fileChunks content position remaining).flatten = (content.drop position).take remaining := by
  induction remaining using Nat.strong_induction_on generalizing position with
  | _ remaining ih =>
    unfold fileChunks
    by_cases hr : remaining = 0
    · simp [hr]
    · rw [if_neg hr]
      generalize hc : (content.drop position).take (min streamChunk remaining) = chunk
      have hlen : chunk.length = min (min streamChunk remaining) (content.drop position).length := by
        rw [← hc, List.length_take]
      have hpos : 0 < streamChunk := by decide
      by_cases hempty : chunk = []
      · have hdrop : (content.drop position).length = 0 := by
          rw [hempty, List.length_nil] at hlen
          omega
        simp [hempty, List.length_eq_zero_iff.mp hdrop]
      · have hchunk : 0 < chunk.length := List.length_pos_iff.mpr hempty
        simp only [hempty, if_false, List.flatten_cons]
        rw [ih _ (by omega), ← List.drop_drop]
        have htake : chunk = (content.drop position).take chunk.length := by
          rw [← hc, List.length_take, List.take_eq_take_iff]
          omega
        have hle : remaining = chunk.length + (remaining - chunk.length) := by omega
        conv_rhs => rw [hle, List.take_add]
        rw [← htake]

/-- The bytes of a file from one position to another, both included. -/
def slice (content : Bytes) (start stop : Int) : Bytes :=
  (content.drop start.toNat).take (stop + 1 - start).toNat

/-- The range is within the file, or the whole file where none was asked for. -/
def IsRange (size : Nat) (header : Option String) (start stop : Int) : Prop :=
  (header = none ∧ start = 0 ∧ stop = size - 1) ∨ (0 ≤ start ∧ start ≤ stop ∧ stop < size)

/-- The answer is 416, or the bytes of a range with their number. -/
def AnswersRange (content : Bytes) (header : Option String) : Except ContentError ContentResponse → Prop
  | .error (.httpException status _) => status = 416
  | .error (.raised _) => False
  | .ok response => ∃ start stop, IsRange content.length header start stop ∧
      response.chunks.flatten = slice content start stop ∧
      ("Content-Length", toString (stop - start + 1)) ∈ response.headers

/-- Where the header names a range that starts with digits, its bounds are numbers. -/
def boundsConvert (chars : Characters) : Option String → Bool
  | none => true
  | some value =>
    let (startText, separator, endText) := rangeBounds value.toList
    !isByteRange value.toList || !separator || startText.isEmpty || !startText.all chars.isDigit ||
      ((chars.int startText).isOk && (endText.isEmpty || (chars.int endText).isOk))

theorem signOf_nonneg {body : List Char} (h : '-' ∉ body) : 0 ≤ (signOf body).1 := by
  unfold signOf
  split
  case h_1 => exact absurd List.mem_cons_self h
  case h_2 => exact Int.zero_le_ofNat 1
  case h_3 => exact Int.zero_le_ofNat 1

theorem int_nonneg {text : List Char} {n : Int} (htext : '-' ∉ text) (h : chars.int text = .ok n) :
    0 ≤ n := by
  unfold Characters.int at h
  have hbody : '-' ∉ stripped isNumberSpace text := fun hm => htext (mem_of_mem_stripped hm)
  have hsign := signOf_nonneg hbody
  dsimp only at h
  split at h
  · cases h
  · split at h
    · cases h
    · obtain rfl := Except.ok.inj h
      exact Int.mul_nonneg hsign (Int.natCast_nonneg _)

theorem not_mem_rangeBounds (value : List Char) : '-' ∉ (rangeBounds value).1 := by
  intro hm
  have hall := List.all_eq_true.mp (List.all_takeWhile (p := (· != '-'))) '-' hm
  exact absurd hall (by decide)

/-- What the range logic returns for a header whose bounds are numbers. -/
theorem contentRange_cases {header : Option String} (h : boundsConvert chars header = true) :
    (∃ detail, contentRange chars header size = .error (.httpException 416 detail)) ∨
      ∃ start stop status, contentRange chars header size = .ok (start, stop, status) ∧
        IsRange size header start stop := by
  cases header with
  | none => exact .inr ⟨0, size - 1, 200, rfl, .inl ⟨rfl, rfl, rfl⟩⟩
  | some value =>
    unfold contentRange
    by_cases hform : isByteRange value.toList = true
    · have hdash := not_mem_rangeBounds value.toList
      simp only [boundsConvert, hform, Bool.not_true, Bool.false_or, Bool.false_eq_true, if_false] at h ⊢
      generalize rangeBounds value.toList = bounds at h hdash ⊢
      obtain ⟨startText, separator, endText⟩ := bounds
      dsimp only at h hdash ⊢
      by_cases hvalid : (!separator || startText.isEmpty || !startText.all chars.isDigit) = true
      · exact .inl ⟨_, if_pos hvalid⟩
      · rw [Bool.eq_false_iff.mpr hvalid, Bool.false_or] at h
        simp only [hvalid, Bool.false_eq_true, if_false]
        cases hstart : chars.int startText with
        | error e => simp [hstart, Except.isOk, Except.toBool] at h
        | ok start =>
          have hpos := int_nonneg hdash hstart
          have hstop : ∃ stop, (if endText.isEmpty then .ok ((size : Int) - 1) else chars.int endText) =
              Except.ok stop := by
            by_cases hempty : endText.isEmpty = true
            · exact ⟨_, if_pos hempty⟩
            · rw [if_neg hempty]
              cases he : chars.int endText with
              | error e => simp [hstart, hempty, he, Except.isOk, Except.toBool] at h
              | ok stop => exact ⟨stop, rfl⟩
          obtain ⟨stop, hstop⟩ := hstop
          simp only [hstop]
          by_cases hinside : (size : Int) ≤ start ∨ stop < start ∨ (size : Int) ≤ stop
          · exact .inl ⟨_, if_pos hinside⟩
          · refine .inr ⟨start, stop, 206, if_neg hinside, .inr ⟨hpos, ?_, ?_⟩⟩
            · omega
            · omega
    · refine .inl ⟨"unsupported byte range", ?_⟩
      simp [hform]

/-- Where a bound is no number, the conversion raises. -/
theorem contentRange_raises {header : Option String} (h : boundsConvert chars header = false) :
    ∃ error, contentRange chars header size = .error (.raised error) := by
  cases header with
  | none => cases h
  | some value =>
    unfold contentRange
    simp only [boundsConvert, Bool.or_eq_false_iff, Bool.not_eq_false'] at h
    obtain ⟨⟨⟨⟨hform, hsep⟩, hempty⟩, hdigits⟩, hconvert⟩ := h
    have hvalid : (!(rangeBounds value.toList).2.1 || (rangeBounds value.toList).1.isEmpty ||
        !(rangeBounds value.toList).1.all chars.isDigit) = false := by
      rw [hsep, hempty, hdigits]
      rfl
    simp only [hform, Bool.not_true, Bool.false_eq_true, if_false, hvalid]
    cases hstart : chars.int (rangeBounds value.toList).1 with
    | error e => exact ⟨e, rfl⟩
    | ok start =>
      rw [hstart] at hconvert
      by_cases hend : (rangeBounds value.toList).2.2.isEmpty = true
      · simp [hend, Except.isOk, Except.toBool] at hconvert
      · cases hstop : chars.int (rangeBounds value.toList).2.2 with
        | error e =>
          refine ⟨e, ?_⟩
          simp only [hend, Bool.false_eq_true, if_false]
        | ok stop => simp [hstop, Except.isOk, Except.toBool] at hconvert

/-- The characters of a header: it is decoded as Latin-1, whose superscripts are digits too. -/
def latin1 : Characters where
  isDigit c := c.isDigit || [0xb2, 0xb3, 0xb9].contains c.toNat
  decimal c := if c.isDigit then some (c.toNat - '0'.toNat) else none

end Mnema
