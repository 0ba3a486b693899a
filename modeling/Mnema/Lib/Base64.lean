import Mathlib.Data.List.DropRight

/-! Bytes as base64 text and back: padding, the URL-safe alphabet, and a decoder that passes over
what is not in the alphabet. -/

namespace Base64

/-- `A` to `Z`, `a` to `z`, `0` to `9`, `+`, `/`. -/
def letter (n : ℕ) : Char :=
  if n < 26 then Char.ofNat (65 + n)
  else if n < 52 then Char.ofNat (71 + n)
  else if n < 62 then Char.ofNat (n - 4)
  else if n = 62 then '+' else '/'

def sextet (c : Char) : Option ℕ :=
  if 'A' ≤ c ∧ c ≤ 'Z' then some (c.toNat - 65)
  else if 'a' ≤ c ∧ c ≤ 'z' then some (c.toNat - 71)
  else if '0' ≤ c ∧ c ≤ '9' then some (c.toNat + 4)
  else if c = '+' then some 62
  else if c = '/' then some 63
  else none

/-- `binascii.b2a_base64` without its newline. -/
def encode : List UInt8 → List Char
  | [] => []
  | [a] => [letter (a.toNat / 4), letter (a.toNat % 4 * 16), '=', '=']
  | [a, b] => [letter (a.toNat / 4), letter (a.toNat % 4 * 16 + b.toNat / 16),
      letter (b.toNat % 16 * 4), '=']
  | a :: b :: c :: rest =>
    letter (a.toNat / 4) :: letter (a.toNat % 4 * 16 + b.toNat / 16) ::
      letter (b.toNat % 16 * 4 + c.toNat / 64) :: letter (c.toNat % 64) :: encode rest

/-- `binascii.a2b_base64`, not strict: the place in the group of four, the bits left over, and
the padding seen since the last letter. -/
def decodeFrom : ℕ → ℕ → ℕ → List Char → Option (List UInt8)
  | quad, _, _, [] => if quad = 0 then some [] else none
  | quad, left, pads, c :: cs =>
    if c = '=' then
      if 2 ≤ quad then
        if 4 ≤ quad + (pads + 1) then some [] else decodeFrom quad left (pads + 1) cs
      else decodeFrom quad left pads cs
    else match sextet c with
      | none => decodeFrom quad left pads cs
      | some v =>
        match quad with
        | 0 => decodeFrom 1 v 0 cs
        | 1 => (decodeFrom 2 (v % 16) 0 cs).map (UInt8.ofNat (left * 4 + v / 16) :: ·)
        | 2 => (decodeFrom 3 (v % 4) 0 cs).map (UInt8.ofNat (left * 16 + v / 4) :: ·)
        | _ => (decodeFrom 0 0 0 cs).map (UInt8.ofNat (left * 64 + v) :: ·)

def decode (text : List Char) : Option (List UInt8) := decodeFrom 0 0 0 text

def toUrlsafe (c : Char) : Char := if c = '+' then '-' else if c = '/' then '_' else c

def fromUrlsafe (c : Char) : Char := if c = '-' then '+' else if c = '_' then '/' else c

/-- `base64.urlsafe_b64encode`. -/
def urlsafeEncode (bytes : List UInt8) : List Char := (encode bytes).map toUrlsafe

/-- `base64.urlsafe_b64decode`. -/
def urlsafeDecode (text : List Char) : Option (List UInt8) := decode (text.map fromUrlsafe)

/-- Letters of the URL-safe alphabet. -/
def isUrlsafe (c : Char) : Bool := c.isAlphanum || c == '-' || c == '_'

theorem sextet_letter {n : ℕ} (h : n < 64) : sextet (letter n) = some n := by
  have hall : ∀ m < 64, sextet (letter m) = some m := by decide +kernel
  exact hall n h

theorem letter_ne {n : ℕ} (h : n < 64) : letter n ≠ '=' := by
  have hall : ∀ m < 64, letter m ≠ '=' := by decide +kernel
  exact hall n h

theorem letter_urlsafe {n : ℕ} (h : n < 64) :
    isUrlsafe (toUrlsafe (letter n)) = true ∧ (toUrlsafe (letter n)).toNat < 0x80 ∧
      fromUrlsafe (toUrlsafe (letter n)) = letter n := by
  have hall : ∀ m < 64, isUrlsafe (toUrlsafe (letter m)) = true ∧ (toUrlsafe (letter m)).toNat < 0x80 ∧
    fromUrlsafe (toUrlsafe (letter m)) = letter m := by decide +kernel
  exact hall n h

theorem decodeFrom_letter_zero {n left pads : ℕ} {cs : List Char} (h : n < 64) :
    decodeFrom 0 left pads (letter n :: cs) = decodeFrom 1 n 0 cs := by
  rw [decodeFrom, if_neg (letter_ne h), sextet_letter h]
  rfl

theorem decodeFrom_letter_one {n left pads : ℕ} {cs : List Char} (h : n < 64) :
    decodeFrom 1 left pads (letter n :: cs) =
      (decodeFrom 2 (n % 16) 0 cs).map (UInt8.ofNat (left * 4 + n / 16) :: ·) := by
  rw [decodeFrom, if_neg (letter_ne h), sextet_letter h]
  rfl

theorem decodeFrom_letter_two {n left pads : ℕ} {cs : List Char} (h : n < 64) :
    decodeFrom 2 left pads (letter n :: cs) =
      (decodeFrom 3 (n % 4) 0 cs).map (UInt8.ofNat (left * 16 + n / 4) :: ·) := by
  rw [decodeFrom, if_neg (letter_ne h), sextet_letter h]
  rfl

theorem decodeFrom_letter_three {n left pads : ℕ} {cs : List Char} (h : n < 64) :
    decodeFrom 3 left pads (letter n :: cs) =
      (decodeFrom 0 0 0 cs).map (UInt8.ofNat (left * 64 + n) :: ·) := by
  rw [decodeFrom, if_neg (letter_ne h), sextet_letter h]
  rfl

theorem ofNat_eq {a : UInt8} {n : ℕ} (h : n = a.toNat) : UInt8.ofNat n = a := by
  rw [h, UInt8.ofNat_toNat]

theorem decode_encode (bytes : List UInt8) : decode (encode bytes) = some bytes := by
  unfold decode
  induction bytes using encode.induct with
  | case1 => rfl
  | case2 a =>
    have ha := a.toNat_lt
    rw [encode, decodeFrom_letter_zero (by omega), decodeFrom_letter_one (by omega),
      ofNat_eq (a := a) (by omega)]
    rfl
  | case3 a b =>
    have ha := a.toNat_lt
    have hb := b.toNat_lt
    rw [encode, decodeFrom_letter_zero (by omega), decodeFrom_letter_one (by omega),
      decodeFrom_letter_two (by omega), ofNat_eq (a := a) (by omega), ofNat_eq (a := b) (by omega)]
    rfl
  | case4 a b c rest ih =>
    have ha := a.toNat_lt
    have hb := b.toNat_lt
    have hc := c.toNat_lt
    rw [encode, decodeFrom_letter_zero (by omega), decodeFrom_letter_one (by omega),
      decodeFrom_letter_two (by omega), decodeFrom_letter_three (by omega), ih,
      ofNat_eq (a := a) (by omega), ofNat_eq (a := b) (by omega), ofNat_eq (a := c) (by omega)]
    rfl

/-- The letters of an encoding, less its padding. -/
theorem exists_letters (bytes : List UInt8) : ∃ numbers : List ℕ, ∃ pads,
    encode bytes = numbers.map letter ++ List.replicate pads '=' ∧ (∀ n ∈ numbers, n < 64) ∧
      pads < 4 ∧ 4 ∣ numbers.length + pads := by
  induction bytes using encode.induct with
  | case1 => exact ⟨[], 0, rfl, by simp, by omega, by simp⟩
  | case2 a =>
    have ha := a.toNat_lt
    refine ⟨[a.toNat / 4, a.toNat % 4 * 16], 2, rfl, ?_, by omega, by simp⟩
    simp only [List.mem_cons, List.not_mem_nil, or_false, forall_eq_or_imp, forall_eq]
    omega
  | case3 a b =>
    have ha := a.toNat_lt
    have hb := b.toNat_lt
    refine ⟨[a.toNat / 4, a.toNat % 4 * 16 + b.toNat / 16, b.toNat % 16 * 4], 1, rfl, ?_, by omega, by simp⟩
    simp only [List.mem_cons, List.not_mem_nil, or_false, forall_eq_or_imp, forall_eq]
    omega
  | case4 a b c rest ih =>
    obtain ⟨numbers, pads, hrest, hlt, hpads, hdvd⟩ := ih
    have ha := a.toNat_lt
    have hb := b.toNat_lt
    have hc := c.toNat_lt
    refine ⟨a.toNat / 4 :: (a.toNat % 4 * 16 + b.toNat / 16) :: (b.toNat % 16 * 4 + c.toNat / 64) ::
      (c.toNat % 64) :: numbers, pads, by rw [encode, hrest]; rfl, ?_, hpads, ?_⟩
    · simp only [List.mem_cons, forall_eq_or_imp]
      exact ⟨by omega, by omega, by omega, by omega, hlt⟩
    · simp only [List.length_cons]
      omega

/-- What `rstrip("=")` leaves of an encoding. -/
def unpadded (text : List Char) : List Char := text.rdropWhile (· == '=')

/-- `text + "=" * (-len(text) % 4)`. -/
def padded {α : Type} (pad : α) (text : List α) : List α :=
  text ++ List.replicate (-(text.length : ℤ) % 4).toNat pad

theorem toUrlsafe_ne {n : ℕ} (h : n < 64) : toUrlsafe (letter n) ≠ '=' := by
  have hall : ∀ m < 64, toUrlsafe (letter m) ≠ '=' := by decide +kernel
  exact hall n h

theorem unpadded_append {front : List Char} {pads : ℕ} (h : ∀ c ∈ front, c ≠ '=') :
    unpadded (front ++ List.replicate pads '=') = front := by
  unfold unpadded
  induction pads with
  | zero =>
    rw [List.replicate_zero, List.append_nil, List.rdropWhile_eq_self_iff]
    intro hne
    simpa using h _ (List.getLast_mem hne)
  | succ pads ih =>
    rw [List.replicate_succ', ← List.append_assoc, List.rdropWhile_concat_pos _ _ _ (by simp), ih]

theorem urlsafeEncode_letters (bytes : List UInt8) : ∃ numbers : List ℕ, ∃ pads,
    urlsafeEncode bytes = (numbers.map fun n => toUrlsafe (letter n)) ++ List.replicate pads '=' ∧
      (∀ n ∈ numbers, n < 64) ∧ pads < 4 ∧ 4 ∣ numbers.length + pads := by
  obtain ⟨numbers, pads, hencode, hlt, hpads, hdvd⟩ := exists_letters bytes
  refine ⟨numbers, pads, ?_, hlt, hpads, hdvd⟩
  rw [urlsafeEncode, hencode, List.map_append, List.map_map, List.map_replicate]
  rfl

theorem exists_letter_of_mem {bytes : List UInt8} {c : Char} (h : c ∈ unpadded (urlsafeEncode bytes)) :
    ∃ n < 64, c = toUrlsafe (letter n) := by
  obtain ⟨numbers, pads, hencode, hlt, -, -⟩ := urlsafeEncode_letters bytes
  have hne : ∀ d ∈ numbers.map fun n => toUrlsafe (letter n), d ≠ '=' := by
    intro d hd
    obtain ⟨n, hn, rfl⟩ := List.mem_map.1 hd
    exact toUrlsafe_ne (hlt n hn)
  rw [hencode, unpadded_append hne] at h
  obtain ⟨n, hn, rfl⟩ := List.mem_map.1 h
  exact ⟨n, hlt n hn, rfl⟩

theorem isUrlsafe_of_mem {bytes : List UInt8} {c : Char} (h : c ∈ unpadded (urlsafeEncode bytes)) :
    isUrlsafe c = true ∧ c.toNat < 0x80 := by
  obtain ⟨n, hn, rfl⟩ := exists_letter_of_mem h
  exact ⟨(letter_urlsafe hn).1, (letter_urlsafe hn).2.1⟩

/-- The padding that was stripped is the padding that is put back. -/
theorem padded_unpadded (bytes : List UInt8) :
    padded '=' (unpadded (urlsafeEncode bytes)) = urlsafeEncode bytes := by
  obtain ⟨numbers, pads, hencode, hlt, hpads, hdvd⟩ := urlsafeEncode_letters bytes
  have hne : ∀ d ∈ numbers.map fun n => toUrlsafe (letter n), d ≠ '=' := by
    intro d hd
    obtain ⟨n, hn, rfl⟩ := List.mem_map.1 hd
    exact toUrlsafe_ne (hlt n hn)
  rw [hencode, unpadded_append hne, padded, List.length_map]
  have hcount : (-(numbers.length : ℤ) % 4).toNat = pads := by omega
  rw [hcount]

theorem urlsafeDecode_urlsafeEncode (bytes : List UInt8) :
    urlsafeDecode (urlsafeEncode bytes) = some bytes := by
  have hback : (urlsafeEncode bytes).map fromUrlsafe = encode bytes := by
    obtain ⟨numbers, pads, hencode, hlt, -, -⟩ := exists_letters bytes
    rw [urlsafeEncode, hencode, List.map_map, List.map_append, List.map_map, List.map_replicate]
    congr 1
    apply List.map_congr_left
    intro n hn
    exact (letter_urlsafe (hlt n hn)).2.2
  rw [urlsafeDecode, hback, decode_encode]

theorem decode_padded_unpadded (bytes : List UInt8) :
    urlsafeDecode (padded '=' (unpadded (urlsafeEncode bytes))) = some bytes := by
  rw [padded_unpadded, urlsafeDecode_urlsafeEncode]

end Base64
