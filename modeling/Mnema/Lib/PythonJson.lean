import Mnema.Lib.Double
import Mnema.Lib.PythonText
import Mathlib.Data.Bool.AllAny
import Mathlib.Data.List.Chain
import Mathlib.Data.List.TakeWhile

/-! JSON as Python's `json` reads and writes it: strings of code points, surrogates among them,
numbers, and a reader that recurses into containers. -/

namespace PyJson

open PyText

/-! ### Values -/

abbrev CodePoint := Fin 0x110000

abbrev Text := List CodePoint

def ofChar (c : Char) : CodePoint := ⟨c.toNat, by
  have hvalid : c.toNat < 0xd800 ∨ (0xdfff < c.toNat ∧ c.toNat < 0x110000) := c.valid
  omega⟩

def ofChars (cs : List Char) : Text := cs.map ofChar

inductive Number where
  | finite (q : ℚ)
  | infinity
  | negInfinity
  | nan
deriving DecidableEq

/-- The double next to a rational number. -/
def Number.ofRat (q : ℚ) : Number :=
  let rounded := Double.ofRat q
  if 2 ^ 1024 ≤ rounded then .infinity
  else if rounded ≤ -2 ^ 1024 then .negInfinity
  else .finite rounded

/-- The items of a dict stand as they were written, later ones after earlier ones of the same key. -/
inductive Value where
  | none
  | bool (b : Bool)
  | int (n : ℤ)
  | float (x : Number)
  | str (text : Text)
  | list (items : List Value)
  | dict (items : List (Text × Value))

/-- `payload[key]` of a dict. -/
def item (key : Text) (items : List (Text × Value)) : Option Value :=
  (items.reverse.find? fun entry => entry.1 == key).map (·.2)

/-- What an instance of `int` counts as: `True` and `False` are such instances. -/
def Value.asInt : Value → Option ℤ
  | .int n => some n
  | .bool b => some (if b then 1 else 0)
  | _ => Option.none

/-! ### Surrogates -/

def isHigh (c : CodePoint) : Prop := 0xd800 ≤ c.val ∧ c.val < 0xdc00

def isLow (c : CodePoint) : Prop := 0xdc00 ≤ c.val ∧ c.val < 0xe000

instance : DecidablePred isHigh := fun _ => inferInstanceAs (Decidable (_ ∧ _))

instance : DecidablePred isLow := fun _ => inferInstanceAs (Decidable (_ ∧ _))

/-- `Py_UNICODE_JOIN_SURROGATES`. -/
def combine (high low : CodePoint) : CodePoint :=
  ⟨0x10000 + high.val % 0x400 * 0x400 + low.val % 0x400, by omega⟩

/-- A high surrogate and a low one behind it become one code point. -/
def join : Text → Text
  | [] => []
  | [c] => [c]
  | c :: d :: rest => if isHigh c ∧ isLow d then combine c d :: join rest else c :: join (d :: rest)

/-- The units that UTF-16 writes for a code point. -/
def units (c : CodePoint) : Text :=
  if c.val < 0x10000 then [c]
  else [⟨0xd800 + (c.val - 0x10000) / 0x400, by omega⟩, ⟨0xdc00 + (c.val - 0x10000) % 0x400, by omega⟩]

/-- No high surrogate stands right before a low one. -/
def Unpaired (text : Text) : Prop := text.IsChain fun c d => ¬(isHigh c ∧ isLow d)

theorem length_join_le (text : Text) : (join text).length ≤ text.length := by
  induction text using join.induct with
  | case1 => exact Nat.le_refl _
  | case2 c => exact Nat.le_refl _
  | case3 c d rest h ih =>
    rw [join, if_pos h]
    simp only [List.length_cons]
    omega
  | case4 c d rest h ih =>
    rw [join, if_neg h]
    simpa using ih

theorem join_eq_self_iff {text : Text} : join text = text ↔ Unpaired text := by
  induction text using join.induct with
  | case1 => simp [join, Unpaired]
  | case2 c => simp [join, Unpaired]
  | case3 c d rest h ih =>
    have hshort := length_join_le rest
    rw [join, if_pos h, Unpaired, List.isChain_cons_cons]
    constructor
    · intro heq
      have hlength := congrArg List.length heq
      simp only [List.length_cons] at hlength
      omega
    · rintro ⟨hnot, -⟩
      exact absurd h hnot
  | case4 c d rest h ih =>
    rw [join, if_neg h, Unpaired, List.isChain_cons_cons, List.cons.injEq]
    exact ⟨fun heq => ⟨h, ih.1 heq.2⟩, fun hchain => ⟨rfl, ih.2 hchain.2⟩⟩

theorem join_cons_of_not_high {c : CodePoint} {text : Text} (h : ¬isHigh c) :
    join (c :: text) = c :: join text := by
  cases text with
  | nil => rfl
  | cons d rest => rw [join, if_neg fun hpair => h hpair.1]

theorem join_units_append {c : CodePoint} {text : Text} (h : 0x10000 ≤ c.val) :
    join (units c ++ text) = c :: join text := by
  have hc := c.isLt
  rw [units, if_neg (by omega), List.cons_append, List.cons_append, List.nil_append, join, if_pos]
  · rw [List.cons.injEq]
    refine ⟨Fin.ext ?_, rfl⟩
    show 0x10000 + (0xd800 + (c.val - 0x10000) / 0x400) % 0x400 * 0x400 +
      (0xdc00 + (c.val - 0x10000) % 0x400) % 0x400 = c.val
    omega
  · constructor
    · constructor
      · exact Nat.le_add_right _ _
      · show 0xd800 + (c.val - 0x10000) / 0x400 < 0xdc00
        omega
    · constructor
      · exact Nat.le_add_right _ _
      · show 0xdc00 + (c.val - 0x10000) % 0x400 < 0xe000
        omega

theorem head_units_not_low {c d : CodePoint} (h : ¬isLow c) (hd : d ∈ (units c).head?) : ¬isLow d := by
  unfold units at hd
  have hc := c.isLt
  by_cases hsmall : c.val < 0x10000
  · rw [if_pos hsmall] at hd
    obtain rfl := Option.some.inj hd
    exact h
  · rw [if_neg hsmall] at hd
    rintro ⟨hlow, -⟩
    rw [← Option.some.inj hd] at hlow
    have hval : 0xdc00 ≤ 0xd800 + (c.val - 0x10000) / 0x400 := hlow
    omega

/-- Joining the units of a text joins the pairs that stood in it already. -/
theorem join_flatMap_units (text : Text) : join (text.flatMap units) = join text := by
  induction text using join.induct with
  | case1 => rfl
  | case2 c =>
    by_cases hsmall : c.val < 0x10000
    · simp [units, hsmall]
    · rw [List.flatMap_cons, join_units_append (by omega)]
      rfl
  | case3 c d rest h ih =>
    have hsmall : c.val < 0x10000 ∧ d.val < 0x10000 := by
      simp only [isHigh, isLow] at h
      omega
    rw [List.flatMap_cons, List.flatMap_cons, units, if_pos hsmall.1, units, if_pos hsmall.2]
    show join (c :: d :: rest.flatMap units) = _
    rw [join, if_pos h, ih, join, if_pos h]
  | case4 c d rest h ih =>
    rw [List.flatMap_cons]
    by_cases hlarge : 0x10000 ≤ c.val
    · have hnot : ¬isHigh c := by
        simp only [isHigh]
        omega
      rw [join_units_append hlarge, ih, join_cons_of_not_high hnot]
    · rw [units, if_pos (by omega), List.singleton_append]
      by_cases hhigh : isHigh c
      · have hnotlow : ¬isLow d := fun hlow => h ⟨hhigh, hlow⟩
        rw [join.eq_3, if_neg h, ← ih]
        cases hunits : (d :: rest).flatMap units with
        | nil => rfl
        | cons e others =>
          have hhead : e ∈ (units d).head? := by
            rw [List.flatMap_cons] at hunits
            unfold units at hunits ⊢
            by_cases hd : d.val < 0x10000
            · rw [if_pos hd] at hunits ⊢
              exact congrArg some (List.cons.inj hunits).1
            · rw [if_neg hd] at hunits ⊢
              exact congrArg some (List.cons.inj hunits).1
          rw [join, if_neg fun hpair => head_units_not_low hnotlow hhead hpair.2]
      · rw [join_cons_of_not_high hhigh, join_cons_of_not_high hhigh, ih]

/-! ### Writing -/

/-- `\u` and four hexadecimal digits. -/
def unitEscape (n : ℕ) : List Char :=
  ['\\', 'u', Nat.digitChar (n / 4096 % 16), Nat.digitChar (n / 256 % 16), Nat.digitChar (n / 16 % 16),
    Nat.digitChar (n % 16)]

/-- The letters of the short escapes, with what they stand for. -/
def shortEscapes : List (Char × ℕ) :=
  [('"', 0x22), ('\\', 0x5c), ('n', 0x0a), ('r', 0x0d), ('t', 0x09), ('f', 0x0c), ('b', 0x08)]

/-- `ensure_ascii` leaves the printable characters of ASCII as they are. -/
def isPlain (c : CodePoint) : Prop := 0x20 ≤ c.val ∧ c.val ≤ 0x7e

instance : DecidablePred isPlain := fun _ => inferInstanceAs (Decidable (_ ∧ _))

def escape (c : CodePoint) : List Char :=
  match shortEscapes.find? fun entry => entry.2 == c.val with
  | some entry => ['\\', entry.1]
  | none => if isPlain c then [Char.ofNat c.val] else (units c).flatMap fun u => unitEscape u.val

/-- `json.dumps` of a string. -/
def dumpsStr (text : Text) : List Char := '"' :: text.flatMap escape ++ ['"']

/-- `int.__repr__`: `ValueError` beyond the limit on digits. -/
def dumpsInt (n : ℤ) : Option (List Char) :=
  let digits := Nat.toDigits 10 n.natAbs
  if maxDigits < digits.length then none
  else some (if n < 0 then '-' :: digits else digits)

/-! ### Tokens -/

inductive Token where
  | punct (c : Char)
  | str (text : Text)
  | value (v : Value)
  | bad

/-- The digits that a text begins with, and what follows them. -/
def spanDigits (cs : List Char) : List Char × List Char := (cs.takeWhile Char.isDigit, cs.dropWhile Char.isDigit)

def isIntegerPart (digits : List Char) : Bool :=
  !digits.isEmpty && (digits.head? != some '0' || digits.length == 1)

/-- `(\.[0-9]+)?`: the digits, and what follows. -/
def fraction : List Char → Option (List Char × List Char)
  | '.' :: cs => if (spanDigits cs).1.isEmpty then none else some (spanDigits cs)
  | cs => some ([], cs)

/-- `([eE][-+]?[0-9]+)?` at the end of the number. -/
def exponent : List Char → Option ℤ
  | [] => some 0
  | e :: cs =>
    let (sign, digits) : ℤ × List Char :=
      match cs with
      | '-' :: digits => (-1, digits)
      | '+' :: digits => (1, digits)
      | digits => (1, digits)
    if (e == 'e' || e == 'E') && !digits.isEmpty && digits.all Char.isDigit then
      some (sign * Nat.ofDigitChars 10 digits 0)
    else none

/-- A number without its sign: an `int` has neither fraction nor exponent. -/
def unsignedNumber (sign : ℤ) (cs : List Char) : Option Value := do
  let (digits, rest) := spanDigits cs
  if !isIntegerPart digits then none
  else if rest.isEmpty then
    if maxDigits < digits.length then none else some (.int (sign * Nat.ofDigitChars 10 digits 0))
  else
    let (decimals, rest) ← fraction rest
    let power ← exponent rest
    some (.float (Number.ofRat (sign * Nat.ofDigitChars 10 (digits ++ decimals) 0 *
      10 ^ (power - decimals.length))))

def number : List Char → Option Value
  | '-' :: cs => unsignedNumber (-1) cs
  | cs => unsignedNumber 1 cs

/-- The words of JSON, and the three more that Python reads. -/
def words : List (List Char × Value) :=
  [("null".toList, .none), ("true".toList, .bool true), ("false".toList, .bool false),
    ("NaN".toList, .float .nan), ("Infinity".toList, .float .infinity),
    ("-Infinity".toList, .float .negInfinity)]

def atom (cs : List Char) : Token :=
  match words.find? fun word => word.1 == cs with
  | some word => .value word.2
  | none =>
    match number cs with
    | some v => .value v
    | none => .bad

def isJsonSpace (c : Char) : Bool := c == ' ' || c == '\t' || c == '\n' || c == '\r'

def punctuation : List Char := ['{', '}', '[', ']', ',', ':']

def isPunct (c : Char) : Bool := punctuation.contains c

def hexDigit (c : Char) : Option ℕ :=
  if '0' ≤ c ∧ c ≤ '9' then some (c.toNat - '0'.toNat)
  else if 'a' ≤ c ∧ c ≤ 'f' then some (c.toNat - 'a'.toNat + 10)
  else if 'A' ≤ c ∧ c ≤ 'F' then some (c.toNat - 'A'.toNat + 10)
  else none

/-- What a one-letter escape stands for. -/
def unescape (c : Char) : Option CodePoint :=
  if c = '/' then some (ofChar '/')
  else (shortEscapes.find? fun entry => entry.1 == c).map fun entry => Fin.ofNat _ entry.2

def isDelimiter (c : Char) : Bool := isJsonSpace c || isPunct c || c == '"'

/-- Where the reader of tokens is: what it has read of an atom or of a string stands reversed. -/
inductive Scan where
  | gap
  | atom (read : List Char)
  | plain (read : Text)
  | escaped (read : Text)
  | hex (read : Text) (left value : ℕ)

/-- The first character of a token, or one between tokens. -/
def start (c : Char) : List Token × Scan :=
  if isJsonSpace c then ([], .gap)
  else if isPunct c then ([.punct c], .gap)
  else if c = '"' then ([], .plain [])
  else ([], .atom [c])

def tokensFrom : Scan → List Char → List Token
  | .gap, [] => []
  | .atom read, [] => [atom read.reverse]
  | .plain _, [] => [.bad]
  | .escaped _, [] => [.bad]
  | .hex _ _ _, [] => [.bad]
  | .gap, c :: cs => (start c).1 ++ tokensFrom (start c).2 cs
  | .atom read, c :: cs =>
    if isDelimiter c then
      atom read.reverse :: ((start c).1 ++ tokensFrom (start c).2 cs)
    else tokensFrom (.atom (c :: read)) cs
  | .plain read, c :: cs =>
    if c = '"' then .str (join read.reverse) :: tokensFrom .gap cs
    else if c = '\\' then tokensFrom (.escaped read) cs
    else if c.toNat < 0x20 then [.bad]
    else tokensFrom (.plain (ofChar c :: read)) cs
  | .escaped read, c :: cs =>
    if c = 'u' then tokensFrom (.hex read 4 0) cs
    else match unescape c with
      | none => [.bad]
      | some u => tokensFrom (.plain (u :: read)) cs
  | .hex read left value, c :: cs =>
    match hexDigit c with
    | none => [.bad]
    | some digit =>
      if left = 1 then tokensFrom (.plain (Fin.ofNat _ (16 * value + digit) :: read)) cs
      else tokensFrom (.hex read (left - 1) (16 * value + digit)) cs

/-- The tokens of a text, up to the first place where it cannot be read on. -/
def tokenize (cs : List Char) : List Token := tokensFrom .gap cs

/-! ### Reading a string back -/

theorem hexDigit_digitChar {n : ℕ} (h : n < 16) : hexDigit (Nat.digitChar n) = some n := by
  have hall : ∀ m < 16, hexDigit (Nat.digitChar m) = some m := by decide
  exact hall n h

theorem tokensFrom_hex {read : Text} {left value n : ℕ} {cs : List Char} (h : n < 16) :
    tokensFrom (.hex read left value) (Nat.digitChar n :: cs) =
      if left = 1 then tokensFrom (.plain (Fin.ofNat _ (16 * value + n) :: read)) cs
      else tokensFrom (.hex read (left - 1) (16 * value + n)) cs := by
  rw [tokensFrom, hexDigit_digitChar h]

theorem tokensFrom_unitEscape {read : Text} {u : CodePoint} {cs : List Char} (h : u.val < 0x10000) :
    tokensFrom (.plain read) (unitEscape u.val ++ cs) = tokensFrom (.plain (u :: read)) cs := by
  have hmod : ∀ m : ℕ, m % 16 < 16 := fun m => Nat.mod_lt m (by omega)
  have hvalue : 16 * (16 * (16 * (16 * 0 + u.val / 4096 % 16) + u.val / 256 % 16) + u.val / 16 % 16) +
      u.val % 16 = u.val := by omega
  show tokensFrom (.hex read 4 0) (Nat.digitChar (u.val / 4096 % 16) :: Nat.digitChar (u.val / 256 % 16) ::
    Nat.digitChar (u.val / 16 % 16) :: Nat.digitChar (u.val % 16) :: cs) = _
  rw [tokensFrom_hex (hmod _), if_neg (by omega), tokensFrom_hex (hmod _), if_neg (by omega),
    tokensFrom_hex (hmod _), if_neg (by omega), tokensFrom_hex (hmod _), if_pos rfl, hvalue]
  congr 3
  exact Fin.ext (Nat.mod_eq_of_lt u.isLt)

theorem small_units {c u : CodePoint} (h : u ∈ units c) : u.val < 0x10000 := by
  unfold units at h
  have hc := c.isLt
  by_cases hsmall : c.val < 0x10000
  · rw [if_pos hsmall, List.mem_singleton] at h
    rw [h]
    exact hsmall
  · rw [if_neg hsmall, List.mem_cons, List.mem_singleton] at h
    rcases h with hu | hu
    · rw [hu]
      show 0xd800 + (c.val - 0x10000) / 0x400 < 0x10000
      omega
    · rw [hu]
      show 0xdc00 + (c.val - 0x10000) % 0x400 < 0x10000
      omega

theorem tokensFrom_unitEscapes {read us : Text} {cs : List Char} (h : ∀ u ∈ us, u.val < 0x10000) :
    tokensFrom (.plain read) (us.flatMap (fun u => unitEscape u.val) ++ cs) =
      tokensFrom (.plain (us.reverse ++ read)) cs := by
  induction us generalizing read with
  | nil => rfl
  | cons u us ih =>
    rw [List.flatMap_cons, List.append_assoc, tokensFrom_unitEscape (h u List.mem_cons_self),
      ih fun v hv => h v (List.mem_cons_of_mem u hv)]
    simp

theorem shortEscape_read {entry : Char × ℕ} (h : entry ∈ shortEscapes) :
    entry.1 ≠ 'u' ∧ unescape entry.1 = some (Fin.ofNat _ entry.2) ∧ entry.2 < 0x80 := by
  have hall : ∀ e ∈ shortEscapes, e.1 ≠ 'u' ∧ unescape e.1 = some (Fin.ofNat _ e.2) ∧ e.2 < 0x80 := by
    decide +kernel
  exact hall entry h

theorem plain_read {n : ℕ} (hlow : 0x20 ≤ n) (hhigh : n ≤ 0x7e) (hquote : n ≠ 0x22) (hslash : n ≠ 0x5c) :
    Char.ofNat n ≠ '"' ∧ Char.ofNat n ≠ '\\' ∧ (Char.ofNat n).toNat = n := by
  have hall : ∀ m < 0x7f, 0x20 ≤ m ∧ m ≠ 0x22 ∧ m ≠ 0x5c →
      Char.ofNat m ≠ '"' ∧ Char.ofNat m ≠ '\\' ∧ (Char.ofNat m).toNat = m := by decide
  exact hall n (by omega) ⟨hlow, hquote, hslash⟩

theorem tokensFrom_escape {read : Text} {c : CodePoint} {cs : List Char} :
    tokensFrom (.plain read) (escape c ++ cs) = tokensFrom (.plain ((units c).reverse ++ read)) cs := by
  unfold escape
  cases hfind : shortEscapes.find? fun entry => entry.2 == c.val with
  | some entry =>
    obtain ⟨hu, hread, hsmall⟩ := shortEscape_read (List.mem_of_find?_eq_some hfind)
    have hval : entry.2 = c.val := by simpa using List.find?_some hfind
    have hback : (Fin.ofNat _ entry.2 : CodePoint) = c :=
      Fin.ext ((Nat.mod_eq_of_lt (by omega)).trans hval)
    show tokensFrom (.escaped read) (entry.1 :: cs) = _
    rw [tokensFrom, if_neg hu, hread, hback, units, if_pos (by omega)]
    rfl
  | none =>
    rw [List.find?_eq_none] at hfind
    by_cases hplain : isPlain c
    · have hquote : c.val ≠ 0x22 := fun h => hfind ('"', 0x22) (by decide) (by simp [h])
      have hslash : c.val ≠ 0x5c := fun h => hfind ('\\', 0x5c) (by decide) (by simp [h])
      obtain ⟨hq, hs, hnat⟩ := plain_read hplain.1 hplain.2 hquote hslash
      have hback : ofChar (Char.ofNat c.val) = c := Fin.ext hnat
      have hsmall := hplain.2
      simp only [if_pos hplain]
      rw [List.singleton_append, tokensFrom, if_neg hq, if_neg hs, hnat,
        if_neg (by have hlow := hplain.1; omega), hback, units, if_pos (by omega)]
      rfl
    · simp only [if_neg hplain]
      exact tokensFrom_unitEscapes fun u hu => small_units hu

theorem tokensFrom_escapes {read text : Text} {cs : List Char} :
    tokensFrom (.plain read) (text.flatMap escape ++ cs) =
      tokensFrom (.plain ((text.flatMap units).reverse ++ read)) cs := by
  induction text generalizing read with
  | nil => rfl
  | cons c text ih =>
    rw [List.flatMap_cons, List.append_assoc, tokensFrom_escape, ih, List.flatMap_cons]
    simp

/-- A string that was written is read back, with the surrogate pairs in it joined. -/
theorem tokensFrom_dumpsStr {text : Text} {cs : List Char} :
    tokensFrom .gap (dumpsStr text ++ cs) = .str (join text) :: tokensFrom .gap cs := by
  have hstart : start '"' = ([], .plain []) := rfl
  show tokensFrom .gap ('"' :: ((text.flatMap escape ++ ['"']) ++ cs)) = _
  rw [tokensFrom, hstart, List.append_assoc, List.nil_append, tokensFrom_escapes, List.singleton_append,
    tokensFrom, if_pos rfl, List.append_nil, List.reverse_reverse, join_flatMap_units]

theorem tokensFrom_punct {c : Char} {cs : List Char} (h : isPunct c = true) :
    tokensFrom .gap (c :: cs) = .punct c :: tokensFrom .gap cs := by
  have hspace : isJsonSpace c = false := by
    have hall : ∀ d ∈ punctuation, isJsonSpace d = false := List.all_iff_forall_prop.mp (by decide)
    exact hall c (by simpa [isPunct] using h)
  rw [tokensFrom, start, hspace, h]
  rfl

/-! ### Reading an integer back -/

theorem not_digit_of_delimiter {c : Char} (h : isDelimiter c = true) : c.isDigit = false := by
  have hall : ∀ d ∈ punctuation, d.isDigit = false := List.all_iff_forall_prop.mp (by decide)
  simp only [isDelimiter, isJsonSpace, isPunct, Bool.or_eq_true, beq_iff_eq, List.contains_iff_mem] at h
  rcases h with (hspace | hpunct) | hquote
  · rcases hspace with ((hc | hc) | hc) | hc <;> rw [hc] <;> decide
  · exact hall c hpunct
  · rw [hquote]
    decide

theorem tokensFrom_atom_cons {read : List Char} {c : Char} {cs : List Char} :
    tokensFrom (.atom read) (c :: cs) =
      if isDelimiter c then atom read.reverse :: tokensFrom .gap (c :: cs)
      else tokensFrom (.atom (c :: read)) cs := by
  rw [tokensFrom.eq_7, tokensFrom.eq_6]

theorem tokensFrom_digits {read cs rest : List Char} {c : Char} (h : ∀ d ∈ cs, d.isDigit = true)
    (hc : isDelimiter c = true) :
    tokensFrom (.atom read) (cs ++ c :: rest) = atom (read.reverse ++ cs) :: tokensFrom .gap (c :: rest) := by
  induction cs generalizing read with
  | nil => rw [List.nil_append, List.append_nil, tokensFrom_atom_cons, if_pos hc]
  | cons d cs ih =>
    have hd : ¬isDelimiter d = true := by
      intro hd
      have hdigit := h d List.mem_cons_self
      rw [not_digit_of_delimiter hd] at hdigit
      cases hdigit
    rw [List.cons_append, tokensFrom_atom_cons, if_neg hd, ih fun e he => h e (List.mem_cons_of_mem d he)]
    simp

theorem head_toDigits {n : ℕ} (h : 0 < n) : (Nat.toDigits 10 n).head? ≠ some '0' := by
  induction n using Nat.strong_induction_on with
  | _ n ih =>
    by_cases hsmall : n < 10
    · have hall : ∀ m < 10, 0 < m → Nat.digitChar m ≠ '0' := by decide
      rw [Nat.toDigits_of_lt_base hsmall]
      simpa using hall n hsmall h
    · rw [Nat.toDigits_of_base_le (by omega) (by omega), List.head?_append_of_ne_nil _ Nat.toDigits_ne_nil]
      exact ih (n / 10) (by omega) (by omega)

theorem isIntegerPart_toDigits (n : ℕ) : isIntegerPart (Nat.toDigits 10 n) = true := by
  by_cases hzero : n = 0
  · rw [hzero]
    decide
  · have hne : Nat.toDigits 10 n ≠ [] := Nat.toDigits_ne_nil
    have hhead := head_toDigits (Nat.pos_of_ne_zero hzero)
    simp [isIntegerPart, hne, hhead]

theorem unsignedNumber_toDigits {n : ℕ} (h : (Nat.toDigits 10 n).length ≤ maxDigits) :
    unsignedNumber 1 (Nat.toDigits 10 n) = some (.int n) := by
  have hdigit : ∀ d ∈ Nat.toDigits 10 n, d.isDigit = true :=
    fun d hd => Nat.isDigit_of_mem_toDigits (by omega) (by omega) hd
  have hspan : spanDigits (Nat.toDigits 10 n) = (Nat.toDigits 10 n, []) := by
    rw [spanDigits, List.takeWhile_eq_self_iff.2 hdigit, List.dropWhile_eq_nil_iff.2 hdigit]
  rw [unsignedNumber, hspan]
  simp [isIntegerPart_toDigits, Nat.not_lt.2 h, Nat.ofDigitChars_ten_toDigits]

theorem atom_toDigits {n : ℕ} (h : (Nat.toDigits 10 n).length ≤ maxDigits) :
    atom (Nat.toDigits 10 n) = .value (.int n) := by
  have hdigit : ∀ d ∈ Nat.toDigits 10 n, d.isDigit = true :=
    fun d hd => Nat.isDigit_of_mem_toDigits (by omega) (by omega) hd
  have hwords : words.find? (fun word => word.1 == Nat.toDigits 10 n) = none := by
    rw [List.find?_eq_none]
    intro word hword heq
    have hall : ∀ w ∈ words, w.1.all Char.isDigit = false := by decide
    have hnot := hall word hword
    rw [beq_iff_eq.1 heq, List.all_eq_true.2 hdigit] at hnot
    cases hnot
  have hnumber : number (Nat.toDigits 10 n) = some (.int n) := by
    rw [← unsignedNumber_toDigits h]
    unfold number
    split
    · rename_i heq
      have hminus := hdigit '-' (by rw [heq]; exact List.mem_cons_self)
      exact absurd hminus (by decide)
    · rfl
  rw [atom, hwords, hnumber]

/-- An integer that was written is read back. -/
theorem tokensFrom_toDigits {n : ℕ} {c : Char} {rest : List Char}
    (h : (Nat.toDigits 10 n).length ≤ maxDigits) (hc : isDelimiter c = true) :
    tokensFrom .gap (Nat.toDigits 10 n ++ c :: rest) = .value (.int n) :: tokensFrom .gap (c :: rest) := by
  have hdigit : ∀ d ∈ Nat.toDigits 10 n, d.isDigit = true :=
    fun d hd => Nat.isDigit_of_mem_toDigits (by omega) (by omega) hd
  rw [← atom_toDigits h]
  cases hdigits : Nat.toDigits 10 n with
  | nil => exact absurd hdigits Nat.toDigits_ne_nil
  | cons d ds =>
    rw [hdigits] at hdigit
    have hd : isDelimiter d = false := by
      rw [Bool.eq_false_iff]
      intro hd
      have hfirst := hdigit d List.mem_cons_self
      rw [not_digit_of_delimiter hd] at hfirst
      cases hfirst
    have hstart : start d = ([], .atom [d]) := by
      simp only [isDelimiter, Bool.or_eq_false_iff, beq_eq_false_iff_ne] at hd
      simp [start, hd.1.1, hd.1.2, hd.2]
    rw [List.cons_append, tokensFrom, hstart, List.nil_append,
      tokensFrom_digits (fun e he => hdigit e (List.mem_cons_of_mem d he)) hc]
    rfl

/-! ### Documents -/

inductive LoadsError where
  | valueError
  | recursionError
deriving DecidableEq

/-- A container that is being read, with the items before the one that is read now. -/
inductive Frame where
  | list (items : List Value)
  | dict (items : List (Text × Value)) (key : Text)

/-- What the reader expects next, with the containers it is in, the innermost first. -/
inductive State where
  | value (frames : List Frame)
  | firstItem (frames : List Frame)
  | firstKey (frames : List Frame)
  | key (items : List (Text × Value)) (frames : List Frame)
  | colon (items : List (Text × Value)) (key : Text) (frames : List Frame)
  | listComma (items : List Value) (frames : List Frame)
  | dictComma (items : List (Text × Value)) (frames : List Frame)
  | finished (v : Value)

/-- How many containers the reader is in. -/
def State.depth : State → ℕ
  | .value frames => frames.length
  | .firstItem frames => frames.length + 1
  | .firstKey frames => frames.length + 1
  | .key _ frames => frames.length + 1
  | .colon _ _ frames => frames.length + 1
  | .listComma _ frames => frames.length + 1
  | .dictComma _ frames => frames.length + 1
  | .finished _ => 0

/-- A value is complete. -/
def deliver (v : Value) : List Frame → State
  | [] => .finished v
  | .list items :: frames => .listComma (items ++ [v]) frames
  | .dict items key :: frames => .dictComma (items ++ [(key, v)]) frames

/-- The first token of a value. -/
def begin (frames : List Frame) : Token → Option State
  | .value v => some (deliver v frames)
  | .str text => some (deliver (.str text) frames)
  | .punct '[' => some (.firstItem frames)
  | .punct '{' => some (.firstKey frames)
  | _ => none

def step : State → Token → Option State
  | .value frames, token => begin frames token
  | .firstItem frames, .punct ']' => some (deliver (.list []) frames)
  | .firstItem frames, token => begin (.list [] :: frames) token
  | .firstKey frames, .punct '}' => some (deliver (.dict []) frames)
  | .firstKey frames, .str key => some (.colon [] key frames)
  | .key items frames, .str key => some (.colon items key frames)
  | .colon items key frames, .punct ':' => some (.value (.dict items key :: frames))
  | .listComma items frames, .punct ',' => some (.value (.list items :: frames))
  | .listComma items frames, .punct ']' => some (deliver (.list items) frames)
  | .dictComma items frames, .punct ',' => some (.key items frames)
  | .dictComma items frames, .punct '}' => some (deliver (.dict items) frames)
  | _, _ => none

/-- `json.loads` from a state on: to be in more than `limit` containers is a `RecursionError`. -/
def loadsFrom (limit : ℕ) : State → List Token → Except LoadsError Value
  | .finished v, [] => .ok v
  | _, [] => .error .valueError
  | state, token :: rest =>
    match step state token with
    | none => .error .valueError
    | some next => if limit < next.depth then .error .recursionError else loadsFrom limit next rest

/-- `json.loads` of a text. -/
def loads (limit : ℕ) (text : List Char) : Except LoadsError Value :=
  loadsFrom limit (.value []) (tokenize text)

/-- The same reader without its bound: what the text denotes, if it is JSON. -/
def readFrom : State → List Token → Option Value
  | .finished v, [] => some v
  | _, [] => none
  | state, token :: rest => (step state token).bind fun next => readFrom next rest

def read (text : List Char) : Option Value := readFrom (.value []) (tokenize text)

/-- Some of the tokens, from the first on, lead into more than `limit` containers. -/
def NestsFrom (limit : ℕ) (state : State) (ts : List Token) : Prop :=
  ∃ front back next, ts = front ++ back ∧ front.foldlM step state = some next ∧ limit < next.depth

def NestsBeyond (limit : ℕ) (text : List Char) : Prop := NestsFrom limit (.value []) (tokenize text)

variable {limit : ℕ} {state next : State} {token : Token} {ts : List Token} {text : List Char} {v : Value}

theorem nestsFrom_cons (hdepth : state.depth ≤ limit) (h : step state token = some next) :
    NestsFrom limit state (token :: ts) ↔ limit < next.depth ∨ NestsFrom limit next ts := by
  constructor
  · rintro ⟨front, back, last, hsplit, hrun, hlast⟩
    cases front with
    | nil =>
      obtain rfl := Option.some.inj hrun
      omega
    | cons first front =>
      obtain ⟨rfl, rfl⟩ := List.cons.inj hsplit
      rw [List.foldlM_cons, h] at hrun
      exact .inr ⟨front, back, last, rfl, hrun, hlast⟩
  · rintro (hnext | ⟨front, back, last, hsplit, hrun, hlast⟩)
    · refine ⟨[token], ts, next, rfl, ?_, hnext⟩
      rw [List.foldlM_cons, h]
      rfl
    · refine ⟨token :: front, back, last, by rw [hsplit]; rfl, ?_, hlast⟩
      rw [List.foldlM_cons, h]
      exact hrun

theorem not_nestsFrom_of_stuck (hdepth : state.depth ≤ limit) (h : step state token = none) :
    ¬NestsFrom limit state (token :: ts) := by
  rintro ⟨front, back, last, hsplit, hrun, hlast⟩
  cases front with
  | nil =>
    obtain rfl := Option.some.inj hrun
    omega
  | cons first front =>
    obtain ⟨rfl, rfl⟩ := List.cons.inj hsplit
    rw [List.foldlM_cons, h] at hrun
    cases hrun

theorem loadsFrom_nil : loadsFrom limit state [] =
    match readFrom state [] with
    | some v => .ok v
    | none => .error .valueError := by
  cases state <;> rfl

theorem loadsFrom_cons : loadsFrom limit state (token :: ts) =
    match step state token with
    | none => .error .valueError
    | some next => if limit < next.depth then .error .recursionError else loadsFrom limit next ts := by
  cases state <;> rfl

theorem readFrom_cons : readFrom state (token :: ts) = (step state token).bind fun next => readFrom next ts := by
  cases state <;> rfl

/-- The bounded reader fails on what nests too deep, and is the unbounded one elsewhere. -/
theorem loadsFrom_eq (hdepth : state.depth ≤ limit) :
    (NestsFrom limit state ts → loadsFrom limit state ts = .error .recursionError) ∧
      (¬NestsFrom limit state ts → loadsFrom limit state ts =
        match readFrom state ts with
        | some v => .ok v
        | none => .error .valueError) := by
  induction ts generalizing state with
  | nil =>
    refine ⟨?_, fun _ => loadsFrom_nil⟩
    rintro ⟨front, back, last, hsplit, hrun, hlast⟩
    obtain ⟨rfl, rfl⟩ := List.append_eq_nil_iff.1 hsplit.symm
    obtain rfl := Option.some.inj hrun
    omega
  | cons token ts ih =>
    rw [loadsFrom_cons, readFrom_cons]
    cases hstep : step state token with
    | none => exact ⟨fun hnests => absurd hnests (not_nestsFrom_of_stuck hdepth hstep), fun _ => rfl⟩
    | some next =>
      simp only [nestsFrom_cons hdepth hstep, Option.bind_some]
      by_cases hdeep : limit < next.depth
      · rw [if_pos hdeep]
        exact ⟨fun _ => rfl, fun hnot => absurd (.inl hdeep) hnot⟩
      · rw [if_neg hdeep]
        obtain ⟨hnests, hnot⟩ := ih (Nat.le_of_not_lt hdeep)
        exact ⟨fun h => hnests (h.resolve_left hdeep), fun h => hnot fun hn => h (.inr hn)⟩

theorem loads_of_nests (h : NestsBeyond limit text) : loads limit text = .error .recursionError :=
  (loadsFrom_eq (Nat.zero_le limit)).1 h

theorem loads_of_read (h : ¬NestsBeyond limit text) (hread : read text = some v) :
    loads limit text = .ok v := by
  have heq := (loadsFrom_eq (Nat.zero_le limit)).2 h
  rw [loads, heq]
  rw [read] at hread
  rw [hread]

theorem loads_of_not_read (h : ¬NestsBeyond limit text) (hread : read text = none) :
    loads limit text = .error .valueError := by
  have heq := (loadsFrom_eq (Nat.zero_le limit)).2 h
  rw [loads, heq]
  rw [read] at hread
  rw [hread]

end PyJson
