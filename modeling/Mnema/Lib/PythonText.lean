import Mathlib.Data.List.DropRight
import Mathlib.Data.Nat.Notation

/-! Text as Python has it: its white space, its newlines, its bytes, and how long a number may be
written. -/

namespace PyText

/-- Characters that `str.strip` removes and `str.split` splits at. -/
def isSpace (c : Char) : Bool :=
  let n := c.toNat
  (9 ≤ n && n ≤ 13) || (28 ≤ n && n ≤ 32) || n == 0x85 || n == 0xa0 || n == 0x1680 ||
    (0x2000 ≤ n && n ≤ 0x200a) || n == 0x2028 || n == 0x2029 || n == 0x202f || n == 0x205f ||
    n == 0x3000

/-- Characters that `int` skips around a number: not the separators of ASCII. -/
def isNumberSpace (c : Char) : Bool := isSpace c && !(28 ≤ c.toNat && c.toNat ≤ 31)

/-- What is left without the characters in `space` at both ends. -/
def stripped (space : Char → Bool) (cs : List Char) : List Char :=
  ((cs.dropWhile space).reverse.dropWhile space).reverse

theorem mem_of_mem_stripped {space : Char → Bool} {c : Char} {cs : List Char} (h : c ∈ stripped space cs) :
    c ∈ cs := by
  have hfront := (List.dropWhile_sublist space).subset (List.mem_reverse.mp h)
  exact (List.dropWhile_sublist space).subset (List.mem_reverse.mp hfront)

theorem stripped_stripped (space : Char → Bool) (cs : List Char) :
    stripped space (stripped space cs) = stripped space cs := by
  have hstripped : ∀ cs : List Char, stripped space cs = (cs.dropWhile space).rdropWhile space := fun _ => rfl
  rw [hstripped, hstripped cs]
  have hmiddle := List.dropWhile_idempotent space cs
  generalize cs.dropWhile space = middle at hmiddle ⊢
  have hhead : (middle.rdropWhile space).dropWhile space = middle.rdropWhile space := by
    obtain ⟨rest, hrest⟩ := List.rdropWhile_prefix space middle
    cases hl : middle.rdropWhile space with
    | nil => rfl
    | cons c cs =>
      rw [← hrest, hl, List.cons_append, List.dropWhile_cons] at hmiddle
      rw [List.dropWhile_cons]
      by_cases hc : space c = true
      · rw [if_pos hc] at hmiddle
        have hlen := congrArg List.length hmiddle
        have hle := (List.dropWhile_suffix space (l := cs ++ rest)).length_le
        rw [hlen, List.length_cons] at hle
        omega
      · rw [if_neg hc]
  rw [hhead, List.rdropWhile_idempotent]

/-- `str.lower` of a text in ASCII. -/
def lower (text : String) : String := String.ofList (text.toList.map Char.toLower)

/-- Text files are read with universal newlines. -/
def universalNewlines : List Char → List Char
  | '\r' :: '\n' :: rest => '\n' :: universalNewlines rest
  | '\r' :: rest => '\n' :: universalNewlines rest
  | c :: rest => c :: universalNewlines rest
  | [] => []

/-- `sys.get_int_max_str_digits()`. -/
def maxDigits : ℕ := 4300

/-- `text.encode()`. -/
def utf8Encode (text : List Char) : List UInt8 := text.flatMap String.utf8EncodeChar

/-- `bytes.decode()`. -/
def utf8Decode (bytes : List UInt8) : Option (List Char) :=
  bytes.toByteArray.utf8Decode?.map Array.toList

theorem utf8Decode_utf8Encode (text : List Char) : utf8Decode (utf8Encode text) = some text := by
  have hbytes : (utf8Encode text).toByteArray = text.utf8Encode := rfl
  rw [utf8Decode, hbytes, List.utf8Decode?_utf8Encode]
  rfl

theorem utf8Encode_of_utf8Decode {bytes : List UInt8} {text : List Char} (h : utf8Decode bytes = some text) :
    utf8Encode text = bytes := by
  obtain ⟨chars, hchars, rfl⟩ := Option.map_eq_some_iff.mp h
  have hsome : bytes.toByteArray.utf8Decode?.isSome := Option.isSome_of_mem hchars
  have hbytes : chars.toList.utf8Encode = bytes.toByteArray := by
    rw [← ByteArray.utf8Encode_get_utf8Decode? (h := hsome), Option.get_of_eq_some hsome hchars]
  have hlists := congrArg (fun b : ByteArray => b.data.toList) hbytes
  simpa [List.utf8Encode, utf8Encode] using hlists

end PyText
