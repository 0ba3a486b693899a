import Mnema.Lib.Hex
import Mnema.Lib.PythonText
import Mathlib.Tactic.IntervalCases

/-! Percent-encoding: `urllib.parse.urlencode` writes a query, and a reader that decodes the percent
signs alone reads it back. A space is written as a plus sign and read as one. -/

namespace Percent

open PyText

abbrev Text := List Char

/-- Letters, digits and `_.-~`, which are written as they are. -/
def isSafe (b : UInt8) : Bool :=
  let n := b.toNat
  (48 ≤ n && n ≤ 57) || (65 ≤ n && n ≤ 90) || (97 ≤ n && n ≤ 122) || n == 95 || n == 46 || n == 45 || n == 126

def digit (n : ℕ) : Char := (Nat.digitChar n).toUpper

def quoteByte (b : UInt8) : Text :=
  if b = 32 then ['+']
  else if isSafe b then [Char.ofNat b.toNat]
  else ['%', digit (b.toNat / 16), digit (b.toNat % 16)]

/-- `quote_plus`. -/
def quotePlus (cs : Text) : Text := (utf8Encode cs).flatMap quoteByte

/-- The bytes of a text whose percent signs stand for bytes. -/
def unquoteBytes : Text → Option (List UInt8)
  | [] => some []
  | c :: rest =>
    if c = '%' then
      match rest with
      | high :: low :: rest => do
        let b ← Hex.byte high low
        let bs ← unquoteBytes rest
        some (b :: bs)
      | _ => none
    else do
      let bs ← unquoteBytes rest
      some (String.utf8EncodeChar c ++ bs)

/-- `removingPercentEncoding`. -/
def unquote (cs : Text) : Option Text := unquoteBytes cs >>= utf8Decode

/-- `urlencode`, for items in this order. -/
def urlencode (items : List (Text × Text)) : Text :=
  ['&'].intercalate (items.map fun i => quotePlus i.1 ++ '=' :: quotePlus i.2)

/-- A name, with its value if there is an equals sign. -/
def readItem (cs : Text) : Option (Text × Option Text) :=
  match cs.dropWhile (· != '=') with
  | [] => do
    let name ← unquote cs
    some (name, none)
  | _ :: value => do
    let name ← unquote (cs.takeWhile (· != '='))
    let value ← unquote value
    some (name, some value)

def readItems : List Text → Option (List (Text × Option Text))
  | [] => some []
  | cs :: rest => do
    let item ← readItem cs
    let items ← readItems rest
    some (item :: items)

/-- `queryItems`. -/
def queryItems (query : Text) : Option (List (Text × Option Text)) := readItems (query.splitOn '&')

/-- What a reader makes of a text that `quotePlus` wrote. -/
def plused (cs : Text) : Text := cs.map fun c => if c = ' ' then '+' else c

def plusedByte (b : UInt8) : UInt8 := if b = 32 then 43 else b

theorem plused_eq_self_iff {cs : Text} : plused cs = cs ↔ ' ' ∉ cs := by
  induction cs with
  | nil => simp [plused]
  | cons c cs ih =>
    rw [plused, List.map_cons, List.cons.injEq, List.mem_cons, not_or]
    refine and_congr ?_ ih
    by_cases hc : c = ' '
    · simp [hc]
    · simp [hc, Ne.symm hc]

/-! ### Bytes -/

theorem toNat_lt_of_isSafe {b : UInt8} (h : isSafe b = true) : b.toNat < 128 ∧ b.toNat ≠ 37 := by
  simp only [isSafe, Bool.or_eq_true, Bool.and_eq_true, decide_eq_true_eq, beq_iff_eq] at h
  omega

theorem ascii_cases {n : ℕ} (h : n < 128) :
    String.utf8EncodeChar (Char.ofNat n) = [UInt8.ofNat n] ∧ (Char.ofNat n).toNat = n := by
  have hall : ∀ m < 128, String.utf8EncodeChar (Char.ofNat m) = [UInt8.ofNat m] ∧
      (Char.ofNat m).toNat = m := by decide +kernel
  exact hall n h

theorem value_digit {n : ℕ} (h : n < 16) : Hex.value (digit n) = some n := by
  have hall : ∀ m < 16, Hex.value (digit m) = some m := by decide
  exact hall n h

theorem byte_digits (b : UInt8) : Hex.byte (digit (b.toNat / 16)) (digit (b.toNat % 16)) = some b := by
  have hb := b.toNat_lt
  have hsum : 16 * (b.toNat / 16) + b.toNat % 16 = b.toNat := by omega
  simp only [Hex.byte, value_digit (n := b.toNat / 16) (by omega),
    value_digit (n := b.toNat % 16) (by omega), Option.bind_eq_bind, Option.bind_some, hsum,
    UInt8.ofNat_toNat]

theorem unquoteBytes_plain {c : Char} (hc : c ≠ '%') (rest : Text) :
    unquoteBytes (c :: rest) = (unquoteBytes rest).map (String.utf8EncodeChar c ++ ·) := by
  conv_lhs => unfold unquoteBytes
  rw [if_neg hc]
  cases unquoteBytes rest <;> rfl

theorem unquoteBytes_quoteByte (b : UInt8) (rest : Text) :
    unquoteBytes (quoteByte b ++ rest) = (unquoteBytes rest).map (plusedByte b :: ·) := by
  rw [quoteByte, plusedByte]
  by_cases hspace : b = 32
  · rw [if_pos hspace, if_pos hspace]
    exact unquoteBytes_plain (by decide) rest
  rw [if_neg hspace, if_neg hspace]
  by_cases hsafe : isSafe b = true
  · obtain ⟨hlt, hpercent⟩ := toNat_lt_of_isSafe hsafe
    obtain ⟨hbytes, hnat⟩ := ascii_cases hlt
    have hc : Char.ofNat b.toNat ≠ '%' := by
      intro h
      rw [h] at hnat
      exact hpercent hnat.symm
    rw [if_pos hsafe, List.singleton_append, unquoteBytes_plain hc, hbytes, UInt8.ofNat_toNat]
    rfl
  · rw [if_neg hsafe]
    change unquoteBytes ('%' :: digit (b.toNat / 16) :: digit (b.toNat % 16) :: rest) = _
    rw [unquoteBytes, if_pos rfl, byte_digits]
    cases unquoteBytes rest <;> rfl

theorem unquoteBytes_flatMap (bs : List UInt8) :
    unquoteBytes (bs.flatMap quoteByte) = some (bs.map plusedByte) := by
  induction bs with
  | nil => rfl
  | cons b bs ih => rw [List.flatMap_cons, unquoteBytes_quoteByte, ih, Option.map_some, List.map_cons]

theorem le_toNat_of_mem {c : Char} {b : UInt8} (hc : 127 < c.val.toNat)
    (hb : b ∈ String.utf8EncodeChar c) : 128 ≤ b.toNat := by
  have hbytes : ∀ n, 128 ≤ n → n < 256 → 128 ≤ (UInt8.ofNat n).toNat := by
    intro n hle hlt
    rw [UInt8.toNat_ofNat_of_lt' hlt]
    exact hle
  unfold String.utf8EncodeChar at hb
  dsimp only at hb
  rw [if_neg (by omega)] at hb
  split_ifs at hb
  all_goals
    simp only [List.mem_cons, List.not_mem_nil, or_false] at hb
    rcases hb with rfl | rfl | rfl | rfl
  all_goals exact hbytes _ (by omega) (by omega)

theorem map_plusedByte (c : Char) :
    (String.utf8EncodeChar c).map plusedByte = String.utf8EncodeChar (if c = ' ' then '+' else c) := by
  by_cases hspace : c = ' '
  · rw [if_pos hspace, hspace]
    rfl
  rw [if_neg hspace]
  refine (List.map_congr_left fun b hb => ?_).trans (List.map_id _)
  rw [plusedByte, if_neg, id]
  intro hb32
  rw [hb32] at hb
  rcases Nat.lt_or_ge 127 c.val.toNat with hc | hc
  · have := le_toNat_of_mem hc hb
    contradiction
  · rw [String.utf8EncodeChar, if_pos hc, List.mem_singleton] at hb
    refine hspace (Char.ext (UInt32.toNat_inj.mp ?_))
    have hnat := congrArg UInt8.toNat hb
    rw [UInt8.toNat_ofNat_of_lt' (by change c.val.toNat < 256; omega)] at hnat
    exact hnat.symm

theorem map_utf8Encode (cs : Text) : (utf8Encode cs).map plusedByte = utf8Encode (plused cs) := by
  induction cs with
  | nil => rfl
  | cons c cs ih =>
    change (String.utf8EncodeChar c ++ utf8Encode cs).map plusedByte =
      String.utf8EncodeChar (if c = ' ' then '+' else c) ++ utf8Encode (plused cs)
    rw [List.map_append, map_plusedByte, ih]

theorem unquote_quotePlus (cs : Text) : unquote (quotePlus cs) = some (plused cs) := by
  rw [unquote, quotePlus, unquoteBytes_flatMap, map_utf8Encode]
  exact utf8Decode_utf8Encode _

/-! ### Queries -/

theorem not_separator_of_mem {c : Char} {cs : Text} (h : c ∈ quotePlus cs) : c ≠ '&' ∧ c ≠ '=' := by
  have hall : ∀ n < 256, (quoteByte (UInt8.ofNat n)).all (fun c => c != '&' && c != '=') = true := by
    decide +kernel
  obtain ⟨b, -, hc⟩ := List.mem_flatMap.mp h
  have hb := List.all_eq_true.mp (hall b.toNat b.toNat_lt) c
  rw [UInt8.ofNat_toNat] at hb
  simpa using hb hc

theorem readItem_eq (name value : Text) :
    readItem (quotePlus name ++ '=' :: quotePlus value) = some (plused name, some (plused value)) := by
  have hname : ∀ c ∈ quotePlus name, (c != '=') = true :=
    fun c hc => bne_iff_ne.mpr (not_separator_of_mem hc).2
  unfold readItem
  rw [List.dropWhile_append_of_pos hname, List.takeWhile_append_of_pos hname]
  simp [unquote_quotePlus]

theorem readItems_map (items : List (Text × Text)) :
    readItems (items.map fun i => quotePlus i.1 ++ '=' :: quotePlus i.2) =
      some (items.map fun i => (plused i.1, some (plused i.2))) := by
  induction items with
  | nil => rfl
  | cons i items ih => simp [readItems, readItem_eq, ih]

/-- The items are read as they were written, but for the spaces. -/
theorem queryItems_urlencode {items : List (Text × Text)} (h : items ≠ []) :
    queryItems (urlencode items) = some (items.map fun i => (plused i.1, some (plused i.2))) := by
  unfold queryItems urlencode
  rw [List.splitOn_intercalate '&', readItems_map]
  · intro l hl
    obtain ⟨i, -, rfl⟩ := List.mem_map.mp hl
    simp only [List.mem_append, List.mem_cons, not_or]
    exact ⟨fun hc => (not_separator_of_mem hc).1 rfl, by decide, fun hc => (not_separator_of_mem hc).1 rfl⟩
  · simpa using h

end Percent
