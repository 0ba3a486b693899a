import Mathlib.Data.Nat.Digits.Defs

/-! Hexadecimal digits: `bytes.hex` and `bytes.fromhex`. -/

namespace Hex

def value (c : Char) : Option ℕ :=
  if '0' ≤ c ∧ c ≤ '9' then some (c.toNat - 48)
  else if 'a' ≤ c ∧ c ≤ 'f' then some (c.toNat - 87)
  else if 'A' ≤ c ∧ c ≤ 'F' then some (c.toNat - 55)
  else none

def pair (b : UInt8) : List Char := [Nat.digitChar (b.toNat / 16), Nat.digitChar (b.toNat % 16)]

def hex (bs : List UInt8) : List Char := bs.flatMap pair

def byte (c d : Char) : Option UInt8 := do
  let high ← value c
  let low ← value d
  some (UInt8.ofNat (16 * high + low))

def isSpace (c : Char) : Bool := c == ' ' || (9 ≤ c.toNat && c.toNat ≤ 13)

/-- ASCII whitespace is skipped before a byte, not within one. -/
def fromhex : List Char → Option (List UInt8)
  | [] => some []
  | [c] => if isSpace c then some [] else none
  | c :: d :: rest =>
    if isSpace c then fromhex (d :: rest)
    else do
      let b ← byte c d
      let bs ← fromhex rest
      some (b :: bs)

theorem digit_cases {n : ℕ} (h : n < 16) :
    value (Nat.digitChar n) = some n ∧ isSpace (Nat.digitChar n) = false ∧
      (Nat.digitChar n).toNat < 128 ∧ Nat.digitChar n ≠ '$' := by
  have hall : ∀ m < 16, value (Nat.digitChar m) = some m ∧ isSpace (Nat.digitChar m) = false ∧
      (Nat.digitChar m).toNat < 128 ∧ Nat.digitChar m ≠ '$' := by decide
  exact hall n h

theorem byte_pair (b : UInt8) :
    byte (Nat.digitChar (b.toNat / 16)) (Nat.digitChar (b.toNat % 16)) = some b := by
  have hb := b.toNat_lt
  have hsum : 16 * (b.toNat / 16) + b.toNat % 16 = b.toNat := by omega
  simp only [byte, (digit_cases (n := b.toNat / 16) (by omega)).1,
    (digit_cases (n := b.toNat % 16) (by omega)).1, Option.bind_eq_bind, Option.bind_some, hsum,
    UInt8.ofNat_toNat]

theorem fromhex_hex (bs : List UInt8) : fromhex (hex bs) = some bs := by
  induction bs with
  | nil => rfl
  | cons b bs ih =>
    have hb := b.toNat_lt
    have hspace := (digit_cases (n := b.toNat / 16) (by omega)).2.1
    change fromhex (Nat.digitChar (b.toNat / 16) :: Nat.digitChar (b.toNat % 16) :: hex bs) = _
    simp [fromhex, hspace, byte_pair, ih]

theorem mem_hex {c : Char} {bs : List UInt8} (h : c ∈ hex bs) : ∃ n < 16, c = Nat.digitChar n := by
  obtain ⟨b, -, hc⟩ := List.mem_flatMap.mp h
  have hb := b.toNat_lt
  simp only [pair, List.mem_cons, List.not_mem_nil, or_false] at hc
  rcases hc with rfl | rfl
  · exact ⟨_, by omega, rfl⟩
  · exact ⟨_, by omega, rfl⟩

end Hex
