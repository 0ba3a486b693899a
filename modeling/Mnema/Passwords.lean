import Mnema.Models
import Mnema.Lib.Hex
import Mathlib.Data.Bool.AllAny

/-! The administrator's password as it is stored. -/

namespace Mnema

/-- `secrets.compare_digest` of two strings; `none` is its `TypeError`. -/
def compareDigest (a b : String) : Option Bool :=
  if (a.toList ++ b.toList).all (fun c => decide (c.toNat < 128)) then some (a == b) else none

theorem compareDigest_eq_true {a b : String} (h : compareDigest a b = some true) : a = b := by
  unfold compareDigest at h
  split at h
  · simpa using h
  · cases h

theorem compareDigest_self {a : String} (h : ∀ c ∈ a.toList, c.toNat < 128) :
    compareDigest a a = some true := by
  have hall : (a.toList ++ a.toList).all (fun c => decide (c.toNat < 128)) = true := by
    simpa using fun c hc => h c hc
  rw [compareDigest, if_pos hall, beq_self_eq_true]

/-- `hashlib.scrypt`, and what `os.urandom` gives. -/
structure Scrypt where
  digest : String → Bytes → Bytes

structure Salt where
  bytes : Bytes
  length_eq : bytes.length = 16
deriving DecidableEq, Repr

namespace Scrypt

variable (scrypt : Scrypt)

def algorithm : List Char := ['s', 'c', 'r', 'y', 'p', 't']

def encoded (password : String) (salt : Bytes) : String :=
  String.ofList (algorithm ++ '$' :: (Hex.hex salt ++ '$' :: Hex.hex (scrypt.digest password salt)))

/-- `salt or os.urandom(16)`. -/
def used (random : Salt) (salt : Bytes) : Bytes := if salt.isEmpty then random.bytes else salt

def hashPassword (random : Salt) (password : String) (salt : Bytes) : Except PyError String :=
  if password.length < 12 then
    .error (.value "administrator password must contain at least 12 characters")
  else .ok (scrypt.encoded password (used random salt))

/-- The text before and after the first dollar sign. -/
def cut : List Char → Option (List Char × List Char)
  | [] => none
  | c :: cs => if c = '$' then some ([], cs) else (cut cs).map fun (before, after) => (c :: before, after)

/-- `encoded.split("$", 2)`. -/
def split (encoded : String) : Option (List Char × List Char × List Char) := do
  let (name, rest) ← cut encoded.toList
  let (salt, expected) ← cut rest
  some (name, salt, expected)

/-- `none` is a `TypeError`. -/
def verifyPassword (random : Salt) (password encoded : String) : Option Bool :=
  match split encoded with
  | none => some false
  | some (name, salt, _) =>
    if name ≠ algorithm then some false
    else match Hex.fromhex salt with
      | none => some false
      | some salt =>
        match scrypt.hashPassword random password salt with
        | .error _ => some false
        | .ok actual => compareDigest actual encoded

omit scrypt in
theorem used_ne_nil (random : Salt) (salt : Bytes) : used random salt ≠ [] := by
  unfold used
  split
  · intro h
    have hlen := random.length_eq
    rw [h] at hlen
    cases hlen
  · next h => simpa using h

theorem cut_append {cs : List Char} (h : '$' ∉ cs) (rest : List Char) :
    cut (cs ++ '$' :: rest) = some (cs, rest) := by
  induction cs with
  | nil => simp [cut]
  | cons c cs ih =>
    simp only [List.mem_cons, not_or] at h
    simp [cut, Ne.symm h.1, ih h.2]

theorem dollar_not_mem_hex (bs : Bytes) : '$' ∉ Hex.hex bs := by
  intro h
  obtain ⟨n, hn, he⟩ := Hex.mem_hex h
  exact (Hex.digit_cases hn).2.2.2 he.symm

theorem split_encoded (password : String) (salt : Bytes) :
    split (scrypt.encoded password salt) =
      some (algorithm, Hex.hex salt, Hex.hex (scrypt.digest password salt)) := by
  have hname : '$' ∉ algorithm := by decide
  simp only [split, encoded, String.toList_ofList, cut_append hname, cut_append (dollar_not_mem_hex salt),
    Option.bind_eq_bind, Option.bind_some]

theorem ascii_encoded (password : String) (salt : Bytes) {c : Char}
    (hc : c ∈ (scrypt.encoded password salt).toList) : c.toNat < 128 := by
  have hhex : ∀ bs, c ∈ Hex.hex bs → c.toNat < 128 := by
    intro bs h
    obtain ⟨n, hn, rfl⟩ := Hex.mem_hex h
    exact (Hex.digit_cases hn).2.2.1
  have hname : ∀ c ∈ algorithm, c.toNat < 128 := List.all_iff_forall_prop.mp (by decide)
  rw [encoded, String.toList_ofList, List.mem_append, List.mem_cons, List.mem_append, List.mem_cons] at hc
  rcases hc with hc | rfl | hc | rfl | hc
  · exact hname c hc
  · decide
  · exact hhex _ hc
  · decide
  · exact hhex _ hc

/-- A password is accepted for the canonical text of a salted digest of it, and for no other. -/
theorem verifyPassword_iff (random : Salt) (password stored : String) :
    scrypt.verifyPassword random password stored = some true ↔
      12 ≤ password.length ∧ ∃ salt ≠ [], stored = scrypt.encoded password salt := by
  constructor
  · intro h
    unfold verifyPassword at h
    split at h
    case h_1 => cases h
    case h_2 name saltHex expected hsplit =>
      split at h
      case isTrue => cases h
      case isFalse =>
        split at h
        case h_1 => cases h
        case h_2 salt hsalt =>
          split at h
          case h_1 => cases h
          case h_2 actual hactual =>
            have hstored := compareDigest_eq_true h
            unfold hashPassword at hactual
            split at hactual
            case isTrue => cases hactual
            case isFalse hlength =>
              have hactual := Except.ok.inj hactual
              have hread : used random salt = salt := by
                rw [← hstored, ← hactual, split_encoded] at hsplit
                obtain ⟨-, rfl, -⟩ := by simpa using hsplit
                simpa [Hex.fromhex_hex] using hsalt
              have hsalt : salt ≠ [] := fun h => used_ne_nil random salt (hread.trans h)
              exact ⟨by omega, salt, hsalt, by rw [← hstored, ← hactual, hread]⟩
  · rintro ⟨hlength, salt, hsalt, rfl⟩
    have hused : used random salt = salt := by simp [used, hsalt]
    have hhash : scrypt.hashPassword random password salt = .ok (scrypt.encoded password salt) := by
      rw [hashPassword, if_neg (by omega), hused]
    simp only [verifyPassword, split_encoded, Hex.fromhex_hex, hhash, ne_eq, not_true_eq_false, if_false]
    exact compareDigest_self fun c hc => scrypt.ascii_encoded password salt hc

theorem verifyPassword_hashPassword {random : Salt} {password stored : String} {salt : Bytes}
    (h : scrypt.hashPassword random password salt = .ok stored) (random' : Salt) :
    scrypt.verifyPassword random' password stored = some true := by
  unfold hashPassword at h
  split at h
  case isTrue => cases h
  case isFalse hlength =>
    rw [← Except.ok.inj h]
    exact (scrypt.verifyPassword_iff random' password _).mpr
      ⟨by omega, used random salt, used_ne_nil random salt, rfl⟩

end Scrypt

end Mnema
