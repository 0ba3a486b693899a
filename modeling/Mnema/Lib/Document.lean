import Mathlib.Data.Rat.Defs

/-! Documents of named sections: values as a file stores them, codecs that read back what they
wrote, and rules that normalize a value and then accept or refuse it. -/

namespace Except

variable {ε α β : Type} {x : Except ε α} {b : β}

theorem of_bind_eq_ok {f : α → Except ε β} (h : x >>= f = .ok b) : ∃ a, x = .ok a ∧ f a = .ok b := by
  cases x with
  | error e => cases h
  | ok a => exact ⟨a, rfl, h⟩

theorem of_map_eq_ok {f : α → β} (h : x.map f = .ok b) : ∃ a, x = .ok a ∧ f a = b := by
  cases x with
  | error e => cases h
  | ok a => exact ⟨a, rfl, ok.inj h⟩

end Except

inductive Json where
  | null
  | bool (b : Bool)
  | num (q : ℚ)
  | str (s : String)
  | list (items : List Json)
  | dict (fields : List (String × Json))

/-- A way to write values, and to read at least what was written. -/
structure Codec (α : Type) where
  encode : α → Json
  decode : Json → Except String α
  decode_encode : ∀ a, decode (encode a) = .ok a

namespace Codec

variable {α β : Type}

/-- Values that are printed as other ones, and parsed from them. -/
def via (c : Codec α) (parse : α → Except String β) (print : β → α)
    (h : ∀ b, parse (print b) = .ok b) : Codec β where
  encode b := c.encode (print b)
  decode j := c.decode j >>= parse
  decode_encode b := by
    rw [c.decode_encode]
    exact h b

theorem mapM_encode (c : Codec α) (items : List α) :
    (items.map c.encode).mapM c.decode = .ok items := by
  induction items with
  | nil => rfl
  | cons a rest ih =>
    rw [List.map_cons, List.mapM_cons, c.decode_encode, ih]
    rfl

def list (c : Codec α) : Codec (List α) where
  encode items := .list (items.map c.encode)
  decode
    | .list items => items.mapM c.decode
    | _ => .error "Input should be a valid list"
  decode_encode items := c.mapM_encode items

end Codec

namespace Json

def lookup (fields : List (String × Json)) (name : String) : Option Json :=
  (fields.find? fun field => field.1 == name).map (·.2)

/-- A named field, or its default where there is none of the name. -/
def field {α : Type} (fields : List (String × Json)) (c : Codec α) (name : String) (default : α) :
    Except String α :=
  match lookup fields name with
  | none => .ok default
  | some j => (c.decode j).mapError fun message => name ++ ": " ++ message

variable {α : Type} {fields : List (String × Json)} {c : Codec α} {name : String} {default : α}

theorem lookup_cons_self (j : Json) : lookup ((name, j) :: fields) name = some j := by
  simp [lookup]

theorem lookup_cons_of_ne {other : String} {j : Json} (h : (other == name) = false) :
    lookup ((other, j) :: fields) name = lookup fields name := by
  simp [lookup, h]

@[simp] theorem field_cons_self (a : α) : field ((name, c.encode a) :: fields) c name default = .ok a := by
  unfold field
  rw [lookup_cons_self]
  simp only [c.decode_encode]
  rfl

theorem field_cons_of_ne {other : String} {j : Json} (h : (other == name) = false) :
    field ((other, j) :: fields) c name default = field fields c name default := by
  unfold field
  rw [lookup_cons_of_ne h]

end Json

/-- What a value has to be like: first put into its normal form, then checked. -/
structure Rule (α : Type) where
  normalize : α → α
  normalize_idem : ∀ a, normalize (normalize a) = normalize a
  check : α → Option String

namespace Rule

variable {α : Type} (r : Rule α)

/-- The first of the messages whose condition is met. -/
def firstOf : List (Bool × String) → Option String
  | [] => none
  | (failed, message) :: rest => if failed then some message else firstOf rest

/-- Checks alone. -/
def ofCheck (check : α → Option String) : Rule α := ⟨id, fun _ => rfl, check⟩

/-- A value that the rule accepts and leaves as it is. -/
structure Valid where
  val : α
  normal : r.normalize val = val
  passes : r.check val = none

variable {r}

theorem Valid.ext_val {a b : r.Valid} (h : a.val = b.val) : a = b := by
  cases a
  cases b
  cases h
  rfl

variable (r)

def validate (a : α) : Except String r.Valid :=
  match h : r.check (r.normalize a) with
  | none => .ok ⟨r.normalize a, r.normalize_idem a, h⟩
  | some message => .error message

theorem val_of_validate {a : α} {v : r.Valid} (h : r.validate a = .ok v) : v.val = r.normalize a := by
  unfold validate at h
  split at h
  · obtain rfl := Except.ok.inj h
    rfl
  · cases h

/-- What was accepted once is accepted again, as it is. -/
theorem validate_val (a : r.Valid) : r.validate a.val = .ok a := by
  unfold validate
  split
  case h_1 h =>
    refine congrArg Except.ok (Valid.ext_val ?_)
    exact a.normal
  case h_2 message h =>
    rw [a.normal, a.passes] at h
    cases h

end Rule

/-- The fields of a section: written in this order, and read with a default for what is missing. -/
structure Layout (α : Type) where
  names : List String
  write : α → List (String × Json)
  read : List (String × Json) → Except String α
  read_write : ∀ a, read (write a) = .ok a
  read_cons : ∀ name j fields, names.contains name = false → read ((name, j) :: fields) = read fields

namespace Layout

variable {α β : Type}

def nil : Layout Unit where
  names := []
  write _ := []
  read _ := .ok ()
  read_write _ := rfl
  read_cons _ _ _ _ := rfl

def cons (name : String) (c : Codec α) (default : α) (rest : Layout β)
    (h : rest.names.contains name = false) : Layout (α × β) where
  names := name :: rest.names
  write v := (name, c.encode v.1) :: rest.write v.2
  read fields := (Json.field fields c name default).bind fun a => (rest.read fields).map (a, ·)
  read_write v := by
    rw [Json.field_cons_self, rest.read_cons _ _ _ h, rest.read_write]
    rfl
  read_cons other j fields hother := by
    rw [List.contains_cons, Bool.or_eq_false_iff] at hother
    rw [Json.field_cons_of_ne hother.1, rest.read_cons _ _ _ hother.2]

/-- The same fields for another type of values. -/
def via (l : Layout α) (build : α → β) (parts : β → α) (h : ∀ b, build (parts b) = b) : Layout β where
  names := l.names
  write b := l.write (parts b)
  read fields := (l.read fields).map build
  read_write b := by
    rw [l.read_write]
    exact congrArg Except.ok (h b)
  read_cons name j fields hname := by rw [l.read_cons _ _ _ hname]

def load (l : Layout α) (r : Rule α) : Json → Except String r.Valid
  | .dict fields => l.read fields >>= r.validate
  | _ => .error "Input should be a valid dictionary"

theorem load_write (l : Layout α) (r : Rule α) (a : r.Valid) :
    l.load r (.dict (l.write a.val)) = .ok a := by
  have hread : l.read (l.write a.val) = .ok a.val := l.read_write a.val
  simp only [load, hread]
  exact r.validate_val a

/-- A section whose values follow a rule, as a field of a larger one. -/
def codec (l : Layout α) (r : Rule α) : Codec r.Valid where
  encode a := .dict (l.write a.val)
  decode := l.load r
  decode_encode := l.load_write r

end Layout
