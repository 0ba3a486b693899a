import Mnema.Lib.Document
import Mathlib.Tactic.DeriveEncodable
import Mathlib.Logic.Equiv.List
import Mathlib.Data.Rat.Encodable

/-! Documents as texts, some way that can be read back. -/

namespace Json

/-- A document with its lists and dictionaries as chains. -/
inductive Node where
  | null
  | bool (b : Bool)
  | num (q : ℚ)
  | str (codes : List ℕ)
  | list (items : Node)
  | dict (fields : Node)
  | nil
  | item (value rest : Node)
  | field (key : List ℕ) (value rest : Node)
deriving Encodable

def codes (s : String) : List ℕ := s.toList.map Char.toNat

def ofCodes (codes : List ℕ) : String := String.ofList (codes.map Char.ofNat)

theorem ofCodes_codes (s : String) : ofCodes (codes s) = s := by
  have hid : (Char.ofNat ∘ Char.toNat) = id := funext Char.ofNat_toNat
  rw [ofCodes, codes, List.map_map, hid, List.map_id, String.ofList_toList]

mutual

def node : Json → Node
  | .null => .null
  | .bool b => .bool b
  | .num q => .num q
  | .str s => .str (codes s)
  | .list items => .list (itemNodes items)
  | .dict fields => .dict (fieldNodes fields)

def itemNodes : List Json → Node
  | [] => .nil
  | value :: rest => .item (node value) (itemNodes rest)

def fieldNodes : List (String × Json) → Node
  | [] => .nil
  | (key, value) :: rest => .field (codes key) (node value) (fieldNodes rest)

end

mutual

def Node.json : Node → Json
  | .bool b => .bool b
  | .num q => .num q
  | .str codes => .str (ofCodes codes)
  | .list items => .list items.items
  | .dict fields => .dict fields.fields
  | _ => .null

def Node.items : Node → List Json
  | .item value rest => value.json :: rest.items
  | _ => []

def Node.fields : Node → List (String × Json)
  | .field key value rest => (ofCodes key, value.json) :: rest.fields
  | _ => []

end

mutual

theorem json_node : (j : Json) → (node j).json = j
  | .null => rfl
  | .bool _ => rfl
  | .num _ => rfl
  | .str s => congrArg str (ofCodes_codes s)
  | .list items => congrArg list (items_itemNodes items)
  | .dict fields => congrArg dict (fields_fieldNodes fields)

theorem items_itemNodes : (items : List Json) → (itemNodes items).items = items
  | [] => rfl
  | value :: rest => congrArg₂ List.cons (json_node value) (items_itemNodes rest)

theorem fields_fieldNodes : (fields : List (String × Json)) → (fieldNodes fields).fields = fields
  | [] => rfl
  | (key, value) :: rest =>
    congrArg₂ List.cons (congrArg₂ Prod.mk (ofCodes_codes key) (json_node value)) (fields_fieldNodes rest)

end

def text (j : Json) : String := String.ofList (List.replicate (Encodable.encode (node j)) '-')

def ofText (s : String) : Except String Json :=
  match (Encodable.decode s.toList.length : Option Node) with
  | some node => .ok node.json
  | none => .error "not a document"

theorem ofText_text (j : Json) : ofText (text j) = .ok j := by
  have hlength : (text j).toList.length = Encodable.encode (node j) := by
    rw [text, String.toList_ofList, List.length_replicate]
  rw [ofText, hlength, Encodable.encodek]
  exact congrArg Except.ok (json_node j)

end Json
