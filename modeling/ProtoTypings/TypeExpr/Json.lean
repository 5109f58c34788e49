import ProtoTypings.Json
import ProtoTypings.TypeExpr

/-!
# Type expressions as JSON

A type is an object whose `kind` says which; `toJson` writes it and `ofJson?` reads it back.
Members that the kind does not ask for are ignored. Reading also takes an array of the kind and the
parts that it asks for, and no more.
-/

namespace ProtoTypings.TypeExpr

def toJson : TypeExpr String → Json
  | .number => .object [("kind", .string "number")]
  | .string => .object [("kind", .string "string")]
  | .boolean => .object [("kind", .string "boolean")]
  | .bytes => .object [("kind", .string "bytes")]
  | .reference name => .object [("kind", .string "reference"), ("name", .string name)]
  | .array element => .object [("kind", .string "array"), ("element", element.toJson)]
  | .map key value =>
    .object [("kind", .string "map"), ("key", key.toJson), ("value", value.toJson)]

/-! ## Reading -/

inductive Kind where
  | number | string | boolean | bytes | reference | array | map
  deriving DecidableEq

/-- What a part of a type may be read as. -/
structure Part where
  name? : Option String
  type? : Option (TypeExpr String)

namespace Kind

def all : List Kind := [number, string, boolean, bytes, reference, array, map]

def name : Kind → String
  | number => "number"
  | string => "string"
  | boolean => "boolean"
  | bytes => "bytes"
  | reference => "reference"
  | array => "array"
  | map => "map"

/-- A kind is given by its name or by its place in `all`, from 0. -/
def ofJson? : Json → Option Kind
  | .string name => all.find? (·.name = name)
  | .number (.ofNat place) 0 => all[place]?
  | _ => none

/-- The names of the parts, in the order in which an array lists them. -/
def parts : Kind → List String
  | reference => ["name"]
  | array => ["element"]
  | map => ["key", "value"]
  | _ => []

def type? (parts : List (String × Part)) : Kind → Option (TypeExpr String)
  | number => some .number
  | string => some .string
  | boolean => some .boolean
  | bytes => some .bytes
  | reference => do return .reference (← (← parts.lookup "name").name?)
  | array => do return .array (← (← parts.lookup "element").type?)
  | map => do return .map (← (← parts.lookup "key").type?) (← (← parts.lookup "value").type?)

end Kind

mutual

/-- Reads a type that is part of another value. -/
def ofPart? : Json → Option (TypeExpr String)
  | .object members => do
    (← Kind.ofJson? (← members.lookup "kind")).type? (ofMembers members)
  | .array (tag :: items) => do
    let kind ← Kind.ofJson? tag
    kind.type? (← Json.named? kind.parts (ofItems items))
  | _ => none

def ofMembers : List (String × Json) → List (String × Part)
  | [] => []
  | (key, j) :: members => (key, ⟨j.string?, ofPart? j⟩) :: ofMembers members

def ofItems : List Json → List Part
  | [] => []
  | j :: items => ⟨j.string?, ofPart? j⟩ :: ofItems items

end

/-- Reads a type that stands by itself: the place of a kind does not do for its name there. -/
def ofJson? (j : Json) : Option (TypeExpr String) := do
  let (tag, _) ← j.tagged?
  let _ ← tag.string?
  ofPart? j

end ProtoTypings.TypeExpr
