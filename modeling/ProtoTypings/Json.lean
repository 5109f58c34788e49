/-!
# JSON values

A JSON value, and reading the parts of one. Every reader fails on a value of another kind.
-/

namespace ProtoTypings

inductive Json where
  | null
  | bool (b : Bool)
  /-- `mantissa` with its last `decimals` digits written after the point. -/
  | number (mantissa : Int) (decimals : Nat)
  | string (s : String)
  | array (items : List Json)
  | object (members : List (String × Json))
  deriving Inhabited

namespace Json

def int32 (n : Int32) : Json := .number n.toInt 0

def strings (ss : List String) : Json := .array (ss.map .string)

def string? : Json → Option String
  | .string s => some s
  | _ => none

/-- A number written with a point is no integer, even where no other digit than 0 follows it. -/
def int32? : Json → Option Int32
  | .number n 0 => if (Int32.ofInt n).toInt = n then some (.ofInt n) else none
  | _ => none

def array? : Json → Option (List Json)
  | .array items => some items
  | _ => none

def strings? (j : Json) : Option (List String) := j.array?.bind (·.mapM string?)

/-! ## Records

A value made of named parts is an object that has them as members, among others perhaps. It may also
be an array of the parts alone. A value that comes in several forms has a tag that says which: the
`kind` of an object, and ahead of the parts in an array.
-/

/-- One item for each name, in the order of the names. -/
def named? {α : Type} (names : List String) (items : List α) : Option (List (String × α)) :=
  if items.length = names.length then some (names.zip items) else none

def parts? (names : List String) : Json → Option (List (String × Json))
  | .object members => some members
  | .array items => named? names items
  | _ => none

/-- The tag of a value, and the value that holds the parts. -/
def tagged? : Json → Option (Json × Json)
  | .object members => (members.lookup "kind").map (·, .object members)
  | .array (tag :: items) => some (tag, .array items)
  | _ => none

end Json

end ProtoTypings
