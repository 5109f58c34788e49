import ProtoTypings.Json

/-!
# Templates

A text with slots that values fill. The values are JSON: a slot names a bound value and members of
it. Filling a template fails where a slot has no value, or one of another kind than is asked for
there.
-/

namespace ProtoTypings

namespace Json

def member? (name : String) : Json → Option Json
  | .object members => members.lookup name
  | _ => none

/-- Whether there is something to the value. -/
def isFilled : Json → Bool
  | .null => false
  | .bool b => b
  | .number mantissa _ => mantissa != 0
  | .string s => s != ""
  | .array items => !items.isEmpty
  | .object members => !members.isEmpty

/-- The value put into a text. Only texts and whole numbers can be. -/
def written? : Json → Option String
  | .string s => some s
  | .number n 0 => some (toString n)
  | _ => none

end Json

namespace Template

/-- The latest name comes first. -/
abbrev Bindings := List (String × Json)

/-- The value of a name, or the member that the further names lead to from there. -/
structure Slot where
  name : String
  members : List String

def Slot.find? (bindings : Bindings) (slot : Slot) : Option Json :=
  (bindings.lookup slot.name).bind fun j => slot.members.foldlM (fun j name => j.member? name) j

/-- Turns one value into another; it may refuse a value. -/
abbrev Filter := Json → Option Json

abbrev Filters := String → Option Filter

inductive Test where
  | filled (slot : Slot)
  | equals (slot : Slot) (text : String)

/-- A slot without a value is not filled, and cannot be compared. -/
def Test.holds? (bindings : Bindings) : Test → Option Bool
  | filled slot => some ((slot.find? bindings).elim false Json.isFilled)
  | equals slot text => (slot.find? bindings).map fun j => j.string? == some text

inductive Piece where
  | text (s : String)
  | value (slot : Slot)
  | filtered (slot : Slot) (filter : String)
  | choice (test : Test) (pieces otherwise : List Piece)
  /-- The pieces once for each item of an array, with the name bound to the item. -/
  | each (name : String) (slot : Slot) (pieces : List Piece)

mutual

def Piece.fill? (filters : Filters) (bindings : Bindings) : Piece → Option String
  | .text s => some s
  | .value slot => do (← slot.find? bindings).written?
  | .filtered slot filter => do (← (← filters filter) (← slot.find? bindings)).written?
  | .choice test pieces otherwise => do
    if ← test.holds? bindings then fill? filters bindings pieces
    else fill? filters bindings otherwise
  | .each name slot pieces => do
    let items ← (← slot.find? bindings).array?
    return .join (← items.mapM fun item => fill? filters ((name, item) :: bindings) pieces)

/-- The text that the pieces make one after another. -/
def fill? (filters : Filters) (bindings : Bindings) : List Piece → Option String
  | [] => some ""
  | piece :: pieces => do
    let first ← piece.fill? filters bindings
    let rest ← fill? filters bindings pieces
    return first ++ rest

end

end Template

end ProtoTypings
