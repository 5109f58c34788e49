import ProtoTypings.Identifier
import ProtoTypings.Text.UpperCase

/-!
# Property names

The name of the interface property for a field: its JSON name, or its own name in lower camel case,
as a string literal where it is no identifier.
-/

namespace ProtoTypings.PropertyName

/-- Underscores vanish, and a character after one is upper-cased; `afterUnderscore` says whether
the text before `cs` ends in one. -/
def camel (afterUnderscore : Bool) : List Char → List Char
  | [] => []
  | c :: cs =>
    if c = '_' then camel true cs
    else (if afterUnderscore then Text.upper c else [c]) ++ camel false cs

def lowerCamel (s : String) : String := String.ofList (camel false s.toList)

/-- A backslash goes before each quote and each backslash; nothing else changes. -/
def escape : List Char → List Char
  | [] => []
  | c :: cs => if c = '"' ∨ c = '\\' then '\\' :: c :: escape cs else c :: escape cs

def quote (s : String) : String := String.ofList ('"' :: escape s.toList ++ ['"'])

/-- A JSON name that is empty counts as absent. -/
def unquoted (fieldName : String) (jsonName : Option String) : String :=
  match jsonName with
  | none => lowerCamel fieldName
  | some json => if json = "" then lowerCamel fieldName else json

theorem unquoted_of_ne {json : String} (h : json ≠ "") (fieldName : String) :
    unquoted fieldName (some json) = json := if_neg h

theorem unquoted_of_eq_empty {jsonName : Option String}
    (h : ∀ json, jsonName = some json → json = "") (fieldName : String) :
    unquoted fieldName jsonName = lowerCamel fieldName := by
  cases jsonName with
  | none => rfl
  | some json => exact if_pos (h json rfl)

def ofField (fieldName : String) (jsonName : Option String) : String :=
  let name := unquoted fieldName jsonName
  if Identifier.isValid name then name else quote name

end ProtoTypings.PropertyName
