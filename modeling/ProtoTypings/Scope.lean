import ProtoTypings.Identifier

/-!
# Scopes

Where a message or an enum is declared: the simple names from the outermost enclosing message down
to the type itself. `fullName` is the dotted name by which fields refer to the type, and
`flatName` the flat name under which the type is declared in TypeScript.
-/

namespace ProtoTypings

abbrev Scope := List String

/-- An empty package adds nothing in front of the scope. -/
def Scope.fullName (package : String) (s : Scope) : String :=
  if package = "" then ".".intercalate s else package ++ "." ++ ".".intercalate s

/-- `$` never occurs in a protobuf name, so it keeps the components apart. -/
def Scope.flatten (s : Scope) : String := "$".intercalate s

def Scope.flatName (s : Scope) : String := Identifier.avoidReserved s.flatten

end ProtoTypings
