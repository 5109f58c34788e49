/-!
# Type expressions

The types of interface properties. `ρ` is what a reference to a declared type holds: where the type
is defined, or the name it is written by. `text` is the TypeScript form.
-/

namespace ProtoTypings

inductive TypeExpr (ρ : Type) where
  | number
  | string
  | boolean
  | bytes
  | reference (r : ρ)
  | array (element : TypeExpr ρ)
  | map (key value : TypeExpr ρ)
  deriving DecidableEq

namespace TypeExpr

variable {ρ σ : Type}

/-- The references of a type from left to right; a key counts although it is not written. -/
def references : TypeExpr ρ → List ρ
  | .reference r => [r]
  | .array element => element.references
  | .map key value => key.references ++ value.references
  | _ => []

def rename (f : ρ → σ) : TypeExpr ρ → TypeExpr σ
  | .number => .number
  | .string => .string
  | .boolean => .boolean
  | .bytes => .bytes
  | .reference r => .reference (f r)
  | .array element => .array (element.rename f)
  | .map key value => .map (key.rename f) (value.rename f)

/-- An index signature takes number keys or string keys only. -/
def keyText : TypeExpr ρ → String
  | .number => "number"
  | _ => "string"

def text : TypeExpr String → String
  | .number => "number"
  | .string => "string"
  | .boolean => "boolean"
  | .bytes => "Uint8Array"
  | .reference name => name
  | .array element => element.text ++ "[]"
  | .map key value => "\x7b [key: " ++ key.keyText ++ "]: " ++ value.text ++ " \x7d"

end TypeExpr

end ProtoTypings
