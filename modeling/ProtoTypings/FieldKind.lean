import ProtoTypings.Descriptor
import ProtoTypings.TypeExpr

/-!
# Kinds of fields

The kinds of protobuf fields by their numbers, and the type of the scalar ones.
-/

namespace ProtoTypings

inductive FieldKind where
  | double | float | int64 | uint64 | int32 | fixed64 | fixed32 | bool | string | group | message
  | bytes | uint32 | enum | sfixed32 | sfixed64 | sint32 | sint64
  deriving DecidableEq

namespace FieldKind

def ofNumber? (n : Int32) : Option FieldKind :=
  match n.toInt with
  | 1 => some double
  | 2 => some float
  | 3 => some int64
  | 4 => some uint64
  | 5 => some int32
  | 6 => some fixed64
  | 7 => some fixed32
  | 8 => some bool
  | 9 => some string
  | 10 => some group
  | 11 => some message
  | 12 => some bytes
  | 13 => some uint32
  | 14 => some enum
  | 15 => some sfixed32
  | 16 => some sfixed64
  | 17 => some sint32
  | 18 => some sint64
  | _ => none

def is64Bit : FieldKind → Bool
  | int64 | uint64 | fixed64 | sfixed64 | sint64 => true
  | _ => false

/-- The type of a scalar kind. `asString` matters for 64-bit integers only. -/
def scalar? {ρ : Type} (asString : Bool) : FieldKind → Option (TypeExpr ρ)
  | bool => some .boolean
  | string => some .string
  | bytes => some .bytes
  | group | message | enum => none
  | kind => some (if kind.is64Bit && asString then .string else .number)

end FieldKind

/-- The type of one value of a field, if the kind of the field alone decides it. A field of no
known kind is taken to refer to a declared type. -/
def Field.scalar? {ρ : Type} (f : Field) : Option (TypeExpr ρ) :=
  (f.kind?.bind FieldKind.ofNumber?).bind (·.scalar? f.asString)

end ProtoTypings
