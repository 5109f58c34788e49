import ProtoTypings.FieldKind
import ProtoTypings.Index
import ProtoTypings.Outcome

/-!
# Types of fields

The type of the property for a field. References to declared types are index entries, so that they
say which file defines the type; how they are written is decided later. A map entry with a repeated
key or value that leads back to it has no end, and then nothing comes of looking for the type.
-/

namespace ProtoTypings.Index

/-- The type of a field, where `mapType` gives the type of a map. -/
def typeWith (ix : Index) (mapType : Entry → Message → Outcome (TypeExpr Entry)) (f : Field) :
    Outcome (TypeExpr Entry) :=
  match f.scalar? with
  | some type => .ok (if f.isRepeated then .array type else type)
  | none =>
    match ix.find f.typeName with
    | .error e => .error e
    | .ok entry =>
      if f.isRepeated then
        match entry.mapMessage? with
        | some m => mapType entry m
        | none => .ok (.array (.reference entry))
      else .ok (.reference entry)

/-- The type of a map: the first field numbered 1 of its entry is the key and the first numbered 2
the value. It is endless unless `depth` maps inside one another are enough. -/
def mapType (ix : Index) : (depth : Nat) → Entry → Message → Outcome (TypeExpr Entry)
  | 0, _, _ => .endless
  | depth + 1, entry, m =>
    match m.fieldNumbered? 1, m.fieldNumbered? 2 with
    | some key, some value => do
      let keyType ← ix.typeWith (ix.mapType depth) key
      let valueType ← ix.typeWith (ix.mapType depth) value
      return .map keyType valueType
    | _, _ => .error (.malformedMapEntry entry.fullName)

/-- Maps inside one another that outnumber the types repeat one of them, and so they have no end. -/
def typeOf (ix : Index) (f : Field) : Outcome (TypeExpr Entry) :=
  ix.typeWith (ix.mapType ix.size) f

end ProtoTypings.Index
