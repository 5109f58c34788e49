import ProtoTypings.TypeExpr.Json
import ProtoTypings.Typings

/-!
# Typings as JSON

Every part of the typings is an object. Reading one asks for all the members that writing it puts
in, save that a `oneof` may be left out; further members are ignored. Reading also takes an array in
place of an object: all that writing puts in, in the same order, and no more.
-/

namespace ProtoTypings

namespace Member

def toJson (m : Member String) : Json :=
  .object [("name", .string m.name), ("ts_type", m.type.toJson), ("doc", .strings m.doc),
    ("oneof", m.oneof.elim .null .string)]

/-- The group of a member: null and nothing at all both say that there is none. -/
def oneof? : Option Json → Option (Option String)
  | none | some .null => some none
  | some j => j.string?.map some

def ofJson? (j : Json) : Option (Member String) := do
  let parts ← j.parts? ["name", "ts_type", "doc", "oneof"]
  let name ← (← parts.lookup "name").string?
  let type ← TypeExpr.ofPart? (← parts.lookup "ts_type")
  let doc ← (← parts.lookup "doc").strings?
  let oneof ← oneof? (parts.lookup "oneof")
  return { name, type, doc, oneof }

end Member

namespace Constant

def toJson (c : Constant) : Json :=
  .object [("name", .string c.name), ("value", .int32 c.value), ("doc", .strings c.doc)]

def ofJson? (j : Json) : Option Constant := do
  let parts ← j.parts? ["name", "value", "doc"]
  let name ← (← parts.lookup "name").string?
  let value ← (← parts.lookup "value").int32?
  let doc ← (← parts.lookup "doc").strings?
  return { name, value, doc }

end Constant

namespace Declaration

def Body.kind {ρ : Type} : Body ρ → String
  | .interface _ => "interface"
  | .enum _ => "enum"

def Body.toJson : Body String → String × Json
  | .interface members => ("members", .array (members.map Member.toJson))
  | .enum constants => ("constants", .array (constants.map Constant.toJson))

def toJson (d : Declaration String) : Json :=
  .object [("kind", .string d.body.kind), ("name", .string d.name),
    ("full_name", .string d.fullName), ("doc", .strings d.doc), d.body.toJson]

/-- The part that holds the body of a declaration of a kind. -/
def Body.part? : String → Option String
  | "interface" => some "members"
  | "enum" => some "constants"
  | _ => none

def Body.ofItems? (items : List Json) : String → Option (Body String)
  | "interface" => do return .interface (← items.mapM Member.ofJson?)
  | "enum" => do return .enum (← items.mapM Constant.ofJson?)
  | _ => none

def ofJson? (j : Json) : Option (Declaration String) := do
  let (tag, content) ← j.tagged?
  let kind ← tag.string?
  let part ← Body.part? kind
  let parts ← content.parts? ["name", "full_name", "doc", part]
  let name ← (← parts.lookup "name").string?
  let fullName ← (← parts.lookup "full_name").string?
  let doc ← (← parts.lookup "doc").strings?
  let body ← Body.ofItems? (← (← parts.lookup part).array?) kind
  return { name, fullName, doc, body }

end Declaration

namespace Import

def toJson (i : Import) : Json :=
  .object [("alias", .string i.qualifier), ("path", .string i.specifier),
    ("file_name", .string i.file)]

def ofJson? (j : Json) : Option Import := do
  let parts ← j.parts? ["alias", "path", "file_name"]
  let qualifier ← (← parts.lookup "alias").string?
  let specifier ← (← parts.lookup "path").string?
  let file ← (← parts.lookup "file_name").string?
  return { qualifier, specifier, file }

end Import

namespace Typings

def toJson (t : Typings) : Json :=
  .object [("file_name", .string t.file), ("package", .string t.package),
    ("syntax", .string t.level), ("imports", .array (t.imports.map Import.toJson)),
    ("declarations", .array (t.declarations.map Declaration.toJson))]

def ofJson? (j : Json) : Option Typings := do
  let parts ← j.parts? ["file_name", "package", "syntax", "imports", "declarations"]
  let file ← (← parts.lookup "file_name").string?
  let package ← (← parts.lookup "package").string?
  let level ← (← parts.lookup "syntax").string?
  let imports ← (← (← parts.lookup "imports").array?).mapM Import.ofJson?
  let declarations ← (← (← parts.lookup "declarations").array?).mapM Declaration.ofJson?
  return { file, package, level, imports, declarations }

end Typings

end ProtoTypings
