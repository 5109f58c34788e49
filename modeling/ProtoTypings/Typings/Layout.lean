import ProtoTypings.Error
import ProtoTypings.Typings

/-!
# Layout

The text of a generated file, as a list of lines that each end in a line feed: a banner, the
imports, and the declarations in order, each with its documentation above it. Nothing is escaped,
so a name that holds a line feed spreads over several lines.
-/

namespace ProtoTypings

def docLine (indent line : String) : String :=
  indent ++ if line = "" then " *" else " * " ++ line

/-- No documentation makes no block. -/
def docBlock (indent : String) : List String → List String
  | [] => []
  | doc => (indent ++ "/**") :: doc.map (docLine indent) ++ [indent ++ " */"]

def Member.line (m : Member String) : String :=
  "  " ++ m.name ++ "?: " ++ m.type.text ++ ";" ++
    match m.oneof with
    | none => ""
    | some group => if group = "" then "" else " // oneof " ++ group

def Constant.line (c : Constant) : String :=
  "  " ++ c.name ++ " = " ++ toString c.value.toInt ++ ","

namespace Declaration

def Body.keyword {ρ : Type} : Body ρ → String
  | .interface _ => "interface"
  | .enum _ => "enum"

def Body.lines : Body String → List String
  | .interface members => members.flatMap fun m => docBlock "  " m.doc ++ [m.line]
  | .enum constants => constants.flatMap fun c => docBlock "  " c.doc ++ [c.line]

def lines (d : Declaration String) : List String :=
  docBlock "" d.doc ++ ("export " ++ d.body.keyword ++ " " ++ d.name ++ " \x7b") :: d.body.lines ++
    ["\x7d"]

end Declaration

def Import.line (i : Import) : String :=
  "import * as " ++ i.qualifier ++ " from \"" ++ i.specifier ++ "\";"

namespace Typings

def banner (t : Typings) : List String :=
  "// GENERATED CODE -- DO NOT EDIT!" ::
    (if t.package = "" then [] else ["// package: " ++ t.package]) ++ ["// file: " ++ t.file]

def importLines (t : Typings) : List String :=
  if t.imports = [] then [] else "" :: t.imports.map Import.line

def lines (t : Typings) : List String :=
  t.banner ++ t.importLines ++ t.declarations.flatMap fun d => "" :: d.lines

def text (t : Typings) : String := String.join (t.lines.map (· ++ "\n"))

/-- The name of the one template there is. -/
def template : String := "proto_tsd.d.ts"

def render (name : String) (t : Typings) : Except Error String :=
  if name = template then .ok t.text
  else .error (.render name ("Template '" ++ name ++ "' not found"))

end Typings

end ProtoTypings
