import ProtoTypings.Template
import ProtoTypings.Typings.Json

/-!
# The template of a generated file

The template that typings fill with their JSON form. Each piece of text starts with the line feed
that ends the line before. A type is read back from its JSON form to be written.
-/

namespace ProtoTypings

def TypeExpr.filter : Template.Filter := fun j => (ofJson? j).map (.string ·.text)

namespace Typings

def filters : Template.Filters := fun name =>
  if name = "ts_type" then some TypeExpr.filter else none

def docPieces (indent : String) (doc : Template.Slot) : List Template.Piece := [
  .choice (.filled doc) [
    .text ("\n" ++ indent ++ "/**"),
    .each "line" doc [
      .text ("\n" ++ indent ++ " *"),
      .choice (.filled ⟨"line", []⟩) [.text " ", .value ⟨"line", []⟩] []],
    .text ("\n" ++ indent ++ " */")] []]

def memberPieces : List Template.Piece :=
  docPieces "  " ⟨"member", ["doc"]⟩ ++ [
    .text "\n  ", .value ⟨"member", ["name"]⟩,
    .text "?: ", .filtered ⟨"member", ["ts_type"]⟩ "ts_type", .text ";",
    .choice (.filled ⟨"member", ["oneof"]⟩)
      [.text " // oneof ", .value ⟨"member", ["oneof"]⟩] []]

def constantPieces : List Template.Piece :=
  docPieces "  " ⟨"constant", ["doc"]⟩ ++ [
    .text "\n  ", .value ⟨"constant", ["name"]⟩,
    .text " = ", .value ⟨"constant", ["value"]⟩, .text ","]

def bodyPieces (keyword item items : String) (pieces : List Template.Piece) :
    List Template.Piece := [
  .text ("\nexport " ++ keyword ++ " "), .value ⟨"decl", ["name"]⟩,
  .text " \x7b", .each item ⟨"decl", [items]⟩ pieces, .text "\n\x7d"]

def declarationPieces : List Template.Piece :=
  .text "\n" :: docPieces "" ⟨"decl", ["doc"]⟩ ++ [
    .choice (.equals ⟨"decl", ["kind"]⟩ "interface")
      (bodyPieces "interface" "member" "members" memberPieces)
      (bodyPieces "enum" "constant" "constants" constantPieces)]

def packagePieces : List Template.Piece := [
  .choice (.filled ⟨"package", []⟩) [.text "\n// package: ", .value ⟨"package", []⟩] []]

def importPieces : List Template.Piece := [
  .choice (.filled ⟨"imports", []⟩) [
    .text "\n",
    .each "dep" ⟨"imports", []⟩ [
      .text "\nimport * as ", .value ⟨"dep", ["alias"]⟩,
      .text " from \"", .value ⟨"dep", ["path"]⟩, .text "\";"]] []]

def pieces : List Template.Piece :=
  .text "// GENERATED CODE -- DO NOT EDIT!" :: packagePieces ++
    .text "\n// file: " :: .value ⟨"file_name", []⟩ :: importPieces ++
    [.each "decl" ⟨"declarations", []⟩ declarationPieces, .text "\n"]

/-- The members of the typings are the names that are bound. -/
def fillTemplate? : Json → Option String
  | .object members => Template.fill? filters members pieces
  | _ => none

end Typings

end ProtoTypings
