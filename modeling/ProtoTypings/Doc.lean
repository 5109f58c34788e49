import ProtoTypings.Descriptor
import ProtoTypings.Text.Blank
import ProtoTypings.Text.Segment

/-!
# Documentation

The lines of documentation for a part of a file, taken from the comments around it. Lines are
trimmed, blank lines at both ends dropped, and a line cannot end the comment block it is put into.
-/

namespace ProtoTypings

namespace Doc

/-- A backslash goes between an asterisk and a slash. -/
def escape : List Char → List Char
  | '*' :: '/' :: cs => '*' :: '\\' :: '/' :: escape cs
  | c :: cs => c :: escape cs
  | [] => []

def dropEmptyEnds (ls : List (List Char)) : List (List Char) :=
  ((ls.dropWhile List.isEmpty).reverse.dropWhile List.isEmpty).reverse

/-- Lines end at line feeds only; a carriage return before one is a blank at the end of a line. -/
def normalLines (comment : List Char) : List (List Char) :=
  (dropEmptyEnds ((Text.split '\n' comment).map Text.trim)).map escape

def lines (comment : String) : List String := (normalLines comment.toList).map String.ofList

def deprecated : String := "@deprecated"

/-- An empty line keeps the mark of a deprecated part apart from its comment. -/
def mark (isDeprecated : Bool) (ls : List String) : List String :=
  if isDeprecated then (if ls = [] then [deprecated] else ls ++ ["", deprecated]) else ls

end Doc

/-- A trailing comment counts only where there is no leading one, not even a blank one. -/
def Location.docLines (l : Location) : List String :=
  match l.leading? <|> l.trailing? with
  | none => []
  | some comment => Doc.lines comment

namespace File

/-- Of several locations with one path, the last whose comment is not blank counts. -/
def docLines (f : File) (path : List Int32) : List String :=
  let found := (f.locations.filter (·.path == path)).map Location.docLines
  ((found.filter (!·.isEmpty)).getLast?).getD []

def doc (f : File) (path : List Int32) (isDeprecated : Bool) : List String :=
  Doc.mark isDeprecated (f.docLines path)

end File

end ProtoTypings
