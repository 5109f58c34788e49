import ProtoTypings.Text.Segment

/-!
# Source paths

The names that follow from the path of a `.proto` file: the file generated for it, the identifier
that qualifies its types where they are imported, and the specifier by which another generated file
imports it. Directories are separated by `/`, and paths are relative to one common root.
-/

namespace ProtoTypings.SourcePath

def extension : List Char := ['.', 'p', 'r', 'o', 't', 'o']

def stemChars (cs : List Char) : List Char :=
  if extension.isSuffixOf cs then cs.take (cs.length - extension.length) else cs

/-- The path without one `.proto` at its end. -/
def stem (path : String) : String := String.ofList (stemChars path.toList)

def outputPath (path : String) : String := stem path ++ ".d.ts"

def qualifierChars (cs : List Char) : List Char :=
  cs.map (fun c => if c.isAlphanum then c else '_') ++ ['_', 'p', 'b']

/-- An identifier made from the stem; different paths may share it. -/
def qualifier (path : String) : String :=
  let cs := qualifierChars (stemChars path.toList)
  String.ofList (if cs.head?.any Char.isDigit then '_' :: cs else cs)

/-! ## Specifiers -/

/-- How many leading elements two lists share. -/
def commonLength {α : Type} [DecidableEq α] : List α → List α → Nat
  | a :: as, b :: bs => if a = b then commonLength as bs + 1 else 0
  | _, _ => 0

def directories (cs : List Char) : List (List Char) := (Text.split '/' cs).dropLast

/-- Climbs from `dirs` to the last directory shared with `target`, or stays where there is nothing
to climb, and goes down to `target`, whose last segment is the file. -/
def relative (dirs target : List (List Char)) : List (List Char) :=
  let common := commonLength dirs target.dropLast
  let climbs := dirs.length - common
  (if climbs = 0 then [['.']] else List.replicate climbs ['.', '.']) ++ target.drop common

/-- The module specifier of the file generated for `target`, as the file generated for `importer`
has to write it. -/
def specifier (importer target : String) : String :=
  String.ofList <| List.intercalate ['/'] <|
    relative (directories importer.toList) (Text.split '/' (stemChars target.toList))

end ProtoTypings.SourcePath
