import ProtoTypings.SourcePath
import ProtoTypings.Typings

/-!
# Imports

The imports of a generated file: one for each other file that it refers to, in the order of the
first references. Files whose paths give the same qualifier are told apart by a number.
-/

namespace ProtoTypings.Import

/-- `base` itself, and `base` followed by 2, 3 and so on; one more than there are taken names. -/
def candidates (taken : Nat) (base : String) : List String :=
  base :: (List.range taken).map fun n => base ++ toString (n + 2)

/-- The first candidate that is not taken. -/
def freeQualifier (taken : List String) (base : String) : String :=
  ((candidates taken.length base).find? (· ∉ taken)).getD base

/-- The imports of `importer` with one for `file` among them. -/
def add (importer : String) (imports : List Import) (file : String) : List Import :=
  if imports.any (·.file == file) then imports
  else imports ++ [{
    qualifier := freeQualifier (imports.map (·.qualifier)) (SourcePath.qualifier file)
    specifier := SourcePath.specifier importer file
    file := file }]

def ofFiles (importer : String) (files : List String) : List Import :=
  files.foldl (add importer) []

def qualifierOf? (imports : List Import) (file : String) : Option String :=
  (imports.find? (·.file == file)).map (·.qualifier)

end ProtoTypings.Import
