import ProtoTypings.Declaration

/-!
# Typings

All that one generated file says: its source, the files it imports and its declarations, in the
order in which they are written.
-/

namespace ProtoTypings

/-- `import * as qualifier from "specifier"`, for the types declared in `file`. -/
structure Import where
  qualifier : String
  specifier : String
  file : String
  deriving DecidableEq

structure Typings where
  file : String
  package : String
  /-- The language level of the source: `proto2`, `proto3` or `editions`. -/
  level : String
  imports : List Import
  declarations : List (Declaration String)
  deriving DecidableEq

end ProtoTypings
