import ProtoTypings.Projection
import ProtoTypings.Typings.Layout

/-!
# Generation

From a request to a response: one generated file for each target, in the order of the targets, or
the first error, or nothing at all where the projection of a target never ends. The text of a file
is made by a renderer, and a run records which calls were made to it.
-/

namespace ProtoTypings

structure GeneratedFile where
  name : String
  content : String
  deriving DecidableEq

structure Response where
  error? : Option String := none
  /-- A set of features, one in each bit; the lowest is support for optional fields. -/
  features : UInt64
  files : List GeneratedFile
  deriving DecidableEq

def Response.ofFiles (files : List GeneratedFile) : Response where
  features := 1
  files := files

/-! ## Runs -/

/-- The text for the typings, by the template with the given name. -/
abbrev Renderer := (template : String) → Typings → Except Error String

structure Call where
  template : String
  typings : Typings
  deriving DecidableEq

/-- The calls made to the renderer on the way, in order, and what came of it all. -/
structure Run (α : Type) where
  calls : List Call
  outcome : Outcome α

namespace Run

variable {α β : Type}

def fail (e : Error) : Run α := { calls := [], outcome := .error e }

def map (f : α → β) (r : Run α) : Run β := { calls := r.calls, outcome := r.outcome.map f }

/-- One run for each element; none follows one that fails or never ends. -/
def each (step : α → Run β) : List α → Run (List β)
  | [] => { calls := [], outcome := .ok [] }
  | a :: as =>
    match step a with
    | { calls, outcome := .error e } => { calls, outcome := .error e }
    | { calls, outcome := .endless } => { calls, outcome := .endless }
    | { calls, outcome := .ok b } =>
      let rest := each step as
      { calls := calls ++ rest.calls, outcome := rest.outcome.map (b :: ·) }

end Run

/-! ## Responses -/

namespace Renderer

def call (renderer : Renderer) (typings : Typings) : Run String where
  calls := [{ template := Typings.template, typings := typings }]
  outcome := .ofExcept (renderer Typings.template typings)

/-- The generated file for one target. -/
def generateFile (renderer : Renderer) (ix : Index) (target : String) : Run GeneratedFile :=
  match ix.file? target with
  | none => .fail (.missingFile target)
  | some file =>
    match file.typings ix with
    | .error e => .fail e
    | .endless => { calls := [], outcome := .endless }
    | .ok typings =>
      (renderer.call typings).map fun content =>
        { name := SourcePath.outputPath target, content := content }

def respond (renderer : Renderer) (request : Request) : Run Response :=
  match Index.ofFiles request.files with
  | .error e => .fail e
  | .ok ix => (Run.each (renderer.generateFile ix) request.targets).map .ofFiles

end Renderer

end ProtoTypings
