import ProtoTypings.Doc
import ProtoTypings.Import
import ProtoTypings.PropertyName
import ProtoTypings.Index.Typing

/-!
# Projection

The typings of a file. Each message and enum of the file is declared under its flattened name, in
pre-order; then the files that the declarations refer to are imported, and references are given the
names by which they are written. The first failure along the way is the error, unless a field before
it has a type without an end.
-/

namespace ProtoTypings

/-! ## Declarations -/

namespace File

/-- The member for the `i`-th field of a message declared at `n`. -/
def member (f : File) (ix : Index) (n : Node) (m : Message) (i : Nat) (fd : Field) :
    Outcome (Member Index.Entry) :=
  match ix.typeOf fd with
  | .error e => .error (.projection f.name (n.scope.fullName f.package ++ "." ++ fd.name) e)
  | .endless => .endless
  | .ok type => .ok {
      name := PropertyName.ofField fd.name fd.jsonName?
      type := type
      doc := f.doc (n.path ++ [2, .ofNat i]) fd.isDeprecated
      oneof := m.oneofOf? fd }

/-- The members for the fields of a message from the index `i` on. -/
def members (f : File) (ix : Index) (n : Node) (m : Message) :
    (i : Nat) → List Field → Outcome (List (Member Index.Entry))
  | _, [] => .ok []
  | i, fd :: fds => do
    let first ← f.member ix n m i fd
    let rest ← f.members ix n m (i + 1) fds
    return first :: rest

/-- The constant for the `i`-th value of an enum declared at `n`. -/
def constant (f : File) (n : Node) (i : Nat) (v : EnumValue) : Constant where
  name := v.name
  value := v.number
  doc := f.doc (n.path ++ [2, .ofNat i]) v.isDeprecated

def declaration (f : File) (ix : Index) (n : Node) : Outcome (Declaration Index.Entry) :=
  match n.body with
  | .message m => do
    let members ← f.members ix n m 0 m.fields
    return {
      name := n.scope.flatName
      fullName := n.scope.fullName f.package
      doc := f.doc n.path m.isDeprecated
      body := .interface members }
  | .enum e => .ok {
      name := n.scope.flatName
      fullName := n.scope.fullName f.package
      doc := f.doc n.path e.isDeprecated
      body := .enum (e.values.mapIdx (f.constant n)) }

/-- The declarations of the nodes; none may have a name that is taken by one before it. -/
def declareAll (f : File) (ix : Index) (taken : List String) :
    List Node → Outcome (List (Declaration Index.Entry))
  | [] => .ok []
  | n :: ns => do
    let d ← f.declaration ix n
    if d.name ∈ taken then .error (.duplicateDeclaration f.name d.name)
    else return d :: (← f.declareAll ix (d.name :: taken) ns)

def declarations (f : File) (ix : Index) : Outcome (List (Declaration Index.Entry)) :=
  f.declareAll ix [] f.declaredNodes

end File

/-! ## References -/

/-- The name by which `importer` refers to a type: qualified if another file declares it. -/
def Index.Entry.nameIn (importer : String) (imports : List Import) (e : Index.Entry) : String :=
  if e.file.name = importer then e.scope.flatName
  else (Import.qualifierOf? imports e.file.name).getD "" ++ "." ++ e.scope.flatName

/-- The other files that the declarations refer to, once for each reference. -/
def foreignFiles (importer : String) (ds : List (Declaration Index.Entry)) : List String :=
  ((ds.flatMap (·.references)).map (·.file.name)).filter (· ≠ importer)

namespace File

/-- The typings that consist of the declarations and the imports that they need. -/
def assemble (f : File) (ds : List (Declaration Index.Entry)) : Typings :=
  let imports := Import.ofFiles f.name (foreignFiles f.name ds)
  { file := f.name
    package := f.package
    level := f.level
    imports := imports
    declarations := ds.map (·.rename (Index.Entry.nameIn f.name imports)) }

def typings (f : File) (ix : Index) : Outcome Typings := do
  let ds ← f.declarations ix
  return f.assemble ds

end File

end ProtoTypings
