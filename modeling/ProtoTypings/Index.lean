import ProtoTypings.Error
import ProtoTypings.Node

/-!
# Index of types

The files of a request, and for each message and enum in them, by its full name, where it is
defined. No two files share a name, and no two types share a full name: the first clash in the
order of the files is an error.
-/

namespace ProtoTypings

namespace Index

/-- A type and the file that defines it. -/
structure Entry where
  file : File
  /-- The dotted name, without a leading dot. -/
  fullName : String
  scope : Scope
  body : Node.Body

/-- The message, if the entry is one that stands for a map. -/
def Entry.mapMessage? (e : Entry) : Option Message :=
  match e.body with
  | .message m => if m.isMapEntry then some m else none
  | .enum _ => none

end Index

structure Index where
  files : List File
  entries : List Index.Entry

def File.entries (f : File) : List Index.Entry :=
  f.allNodes.map fun n =>
    { file := f, fullName := n.scope.fullName f.package, scope := n.scope, body := n.body }

namespace Index

/-! ## Clashes -/

/-- What takes up a name that nothing else may have: a file or a type. -/
inductive Definition where
  | file (f : File)
  | type (e : Entry)

namespace Definition

/-- Definitions with the same key exclude each other. -/
def key : Definition → String ⊕ String
  | .file f => .inl f.name
  | .type e => .inr e.fullName

def owner : Definition → File
  | .file f => f
  | .type e => e.file

/-- The error for a definition that comes after `first`. -/
def clash (first : Definition) : Definition → Error
  | .file f => .duplicateFile f.name
  | .type e => .duplicateType e.fullName first.owner.name e.file.name

end Definition

/-- The error for the first definition that excludes one before it or one of `earlier`. -/
def clash? (earlier : List Definition) : List Definition → Option Error
  | [] => none
  | d :: ds =>
    match earlier.find? (·.key == d.key) with
    | some first => some (first.clash d)
    | none => clash? (d :: earlier) ds

end Index

def File.definitions (f : File) : List Index.Definition := .file f :: f.entries.map .type

namespace Index

/-! ## Building and looking up -/

def ofFiles (files : List File) : Except Error Index :=
  match clash? [] (files.flatMap File.definitions) with
  | some e => .error e
  | none => .ok { files := files, entries := files.flatMap File.entries }

/-- The number of types. -/
def size (ix : Index) : Nat := ix.entries.length

def file? (ix : Index) (name : String) : Option File := ix.files.find? (·.name == name)

/-- A name without one dot in front of it. -/
def undotted (name : String) : String :=
  match name.toList with
  | '.' :: cs => String.ofList cs
  | _ => name

def lookup? (ix : Index) (fullName : String) : Option Entry :=
  ix.entries.find? (·.fullName == fullName)

/-- Full names are found with and without a dot in front. -/
def find (ix : Index) (name : String) : Except Error Entry :=
  match ix.lookup? (undotted name) with
  | some e => .ok e
  | none => .error (.unresolved name)

end Index

end ProtoTypings
