import ProtoTypings.TypeExpr

/-!
# Declarations

What a generated file declares: an interface for each message and an enum for each enum. `ρ` is
what a reference to a declared type holds.
-/

namespace ProtoTypings

structure Member (ρ : Type) where
  name : String
  type : TypeExpr ρ
  doc : List String
  /-- The group of alternatives of which this member is one. -/
  oneof : Option String
  deriving DecidableEq

structure Constant where
  name : String
  value : Int32
  doc : List String
  deriving DecidableEq

namespace Declaration

inductive Body (ρ : Type) where
  | interface (members : List (Member ρ))
  | enum (constants : List Constant)
  deriving DecidableEq

end Declaration

structure Declaration (ρ : Type) where
  name : String
  /-- The dotted protobuf name, without a leading dot. -/
  fullName : String
  doc : List String
  body : Declaration.Body ρ
  deriving DecidableEq

variable {ρ σ : Type}

def Member.rename (f : ρ → σ) (m : Member ρ) : Member σ :=
  { name := m.name, type := m.type.rename f, doc := m.doc, oneof := m.oneof }

namespace Declaration

def members (d : Declaration ρ) : List (Member ρ) :=
  match d.body with
  | .interface members => members
  | .enum _ => []

def references (d : Declaration ρ) : List ρ := d.members.flatMap (·.type.references)

def Body.rename (f : ρ → σ) : Body ρ → Body σ
  | .interface members => .interface (members.map (·.rename f))
  | .enum constants => .enum constants

def rename (f : ρ → σ) (d : Declaration ρ) : Declaration σ :=
  { name := d.name, fullName := d.fullName, doc := d.doc, body := d.body.rename f }

end Declaration

end ProtoTypings
