import ProtoTypings.Descriptor
import ProtoTypings.Scope

/-!
# Nodes

The messages and enums of a file at any depth, in pre-order: a message comes before the messages
nested in it, these before the enums nested in it, and all messages of a file before its enums.
A node knows the scope that it is declared in and the path by which comments refer to it.
-/

namespace ProtoTypings

namespace Node

inductive Body where
  | message (m : Message)
  | enum (e : Enum)

def Body.name : Body → String
  | .message m => m.name
  | .enum e => e.name

end Node

structure Node where
  /-- The simple names from the outermost enclosing message down to the node itself. -/
  scope : Scope
  /-- Alternates between the number of a list field and an index into the list. -/
  path : List Int32
  body : Node.Body

/-- The enums of a list; `path` leads to the list. -/
def enumNodes (outer : Scope) (path : List Int32) (es : List Enum) : List Node :=
  es.mapIdx fun i e => { scope := outer ++ [e.name], path := path ++ [.ofNat i], body := .enum e }

mutual

/-- A message that is not kept is left out with all that is nested in it. -/
def Message.nodes (keep : Message → Bool) (outer : Scope) (path : List Int32) (m : Message) :
    List Node :=
  match m with
  | { nested, .. } =>
    if keep m then
      { scope := outer ++ [m.name], path := path, body := .message m } ::
        messageNodes keep (outer ++ [m.name]) (path ++ [3]) 0 nested ++
        enumNodes (outer ++ [m.name]) (path ++ [4]) m.enums
    else []

/-- The nodes of the messages of a list from the index `i` on; `path` leads to the list. -/
def messageNodes (keep : Message → Bool) (outer : Scope) (path : List Int32) (i : Nat)
    (ms : List Message) : List Node :=
  match ms with
  | [] => []
  | m :: ms =>
    m.nodes keep outer (path ++ [.ofNat i]) ++ messageNodes keep outer path (i + 1) ms

end

namespace File

def nodes (keep : Message → Bool) (f : File) : List Node :=
  messageNodes keep [] [4] 0 f.messages ++ enumNodes [] [5] f.enums

/-- Every message and enum of the file. -/
def allNodes (f : File) : List Node := f.nodes fun _ => true

/-- The messages and enums that are declared in TypeScript. -/
def declaredNodes (f : File) : List Node := f.nodes fun m => !m.isMapEntry

end File

end ProtoTypings
