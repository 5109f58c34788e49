import ProtoTypings.Descriptor
import ProtoTypings.Wire.Value

/-!
# Requests on the wire

Descriptors as message content: `toContent` writes one and `ofContent` reads it. What is left out
of a descriptor leaves no field, and fields of no interest are ignored when reading.
-/

namespace ProtoTypings

open Wire

namespace FieldOptions

def toContent (o : FieldOptions) : Content :=
  .one 3 .ofFlag o.deprecated? ++ .one 6 .ofInt32 o.jsType?

def ofContent (c : Content) : FieldOptions where
  jsType? := c.int32? 6
  deprecated? := c.flag? 3

end FieldOptions

namespace Field

def toContent (f : Field) : Content :=
  .one 1 .text f.name? ++ .one 3 .ofInt32 f.number? ++ .one 4 .ofInt32 f.label? ++
    .one 5 .ofInt32 f.kind? ++ .one 6 .text f.typeName? ++
    .one 8 (.message ·.toContent) f.options? ++ .one 9 .ofInt32 f.oneofIndex? ++
    .one 10 .text f.jsonName? ++ .one 17 .ofFlag f.proto3Optional?

def ofContent (c : Content) : Field where
  name? := c.text? 1
  number? := c.int32? 3
  label? := c.int32? 4
  kind? := c.int32? 5
  typeName? := c.text? 6
  options? := (c.part? 8).map .ofContent
  oneofIndex? := c.int32? 9
  jsonName? := c.text? 10
  proto3Optional? := c.flag? 17

end Field

namespace Oneof

def toContent (o : Oneof) : Content := .one 1 .text o.name?

def ofContent (c : Content) : Oneof where
  name? := c.text? 1

end Oneof

namespace EnumValueOptions

def toContent (o : EnumValueOptions) : Content := .one 1 .ofFlag o.deprecated?

def ofContent (c : Content) : EnumValueOptions where
  deprecated? := c.flag? 1

end EnumValueOptions

namespace EnumValue

def toContent (v : EnumValue) : Content :=
  .one 1 .text v.name? ++ .one 2 .ofInt32 v.number? ++ .one 3 (.message ·.toContent) v.options?

def ofContent (c : Content) : EnumValue where
  name? := c.text? 1
  number? := c.int32? 2
  options? := (c.part? 3).map .ofContent

end EnumValue

namespace EnumOptions

def toContent (o : EnumOptions) : Content := .one 3 .ofFlag o.deprecated?

def ofContent (c : Content) : EnumOptions where
  deprecated? := c.flag? 3

end EnumOptions

namespace Enum

def toContent (e : Enum) : Content :=
  .one 1 .text e.name? ++ .each 2 (.message ·.toContent) e.values ++
    .one 3 (.message ·.toContent) e.options?

def ofContent (c : Content) : Enum where
  name? := c.text? 1
  values := (c.parts 2).map .ofContent
  options? := (c.part? 3).map .ofContent

end Enum

namespace MessageOptions

def toContent (o : MessageOptions) : Content :=
  .one 3 .ofFlag o.deprecated? ++ .one 7 .ofFlag o.ofMap?

def ofContent (c : Content) : MessageOptions where
  deprecated? := c.flag? 3
  ofMap? := c.flag? 7

end MessageOptions

namespace Message

mutual

def toContent (m : Message) : Content :=
  match m with
  | { name?, fields, extensions, nested, enums, oneofs, options? } =>
    .one 1 .text name? ++ .each 2 (.message ·.toContent) fields ++ nestedContent nested ++
      .each 4 (.message ·.toContent) enums ++ .each 6 (.message ·.toContent) extensions ++
      .one 7 (.message ·.toContent) options? ++ .each 8 (.message ·.toContent) oneofs

def nestedContent (ms : List Message) : Content :=
  match ms with
  | [] => []
  | m :: ms => (3, .message m.toContent) :: nestedContent ms

end

/-- The message with this content and the given nested messages. -/
def withNested (c : Content) (nested : List Message) : Message where
  name? := c.text? 1
  fields := (c.parts 2).map .ofContent
  nested := nested
  enums := (c.parts 4).map .ofContent
  extensions := (c.parts 6).map .ofContent
  options? := (c.part? 7).map .ofContent
  oneofs := (c.parts 8).map .ofContent

mutual

def ofValue? : Value → Option Message
  | .message c => some (withNested c (ofNested c))
  | _ => none

def ofNested : Content → List Message
  | [] => []
  | (n, v) :: c => (if n = 3 then (ofValue? v).toList else []) ++ ofNested c

end

def ofContent (c : Content) : Message := withNested c (ofNested c)

end Message

namespace Service

def toContent (s : Service) : Content := .one 1 .text s.name?

def ofContent (c : Content) : Service where
  name? := c.text? 1

end Service

namespace Location

def toContent (l : Location) : Content :=
  .packed 1 l.path ++ .one 3 .text l.leading? ++ .one 4 .text l.trailing? ++
    .each 6 .text l.detached

def ofContent (c : Content) : Location where
  path := c.int32s 1
  leading? := c.text? 3
  trailing? := c.text? 4
  detached := c.texts 6

end Location

namespace File

def toContent (f : File) : Content :=
  .one 1 .text f.name? ++ .one 2 .text f.package? ++ .each 3 .text f.dependencies ++
    .each 4 (.message ·.toContent) f.messages ++ .each 5 (.message ·.toContent) f.enums ++
    .each 6 (.message ·.toContent) f.services ++ .each 7 (.message ·.toContent) f.extensions ++
    .one 9 (.message <| Content.each 1 (.message ·.toContent) ·) f.locations? ++
    .one 12 .text f.level?

def ofContent (c : Content) : File where
  name? := c.text? 1
  package? := c.text? 2
  dependencies := c.texts 3
  messages := (c.parts 4).map .ofContent
  enums := (c.parts 5).map .ofContent
  services := (c.parts 6).map .ofContent
  extensions := (c.parts 7).map .ofContent
  locations? := (c.part? 9).map fun info => (info.parts 1).map .ofContent
  level? := c.text? 12

end File

namespace Request

def toContent (r : Request) : Content :=
  .each 1 .text r.targets ++ .one 2 .text r.parameter? ++ .each 15 (.message ·.toContent) r.files

def ofContent (c : Content) : Request where
  targets := c.texts 1
  parameter? := c.text? 2
  files := (c.parts 15).map .ofContent

def encode (r : Request) : List UInt8 := r.toContent.encode

/-- Messages may nest a hundred deep below the request. -/
def decode (bs : List UInt8) : Option Request := (Content.decode 100 .request bs).map .ofContent

end Request

end ProtoTypings
