/-!
# Descriptors

What a request says about the files to generate from: messages, fields, enums and comments. Scalars
that may be left out have a name with a question mark; the function of the plain name gives the
value or its default. Enumerations are kept as numbers, since a number without meaning is kept too.
-/

namespace ProtoTypings

structure FieldOptions where
  jsType? : Option Int32 := none
  deprecated? : Option Bool := none
  deriving DecidableEq

structure Field where
  name? : Option String := none
  number? : Option Int32 := none
  label? : Option Int32 := none
  kind? : Option Int32 := none
  typeName? : Option String := none
  oneofIndex? : Option Int32 := none
  jsonName? : Option String := none
  options? : Option FieldOptions := none
  /-- Set on the only field of a group that was made up for an optional field. -/
  proto3Optional? : Option Bool := none
  deriving DecidableEq

structure Oneof where
  name? : Option String := none
  deriving DecidableEq

structure EnumValueOptions where
  deprecated? : Option Bool := none
  deriving DecidableEq

structure EnumValue where
  name? : Option String := none
  number? : Option Int32 := none
  options? : Option EnumValueOptions := none
  deriving DecidableEq

structure EnumOptions where
  deprecated? : Option Bool := none
  deriving DecidableEq

structure Enum where
  name? : Option String := none
  values : List EnumValue := []
  options? : Option EnumOptions := none
  deriving DecidableEq

structure MessageOptions where
  deprecated? : Option Bool := none
  ofMap? : Option Bool := none
  deriving DecidableEq

structure Message where
  name? : Option String := none
  fields : List Field := []
  extensions : List Field := []
  nested : List Message := []
  enums : List Enum := []
  oneofs : List Oneof := []
  options? : Option MessageOptions := none

structure Service where
  name? : Option String := none
  deriving DecidableEq

/-- The comments around the part of the file that `path` leads to. -/
structure Location where
  path : List Int32 := []
  leading? : Option String := none
  trailing? : Option String := none
  detached : List String := []
  deriving DecidableEq

structure File where
  name? : Option String := none
  package? : Option String := none
  dependencies : List String := []
  messages : List Message := []
  enums : List Enum := []
  services : List Service := []
  extensions : List Field := []
  locations? : Option (List Location) := none
  level? : Option String := none

structure Request where
  /-- The names of the files to generate from. -/
  targets : List String := []
  parameter? : Option String := none
  files : List File := []

/-! ## Values and defaults -/

namespace Field

def name (f : Field) : String := f.name?.getD ""

def number (f : Field) : Int32 := f.number?.getD 0

def typeName (f : Field) : String := f.typeName?.getD ""

def isRepeated (f : Field) : Bool := f.label? == some 3

def isDeprecated (f : Field) : Bool := (f.options?.bind (·.deprecated?)).getD false

/-- Whether 64-bit values are to be carried as strings. -/
def asString (f : Field) : Bool := f.options?.bind (·.jsType?) == some 1

def isProto3Optional (f : Field) : Bool := f.proto3Optional?.getD false

end Field

def Oneof.name (o : Oneof) : String := o.name?.getD ""

namespace EnumValue

def name (v : EnumValue) : String := v.name?.getD ""

def number (v : EnumValue) : Int32 := v.number?.getD 0

def isDeprecated (v : EnumValue) : Bool := (v.options?.bind (·.deprecated?)).getD false

end EnumValue

namespace Enum

def name (e : Enum) : String := e.name?.getD ""

def isDeprecated (e : Enum) : Bool := (e.options?.bind (·.deprecated?)).getD false

end Enum

namespace Message

def name (m : Message) : String := m.name?.getD ""

def isDeprecated (m : Message) : Bool := (m.options?.bind (·.deprecated?)).getD false

/-- Whether the message was made up to hold one key and one value of a map. -/
def isMapEntry (m : Message) : Bool := (m.options?.bind (·.ofMap?)).getD false

/-- The first field with a number. -/
def fieldNumbered? (m : Message) (n : Int32) : Option Field := m.fields.find? (·.number == n)

/-- The group a field belongs to; a group made up for an optional field does not count. -/
def oneofOf? (m : Message) (f : Field) : Option String :=
  if f.isProto3Optional then none
  else f.oneofIndex?.bind fun i =>
    if i < 0 then none else (m.oneofs[i.toInt.toNat]?).map (·.name)

end Message

namespace File

def name (f : File) : String := f.name?.getD ""

def package (f : File) : String := f.package?.getD ""

def locations (f : File) : List Location := f.locations?.getD []

/-- A file that names no language level is written in the first one. -/
def level (f : File) : String :=
  let level := f.level?.getD ""
  if level = "" then "proto2" else level

end File

end ProtoTypings
