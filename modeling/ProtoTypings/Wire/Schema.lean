/-!
# Schemas

The messages that a request or a response is made of, and which of their fields are known by what
number. Fields that no schema knows are skipped.
-/

namespace ProtoTypings.Wire

inductive Schema where
  | request | version | file | message | extensionRange | range | field | oneof | enum | enumValue
  | service | method | fileOptions | messageOptions | fieldOptions | enumOptions | enumValueOptions
  | serviceOptions | methodOptions | otherOptions | uninterpreted | namePart | sourceInfo | location
  | response | generatedFile
  deriving DecidableEq

/-- What the payload of a field stands for. -/
inductive Shape where
  | number
  /-- A list of numbers, in one packed record or in a record each. -/
  | numbers
  | text
  | bytes
  | double
  | message (s : Schema)
  deriving DecidableEq

namespace Schema

def numbers (ns : List Nat) : List (Nat × Shape) := ns.map (·, .number)

def texts (ns : List Nat) : List (Nat × Shape) := ns.map (·, .text)

/-- The field by which every kind of options holds those that are not built in. -/
def custom : Nat × Shape := (999, .message uninterpreted)

/-- The known fields by their numbers. -/
def fields : Schema → List (Nat × Shape)
  | request => texts [1, 2] ++ [(3, .message version), (15, .message file)]
  | version => numbers [1, 2, 3] ++ texts [4]
  | file => texts [1, 2, 3, 12] ++ [(4, .message message), (5, .message enum),
      (6, .message service), (7, .message field), (8, .message fileOptions),
      (9, .message sourceInfo), (10, .numbers), (11, .numbers)]
  | message => texts [1, 10] ++ [(2, .message field), (3, .message message), (4, .message enum),
      (5, .message extensionRange), (6, .message field), (7, .message messageOptions),
      (8, .message oneof), (9, .message range)]
  | extensionRange => numbers [1, 2] ++ [(3, .message otherOptions)]
  | range => numbers [1, 2]
  | field => texts [1, 2, 6, 7, 10] ++ numbers [3, 4, 5, 9, 17] ++ [(8, .message fieldOptions)]
  | oneof => texts [1] ++ [(2, .message otherOptions)]
  | enum => texts [1, 5] ++ [(2, .message enumValue), (3, .message enumOptions),
      (4, .message range)]
  | enumValue => texts [1] ++ numbers [2] ++ [(3, .message enumValueOptions)]
  | service => texts [1] ++ [(2, .message method), (3, .message serviceOptions)]
  | method => texts [1, 2, 3] ++ numbers [5, 6] ++ [(4, .message methodOptions)]
  | fileOptions => texts [1, 8, 11, 36, 37, 39, 40, 41, 44, 45] ++
      numbers [9, 10, 16, 17, 18, 20, 23, 27, 31, 42] ++ [custom]
  | messageOptions => numbers [1, 2, 3, 7] ++ [custom]
  | fieldOptions => numbers [1, 2, 3, 5, 6, 10] ++ [custom]
  | enumOptions => numbers [2, 3] ++ [custom]
  | enumValueOptions => numbers [1] ++ [custom]
  | serviceOptions => numbers [33] ++ [custom]
  | methodOptions => numbers [33, 34] ++ [custom]
  | otherOptions => [custom]
  | uninterpreted => texts [3, 8] ++ numbers [4, 5] ++
      [(2, .message namePart), (6, .double), (7, .bytes)]
  | namePart => texts [1] ++ numbers [2]
  | sourceInfo => [(1, .message location)]
  | location => texts [3, 4, 6] ++ [(1, .numbers), (2, .numbers)]
  | response => texts [1] ++ numbers [2] ++ [(15, .message generatedFile)]
  | generatedFile => texts [1, 15]

def shape? (s : Schema) (n : Nat) : Option Shape := s.fields.lookup n

end Schema

end ProtoTypings.Wire
