/-!
# Errors

Why no response is made for a request. `message` is the text of one error, and `causes` the
messages of the errors behind it, the outermost first.
-/

namespace ProtoTypings

inductive Error where
  /-- The bytes of the request are malformed. -/
  | decode
  | unresolved (typeName : String)
  | projection (file member : String) (cause : Error)
  | duplicateType (fullName first second : String)
  | malformedMapEntry (fullName : String)
  | duplicateFile (file : String)
  | duplicateDeclaration (file name : String)
  | missingFile (file : String)
  | render (template message : String)
  | reused
  deriving DecidableEq, Inhabited

namespace Error

def message : Error → String
  | decode => "failed to decode CodeGeneratorRequest: malformed message"
  | unresolved typeName => "type `" ++ typeName ++ "` is not defined in any file of the request"
  | projection file member _ => file ++ ": cannot project `" ++ member ++ "`"
  | duplicateType fullName first second =>
    "type `" ++ fullName ++ "` is defined in both " ++ first ++ " and " ++ second
  | malformedMapEntry fullName => "map entry `" ++ fullName ++ "` lacks a key or value field"
  | duplicateFile file => "file `" ++ file ++ "` appears more than once in the request"
  | duplicateDeclaration file name =>
    file ++ ": more than one type flattens to the declaration name `" ++ name ++ "`"
  | missingFile file =>
    "file to generate `" ++ file ++ "` is missing from the request's descriptors"
  | render template message => "template `" ++ template ++ "`: " ++ message
  | reused => "plugin driver has already processed a request"

def causes : Error → List String
  | projection _ _ cause => cause.message :: cause.causes
  | _ => []

/-- Whether this error, or the one behind it, is a name that no file defines. -/
def isUnresolved : Error → Bool
  | unresolved _ => true
  | projection _ _ cause => cause.isUnresolved
  | _ => false

end Error

end ProtoTypings
