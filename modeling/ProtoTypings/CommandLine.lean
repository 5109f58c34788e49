import ProtoTypings.Session

/-!
# Command line

What the arguments ask for, and what the program then writes. It takes a request from standard
input and has no arguments but those for help and for its version.
-/

namespace ProtoTypings.CommandLine

inductive Action where
  | generate
  | help
  | version
  | refuse (argument : String)
  deriving DecidableEq

/-- A group of one-letter options is decided by its first letter. -/
def actionOfArgument (argument : String) : Action :=
  if argument = "--help" then .help
  else if argument = "--version" then .version
  else match argument.toList with
    | '-' :: 'h' :: _ => .help
    | '-' :: 'V' :: _ => .version
    | _ => .refuse argument

/-- Nothing may follow a `--`, and arguments after one that asks for a text are not looked at. -/
def action : List String → Action
  | [] => .generate
  | ["--"] => .generate
  | "--" :: argument :: _ => .refuse argument
  | argument :: _ => actionOfArgument argument

def versionText : String := "protoc-gen-tsd 0.1.0\n"

def helpText : String :=
  "protoc plugin that generates TypeScript declaration files\n\n" ++
  "Usage: protoc-gen-tsd\n\n" ++
  "Options:\n" ++
  "  -h, --help     Print help\n" ++
  "  -V, --version  Print version\n\n" ++
  "EXAMPLES:\n" ++
  "  # Generate .d.ts files next to the compiled protos\n" ++
  "  protoc --plugin=protoc-gen-tsd=./protoc-gen-tsd \\\n" ++
  "    --tsd_out=./generated \\\n" ++
  "    shop/order.proto\n"

def refusalText (argument : String) : String :=
  "error: unexpected argument '" ++ argument ++ "' found\n\n" ++
  "Usage: protoc-gen-tsd\n\n" ++
  "For more information, try '--help'.\n"

/-- An error with all that is behind it, on one line. -/
def errorText (e : Error) : String :=
  "protoc-gen-tsd error: " ++
    ": ".intercalate ("failed to generate declaration files" :: e.message :: e.causes) ++ "\n"

structure Result where
  exitCode : UInt32
  output : List UInt8
  errorOutput : String
  deriving DecidableEq

def Result.ofText (text : String) : Result where
  exitCode := 0
  output := text.toUTF8.data.toList
  errorOutput := ""

/-- There is a result if the run ends. -/
def Result.ofOutcome? : Outcome (List UInt8) → Option Result
  | .ok output => some { exitCode := 0, output := output, errorOutput := "" }
  | .error e => some { exitCode := 1, output := [], errorOutput := errorText e }
  | .endless => none

/-- The result of an action, if it ends; only a request to generate takes any input. -/
def perform? (input : List UInt8) : Action → Option Result
  | .generate =>
    Result.ofOutcome? (({ renderer := Typings.render } : Session).submit input).2.outcome
  | .help => some (.ofText helpText)
  | .version => some (.ofText versionText)
  | .refuse argument => some { exitCode := 2, output := [], errorOutput := refusalText argument }

end ProtoTypings.CommandLine
