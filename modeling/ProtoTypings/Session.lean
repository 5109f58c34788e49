import ProtoTypings.Wire.Request
import ProtoTypings.Wire.Response

/-!
# Sessions

A session turns the bytes of one request into the bytes of a response. It takes up a single
request: once it is done or has failed, every further input is refused and changes nothing.
-/

namespace ProtoTypings

inductive Phase where
  | idle | processing | done | failed
  deriving DecidableEq

structure Session where
  renderer : Renderer
  phase : Phase := .idle

namespace Session

/-- The session at work, if it can take up a request. -/
def start? (s : Session) : Option Session :=
  if s.phase = .idle then some { s with phase := .processing } else none

/-- Work that never ends keeps the session at it for ever. -/
def finish {α : Type} (s : Session) : Outcome α → Session
  | .ok _ => { s with phase := .done }
  | .error _ => { s with phase := .failed }
  | .endless => { s with phase := .processing }

/-- The bytes of the response to the request in the input. -/
def respond (renderer : Renderer) (input : List UInt8) : Run (List UInt8) :=
  match Request.decode input with
  | none => .fail .decode
  | some request => (renderer.respond request).map Response.encode

/-- The session after it is given an input, and the run that came of it. -/
def submit (s : Session) (input : List UInt8) : Session × Run (List UInt8) :=
  match s.start? with
  | none => (s, .fail .reused)
  | some working =>
    let r := respond working.renderer input
    (working.finish r.outcome, r)

/-- One input after another, each with the session that it leaves behind. An input whose run never
ends leaves none, and no other is given after it. -/
def submitAll (s : Session) : List (List UInt8) → List (Session × Run (List UInt8))
  | [] => []
  | input :: inputs =>
    match s.submit input with
    | (_, { calls := _, outcome := .endless }) => []
    | step => step :: submitAll step.1 inputs

end Session

end ProtoTypings
