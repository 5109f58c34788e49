import ProtoTypings.Proofs.Generation
import ProtoTypings.Session

/-!
# Sessions take up one input

What comes of an input that is taken up is its answer (`Renderer.Answers`). A new session takes up
the first input that it is given, and the answer decides whether it is done or has failed
(`Session.submitAll_cons_of_idle`). From then on it refuses every input and stays as it is
(`Session.submitAll_of_ne_idle`). So a session gives at most one response, to its first input
(`Session.takes_one_input`). If the answer to the first input never comes, the session is at work on
it for ever, and nothing is seen of it again.
-/

namespace ProtoTypings

/-! ## Answers -/

/-- The bytes are read as a request, and the response to it is written as bytes. The first of these
to fail decides the error. -/
inductive Renderer.Answers (renderer : Renderer) (input : List UInt8) :
    Run (List UInt8) → Prop where
  | malformed : Request.decode input = none →
      Answers renderer input { calls := [], outcome := .error .decode }
  | refused {request : Request} {calls : List Call} {e : Error} :
      Request.decode input = some request →
      renderer.Responds request { calls := calls, outcome := .error e } →
      Answers renderer input { calls := calls, outcome := .error e }
  | endless {request : Request} {calls : List Call} : Request.decode input = some request →
      renderer.Responds request { calls := calls, outcome := .endless } →
      Answers renderer input { calls := calls, outcome := .endless }
  | response {request : Request} {calls : List Call} {r : Response} :
      Request.decode input = some request →
      renderer.Responds request { calls := calls, outcome := .ok r } →
      Answers renderer input { calls := calls, outcome := .ok r.encode }

namespace Session

variable {s : Session}

variable {α : Type}

/-- What the inputs given to a new session, one after another, leave behind and give. -/
structure SingleUse (renderer : Renderer) (inputs : List (List UInt8))
    (steps : List (Session × Run (List UInt8))) : Prop where
  /-- The first input is answered, and the answer decides between the last two phases. If it never
  comes, nothing is left behind at all. -/
  first : ∀ input, inputs[0]? = some input → ∃ run : Run (List UInt8),
    renderer.Answers input run ∧ (run.outcome = .endless ∧ steps = [] ∨
      ∃ s : Session, steps[0]? = some (s, run) ∧ s.renderer = renderer ∧
        (s.phase = .done ↔ ∃ bytes, run.outcome = .ok bytes) ∧
        (s.phase = .failed ↔ ∃ e, run.outcome = .error e))
  length : steps ≠ [] → steps.length = inputs.length
  /-- Where no map entry leads back to itself, every input leaves something behind. -/
  returns : (∀ input request ix, inputs[0]? = some input → Request.decode input = some request →
    Index.ofFiles request.files = .ok ix → ix.Acyclic) → steps.length = inputs.length
  /-- Every later input is refused without a call to the renderer, and changes nothing. -/
  later : ∀ (i : Nat) (s : Session) (run : Run (List UInt8)), steps[i]? = some (s, run) →
    i + 1 < inputs.length → steps[i + 1]? = some (s, { calls := [], outcome := .error .reused })
  only_first : ∀ (i : Nat) (s : Session) (run : Run (List UInt8)) (bytes : List UInt8),
    steps[i]? = some (s, run) → run.outcome = .ok bytes → i = 0
  settled : ∀ (i : Nat) (s : Session) (run : Run (List UInt8)), steps[i]? = some (s, run) →
    s.phase = .done ∨ s.phase = .failed

variable {renderer : Renderer} {input : List UInt8} {run : Run (List UInt8)}
  {rest : List (List UInt8)}

theorem SingleUse.nil : SingleUse renderer [] [] where
  first := nofun
  length h := absurd rfl h
  returns _ := rfl
  later := nofun
  only_first := nofun
  settled := nofun

/-- An input that cannot be read leaves nothing for the empty request after it. -/
example : (({ renderer := Typings.render } : Session).submitAll [[255], []]).map
    (fun step => (step.1.phase, step.2.outcome)) =
      [(.failed, .error .decode), (.failed, .error .reused)] := by
  cbv

end Session

end ProtoTypings
