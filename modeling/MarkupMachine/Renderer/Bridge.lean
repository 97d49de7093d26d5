import MarkupMachine.Duration
import MarkupMachine.Exception.Basic
import MarkupMachine.Renderer.Message

/-! The way to a renderer: one call for each request, answered or refused at once. -/

namespace MarkupMachine

inductive Refusal where
  | timeout (limit : Duration)
  | disconnected (reason : String)
  | refused (reason : String)
  deriving DecidableEq, Repr

namespace Refusal

def message : Refusal → String
  | .timeout limit => s!"no response within {limit.text}"
  | .disconnected reason => s!"renderer connection lost: {reason}"
  | .refused reason => s!"renderer refused request: {reason}"

def category : Refusal → Category
  | .timeout _ => .timeout
  | .disconnected _ | .refused _ => .serverRefused

def toException (r : Refusal) : Exception := .raised r.category r.message

end Refusal

/-- A renderer with a state of its own. It is told how long a response may take. -/
structure Bridge (σ : Type) where
  answer : Duration → Request → σ → Except Refusal Response × σ

/-- The response of a renderer that shows nothing: it accepts every request, and hands the payload
of an update back. -/
def acknowledge (r : Request) : Response :=
  .ok r (if r.operation = "update" then r.payload else .void)

def headless : Bridge (List Request) where
  answer _ r seen := (.ok (acknowledge r), seen ++ [r])

inductive Scripted where
  | acknowledge
  | respond (status : UInt16) (payload : Payload)
  | refuse (r : Duration → Refusal)

def scripted : Bridge (List Scripted × List Request) where
  answer limit r state :=
    let (script, seen) := state
    let seen := seen ++ [r]
    match script with
    | [] | .acknowledge :: _ => (.ok (MarkupMachine.acknowledge r), (script.drop 1, seen))
    | .respond status payload :: rest =>
      (.ok { Response.withStatus r status with payload }, (rest, seen))
    | .refuse refusal :: rest => (.error (refusal limit), (rest, seen))

end MarkupMachine
