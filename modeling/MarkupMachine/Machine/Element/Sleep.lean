import MarkupMachine.Machine.Element.Structural

/-! Elements that wait for a timer before their children run. -/

namespace MarkupMachine.Sleep

/-- The duration that a value stands for: milliseconds as a number, or a text with a unit. -/
def duration (value : Value) : Except Exception Duration :=
  match value with
  | .number x =>
    if x.isNonnegative then
      match Duration.ofNumber? x with
      | some d => .ok d
      | none => .error (.raised .invalidValue s!"duration of {x.text}ms out of range")
    else .error (.raised .wrongDataType s!"`for` must be a duration, got {value.kind}")
  | .text s =>
    match Duration.parse? s with
    | some d => .ok d
    | none => .error (.raised .invalidValue s!"invalid duration `{s}`")
  | _ => .error (.raised .wrongDataType s!"`for` must be a duration, got {value.kind}")

def argument (value : Option Expression → Setup Value) :
    List Attribute → Option Value → Setup Value
  | [], some v => return v
  | [], none =>
    throw (Exception.raised .argumentMissed "<sleep> requires a `for` attribute")
  | a :: rest, found => do
    if a.name ≠ "for" then
      throw (Exception.raised .notImplemented s!"unknown attribute `{a.name}` on <sleep>")
    if found.isSome then
      throw (Exception.raised .duplicateName "duplicate attribute `for`")
    argument value rest (some (← value a.value))

def setup (value : Option Expression → Setup Value) (element : Element) : Setup Duration := do
  match duration (← argument value element.attributes none) with
  | .ok d => return d
  | .error e => throw e

def afterPushed (env : Environment) (co : Coroutine) : Except Fault Coroutine := do
  let (frame, element) ← co.element? .sleep
  match co.runSetup (setup (env.valueOf co.stack) element) with
  | (.error e, co) =>
    let co ← co.installed frame (.sleep ⟨0⟩)
    return co.onStack fun s => (s.raise (e.atElement element)).setNext .selectChild
  | (.ok d, co) =>
    let co ← co.installed frame (.sleep d)
    return (co.suspend (.timer d)).onStack (·.setNext .rerun)

def rerun (co : Coroutine) : Coroutine × Option Fault :=
  let next (co : Coroutine) : Coroutine × Option Fault :=
    if co.stack.frames.isEmpty then (co, some .emptyStack)
    else (co.onStack (·.setNext .selectChild), none)
  match co.takeResume with
  | (some .timer, co) => next co
  | (some (.failed e), co) => next (co.onStack (·.raise e .wait))
  | (some (.renderer _), co) =>
    (co, some (.structural ElementKind.sleep.name "resumed with a renderer response"))
  | (none, co) => (co, some (.structural ElementKind.sleep.name "resumed without a completion"))

end MarkupMachine.Sleep
