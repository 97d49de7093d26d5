import MarkupMachine.Machine.Element.Structural

/-! Elements that send one request to the renderer and wait for the response. Its payload becomes
the frame's result; on the way out it is committed to the parent frame, and bound there under the
name that `as` gives. Nothing is committed while an exception is in flight. -/

namespace MarkupMachine.Requester

def awaiting : NextStep := .custom 1

def names : List String := ["to", "on", "at", "with", "as"]

def attributes (value : Option Expression → Setup Value) :
    List Attribute → List (String × Value) → Setup (List (String × Value))
  | [], done => return done
  | a :: rest, done => do
    if ¬ names.contains a.name then
      throw (Exception.raised .notImplemented s!"unknown attribute `{a.name}` on <request>")
    if Table.contains a.name done then
      throw (Exception.raised .duplicateName s!"duplicate attribute `{a.name}`")
    attributes value rest (Table.insert a.name (← value a.value) done)

def text? (name : String) (values : List (String × Value)) : Except Exception (Option String) :=
  match Table.get? name values with
  | none => .ok none
  | some (.text s) => .ok (some s)
  | some other => .error (.raised .wrongDataType s!"`{name}` must be a string, got {other.kind}")

def describe (id : Uuid) (handle : UInt64) (values : List (String × Value)) :
    Except Exception (Request × Option String) := do
  let operation ← text? "to" values
  let element ← text? "on" values
  let property ← text? "at" values
  let bindAs ← text? "as" values
  match operation with
  | none => throw (.raised .argumentMissed "<request> requires a `to` attribute")
  | some operation =>
    let request : Request := {
      id, target := .dom, handle, operation
      payload := .ofValue ((Table.get? "with" values).getD .null) }
    let request := match element with
      | some e => request.onElement e
      | none => request
    return ({ request with property }, bindAs)

def setup (value : Option Expression → Setup Value) (id : Uuid) (handle : UInt64)
    (element : Element) : Setup (Request × Option String) := do
  let values ← attributes value element.attributes []
  match describe id handle values with
  | .ok described => return described
  | .error e => throw e

/-- The identifier of a coroutine's request, made of its number and the number of the frame. -/
def requestId (co : Coroutine) : Uuid :=
  Uuid.ofNat (co.id * UInt64.size + co.stack.stats.framesPushed)

def afterPushed (env : Environment) (co : Coroutine) : Except Fault Coroutine := do
  let (frame, element) ← co.element? .request
  match co.runSetup (setup (env.valueOf co.stack) (requestId co) env.target element) with
  | (.error e, co) =>
    let co ← co.installed frame (.request none none)
    return co.onStack fun s => (s.raise (e.atElement element)).setNext .selectChild
  | (.ok (request, bindAs), co) =>
    let co ← co.installed frame (.request bindAs none)
    return (co.suspend (.renderer request)).onStack (·.setNext awaiting)

def accept (value : Value) (stack : Stack) : Stack × Option Fault :=
  match stack.frames with
  | [] => (stack, some .emptyStack)
  | frame :: outer =>
    let frame := frame.setSymbol .question value
    match frame.context with
    | some ⟨rest, .request bindAs _⟩ =>
      let frame := { frame with context := some ⟨rest, .request bindAs (some value)⟩ }
      ({ stack with frames := frame :: outer }, none)
    | _ =>
      ({ stack with frames := frame :: outer },
        some (.structural ElementKind.request.name "frame has no context"))

/-- Goes on after the response. The fault, if any, leaves the completion consumed. -/
def rerun (co : Coroutine) : Coroutine × Option Fault :=
  match co.element? .request with
  | .error fault => (co, some fault)
  | .ok (_, element) =>
    let raise (e : Exception) (co : Coroutine) : Coroutine × Option Fault :=
      (co.onStack fun s => (s.raise (e.atElement element) .wait).setNext .selectChild, none)
    match co.takeResume with
    | (some (.renderer response), co) =>
      if response.isOk then
        match accept response.payload.toValue co.stack with
        | (stack, none) => ({ co with stack := stack.setNext .selectChild }, none)
        | (stack, some fault) => ({ co with stack }, some fault)
      else raise (.raised .serverRefused s!"renderer answered {response.status}") co
    | (some (.failed e), co) => raise e co
    | (some .timer, co) =>
      (co, some (.structural ElementKind.request.name "resumed by a timer"))
    | (none, co) =>
      (co, some (.structural ElementKind.request.name "resumed without a completion"))

/-- Releases the context and commits the response, if there is one and no exception is in
flight. -/
def onPopping (stack : Stack) : Stack :=
  match stack.release with
  | (some ⟨_, .request bindAs (some value)⟩, stack) =>
    if stack.exception.isSome then stack
    else
      match stack.frames with
      | frame :: parent :: outer =>
        let committed := { stack with
          frames := frame :: parent.setSymbol .question value :: outer
          journal := .committed frame.position bindAs value :: stack.journal }
        match bindAs with
        | some name => committed.bind parent.scope name value
        | none => committed
      | [frame] => { stack with
          result := value
          journal := .committed frame.position bindAs value :: stack.journal }
      | [] => { stack with result := value }
  | (_, stack) => stack

end MarkupMachine.Requester
