import MarkupMachine.Machine.Element.Catcher
import MarkupMachine.Machine.Element.Requester
import MarkupMachine.Machine.Element.Sleep

/-! One step of a coroutine: the operation that its innermost frame is due for. -/

namespace MarkupMachine

inductive Selected where
  | exhausted
  | element (kind : ElementKind) (id : NodeId)
  | misplaced
  deriving DecidableEq, Inhabited

structure Selection where
  content : Option String
  rest : List NodeId
  selected : Selected
  deriving Inhabited

def gather (content : Option String) (text : String) : Option String :=
  match content with
  | some s => some (s ++ text)
  | none => some text

/-- Walks over children up to the next element that may be entered. Content is gathered, comments
are passed over, and so are elements that do not catch, while an exception is in flight. -/
def Document.select (doc : Document) (raising : Bool) : List NodeId → Option String → Selection
  | [], content => ⟨content, [], .exhausted⟩
  | id :: rest, content =>
    match doc.kind? id with
    | some (.element e) =>
      let kind := ElementKind.ofTag e.tag
      if raising && !kind.catches then doc.select raising rest content
      else ⟨content, rest, .element kind id⟩
    | some (.content text) => doc.select raising rest (gather content text)
    | some (.comment _) => doc.select raising rest content
    | some .document | none => ⟨content, rest, .misplaced⟩

namespace Coroutine

/-- Enters the next child of the innermost frame, or sends the frame on its way out. -/
def selectChild (kind : ElementKind) (co : Coroutine) : Coroutine × Option Fault :=
  match co.stack.frames with
  | [] => (co, some .emptyStack)
  | frame :: outer =>
    match frame.context with
    | none => (co, some (.structural kind.name "frame has no context"))
    | some context =>
      let selection :=
        co.stack.document.select co.stack.exception.isSome context.rest frame.content
      let frame := { frame with
        content := selection.content
        context := some { context with rest := selection.rest } }
      let stack := { co.stack with frames := frame :: outer }
      match selection.selected with
      | .exhausted => ({ co with stack := stack.setNext .onPopping }, none)
      | .element kind id =>
        match stack.push kind id with
        | .ok stack => ({ co with stack }, none)
        | .error fault => ({ co with stack }, some fault)
      | .misplaced =>
        ({ co with stack }, some (.structural kind.name "document node found among children"))

def afterPushed (env : Environment) (kind : ElementKind) (co : Coroutine) :
    Coroutine × Option Fault :=
  let result := match kind with
    | .structural => Structural.afterPushed env co
    | .catcher => Catcher.afterPushed env co
    | .sleep => Sleep.afterPushed env co
    | .request => Requester.afterPushed env co
  match result with
  | .ok co => (co, none)
  | .error fault => (co, some fault)

def onPopping (kind : ElementKind) (co : Coroutine) : Coroutine :=
  match kind with
  | .structural => co.onStack Structural.onPopping
  | .request => co.onStack Requester.onPopping
  | .catcher | .sleep => co

def rerun (kind : ElementKind) (co : Coroutine) : Coroutine × Option Fault :=
  match kind with
  | .sleep => Sleep.rerun co
  | .request => Requester.rerun co
  | .structural | .catcher => (co, some (.structural kind.name "rerun is not supported"))

def operate (env : Environment) (frame : Frame) (co : Coroutine) : Coroutine × Option Fault :=
  match frame.next with
  | .afterPushed => co.afterPushed env frame.kind
  | .selectChild => co.selectChild frame.kind
  | .rerun | .custom _ => co.rerun frame.kind
  | .onPopping => ((co.onPopping frame.kind).onStack Stack.pop, none)

/-- One step. A coroutine whose stack is empty afterwards is complete; a fault leaves it as far as
the operation got. -/
def step (env : Environment) (co : Coroutine) : Coroutine × Option Fault :=
  match co.stack.top? with
  | none => (co.complete, none)
  | some frame =>
    match co.operate env frame with
    | (co, some fault) => (co, some fault)
    | (co, none) => (if co.stack.frames.isEmpty then co.complete else co, none)

def runSteps (env : Environment) : Nat → Coroutine → Coroutine × Except Fault Nat
  | 0, co => (co, .ok 0)
  | steps + 1, co =>
    if co.state ≠ .running then (co, .ok 0)
    else
      match co.step env with
      | (co, some fault) => (co, .error fault)
      | (co, none) =>
        let (co, count) := runSteps env steps co
        (co, count.map (· + 1))

/-- Runs a slice of at most so many steps. A coroutine that neither stopped nor failed is ready for
more. -/
def run (env : Environment) (steps : Nat) (co : Coroutine) : Coroutine × Except Fault Nat :=
  match runSteps env steps { co with state := .running } with
  | (co, .error fault) => (co, .error fault)
  | (co, .ok count) =>
    (if co.state = .running then { co with state := .ready } else co, .ok count)

/-- Leaves all frames from the innermost outward, each with its last operation; `count` bounds
their number. -/
def unwind : Nat → Coroutine → Coroutine
  | 0, co => co
  | count + 1, co =>
    match co.stack.top? with
    | none => co
    | some frame => unwind count ((co.onPopping frame.kind).onStack Stack.pop)

def terminate (outcome : Outcome) (co : Coroutine) : Coroutine :=
  (co.unwind co.stack.depth).finish outcome

def slice (env : Environment) (steps : Nat) (co : Coroutine) : Coroutine :=
  match co.run env steps with
  | (co, .ok _) => co
  | (co, .error fault) => co.terminate (.fatal fault.message)

end Coroutine
end MarkupMachine
