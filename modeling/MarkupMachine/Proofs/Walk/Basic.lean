import MarkupMachine.Machine.Step

/-! A program as a plain recursion over its tree: an element is set up, its children are visited
from left to right, and it leaves. There is no cursor and nothing is suspended; waits are answered
on the spot by a policy. -/

namespace MarkupMachine

def Wait.anonymous : Wait → Wait
  | .timer after => .timer after
  | .renderer request => .renderer { request with id := Uuid.ofNat 0 }

namespace Walk

structure Level where
  symbols : Symbol → Value := fun _ => .null
  bindings : Bindings := {}
  content : Option String := none

/-- What a run has come to. The innermost level comes first, and so does the latest element that
was entered; waits come in the order in which they were asked for. -/
structure Run where
  levels : List Level := []
  flight : Option Exception := none
  result : Value := .null
  entered : List NodeId := []
  waits : List Wait := []
  fault : Option Fault := none

/-- How waits are answered, each with a completion of its own kind. An answer may depend on the
waits before. -/
structure Policy where
  timer : List Wait → Duration → Except Exception Unit
  renderer : List Wait → Request → Except Exception Response

def Policy.answer (policy : Policy) (earlier : List Wait) : Wait → Completion
  | .timer after =>
    match policy.timer earlier after with
    | .ok () => .timer
    | .error e => .failed e
  | .renderer request =>
    match policy.renderer earlier request with
    | .ok response => .renderer response
    | .error e => .failed e

/-- What a program meets: how deep it may go, its globals, the handle that its requests address,
and the answers to its waits. -/
structure World where
  limit : Nat
  globals : Option Bindings
  target : UInt64
  policy : Policy

def bound? (name : String) : List Level → Option Value
  | [] => none
  | level :: outer =>
    match level.bindings.get? name with
    | some value => some value
    | none => bound? name outer

namespace Run

def view (globals : Option Bindings) (run : Run) : View where
  named? name :=
    match Symbol.ofName? name with
    | some s => run.levels.head?.map fun level => level.symbols s
    | none =>
      match bound? name run.levels with
      | some value => some value
      | none => globals.bind (·.get? name)
  symbol? out s := run.levels[out]?.map fun level => level.symbols s

def modify (f : Level → Level) (run : Run) : Run :=
  match run.levels with
  | [] => run
  | level :: outer => { run with levels := f level :: outer }

def raise (e : Exception) (run : Run) : Run := { run with flight := some e }

def abort (fault : Fault) (run : Run) : Run := { run with fault := some fault }

def enter (id : NodeId) (run : Run) : Run :=
  { run with levels := {} :: run.levels, entered := id :: run.entered }

def ask (wait : Wait) (run : Run) : Run := { run with waits := run.waits ++ [wait] }

def setQuestion (value : Value) : Run → Run :=
  modify fun level =>
    { level with symbols := fun s => if s = .question then value else level.symbols s }

/-- What an element commits: a value, and the name under which the element around it binds it. -/
def receive (bindAs : Option String) (value : Value) (run : Run) : Run :=
  (run.setQuestion value).modify fun level =>
    match bindAs with
    | some name => { level with bindings := level.bindings.bind name value }
    | none => level

/-- Leaves the innermost element. Nothing is committed while an exception is in flight; without an
element around it, what is committed becomes the result. -/
def leave (kind : ElementKind) (commits : Option (Option String × Value)) (run : Run) : Run :=
  let commits := if run.flight.isSome then none else commits
  match run.levels with
  | [] => run
  | [level] =>
    let result := match kind, commits with
      | .structural, _ => level.symbols .question
      | _, some (_, value) => value
      | _, none => run.result
    { run with levels := [], result }
  | _ :: outer =>
    let run := { run with levels := outer }
    match commits with
    | some (bindAs, value) => run.receive bindAs value
    | none => run

def outcome (run : Run) : Outcome :=
  match run.fault, run.flight with
  | some fault, _ => .fatal fault.message
  | none, some e => .thrown e
  | none, none => .returned run.result

@[simp] theorem waits_modify (f : Level → Level) (run : Run) : (run.modify f).waits = run.waits := by
  unfold modify
  split <;> rfl

@[simp] theorem fault_modify (f : Level → Level) (run : Run) : (run.modify f).fault = run.fault := by
  unfold modify
  split <;> rfl

@[simp] theorem waits_setQuestion (value : Value) (run : Run) :
    (run.setQuestion value).waits = run.waits := waits_modify ..

@[simp] theorem fault_setQuestion (value : Value) (run : Run) :
    (run.setQuestion value).fault = run.fault := fault_modify ..

@[simp] theorem waits_receive (bindAs : Option String) (value : Value) (run : Run) :
    (run.receive bindAs value).waits = run.waits := by
  simp [receive]

@[simp] theorem fault_receive (bindAs : Option String) (value : Value) (run : Run) :
    (run.receive bindAs value).fault = run.fault := by
  simp [receive]

@[simp] theorem waits_leave (kind : ElementKind) (commits : Option (Option String × Value))
    (run : Run) : (run.leave kind commits).waits = run.waits := by
  simp only [leave]
  generalize (if run.flight.isSome then none else commits) = handed
  split
  · rfl
  · rfl
  · cases handed <;> simp

@[simp] theorem fault_leave (kind : ElementKind) (commits : Option (Option String × Value))
    (run : Run) : (run.leave kind commits).fault = run.fault := by
  simp only [leave]
  generalize (if run.flight.isSome then none else commits) = handed
  split
  · rfl
  · rfl
  · cases handed <;> simp

end Run

def value (view : View) : Option Expression → Setup Value
  | none => return .null
  | some e =>
    match e.evaluate view with
    | .ok value => return value
    | .error e => throw e

def evaluate {α : Type} (setup : Setup α) : Except Exception α := (setup.run.run []).1

/-- A run after the set-up of an element: whether the children are visited, and what the element
will commit. -/
structure Opened where
  run : Run
  visits : Bool := true
  commits : Option (Option String × Value) := none

def await {α : Type} (wait : Wait) (answer : Except Exception α) (run : Run)
    (accept : α → Run → Opened) (refuse : Exception → Exception) : Opened :=
  match answer with
  | .ok a => accept a (run.ask wait)
  | .error e => { run := (run.ask wait).raise (refuse e) }

def respond (el : Element) (bindAs : Option String) (response : Response) (run : Run) : Opened :=
  if response.isOk then
    { run := run.setQuestion response.payload.toValue
      commits := some (bindAs, response.payload.toValue) }
  else
    let e := Exception.raised .serverRefused s!"renderer answered {response.status}"
    { run := run.raise (e.atElement el) }

def setUp (w : World) (el : Element) (run : Run) : Opened :=
  let value := value (run.view w.globals)
  match ElementKind.ofTag el.tag with
  | .structural =>
    match evaluate (Structural.attributes value el.attributes []) with
    | .ok _ => { run }
    | .error e => { run := run.raise (e.atElement el) }
  | .catcher =>
    match run.flight with
    | none => { run, visits := false }
    | some e =>
      match evaluate (Catcher.filter value el.attributes none) with
      | .ok filter =>
        if filterAccepts filter e.category then
          { run := { run with flight := none }.setQuestion e.toValue }
        else { run, visits := false }
      | .error own =>
        { run := run.raise ((Catcher.failure own e).atElement el), visits := false }
  | .sleep =>
    match evaluate (Sleep.setup value el) with
    | .ok d => await (.timer d) (w.policy.timer run.waits d) run (fun _ run => { run }) id
    | .error e => { run := run.raise (e.atElement el) }
  | .request =>
    match evaluate (Requester.setup value (Uuid.ofNat 0) w.target el) with
    | .ok (request, bindAs) =>
      await (.renderer request) (w.policy.renderer run.waits request) run (respond el bindAs)
        (·.atElement el)
    | .error e => { run := run.raise (e.atElement el) }

mutual

/-- Visits a child of an element of some kind; the child has a number. -/
def visit (w : World) (parent : ElementKind) (id : NodeId) : Tree → Run → Run
  | .content text, run => run.modify fun level =>
    { level with content := gather level.content text }
  | .comment _, run => run
  | .document _, run =>
    run.abort (.structural parent.name "document node found among children")
  | .element el children, run =>
    let kind := ElementKind.ofTag el.tag
    if run.flight.isSome && !kind.catches then run
    else if w.limit < run.levels.length + 1 then run.abort (.stackOverflow w.limit)
    else
      let opened := setUp w el (run.enter id)
      let inner :=
        if opened.visits then visitAll w kind (id + 1) children opened.run else opened.run
      if inner.fault.isSome then inner else inner.leave kind opened.commits

def visitAll (w : World) (parent : ElementKind) (id : NodeId) : List Tree → Run → Run
  | [], run => run
  | t :: rest, run =>
    let next := visit w parent id t run
    if next.fault.isSome then next else visitAll w parent (id + t.size) rest next

end

def rootAt? (id : NodeId) : List Tree → Option (NodeId × Tree)
  | [] => none
  | t :: rest =>
    match t with
    | .element _ _ => some (id, t)
    | _ => rootAt? (id + t.size) rest

def walk (w : World) (t : Tree) : Option Run :=
  (rootAt? 1 (Document.whole t).children).map fun (id, root) => visit w .structural id root {}

end Walk
end MarkupMachine
