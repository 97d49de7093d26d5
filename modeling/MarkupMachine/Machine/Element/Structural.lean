import MarkupMachine.Machine.Coroutine

/-! Elements without a meaning of their own: they evaluate their attributes and run their
children. -/

namespace MarkupMachine

namespace Coroutine

def element? (kind : ElementKind) (co : Coroutine) : Except Fault (Frame × Element) :=
  match co.stack.top? with
  | none => .error .emptyStack
  | some frame =>
    match co.stack.document.element? frame.position with
    | some e => .ok (frame, e)
    | none => .error (.structural kind.name "frame position is not an element")

def installed (frame : Frame) (state : ContextState) (co : Coroutine) : Except Fault Coroutine := do
  let stack ← co.stack.install ⟨co.stack.document.children frame.position, state⟩
  return { co with stack }

end Coroutine

namespace Structural

/-- Evaluates attributes in order; a name may come only once. -/
def attributes (value : Option Expression → Setup Value) :
    List Attribute → List (String × Value) → Setup (List (String × Value))
  | [], done => return done
  | a :: rest, done => do
    if Table.contains a.name done then
      throw (Exception.raised .duplicateName s!"duplicate attribute `{a.name}`")
    attributes value rest (Table.insert a.name (← value a.value) done)

def afterPushed (env : Environment) (co : Coroutine) : Except Fault Coroutine := do
  let (frame, element) ← co.element? .structural
  let co ← co.installed frame .structural
  let (result, co) := co.runSetup (attributes (env.valueOf co.stack) element.attributes [])
  let stack := match result with
    | .ok values => co.stack.modifyTop fun f => { f with attributes := values }
    | .error e => co.stack.raise (e.atElement element)
  return { co with stack := stack.setNext .selectChild }

def onPopping (stack : Stack) : Stack :=
  match stack.frames with
  | [frame] => { stack with result := frame.symbols .question }
  | _ => stack

end Structural
end MarkupMachine
