import MarkupMachine.Machine.Evaluation

/-! Coroutines: a stack together with its run state, the wait it asks for and the completion it
was resumed with. -/

namespace MarkupMachine

inductive RunState where
  | ready
  | running
  | waiting
  | terminated
  deriving DecidableEq, Repr, Inhabited

def RunState.name : RunState → String
  | .ready => "ready"
  | .running => "running"
  | .waiting => "waiting"
  | .terminated => "terminated"

inductive Outcome where
  | returned (value : Value)
  | thrown (exception : Exception)
  | fatal (message : String)
  | cancelled
  deriving Inhabited

structure Coroutine where
  id : Nat
  stack : Stack
  state : RunState := .ready
  waits : Nat := 0
  pending : List Wait := []
  resume : Option Completion := none
  outcome : Option Outcome := none
  asked : List String := []
  deriving Inhabited

namespace Coroutine

def label (id : Nat) : String := s!"co-{id}"

def onStack (f : Stack → Stack) (co : Coroutine) : Coroutine := { co with stack := f co.stack }

def suspend (wait : Wait) (co : Coroutine) : Coroutine :=
  { co with
    pending := co.pending ++ [wait]
    waits := co.waits + 1
    state := .waiting
    stack := co.stack.note (.suspended co.stack.position? wait) }

/-- Takes the completion of a wait; after the last one the coroutine is ready again. -/
def resumeWith (completion : Completion) (co : Coroutine) : Coroutine :=
  { co with
    resume := some completion
    waits := co.waits - 1
    state := if co.waits - 1 = 0 then .ready else co.state
    stack := co.stack.note (.resumed completion) }

/-- Hands the completion of a wait to the element that is due to go on with it. -/
def takeResume (co : Coroutine) : Option Completion × Coroutine :=
  match co.resume with
  | none => (none, co)
  | some completion => (some completion, { co with
      resume := none
      stack := co.stack.note (.consumed co.stack.position? completion) })

def finish (outcome : Outcome) (co : Coroutine) : Coroutine :=
  { co with state := .terminated, waits := 0, pending := [], outcome := some outcome }

def isTerminated (co : Coroutine) : Bool := co.state == .terminated

/-- Ends with an empty stack: by the exception in flight, or with the result. -/
def complete (co : Coroutine) : Coroutine :=
  match co.stack.exception with
  | some e => (co.onStack Stack.clear).finish (.thrown e)
  | none => co.finish (.returned co.stack.result)

def runSetup {α : Type} (setup : Setup α) (co : Coroutine) : Except Exception α × Coroutine :=
  let (result, asked) := setup.run.run co.asked
  (result, { co with asked })

end Coroutine
end MarkupMachine
