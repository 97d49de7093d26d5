import MarkupMachine.Machine.Frame
import MarkupMachine.Renderer.Message

/-! Waits, what comes of them, and the journal of a stack: what happened to it, entry by entry. -/

namespace MarkupMachine

inductive Wait where
  | timer (after : Duration)
  | renderer (request : Request)
  deriving Inhabited

inductive Completion where
  | timer
  | renderer (response : Response)
  | failed (exception : Exception)
  deriving Inhabited

/-- On what occasion an exception is put in flight: an element could not be set up, its wait
failed, a catch could not be set up to handle another exception, or its filter did not accept it. -/
inductive Cause where
  | setUp
  | wait
  | handling (handled : Exception)
  | missed
  deriving Inhabited

/-- An entry of a journal. Where it has a position, it is that of the innermost frame; what is
raised is noted together with what was in the slot before. -/
inductive Event where
  | entered (kind : ElementKind) (id : NodeId) (raising : Bool)
  | left (id : NodeId)
  | suspended (position : Option NodeId) (wait : Wait)
  | resumed (completion : Completion)
  | consumed (position : Option NodeId) (completion : Completion)
  | raised (e : Exception) (cause : Cause) (slot : Option Exception)
  | caught (e : Exception)
  | committed (id : NodeId) (bindAs : Option String) (value : Value)
  deriving Inhabited

end MarkupMachine
