import MarkupMachine.Machine.Bindings
import MarkupMachine.Machine.Journal

/-! The stack of a coroutine: its frames, the exception in flight, the variables that its elements
own, counts of what happened, and a journal of it. -/

namespace MarkupMachine

structure Stats where
  framesPushed : Nat := 0
  framesPopped : Nat := 0
  peakFrames : Nat := 0
  contextsInstalled : Nat := 0
  contextsReleased : Nat := 0
  deriving DecidableEq, Repr, Inhabited

namespace Stats

def enter (depth : Nat) (s : Stats) : Stats :=
  { s with framesPushed := s.framesPushed + 1, peakFrames := max s.peakFrames depth }

def release (context : Option Context) (s : Stats) : Stats :=
  { s with contextsReleased := s.contextsReleased + (if context.isSome then 1 else 0) }

def leave (s : Stats) : Stats := { s with framesPopped := s.framesPopped + 1 }

def install (s : Stats) : Stats := { s with contextsInstalled := s.contextsInstalled + 1 }

end Stats

/-- The innermost frame comes first, and so does the latest entry of the journal. -/
structure Stack where
  document : Document
  limit : Nat
  frames : List Frame := []
  result : Value := .null
  exception : Option Exception := none
  scopes : ScopeVars := {}
  stats : Stats := {}
  journal : List Event := []
  deriving Inhabited

namespace Stack

def depth (s : Stack) : Nat := s.frames.length

def top? (s : Stack) : Option Frame := s.frames.head?

def position? (s : Stack) : Option NodeId := s.top?.map (·.position)

def note (event : Event) (s : Stack) : Stack := { s with journal := event :: s.journal }

def modifyTop (f : Frame → Frame) (s : Stack) : Stack :=
  match s.frames with
  | [] => s
  | frame :: outer => { s with frames := f frame :: outer }

def push (kind : ElementKind) (id : NodeId) (s : Stack) : Except Fault Stack :=
  if s.limit ≤ s.depth then .error (.stackOverflow s.limit)
  else .ok { s with
    frames := Frame.enter kind id :: s.frames
    stats := s.stats.enter (s.depth + 1)
    journal := .entered kind id s.exception.isSome :: s.journal }

/-- Leaves the innermost element. Its context goes with it, and so do the variables it owns,
unless an outer frame has the same scope. -/
def pop (s : Stack) : Stack :=
  match s.frames with
  | [] => s
  | frame :: outer => { s with
    frames := outer
    scopes := if outer.any (·.scope == frame.scope) then s.scopes else s.scopes.drop frame.scope
    stats := (s.stats.release frame.context).leave
    journal := .left frame.position :: s.journal }

def install (context : Context) (s : Stack) : Except Fault Stack :=
  match s.frames with
  | [] => .error .emptyStack
  | frame :: outer => .ok { s with
    frames := { frame with context := some context } :: outer
    stats := (s.stats.release frame.context).install }

def release (s : Stack) : Option Context × Stack :=
  match s.frames with
  | [] => (none, s)
  | frame :: outer =>
    match frame.context with
    | none => (none, s)
    | some context => (some context, { s with
      frames := { frame with context := none } :: outer
      stats := s.stats.release frame.context })

/-- Puts an exception in flight, whatever was in flight before. -/
def raise (e : Exception) (s : Stack) (cause : Cause := .setUp) : Stack :=
  { s with exception := some e, journal := .raised e cause s.exception :: s.journal }

def clear (s : Stack) : Stack := { s with exception := none }

def setNext (step : NextStep) (s : Stack) : Stack := s.modifyTop fun f => { f with next := step }

def bind (scope : NodeId) (name : String) (value : Value) (s : Stack) : Stack :=
  { s with scopes := s.scopes.bind scope name value }

def fromOutside (s : Stack) : List Frame := s.frames.reverse

def parentAt? (index : Nat) (s : Stack) : Option Frame :=
  match index with
  | 0 => none
  | index + 1 => s.fromOutside[index]?

end Stack
end MarkupMachine
