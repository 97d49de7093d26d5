import MarkupMachine.Duration
import MarkupMachine.Exception.Basic
import MarkupMachine.Tree.Document

/-! Frames: one for each element under evaluation, with the private state of its kind. -/

namespace MarkupMachine

/-- Every tag without a meaning of its own is structural. -/
inductive ElementKind where
  | structural
  | catcher
  | sleep
  | request
  deriving DecidableEq, Repr, Inhabited

namespace ElementKind

def ofTag (tag : String) : ElementKind :=
  if tag = "catch" then .catcher
  else if tag = "sleep" then .sleep
  else if tag = "request" then .request
  else .structural

def name : ElementKind → String
  | .structural => "undefined"
  | .catcher => "catch"
  | .sleep => "sleep"
  | .request => "request"

def catches (kind : ElementKind) : Bool := kind == .catcher

end ElementKind

/-- Which operation a frame runs next. A custom step is a second entry into the same element. -/
inductive NextStep where
  | afterPushed
  | onPopping
  | rerun
  | selectChild
  | custom (state : Nat)
  deriving DecidableEq, Repr, Inhabited

/-- The slots that every frame has: result, position, event, match, key, value, index. -/
inductive Symbol where
  | question
  | at
  | number
  | asterisk
  | colon
  | ampersand
  | percent
  deriving DecidableEq, Repr

namespace Symbol

def all : List Symbol := [.question, .at, .number, .asterisk, .colon, .ampersand, .percent]

def char : Symbol → Char
  | .question => '?'
  | .at => '@'
  | .number => '#'
  | .asterisk => '*'
  | .colon => ':'
  | .ampersand => '&'
  | .percent => '%'

def ofChar? (c : Char) : Option Symbol := all.find? (·.char == c)

def ofName? (name : String) : Option Symbol :=
  match name.toList with
  | [c] => ofChar? c
  | _ => none

end Symbol

inductive ContextState where
  | structural
  | catcher (caught : Option Exception)
  | sleep (duration : Duration)
  | request (bindAs : Option String) (response : Option Value)
  deriving Inhabited

/-- A frame's private state: the children still to be visited, and what its kind keeps. -/
structure Context where
  rest : List NodeId
  state : ContextState
  deriving Inhabited

structure Frame where
  scope : NodeId
  position : NodeId
  kind : ElementKind
  symbols : Symbol → Value := fun _ => .null
  attributes : List (String × Value) := []
  content : Option String := none
  context : Option Context := none
  next : NextStep := .afterPushed
  deriving Inhabited

namespace Frame

def enter (kind : ElementKind) (id : NodeId) : Frame := { scope := id, position := id, kind }

def setSymbol (s : Symbol) (value : Value) (f : Frame) : Frame :=
  { f with symbols := fun t => if t = s then value else f.symbols t }

@[simp] theorem symbols_setSymbol (s t : Symbol) (value : Value) (f : Frame) :
    (f.setSymbol s value).symbols t = if t = s then value else f.symbols t := rfl

section SetSymbol

variable (s : Symbol) (value : Value) (f : Frame)

@[simp] theorem scope_setSymbol : (f.setSymbol s value).scope = f.scope := rfl

@[simp] theorem position_setSymbol : (f.setSymbol s value).position = f.position := rfl

@[simp] theorem kind_setSymbol : (f.setSymbol s value).kind = f.kind := rfl

@[simp] theorem content_setSymbol : (f.setSymbol s value).content = f.content := rfl

@[simp] theorem context_setSymbol : (f.setSymbol s value).context = f.context := rfl

@[simp] theorem next_setSymbol : (f.setSymbol s value).next = f.next := rfl

end SetSymbol

end Frame
end MarkupMachine
