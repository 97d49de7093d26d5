import MarkupMachine.Exception.Category
import MarkupMachine.Tree.Basic

/-! Exceptions, which elements raise and `catch` elements intercept, and faults, which end a
coroutine without appeal. -/

namespace MarkupMachine

/-- What is known of an exception beside its category: a message, and the element at fault. -/
structure Exception.Info where
  message : String := ""
  element : Option String := none
  position : Option Position := none
  deriving DecidableEq, Inhabited

structure Exception where
  category : String
  info : Option Exception.Info := none
  deriving DecidableEq, Inhabited

namespace Exception

def withMessage (category message : String) : Exception := ⟨category, some { message }⟩

def raised (category : Category) (message : String) : Exception :=
  withMessage category.name message

def message? (e : Exception) : Option String := e.info.map (·.message)

/-- Attributes the exception to an element, unless it already names one. -/
def atElement (element : Element) (e : Exception) : Exception :=
  let info := e.info.getD {}
  match info.element with
  | some _ => { e with info := some info }
  | none =>
    { e with info := some { info with
        element := some element.tag, position := element.position } }

def toValue (e : Exception) : Value :=
  let entries := [("type", Value.text e.category)]
  match e.info with
  | none => .object entries
  | some info =>
    let entries := Table.insert "message" (.text info.message) entries
    let entries := match info.element with
      | some tag => Table.insert "element" (.text tag) entries
      | none => entries
    match info.position with
    | some p =>
      let entries := Table.insert "line" (.number (.ofNat p.line.toNat)) entries
      let entries := Table.insert "column" (.number (.ofNat p.column.toNat)) entries
      .object (Table.insert "offset" (.number (.ofNat p.offset.toNat)) entries)
    | none => .object entries

def text (e : Exception) : String :=
  match e.info with
  | none => e.category
  | some info =>
    e.category ++ (if info.message.isEmpty then "" else ": " ++ info.message) ++
      match info.position with
      | some p => s!" (line {p.line}, column {p.column})"
      | none => ""

end Exception

/-- Why a coroutine or a call on the scheduler is given up. -/
inductive Fault where
  | outOfMemory (depth : Nat)
  | stackOverflow (limit : Nat)
  | structural (tag message : String)
  | emptyStack
  | noRootElement
  | unknownCoroutine (id : Nat)
  | notWaiting (id : Nat)
  deriving DecidableEq, Repr

def Fault.message : Fault → String
  | .outOfMemory depth => s!"out of memory while pushing frame at depth {depth}"
  | .stackOverflow limit => s!"stack depth limit of {limit} frames exceeded"
  | .structural tag message => s!"structural error in <{tag}>: {message}"
  | .emptyStack => "no frame on the stack"
  | .noRootElement => "document has no root element"
  | .unknownCoroutine id => s!"unknown coroutine {id}"
  | .notWaiting id => s!"coroutine {id} is not waiting"

end MarkupMachine
