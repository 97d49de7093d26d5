import MarkupMachine.Machine.Stack
import MarkupMachine.Value.Text

/-! Evaluation of attribute expressions. A name is looked up in the symbol slots of the innermost
frame, then in the variables of the frames from the innermost outward, then among the globals of
the document. -/

namespace MarkupMachine

structure Scope where
  stack : Stack
  globals : Option Bindings := none
  deriving Inhabited

namespace Scope

def inFrames? (vars : ScopeVars) (name : String) : List Frame → Option Value
  | [] => none
  | frame :: outer =>
    match vars.get? frame.scope name with
    | some value => some value
    | none => inFrames? vars name outer

def named? (name : String) (scope : Scope) : Option Value :=
  match Symbol.ofName? name with
  | some s => scope.stack.top?.map fun frame => frame.symbols s
  | none =>
    match inFrames? scope.stack.scopes name scope.stack.frames with
    | some value => some value
    | none => scope.globals.bind (·.get? name)

def symbol? (level : Nat) (s : Symbol) (scope : Scope) : Option Value :=
  scope.stack.frames[level]?.map fun frame => frame.symbols s

end Scope

structure View where
  named? : String → Option Value
  symbol? : Nat → Symbol → Option Value

def Scope.view (scope : Scope) : View where
  named? name := scope.named? name
  symbol? level s := scope.symbol? level s

namespace Expression

mutual

/-- Evaluates an expression, or tells why it has no value. The first part of an interpolation
that fails decides. -/
def evaluate (view : View) : Expression → Except Exception Value
  | .literal value => .ok value
  | .variable name =>
    match view.named? name with
    | some value => .ok value
    | none => .error (.raised .entityNotFound s!"variable `${name}` not found")
  | .symbol c level =>
    match Symbol.ofChar? c with
    | none => .error (.raised .invalidValue s!"`{c}` is not a symbol variable")
    | some s =>
      match view.symbol? level.toNat s with
      | some value => .ok value
      | none => .error (.raised .noData s!"no frame at level {level}")
  | .interpolation parts => do return .text (← join view parts)

def join (view : View) : List Expression → Except Exception String
  | [] => .ok ""
  | part :: rest => do
    let value ← evaluate view part
    let others ← join view rest
    return value.joined ++ others

end

end Expression

/-- A way to evaluate expressions, and the names of variables it makes a note of on the way. -/
structure Evaluator where
  evaluate : Scope → Expression → Except Exception Value
  asks : Expression → List String := fun _ => []

namespace Evaluator

def standard : Evaluator := { evaluate := fun scope e => e.evaluate scope.view }

instance : Inhabited Evaluator := ⟨standard⟩

/-- Notes each variable that is an attribute's whole value. Some of them fail, with a category
given for each; unbound ones are null. -/
def recording (failures : List (String × String)) : Evaluator where
  evaluate scope
    | .variable name =>
      match failures.find? (·.1 == name) with
      | some (_, category) => .error (.withMessage category s!"${name} failed")
      | none => .ok ((scope.named? name).getD .null)
    | e => e.evaluate scope.view
  asks
    | .variable name => [name]
    | _ => []

end Evaluator

/-- What all coroutines of a scheduler share: how they evaluate, the globals of each document, and
the handle that their requests address. -/
structure Environment where
  evaluator : Evaluator := .standard
  globals : List (Nat × Bindings) := []
  target : UInt64 := 0
  deriving Inhabited

namespace Environment

def scope (env : Environment) (stack : Stack) : Scope :=
  ⟨stack, Table.get? stack.document.number env.globals⟩

def bind (document : Nat) (name : String) (value : Value) (env : Environment) : Environment :=
  let bindings := (Table.get? document env.globals).getD {}
  { env with globals := Table.insert document (bindings.bind name value) env.globals }

def unbind (document : Nat) (name : String) (env : Environment) : Environment :=
  match Table.get? document env.globals with
  | none => env
  | some bindings =>
    { env with globals := Table.insert document (bindings.unbind name) env.globals }

def global? (document : Nat) (name : String) (env : Environment) : Option Value :=
  (Table.get? document env.globals).bind (·.get? name)

end Environment

/-- The set-up of an element: attribute values are asked for one by one, with a note of the names
asked for, until one of them fails. -/
abbrev Setup (α : Type) := ExceptT Exception (StateM (List String)) α

def Environment.valueOf (env : Environment) (stack : Stack) :
    Option Expression → Setup Value
  | none => return .null
  | some e => do
    modify (· ++ env.evaluator.asks e)
    match env.evaluator.evaluate (env.scope stack) e with
    | .ok value => return value
    | .error e => throw e

end MarkupMachine
