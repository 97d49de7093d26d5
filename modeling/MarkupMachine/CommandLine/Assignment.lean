import MarkupMachine.Json.Decode
import MarkupMachine.Text.Blank
import MarkupMachine.Value.Plain

/-! Variables given on the command line, as a name and a value with an equals sign in between. -/

namespace MarkupMachine

structure Assignment where
  name : String
  value : Value

namespace Assignment

inductive Fault where
  | noValue (text : String)
  | noName (text : String)
  deriving DecidableEq, Repr

def Fault.message : Fault → String
  | .noValue text => "Invalid variable '" ++ text ++ "': expected NAME=JSON"
  | .noName text => "Invalid variable '" ++ text ++ "': empty name"

/-- The value that a text stands for: what it says as JSON, or else the text itself. -/
def valueOf (text : String) : Value :=
  match Json.parse text with
  | .ok j => .ofPlain j
  | .error _ => .text text

def parse (text : String) : Except Fault Assignment :=
  let cs := text.toList
  match cs.dropWhile (· != '=') with
  | [] => .error (.noValue text)
  | _ :: value =>
    let name := Text.trimmed (cs.takeWhile (· != '='))
    if name.isEmpty then .error (.noName text)
    else .ok ⟨String.ofList name, valueOf (String.ofList value)⟩

end Assignment
end MarkupMachine
