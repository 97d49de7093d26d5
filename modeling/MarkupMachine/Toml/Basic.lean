import MarkupMachine.Json.Basic
import MarkupMachine.Table
import MarkupMachine.Toml.Moment

/-! The values of TOML, and what they are as plain JSON. Tables keep the order in which their keys
were written. -/

namespace MarkupMachine.Toml

inductive Value where
  | string (s : String)
  | integer (n : Int)
  | float (x : Binary64)
  | boolean (b : Bool)
  | moment (text : String)
  | array (items : List Value)
  | table (entries : List (String × Value))
  deriving Inhabited

namespace Value

/-- The key that makes a moment of a table which begins with it, out of the string under it. -/
def momentKey : String := "$__toml_private_datetime"

mutual

/-- A value as plain JSON, in which moments are strings. There is none where the reserved key has
no moment under it. -/
def plain? : Value → Option Json
  | .string s | .moment s => some (.string s)
  | .integer n => some (.number (.int n))
  | .float x => some (.number (.float x))
  | .boolean b => some (.bool b)
  | .array items => do return .array (← plainItems? items)
  | .table [] => some (.object [])
  | .table ((key, value) :: rest) =>
    if key = momentKey then
      match value with
      | .string s => (moment? .loose s.toList).map .string
      | _ => none
    else do
      return .object (Table.ofList ((key, ← value.plain?) :: (← plainEntries? rest)))

def plainItems? : List Value → Option (List Json)
  | [] => some []
  | item :: rest => do return (← item.plain?) :: (← plainItems? rest)

def plainEntries? : List (String × Value) → Option (List (String × Json))
  | [] => some []
  | (key, value) :: rest => do return (key, ← value.plain?) :: (← plainEntries? rest)

end
end Value
end MarkupMachine.Toml
