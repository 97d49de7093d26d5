import MarkupMachine.Json.Basic
import MarkupMachine.Value.Basic

/-! Values as plain JSON, and back. -/

namespace MarkupMachine.Value

/-- Whole numbers below this size become integers; every one of them is exact. -/
def integerBound : Nat := 9 * Nat.pow 10 15

/-- A number that JSON cannot write becomes `null`. -/
def plainNumber (x : Binary64) : Json :=
  match x.toInt? with
  | some n => if n.natAbs < integerBound then .number (.int n) else .number (.float x)
  | none => if x.isFinite then .number (.float x) else .null

mutual

def toPlain : Value → Json
  | .null => .null
  | .bool b => .bool b
  | .number x => plainNumber x
  | .text s => .string s
  | .list items => .array (toPlainItems items)
  | .object entries => .object (toPlainEntries entries)

def toPlainItems : List Value → List Json
  | [] => []
  | item :: rest => item.toPlain :: toPlainItems rest

def toPlainEntries : List (String × Value) → List (String × Json)
  | [] => []
  | (key, value) :: rest => (key, value.toPlain) :: toPlainEntries rest

end

def ofNumber : Json.Number → Binary64
  | .int n => .ofInt n
  | .float x => x

mutual

def ofPlain : Json → Value
  | .null => .null
  | .bool b => .bool b
  | .number n => .number (ofNumber n)
  | .string s => .text s
  | .array items => .list (ofPlainItems items)
  | .object fields => .object (Table.ofList (ofPlainFields fields))

def ofPlainItems : List Json → List Value
  | [] => []
  | item :: rest => ofPlain item :: ofPlainItems rest

def ofPlainFields : List (String × Json) → List (String × Value)
  | [] => []
  | (key, value) :: rest => (key, ofPlain value) :: ofPlainFields rest

end

end MarkupMachine.Value
