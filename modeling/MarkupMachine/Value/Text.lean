import MarkupMachine.Number.Decimal
import MarkupMachine.Text.Quoted
import MarkupMachine.Value.Basic

/-! The text of a value, as it is joined to other texts or shown. -/

namespace MarkupMachine.Value

/-- Whole numbers below this size are written as integers, without a sign for zero. -/
def wholeBound : Nat := Nat.pow 10 15

def numberText (x : Binary64) : String :=
  match x.toInt? with
  | some n => if n.natAbs < wholeBound then toString n else x.text
  | none => x.text

mutual

def shown : Value → String
  | .null => "null"
  | .bool b => if b then "true" else "false"
  | .number x => numberText x
  | .text s => Text.quoted s
  | .list items => "[" ++ ", ".intercalate (shownItems items) ++ "]"
  | .object entries => "\x7b" ++ ", ".intercalate (shownEntries entries) ++ "\x7d"

def shownItems : List Value → List String
  | [] => []
  | item :: rest => item.shown :: shownItems rest

def shownEntries : List (String × Value) → List String
  | [] => []
  | (key, value) :: rest => (Text.quoted key ++ ": " ++ value.shown) :: shownEntries rest

end

/-- The text that a value contributes to an interpolation: a string stands for itself. -/
def joined : Value → String
  | .text s => s
  | v => v.shown

end MarkupMachine.Value
