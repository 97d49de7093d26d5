import MarkupMachine.Number.Binary64
import MarkupMachine.Table

/-! The values that attributes evaluate to. -/

namespace MarkupMachine

/-- The entries of an object are kept in increasing order of their keys. -/
inductive Value where
  | null
  | bool (b : Bool)
  | number (x : Binary64)
  | text (s : String)
  | list (items : List Value)
  | object (entries : List (String × Value))
  deriving Inhabited

namespace Value

/-- Only `null` and `false` count as false. -/
def isTruthy : Value → Bool
  | .bool b => b
  | .null => false
  | _ => true

def isNull : Value → Bool
  | .null => true
  | _ => false

def asText? : Value → Option String
  | .text s => some s
  | _ => none

def asNumber? : Value → Option Binary64
  | .number x => some x
  | _ => none

def kind : Value → String
  | .null => "null"
  | .bool _ => "boolean"
  | .number _ => "number"
  | .text _ => "string"
  | .list _ => "array"
  | .object _ => "object"

def entries : Value → List (String × Value)
  | .object entries => entries
  | _ => []

def get? (v : Value) (key : String) : Option Value := Table.get? key v.entries

def set? (v : Value) (key : String) (value : Value) : Option Value :=
  match v with
  | .object entries => some (.object (Table.insert key value entries))
  | _ => none

def remove (v : Value) (key : String) : Value :=
  match v with
  | .object entries => .object (Table.erase key entries)
  | v => v

mutual

/-- Equality with numbers compared as numbers. -/
def same : Value → Value → Bool
  | .null, .null => true
  | .bool a, .bool b => a == b
  | .number x, .number y => x.equal y
  | .text s, .text t => s == t
  | .list xs, .list ys => sameItems xs ys
  | .object xs, .object ys => sameEntries xs ys
  | _, _ => false

def sameItems : List Value → List Value → Bool
  | [], [] => true
  | x :: xs, y :: ys => x.same y && sameItems xs ys
  | _, _ => false

def sameEntries : List (String × Value) → List (String × Value) → Bool
  | [], [] => true
  | (k, x) :: xs, (l, y) :: ys => k == l && x.same y && sameEntries xs ys
  | _, _ => false

end

mutual

def Ordered : Value → Prop
  | .list items => OrderedItems items
  | .object entries => Table.Ordered entries ∧ OrderedEntries entries
  | _ => True

def OrderedItems : List Value → Prop
  | [] => True
  | item :: rest => item.Ordered ∧ OrderedItems rest

def OrderedEntries : List (String × Value) → Prop
  | [] => True
  | (_, value) :: rest => value.Ordered ∧ OrderedEntries rest

end

end Value
end MarkupMachine
