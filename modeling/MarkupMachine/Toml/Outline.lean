import MarkupMachine.Toml.Basic

/-! The tables of a TOML document while it is read, with their keys in the order in which they were
written. A table remembers how it came to be, because that decides what may still be added to it: a
header defines a table once, and keys with dots extend only tables that such keys have made. -/

namespace MarkupMachine.Toml

/-- How a table came to be: by a header of its own, as a parent in another header, or as a parent
in a key with dots. -/
inductive Origin where
  | header
  | implied
  | dotted
  deriving DecidableEq

/-- What stands at a key. Of the tables of an array only the last one can be extended. -/
inductive Item where
  | value (v : Value)
  | table (origin : Origin) (entries : List (String × Item))
  | tables (earlier : List (List (String × Item))) (last : List (String × Item))

abbrev Entries := List (String × Item)

namespace Item

mutual

def toValue : Item → Value
  | .value v => v
  | .table _ entries => .table (entriesToValues entries)
  | .tables earlier last => .array (eachToValue earlier ++ [.table (entriesToValues last)])

def entriesToValues : List (String × Item) → List (String × Value)
  | [] => []
  | (key, item) :: rest => (key, item.toValue) :: entriesToValues rest

def eachToValue : List (List (String × Item)) → List Value
  | [] => []
  | entries :: rest => .table (entriesToValues entries) :: eachToValue rest

end
end Item

namespace Entries

def toValue (entries : Entries) : Value := .table (Item.entriesToValues entries)

def put (key : String) (item : Item) : Entries → Entries
  | [] => [(key, item)]
  | (k, other) :: rest => if k = key then (k, item) :: rest else (k, other) :: put key item rest

def putLast (key : String) (item : Item) (entries : Entries) : Entries :=
  entries.filter (fun entry => entry.1 ≠ key) ++ [(key, item)]

/-- Changes the table at a path below a table, and makes the tables on the way that are missing.
Keys with dots do not enter a table that has a header. -/
def within (dotted : Bool) (change : Origin → Entries → Option Entries) :
    List String → Origin → Entries → Option Entries
  | [], origin, entries => change origin entries
  | key :: path, _, entries =>
    match entries.lookup key with
    | none => do
      let origin := if dotted then .dotted else .implied
      return entries.put key (.table origin (← within dotted change path origin []))
    | some (.table origin inner) =>
      if dotted ∧ origin = .header then none
      else do
        return entries.put key (.table origin (← within dotted change path origin inner))
    | some (.tables earlier last) => do
      return entries.put key (.tables earlier (← within dotted change path .header last))
    | some (.value _) => none

def define (path : List String) (key : String) (value : Value) (entries : Entries) :
    Option Entries :=
  within true (fun origin entries =>
    if (path ≠ [] ∧ origin ≠ .dotted) ∨ (entries.lookup key).isSome then none
    else some (entries.put key (.value value))) path .header entries

/-- Opens the table of a header, which is not there yet or was implied; its place is where it has
its header. -/
def openTable (path : List String) (key : String) (entries : Entries) : Option Entries :=
  within false (fun _ entries =>
    match entries.lookup key with
    | none => some (entries.put key (.table .header []))
    | some (.table .implied inner) => some (entries.putLast key (.table .header inner))
    | some _ => none) path .header entries

def openNext (path : List String) (key : String) (entries : Entries) : Option Entries :=
  within false (fun _ entries =>
    match entries.lookup key with
    | none => some (entries.put key (.tables [] []))
    | some (.tables earlier last) => some (entries.put key (.tables (earlier ++ [last]) []))
    | some _ => none) path .header entries

end Entries
end MarkupMachine.Toml
