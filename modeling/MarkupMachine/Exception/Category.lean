import MarkupMachine.Table
import MarkupMachine.Text.Blank

/-! Categories of exceptions. A category is known by its name; filters list names. A name table
hands out small numbers for names, and comparing numbers is as good as comparing names. -/

namespace MarkupMachine

inductive Category where
  | noData
  | entityNotFound
  | duplicateName
  | invalidValue
  | notImplemented
  | argumentMissed
  | wrongDataType
  | serverRefused
  | timeout
  deriving DecidableEq, Repr

namespace Category

def all : List Category :=
  [.noData, .entityNotFound, .duplicateName, .invalidValue, .notImplemented, .argumentMissed,
    .wrongDataType, .serverRefused, .timeout]

def name : Category → String
  | .noData => "NoData"
  | .entityNotFound => "EntityNotFound"
  | .duplicateName => "DuplicateName"
  | .invalidValue => "InvalidValue"
  | .notImplemented => "NotImplemented"
  | .argumentMissed => "ArgumentMissed"
  | .wrongDataType => "WrongDataType"
  | .serverRefused => "ServerRefused"
  | .timeout => "Timeout"

def named? (s : String) : Option Category := all.find? (·.name == s)

end Category

/-- Whether a filter accepts a category: no filter and a lone star accept every one, any other
filter those among its words. -/
def filterAccepts (filter : Option String) (category : String) : Bool :=
  match filter with
  | none => true
  | some filter => Text.trim filter == "*" || (Text.words filter).contains category

theorem nothing_agrees (name : String) (atom : Nat) :
    Table.get? name ([] : List (String × Nat)) = some atom ↔
      (#[] : Array String)[atom]? = some name := by
  simp

/-- Names in the order in which they were first seen, and a map from names to their places. The two
say the same. -/
structure NameTable where
  names : Array String := #[]
  index : List (String × Nat) := []
  agree : ∀ name atom, Table.get? name index = some atom ↔ names[atom]? = some name := by
    exact nothing_agrees

namespace NameTable

abbrev Atom := Nat

instance : Inhabited NameTable := ⟨{}⟩

def lookup? (table : NameTable) (name : String) : Option Atom := Table.get? name table.index

def push (table : NameTable) (name : String) (absent : table.lookup? name = none) : NameTable where
  names := table.names.push name
  index := Table.insert name table.names.size table.index
  agree other atom := by
    rw [Table.get?_insert, Array.getElem?_push]
    have old := table.agree other atom
    by_cases same : other = name <;> by_cases last : atom = table.names.size
    · simp [same, last]
    · subst same
      rw [lookup?] at absent
      rw [absent] at old
      simp [last, ← old, Ne.symm last]
    · subst last
      simp [same, Ne.symm same, old]
    · simp [same, last, old]

def intern (table : NameTable) (name : String) : NameTable × Atom :=
  match known : table.lookup? name with
  | some atom => (table, atom)
  | none => (table.push name known, table.names.size)

/-- The name behind a number; numbers never handed out have none. -/
def name (table : NameTable) (atom : Atom) : String := table.names[atom]?.getD ""

def builtin : NameTable :=
  Category.all.foldl (fun table category => (table.intern category.name).1) {}

/-- The filter test on numbers: words that were never entered match nothing. -/
def accepts (table : NameTable) (filter : Option String) (atom : Atom) : Bool :=
  match filter with
  | none => true
  | some filter =>
    Text.trim filter == "*" || (Text.words filter).any fun word => table.lookup? word == some atom

end NameTable
end MarkupMachine
