import MarkupMachine.Tree.Document

/-! Variables: flat sets of them, and the sets that elements own while they run. -/

namespace MarkupMachine

structure Bindings where
  entries : List (String × Value) := []
  deriving Inhabited

namespace Bindings

def get? (name : String) (b : Bindings) : Option Value := Table.get? name b.entries

def bind (name : String) (value : Value) (b : Bindings) : Bindings :=
  ⟨Table.insert name value b.entries⟩

def unbind (name : String) (b : Bindings) : Bindings := ⟨Table.erase name b.entries⟩

def exchange (name : String) (value : Value) (b : Bindings) : Option Value × Bindings :=
  (b.get? name, b.bind name value)

def take (name : String) (b : Bindings) : Option Value × Bindings := (b.get? name, b.unbind name)

def size (b : Bindings) : Nat := b.entries.length

def isEmpty (b : Bindings) : Bool := b.entries.isEmpty

theorem get?_of_isEmpty {b : Bindings} (empty : b.isEmpty = true) (name : String) :
    b.get? name = none := by
  rw [get?, List.isEmpty_iff.mp empty, Table.get?_nil]

@[simp] theorem get?_bind (name other : String) (value : Value) (b : Bindings) :
    (b.bind name value).get? other = if other = name then some value else b.get? other :=
  Table.get?_insert ..

@[simp] theorem get?_unbind (name other : String) (b : Bindings) :
    (b.unbind name).get? other = if other = name then none else b.get? other :=
  Table.get?_erase ..

end Bindings

/-- Variables by the element that owns them. An element without variables has no entry. -/
structure ScopeVars where
  scopes : List (NodeId × Bindings) := []
  deriving Inhabited

namespace ScopeVars

def get? (scope : NodeId) (name : String) (vars : ScopeVars) : Option Value :=
  match Table.get? scope vars.scopes with
  | some bindings => bindings.get? name
  | none => none

def bind (scope : NodeId) (name : String) (value : Value) (vars : ScopeVars) : ScopeVars :=
  let bindings := (Table.get? scope vars.scopes).getD {}
  ⟨Table.insert scope (bindings.bind name value) vars.scopes⟩

/-- The entry of an element goes with its last variable. -/
def unbind (scope : NodeId) (name : String) (vars : ScopeVars) : ScopeVars :=
  match Table.get? scope vars.scopes with
  | none => vars
  | some bindings =>
    let bindings := bindings.unbind name
    if bindings.isEmpty then ⟨Table.erase scope vars.scopes⟩
    else ⟨Table.insert scope bindings vars.scopes⟩

def exchange (scope : NodeId) (name : String) (value : Value) (vars : ScopeVars) :
    Option Value × ScopeVars :=
  let bindings := (Table.get? scope vars.scopes).getD {}
  ((bindings.exchange name value).1, vars.bind scope name value)

def take (scope : NodeId) (name : String) (vars : ScopeVars) : Option Value × ScopeVars :=
  match Table.get? scope vars.scopes with
  | none => (none, vars)
  | some bindings => ((bindings.take name).1, vars.unbind scope name)

def drop (scope : NodeId) (vars : ScopeVars) : ScopeVars := ⟨Table.erase scope vars.scopes⟩

def hasScope (scope : NodeId) (vars : ScopeVars) : Bool := Table.contains scope vars.scopes

theorem get?_bind (scope other : NodeId) (name key : String) (value : Value) (vars : ScopeVars) :
    (vars.bind scope name value).get? other key =
      if other = scope ∧ key = name then some value else vars.get? other key := by
  by_cases same : other = scope
  · subst same
    cases found : Table.get? other vars.scopes <;>
      simp [get?, bind, Table.get?_insert, found, Bindings.get?, Bindings.bind]
  · simp [get?, bind, Table.get?_insert, same]

theorem get?_unbind (scope other : NodeId) (name key : String) (vars : ScopeVars) :
    (vars.unbind scope name).get? other key =
      if other = scope ∧ key = name then none else vars.get? other key := by
  cases found : Table.get? scope vars.scopes with
  | none =>
    by_cases same : other = scope
    · simp [unbind, get?, same, found]
    · simp [unbind, same, found]
  | some bindings =>
    by_cases same : other = scope
    · subst same
      have inner := Bindings.get?_unbind name key bindings
      cases empty : (bindings.unbind name).isEmpty with
      | true =>
        -- nothing is left of these variables, so their entry is not missed
        rw [Bindings.get?_of_isEmpty empty] at inner
        simp [unbind, get?, found, empty, Table.get?_erase, ← inner]
      | false => simp [unbind, get?, found, empty, Table.get?_insert]
    · cases empty : (bindings.unbind name).isEmpty <;>
        simp [unbind, get?, found, empty, Table.get?_erase, Table.get?_insert, same]

theorem get?_drop (scope other : NodeId) (key : String) (vars : ScopeVars) :
    (vars.drop scope).get? other key = if other = scope then none else vars.get? other key := by
  by_cases same : other = scope <;> simp [get?, drop, Table.get?_erase, same]

end ScopeVars
end MarkupMachine
