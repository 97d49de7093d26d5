import Mathlib.Logic.Function.Basic
import MarkupMachine.Machine.Bindings

/-! The variables of elements are kept in two levels, by the element that owns them and then by
name. To every call they answer as one flat map from pairs of an owner and a name would, and an
element has an entry exactly while it owns a variable. -/

namespace MarkupMachine

inductive ScopeVars.Change where
  | bind (scope : NodeId) (name : String) (value : Value)
  | unbind (scope : NodeId) (name : String)
  | drop (scope : NodeId)

namespace ScopeVars.Change

def perform {σ : Type} (step : σ → Change → Option Value × σ) :
    σ → List Change → List (Option Value) × σ
  | state, [] => ([], state)
  | state, call :: rest =>
    let (answer, state) := step state call
    let (answers, state) := perform step state rest
    (answer :: answers, state)

end ScopeVars.Change

open ScopeVars (Change)

def ScopeVars.change (vars : ScopeVars) : Change → Option Value × ScopeVars
  | .bind scope name value => vars.exchange scope name value
  | .unbind scope name => vars.take scope name
  | .drop scope => (none, vars.drop scope)

abbrev FlatVars : Type := NodeId × String → Option Value

namespace FlatVars

def empty : FlatVars := fun _ => none

/-- The last binding of a pair counts, until the pair is unbound or its owner dropped. -/
def change (flat : FlatVars) : Change → Option Value × FlatVars
  | .bind scope name value =>
    (flat (scope, name), Function.update flat (scope, name) (some value))
  | .unbind scope name => (flat (scope, name), Function.update flat (scope, name) none)
  | .drop scope => (none, fun pair => if pair.1 = scope then none else flat pair)

end FlatVars

theorem Bindings.isEmpty_bind (name : String) (value : Value) (b : Bindings) :
    (b.bind name value).isEmpty = false := by
  cases empty : (b.bind name value).isEmpty with
  | false => rfl
  | true =>
    have bound := get?_of_isEmpty empty name
    simp at bound

theorem Bindings.exists_of_isEmpty {b : Bindings} (some : b.isEmpty = false) :
    ∃ name value, b.get? name = .some value := by
  obtain ⟨entries⟩ := b
  cases entries with
  | nil => cases some
  | cons entry rest => exact ⟨entry.1, entry.2, by simp [get?, Table.get?]⟩

namespace ScopeVars

theorem exchange_eq (scope : NodeId) (name : String) (value : Value) (vars : ScopeVars) :
    vars.exchange scope name value = (vars.get? scope name, vars.bind scope name value) := by
  cases found : Table.get? scope vars.scopes <;>
    simp [exchange, get?, found, Bindings.exchange, Bindings.get?]

theorem take_eq (scope : NodeId) (name : String) (vars : ScopeVars) :
    vars.take scope name = (vars.get? scope name, vars.unbind scope name) := by
  cases found : Table.get? scope vars.scopes <;>
    simp [take, get?, unbind, found, Bindings.take]

/-- Variables in two levels are those of a flat map, and no owner is left without any. -/
structure Flattens (vars : ScopeVars) (flat : FlatVars) : Prop where
  get?_eq : ∀ scope name, vars.get? scope name = flat (scope, name)
  inhabited : ∀ entry ∈ vars.scopes, entry.2.isEmpty = false

namespace Flattens

variable {vars : ScopeVars} {flat : FlatVars}

theorem start : Flattens {} .empty := ⟨fun _ _ => rfl, nofun⟩

theorem bind (h : Flattens vars flat) (scope : NodeId) (name : String) (value : Value) :
    Flattens (vars.bind scope name value) (flat.change (.bind scope name value)).2 where
  get?_eq other key := by
    rw [get?_bind, h.get?_eq]
    simp [FlatVars.change, Function.update_apply]
  inhabited entry mem := by
    rcases Table.mem_insert mem with rfl | mem
    · exact Bindings.isEmpty_bind ..
    · exact h.inhabited entry mem

theorem unbind (h : Flattens vars flat) (scope : NodeId) (name : String) :
    Flattens (vars.unbind scope name) (flat.change (.unbind scope name)).2 where
  get?_eq other key := by
    rw [get?_unbind, h.get?_eq]
    simp [FlatVars.change, Function.update_apply]
  inhabited entry mem := by
    unfold ScopeVars.unbind at mem
    split at mem
    · exact h.inhabited entry mem
    · dsimp only at mem
      split at mem
      · exact h.inhabited entry (Table.mem_of_mem_erase mem)
      · rename_i left
        rcases Table.mem_insert mem with rfl | mem
        · simpa using left
        · exact h.inhabited entry mem

theorem drop (h : Flattens vars flat) (scope : NodeId) :
    Flattens (vars.drop scope) (flat.change (.drop scope)).2 where
  get?_eq other key := by
    rw [get?_drop, h.get?_eq]
    rfl
  inhabited entry mem := h.inhabited entry (Table.mem_of_mem_erase mem)

theorem change (h : Flattens vars flat) (call : Change) :
    (vars.change call).1 = (flat.change call).1 ∧
      Flattens (vars.change call).2 (flat.change call).2 := by
  cases call with
  | bind scope name value =>
    rw [ScopeVars.change, exchange_eq]
    exact ⟨h.get?_eq scope name, h.bind scope name value⟩
  | unbind scope name =>
    rw [ScopeVars.change, take_eq]
    exact ⟨h.get?_eq scope name, h.unbind scope name⟩
  | drop scope => exact ⟨rfl, h.drop scope⟩

theorem perform (h : Flattens vars flat) (calls : List Change) :
    (Change.perform ScopeVars.change vars calls).1 =
        (Change.perform FlatVars.change flat calls).1 ∧
      Flattens (Change.perform ScopeVars.change vars calls).2
        (Change.perform FlatVars.change flat calls).2 := by
  induction calls generalizing vars flat with
  | nil => exact ⟨rfl, h⟩
  | cons call rest ih =>
    obtain ⟨answer, after⟩ := h.change call
    obtain ⟨answers, last⟩ := ih after
    exact ⟨congrArg₂ List.cons answer answers, last⟩

theorem hasScope_iff (h : Flattens vars flat) (scope : NodeId) :
    vars.hasScope scope = true ↔ ∃ name value, flat (scope, name) = some value := by
  simp only [← h.get?_eq]
  constructor
  · intro has
    obtain ⟨bindings, found⟩ := Option.isSome_iff_exists.mp has
    obtain ⟨name, value, bound⟩ :=
      Bindings.exists_of_isEmpty (h.inhabited _ (Table.mem_of_get? found))
    exact ⟨name, value, by simp [get?, found, bound]⟩
  · rintro ⟨name, value, bound⟩
    unfold get? at bound
    split at bound
    · rename_i found
      simp [hasScope, Table.contains, found]
    · cases bound

end Flattens

/-- Whatever calls are made, from no variables on: each gives back what it would of one flat map,
every variable is what it is in that map, an element has an entry if and only if the map binds a
name for it, and no entry is empty. -/
theorem perform_flat (calls : List Change) :
    let (answers, vars) := Change.perform ScopeVars.change {} calls
    let (expected, flat) := Change.perform FlatVars.change .empty calls
    answers = expected ∧ (∀ scope name, vars.get? scope name = flat (scope, name)) ∧
      (∀ scope, vars.hasScope scope = true ↔ ∃ name value, flat (scope, name) = some value) ∧
      ∀ entry ∈ vars.scopes, entry.2.isEmpty = false := by
  obtain ⟨answers, flattens⟩ := Flattens.start.perform calls
  exact ⟨answers, flattens.get?_eq, flattens.hasScope_iff, flattens.inhabited⟩

end ScopeVars
end MarkupMachine
