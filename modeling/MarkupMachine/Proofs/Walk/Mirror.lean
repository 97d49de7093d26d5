import MarkupMachine.Proofs.Machine.Once
import MarkupMachine.Proofs.Walk.View

/-! A run of the recursion beside a coroutine that is in the middle of the same program, and what
the operations of the one do to the other. -/

namespace MarkupMachine

namespace Walk

structure Run.Pictures (run : Run) (s : Stack) : Prop where
  levels : Walk.Pictures s.scopes run.levels s.frames
  owned : ∀ scope name, s.scopes.get? scope name ≠ none → ∃ f ∈ s.frames, f.scope = scope
  flight : s.exception = run.flight
  result : s.result = run.result
  entered : s.entered = run.entered

theorem Run.modify_id (run : Run) : run.modify (fun level => level) = run := by
  unfold modify
  split
  · rfl
  · rename_i levels
    rw [← levels]

namespace Run.Pictures

variable {run : Run} {s : Stack} {f g : Frame} {outer : List Frame}

theorem congr (h : run.Pictures s) {other : Stack}
    (scopes : ∀ scope name, other.scopes.get? scope name = s.scopes.get? scope name)
    (frames : other.frames = s.frames) (exception : other.exception = s.exception)
    (result : other.result = s.result) (entered : other.entered = s.entered) :
    run.Pictures other where
  levels := by
    rw [frames]
    exact h.levels.congr fun f _ name => scopes f.scope name
  owned scope name bound := by
    rw [frames]
    rw [scopes] at bound
    exact h.owned scope name bound
  flight := exception.trans h.flight
  result := result.trans h.result
  entered := entered.trans h.entered

theorem raise (h : run.Pictures s) (e : Exception) (cause : Cause) :
    (run.raise e).Pictures (s.raise e cause) :=
  ⟨h.levels, h.owned, rfl, h.result, h.entered⟩

theorem exists_level (h : run.Pictures s) (frames : s.frames = f :: outer) :
    ∃ level around, run.levels = level :: around ∧ level.Pictures s.scopes f ∧
      Walk.Pictures s.scopes around outer := by
  have levels := h.levels
  rw [frames] at levels
  obtain ⟨level, around, first, rest, eq⟩ := List.forall₂_cons_right_iff.mp levels
  exact ⟨level, around, eq, first, rest⟩

theorem modify (h : run.Pictures s) (frames : s.frames = f :: outer) (change : Level → Level)
    (scope : g.scope = f.scope)
    (changed : ∀ level : Level, level.Pictures s.scopes f → (change level).Pictures s.scopes g) :
    (run.modify change).Pictures { s with frames := g :: outer } := by
  obtain ⟨level, around, inner, first, rest⟩ := h.exists_level frames
  simp only [Run.modify, inner]
  refine ⟨.cons (changed level first) rest, fun own name bound => ?_, h.flight, h.result,
    h.entered⟩
  obtain ⟨k, mem, same⟩ := h.owned own name bound
  rw [frames] at mem
  rcases List.mem_cons.mp mem with rfl | mem
  · exact ⟨g, by simp, scope.trans same⟩
  · exact ⟨k, List.mem_cons_of_mem _ mem, same⟩

theorem keep (h : run.Pictures s) (frames : s.frames = f :: outer) (scope : g.scope = f.scope)
    (symbols : g.symbols = f.symbols) (content : g.content = f.content) :
    run.Pictures { s with frames := g :: outer } := by
  have kept := h.modify (g := g) frames (fun level => level) scope fun level same =>
    ⟨same.symbols.trans symbols.symm, fun name => by rw [scope]; exact same.bindings name,
      same.content.trans content.symm⟩
  rwa [Run.modify_id] at kept

theorem setQuestion (h : run.Pictures s) (frames : s.frames = f :: outer) (value : Value)
    (scope : g.scope = f.scope) (symbols : g.symbols = (f.setSymbol .question value).symbols)
    (content : g.content = f.content) :
    (run.setQuestion value).Pictures { s with frames := g :: outer } := by
  refine h.modify frames _ scope fun level same =>
    ⟨?_, fun name => ?_, same.content.trans content.symm⟩
  · rw [symbols, same.symbols]
    rfl
  · rw [scope]
    exact same.bindings name

theorem gather (h : run.Pictures s) (frames : s.frames = f :: outer) (text : String)
    (scope : g.scope = f.scope) (symbols : g.symbols = f.symbols)
    (content : g.content = MarkupMachine.gather f.content text) :
    (run.modify fun level =>
      { level with content := MarkupMachine.gather level.content text }).Pictures
        { s with frames := g :: outer } := by
  refine h.modify frames _ scope fun level same =>
    ⟨same.symbols.trans symbols.symm, fun name => ?_, ?_⟩
  · rw [scope]
    exact same.bindings name
  · rw [content, same.content]

theorem enter (h : run.Pictures s) (kind : ElementKind) (id : NodeId)
    (fresh : ∀ f ∈ s.frames, f.scope ≠ id) :
    (run.enter id).Pictures { s with
      frames := Frame.enter kind id :: s.frames
      journal := .entered kind id s.exception.isSome :: s.journal } := by
  have free (name : String) : s.scopes.get? id name = none := by
    apply Classical.byContradiction
    intro bound
    obtain ⟨f, mem, same⟩ := h.owned id name bound
    exact fresh f mem same
  refine ⟨.cons ⟨rfl, fun name => (free name).symm, rfl⟩ h.levels, fun scope name bound => ?_,
    h.flight, h.result, ?_⟩
  · obtain ⟨f, mem, same⟩ := h.owned scope name bound
    exact ⟨f, List.mem_cons_of_mem _ mem, same⟩
  · exact congrArg (id :: ·) h.entered

theorem drop (h : run.Pictures s) (frames : s.frames = f :: outer)
    (apart : ∀ g ∈ outer, g.scope ≠ f.scope) :
    ({ run with levels := run.levels.tail } : Run).Pictures
      { s with frames := outer, scopes := s.scopes.drop f.scope } := by
  obtain ⟨level, around, inner, first, rest⟩ := h.exists_level frames
  refine ⟨?_, fun own name bound => ?_, h.flight, h.result, h.entered⟩
  · simp only [inner, List.tail_cons]
    refine Walk.Pictures.congr rest fun g mem name => ?_
    rw [ScopeVars.get?_drop, if_neg (apart g mem)]
  · rw [ScopeVars.get?_drop] at bound
    by_cases same : own = f.scope
    · rw [if_pos same] at bound
      exact absurd rfl bound
    · rw [if_neg same] at bound
      obtain ⟨g, mem, eq⟩ := h.owned own name bound
      rw [frames] at mem
      rcases List.mem_cons.mp mem with rfl | mem
      · exact absurd eq.symm same
      · exact ⟨g, mem, eq⟩

theorem bind (h : run.Pictures s) (frames : s.frames = f :: outer)
    (apart : ∀ g ∈ outer, g.scope ≠ f.scope) (name : String) (value : Value) :
    (run.modify fun level => { level with bindings := level.bindings.bind name value }).Pictures
      { s with scopes := s.scopes.bind f.scope name value } := by
  obtain ⟨level, around, inner, first, rest⟩ := h.exists_level frames
  simp only [Run.modify, inner]
  refine ⟨?_, fun own key bound => ?_, h.flight, h.result, h.entered⟩
  · rw [frames]
    refine .cons ⟨first.symbols, fun key => ?_, first.content⟩
      (Walk.Pictures.congr rest fun g mem key => ?_)
    · simp only [Bindings.get?_bind, ScopeVars.get?_bind, first.bindings, true_and]
    · simp only [ScopeVars.get?_bind, apart g mem, false_and, if_false]
  · by_cases same : own = f.scope
    · exact ⟨f, by simp [frames], same.symm⟩
    · simp only [ScopeVars.get?_bind, same, false_and, if_false] at bound
      exact h.owned own key bound

theorem receive (h : run.Pictures s) (frames : s.frames = f :: outer)
    (apart : ∀ g ∈ outer, g.scope ≠ f.scope) (bindAs : Option String) (value : Value) :
    (run.receive bindAs value).Pictures { s with
      frames := f.setSymbol .question value :: outer
      scopes := match bindAs with
        | some name => s.scopes.bind f.scope name value
        | none => s.scopes } := by
  have question := h.setQuestion (g := f.setSymbol .question value) frames value rfl rfl rfl
  cases bindAs with
  | none =>
    simpa only [Run.receive, Run.modify_id] using question
  | some name => exact question.bind rfl apart name value

theorem leave {co : Coroutine} {p : Frame} (h : run.Pictures co.stack)
    (frames : co.stack.frames = f :: p :: outer) (apart : ∀ g ∈ p :: outer, g.scope ≠ f.scope)
    (around : ∀ g ∈ outer, g.scope ≠ p.scope) (kind : ElementKind)
    {commits : Option (Option String × Value)}
    (same : co.commitment f = if run.flight.isSome then none else commits) :
    (run.leave kind commits).Pictures (co.left f (p :: outer) (co.receive f p :: outer)) := by
  obtain ⟨level, rest, inner, _, below⟩ := h.exists_level frames
  obtain ⟨next, beyond, _, _, rfl⟩ := List.forall₂_cons_right_iff.mp below
  have dropped := h.drop frames apart
  have gone : (p :: outer).any (·.scope == f.scope) = false := by
    simpa using apart
  have scopes : co.scopesAfter f (p :: outer) = (co.bound f (p :: outer)).drop f.scope := by
    simp only [Coroutine.scopesAfter, gone, Bool.false_eq_true, if_false]
  have entered : (co.left f (p :: outer) (co.receive f p :: outer)).entered = co.stack.entered :=
    (Coroutine.unwound_of_left co f (p :: outer) (co.receive f p :: outer) co.stack.result).entered
  simp only [Run.leave, inner, ← same]
  simp only [inner, List.tail_cons] at dropped
  cases committed : co.commitment f with
  | none =>
    refine dropped.congr (fun scope name => ?_) ?_ rfl rfl entered
    · simp only [Coroutine.left, scopes, Coroutine.bound, committed]
    · simp only [Coroutine.left, Coroutine.receive, committed]
  | some handed =>
    refine (dropped.receive rfl around handed.1 handed.2).congr (fun scope name => ?_) ?_ rfl rfl
      entered
    · obtain ⟨bindAs, value⟩ := handed
      have other : p.scope ≠ f.scope := apart p (by simp)
      simp only [Coroutine.left, scopes, Coroutine.bound, committed]
      cases bindAs with
      | none => rfl
      | some key =>
        simp only [ScopeVars.get?_drop, ScopeVars.get?_bind]
        by_cases own : scope = f.scope
        · simp [own, Ne.symm other]
        · simp [own]
    · simp only [Coroutine.left, Coroutine.receive, committed]

end Run.Pictures

end Walk
end MarkupMachine
