import Mathlib.Data.List.Forall2
import MarkupMachine.Proofs.Machine.SetUps
import MarkupMachine.Proofs.Walk.Basic

/-! The levels of a walk beside the frames of a stack. Where they show the same, set-ups come to
the same, whatever identifier a request gets. -/

namespace MarkupMachine

namespace Walk

structure Level.Pictures (vars : ScopeVars) (level : Level) (f : Frame) : Prop where
  symbols : level.symbols = f.symbols
  bindings : ∀ name, level.bindings.get? name = vars.get? f.scope name
  content : level.content = f.content

abbrev Pictures (vars : ScopeVars) : List Level → List Frame → Prop :=
  List.Forall₂ (Level.Pictures vars)

section Views

variable {vars other : ScopeVars} {levels : List Level} {frames : List Frame}

theorem Pictures.congr (h : Pictures vars levels frames)
    (same : ∀ f ∈ frames, ∀ name, other.get? f.scope name = vars.get? f.scope name) :
    Pictures other levels frames := by
  induction h with
  | nil => exact .nil
  | cons first rest ih =>
    refine .cons ⟨first.symbols, fun name => ?_, first.content⟩ (ih fun f mem => ?_)
    · rw [first.bindings, same _ (by simp)]
    · exact same f (List.mem_cons_of_mem _ mem)

theorem Pictures.bound?_eq (h : Pictures vars levels frames) (name : String) :
    bound? name levels = Scope.inFrames? vars name frames := by
  induction h with
  | nil => rfl
  | @cons _ f _ _ first rest ih =>
    cases own : vars.get? f.scope name with
    | some value => simp only [bound?, Scope.inFrames?, first.bindings, own]
    | none => simp only [bound?, Scope.inFrames?, first.bindings, own, ih]

theorem Pictures.symbols_eq (h : Pictures vars levels frames) (out : Nat) (s : Symbol) :
    (levels[out]?.map fun level => level.symbols s) = frames[out]?.map fun f => f.symbols s := by
  induction h generalizing out with
  | nil => rfl
  | cons first rest ih =>
    cases out with
    | zero => simp [first.symbols]
    | succ out => simpa using ih out

theorem Pictures.view_eq {run : Run} {scope : Scope}
    (h : Pictures scope.stack.scopes run.levels scope.stack.frames) :
    scope.view = run.view scope.globals := by
  have top : ∀ s, (run.levels.head?.map fun level => level.symbols s) =
      scope.stack.top?.map fun f => f.symbols s := by
    intro s
    have first := h.symbols_eq 0 s
    rwa [← List.head?_eq_getElem?, ← List.head?_eq_getElem?] at first
  unfold Scope.view Run.view
  congr
  · funext name
    cases symbol : Symbol.ofName? name with
    | some s => simp only [Scope.named?, symbol, top]
    | none =>
      have bound := h.bound?_eq name
      cases found : Scope.inFrames? scope.stack.scopes name scope.stack.frames <;>
        simp only [Scope.named?, symbol, bound, found]
  · funext out s
    exact (h.symbols_eq out s).symm

end Views

section Silence

variable {α β : Type}

/-- A set-up that makes no note of names comes to the same whichever were noted before. -/
def Silent (setup : Setup α) : Prop := ∀ asked, setup.run.run asked = (evaluate setup, asked)

theorem silent_pure (a : α) : Silent (pure a : Setup α) := fun _ => rfl

theorem silent_throw (e : Exception) : Silent (throw e : Setup α) := fun _ => rfl

theorem Silent.bind {setup : Setup α} {next : α → Setup β} (first : Silent setup)
    (then_ : ∀ a, Silent (next a)) : Silent (setup >>= next) := by
  intro asked
  unfold evaluate
  simp only [ExceptT.run_bind, StateT.run_bind, first asked, first []]
  cases evaluate setup with
  | ok a => exact then_ a asked
  | error e => rfl

theorem silent_closed : Setup.Closed @Silent where
  pure := silent_pure
  raised _ _ := silent_throw _
  bind := Silent.bind

variable {value : Option Expression → Setup Value} (quiet : ∀ e, Silent (value e))
include quiet

theorem silent_structural (attrs : List Attribute) (done : List (String × Value)) :
    Silent (Structural.attributes value attrs done) := silent_closed.structural quiet attrs done

theorem silent_filter (attrs : List Attribute) (found : Option Value) :
    Silent (Catcher.filter value attrs found) := silent_closed.filter quiet attrs found

theorem silent_sleep (el : Element) : Silent (Sleep.setup value el) := silent_closed.sleep quiet el

theorem silent_request (id : Uuid) (handle : UInt64) (el : Element) :
    Silent (Requester.setup value id handle el) := silent_closed.request quiet id handle el

omit quiet in
theorem silent_value (view : View) (e : Option Expression) : Silent (Walk.value view e) := by
  cases e with
  | none => exact silent_pure Value.null
  | some e =>
    simp only [Walk.value]
    cases e.evaluate view with
    | ok v => exact silent_pure v
    | error e => exact silent_throw e

end Silence

theorem valueOf_eq {env : Environment} (standard : env.evaluator = .standard) (stack : Stack) :
    env.valueOf stack = value (env.scope stack).view := by
  funext e
  cases e with
  | none => rfl
  | some e =>
    apply ExceptT.ext
    apply StateT.ext
    intro asked
    simp only [Environment.valueOf, value, standard, Evaluator.standard, List.append_nil]
    rfl

section Identifiers

variable (id : Uuid) (handle : UInt64)

def withId (described : Request × Option String) : Request × Option String :=
  ({ described.1 with id }, described.2)

theorem onElement_withId (element : String) (r : Request) :
    ({ r with id } : Request).onElement element = { r.onElement element with id } := by
  unfold Request.onElement
  split <;> rfl

theorem describe_withId (values : List (String × Value)) :
    Requester.describe id handle values =
      (Requester.describe (Uuid.ofNat 0) handle values).map (withId id) := by
  unfold Requester.describe
  rcases Requester.text? "to" values with _ | operation
  · rfl
  rcases Requester.text? "on" values with _ | element
  · rfl
  rcases Requester.text? "at" values with _ | property
  · rfl
  rcases Requester.text? "as" values with _ | bindAs
  · rfl
  rcases operation with _ | operation
  · rfl
  rcases element with _ | element
  · rfl
  let plain : Request := {
    id := Uuid.ofNat 0, target := .dom, handle, operation
    payload := .ofValue ((Table.get? "with" values).getD .null) }
  exact congrArg (fun r : Request => Except.ok ({ r with property }, bindAs))
    (onElement_withId id element plain)

theorem evaluate_withId (value : Option Expression → Setup Value) (el : Element) :
    evaluate (Requester.setup value id handle el) =
      (evaluate (Requester.setup value (Uuid.ofNat 0) handle el)).map (withId id) := by
  have run (id : Uuid) : evaluate (Requester.setup value id handle el) =
      (evaluate (Requester.attributes value el.attributes [])).bind
        (Requester.describe id handle) := by
    unfold Requester.setup evaluate
    simp only [ExceptT.run_bind, StateT.run_bind]
    rcases (Requester.attributes value el.attributes []).run.run [] with ⟨_ | values, asked⟩
    · rfl
    · simp only [bind, Except.bind]
      cases Requester.describe id handle values <;> rfl
  rw [run, run]
  cases evaluate (Requester.attributes value el.attributes []) with
  | error e => rfl
  | ok values => exact describe_withId id handle values

theorem anonymous_of_evaluate {value : Option Expression → Setup Value} {el : Element}
    {request : Request} {bindAs : Option String}
    (h : evaluate (Requester.setup value (Uuid.ofNat 0) handle el) = .ok (request, bindAs)) :
    (Wait.renderer { request with id }).anonymous = .renderer request := by
  have same := evaluate_withId (Uuid.ofNat 0) handle value el
  rw [h] at same
  simp only [Except.map, withId, Except.ok.injEq, Prod.mk.injEq, and_true] at same
  exact congrArg Wait.renderer same.symm

end Identifiers

end Walk
end MarkupMachine
