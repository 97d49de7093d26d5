import MarkupMachine.Proofs.Machine.Readiness

/-! The set-up of an element is all or nothing. An element whose attributes are ready comes to its
children, or to its one wait; of any other the objection is raised, and there is nothing else that
the set-up leaves behind. -/

namespace MarkupMachine

/-- The one wait of an element whose attributes are as they have to be, with what its frame keeps
and the step at which the frame goes on. -/
inductive Asks (value : Attribute → Except Exception Value) (attributes : List Attribute)
    (id : Uuid) (handle : UInt64) : ElementKind → ContextState → NextStep → Wait → Prop where
  | sleep {v d} : Gives value attributes "for" v → Sleep.Lasts v d →
    Asks value attributes id handle .sleep (.sleep d) .rerun (.timer d)
  | request {request bindAs} : Requester.Describes value attributes id handle request bindAs →
    Asks value attributes id handle .request (.request bindAs none) (.custom 1) (.renderer request)

namespace Coroutine

/-- The stack on which attributes are evaluated. A structural element has its context by then. -/
def evaluating (co : Coroutine) (f : Frame) (outer : List Frame) : ElementKind → Stack
  | .structural => (co.equip (co.covering f .structural) outer).stack
  | .catcher | .sleep | .request => co.stack

section Ends

variable (co : Coroutine) (kind : ElementKind) (id : NodeId) (outer : List Frame)

def equipped (state : ContextState) (next : NextStep) : Frame :=
  { Frame.enter kind id with context := some ⟨co.stack.document.children id, state⟩, next }

def opened (table : List (String × Value)) (asked : List String) : Coroutine :=
  { co with
    asked
    stack := { co.stack with
      frames := { co.equipped .structural id .structural .selectChild with attributes := table } ::
        outer
      stats := co.stack.stats.install } }

def suspending (state : ContextState) (next : NextStep) (wait : Wait) (asked : List String) :
    Coroutine :=
  { co with
    asked
    pending := co.pending ++ [wait]
    waits := co.waits + 1
    state := .waiting
    stack := { co.stack with
      frames := co.equipped kind id state next :: outer
      stats := co.stack.stats.install
      journal := .suspended (some id) wait :: co.stack.journal } }

def objecting (e : Exception) (asked : List String) : Coroutine :=
  { co with
    asked
    stack := { co.stack with
      frames := co.equipped kind id kind.blank .selectChild :: outer
      exception := some e
      stats := co.stack.stats.install
      journal := .raised e .setUp none :: co.stack.journal } }

def valueOf (env : Environment) : Attribute → Except Exception Value :=
  env.valueAt (co.evaluating (Frame.enter kind id) outer kind)

/-- What the set-up of an entered element comes to, other than a catch. The attributes are as they
have to be, or there is one objection to them, which is raised. -/
structure SetsUp (env : Environment) (el : Element) : Prop where
  step : co.step env = co.afterPushed env kind
  succeeds_iff : (co.afterPushed env kind).2 = none ∧
    (co.afterPushed env kind).1.stack.exception = none ↔
      kind.Ready (co.valueOf kind id outer env) el.attributes
  opens : kind = .structural → kind.Ready (co.valueOf kind id outer env) el.attributes →
    ∃ table asked, Tabulates (co.valueOf kind id outer env) el.attributes table ∧
      co.afterPushed env kind = (co.opened id outer table asked, none)
  asks : kind ≠ .structural → kind.Ready (co.valueOf kind id outer env) el.attributes →
    ∃ state next wait asked, Asks (co.valueOf kind id outer env) el.attributes
        (Requester.requestId co) env.target kind state next wait ∧
      co.afterPushed env kind = (co.suspending kind id outer state next wait asked, none)
  objects : ¬ kind.Ready (co.valueOf kind id outer env) el.attributes →
    ∃ e, Objects (co.valueOf kind id outer env) el.attributes kind e ∧
      ∀ o, Objects (co.valueOf kind id outer env) el.attributes kind o → o = e
  raises : ∀ e, Objects (co.valueOf kind id outer env) el.attributes kind e →
    ∃ asked, co.afterPushed env kind = (co.objecting kind id outer (e.atElement el) asked, none)

end Ends

section SetUps

variable {env : Environment} {co : Coroutine} {kind : ElementKind} {f : Frame}
  {outer : List Frame} {el : Element} {e : Exception}

theorem structural_run_of_ready
    (ready : Structural.Ready (env.valueAt (co.evaluating f outer .structural)) el.attributes) :
    ∃ table asked, Tabulates (env.valueAt (co.evaluating f outer .structural)) el.attributes table ∧
      (Structural.attributes (env.valueOf (co.evaluating f outer .structural))
        el.attributes []).run.run co.asked = (.ok table, asked) := by
  obtain ⟨table, more, all, run⟩ :=
    run_collect_of_legible (Structural.ready_iff.mp ready) co.asked
  rw [← Structural.attributes_eq] at run
  exact ⟨table, _, all, run⟩

theorem sleep_asks_of_ready (id : Uuid) (handle : UInt64)
    (ready : Sleep.Ready (env.valueAt co.stack) el.attributes) : ∃ state next wait asked,
      Asks (env.valueAt co.stack) el.attributes id handle .sleep state next wait ∧
      SetUpAsks env co el .sleep state next wait asked := by
  obtain ⟨table, more, all, run⟩ := run_verdict_of_legible ready.legible Sleep.settle co.asked
  obtain ⟨a, v, d, single, named, there, lasts⟩ := ready
  have gives : Gives (env.valueAt co.stack) el.attributes "for" v :=
    ⟨a, by simp [single], named, there⟩
  rw [← Sleep.setup_eq, Sleep.settle_eq_ok all gives lasts] at run
  exact ⟨_, _, _, _, .sleep gives lasts, .sleep run⟩

theorem request_asks_of_ready
    (ready : Requester.Ready (env.valueAt co.stack) el.attributes) : ∃ state next wait asked,
      Asks (env.valueAt co.stack) el.attributes (Requester.requestId co) env.target .request
        state next wait ∧ SetUpAsks env co el .request state next wait asked := by
  obtain ⟨table, more, all, run⟩ := run_verdict_of_legible ready.legible
    (Requester.describe (Requester.requestId co) env.target) co.asked
  obtain ⟨request, bindAs, described, describes⟩ :=
    Requester.describe_eq_ok all ready (Requester.requestId co) env.target
  rw [← Requester.setup_eq, described] at run
  exact ⟨_, _, _, _, .request describes, .request run⟩

theorem setUpAsks_of_ready (waits : kind ≠ .structural)
    (ready : kind.Ready (env.valueAt (co.evaluating f outer kind)) el.attributes) :
    ∃ state next wait asked,
      Asks (env.valueAt (co.evaluating f outer kind)) el.attributes (Requester.requestId co)
        env.target kind state next wait ∧ SetUpAsks env co el kind state next wait asked := by
  cases kind with
  | structural => exact absurd rfl waits
  | catcher => exact False.elim ready
  | sleep => exact sleep_asks_of_ready _ _ ready
  | request => exact request_asks_of_ready ready

theorem setUpFails_of_objects (other : kind ≠ .catcher)
    (objects : Objects (env.valueAt (co.evaluating f outer kind)) el.attributes kind e) :
    ∃ asked, SetUpFails env co f outer el kind e asked := by
  cases kind with
  | catcher => exact absurd rfl other
  | structural =>
    cases objects with
    | reading refuses =>
      obtain ⟨more, run⟩ := run_collect_of_refuses refuses co.asked
      rw [← Structural.attributes_eq] at run
      exact ⟨_, .structural run⟩
  | sleep =>
    obtain ⟨more, run⟩ := run_verdict_of_error (Sleep.settle_eq_error objects) co.asked
    rw [← Sleep.setup_eq] at run
    exact ⟨_, .sleep run⟩
  | request =>
    obtain ⟨more, run⟩ := run_verdict_of_error
      (Requester.describe_eq_error objects (Requester.requestId co) env.target) co.asked
    rw [← Requester.setup_eq] at run
    exact ⟨_, .request run⟩

theorem SetUpFails.unique {o : Exception} {asked asked' : List String}
    (fails : SetUpFails env co f outer el kind e asked)
    (fails' : SetUpFails env co f outer el kind o asked') : o = e := by
  have same {α : Type} {result : Except Exception α × List String}
      (run : result = (.error e, asked)) (run' : result = (.error o, asked')) : o = e :=
    Except.error.inj (congrArg Prod.fst (run'.symm.trans run))
  cases fails with
  | structural run => cases fails' with | structural run' => exact same run run'
  | sleep run => cases fails' with | sleep run' => exact same run run'
  | request run => cases fails' with | request run' => exact same run run'

end SetUps

section Assembly

variable {co : Coroutine} {kind : ElementKind} {id : NodeId} {outer : List Frame} {el : Element}
  {e : Exception} {env : Environment}

theorem objects_unique {o : Exception} (other : kind ≠ .catcher)
    (objects : Objects (co.valueOf kind id outer env) el.attributes kind e)
    (objects' : Objects (co.valueOf kind id outer env) el.attributes kind o) : o = e := by
  obtain ⟨asked, fails⟩ := setUpFails_of_objects other objects
  obtain ⟨asked', fails'⟩ := setUpFails_of_objects other objects'
  exact fails.unique fails'

variable (frames : co.stack.frames = Frame.enter kind id :: outer)
  (element : co.stack.document.element? id = some el)
include frames element

theorem entering_of_enter : Entering co kind (Frame.enter kind id) outer el :=
  ⟨frames, rfl, rfl, rfl, element⟩

theorem afterPushed_of_objects (calm : co.stack.exception = none) (other : kind ≠ .catcher)
    (objects : Objects (co.valueOf kind id outer env) el.attributes kind e) :
    ∃ asked, co.afterPushed env kind =
      (co.objecting kind id outer (e.atElement el) asked, none) := by
  obtain ⟨asked, failed⟩ := setUpFails_of_objects other objects
  refine ⟨asked, (afterPushed_of_setUpFails (entering_of_enter frames element) failed).trans ?_⟩
  simp only [objecting, equip, covering, equipped, onStack, Stack.raise, calm]
  rfl

theorem afterPushed_of_asks (waits : kind ≠ .structural)
    (ready : kind.Ready (co.valueOf kind id outer env) el.attributes) :
    ∃ state next wait asked, Asks (co.valueOf kind id outer env) el.attributes
        (Requester.requestId co) env.target kind state next wait ∧
      co.afterPushed env kind = (co.suspending kind id outer state next wait asked, none) := by
  obtain ⟨state, next, wait, asked, asks, run⟩ := setUpAsks_of_ready waits ready
  refine ⟨state, next, wait, asked, asks, ?_⟩
  refine (afterPushed_of_setUpAsks (entering_of_enter frames element) run).trans ?_
  simp only [suspending, equip, covering, equipped, onStack, Stack.note]
  rfl

theorem afterPushed_of_opens (structural : kind = .structural)
    (ready : kind.Ready (co.valueOf kind id outer env) el.attributes) :
    ∃ table asked, Tabulates (co.valueOf kind id outer env) el.attributes table ∧
      co.afterPushed env kind = (co.opened id outer table asked, none) := by
  subst structural
  obtain ⟨table, asked, all, run⟩ := structural_run_of_ready ready
  refine ⟨table, asked, all, ?_⟩
  simp only [afterPushed, structural_opens (entering_of_enter frames element) run]
  rfl

theorem exists_afterPushed_of_ready
    (ready : kind.Ready (co.valueOf kind id outer env) el.attributes) :
    ∃ after, co.afterPushed env kind = (after, none) ∧ after.stack.frames ≠ [] ∧
      after.stack.exception = co.stack.exception := by
  by_cases structural : kind = .structural
  · obtain ⟨table, asked, -, done⟩ := afterPushed_of_opens frames element structural ready
    exact ⟨_, done, List.cons_ne_nil _ _, rfl⟩
  · obtain ⟨state, next, wait, asked, -, done⟩ :=
      afterPushed_of_asks frames element structural ready
    exact ⟨_, done, List.cons_ne_nil _ _, rfl⟩

/-- Whatever the attributes of an entered element are and however they evaluate, its set-up
succeeds as a whole or raises one exception. -/
theorem afterPushed_sets_up (env : Environment) (calm : co.stack.exception = none)
    (other : kind ≠ .catcher) : co.SetsUp kind id outer env el := by
  have judged : kind.Ready (co.valueOf kind id outer env) el.attributes ∨
      ∃ e, Objects (co.valueOf kind id outer env) el.attributes kind e :=
    ElementKind.ready_or_objects other
  have raises (e : Exception) (objects : Objects (co.valueOf kind id outer env) el.attributes
      kind e) := afterPushed_of_objects frames element calm other objects
  constructor
  case opens => exact afterPushed_of_opens frames element
  case asks => exact afterPushed_of_asks frames element
  case raises => exact raises
  case objects =>
    intro unready
    obtain ⟨e, objects⟩ := judged.resolve_left unready
    exact ⟨e, objects, fun o => objects_unique other objects⟩
  case succeeds_iff =>
    constructor
    · rintro ⟨-, quiet⟩
      refine judged.resolve_right fun ⟨e, objects⟩ => ?_
      obtain ⟨asked, done⟩ := raises e objects
      rw [done] at quiet
      cases quiet
    · intro ready
      obtain ⟨after, done, -, same⟩ := exists_afterPushed_of_ready frames element ready
      rw [done]
      exact ⟨rfl, same.trans calm⟩
  case step =>
    have done : ∃ after, co.afterPushed env kind = (after, none) ∧ after.stack.frames ≠ [] := by
      rcases judged with ready | ⟨e, objects⟩
      · obtain ⟨after, done, inside, -⟩ := exists_afterPushed_of_ready frames element ready
        exact ⟨after, done, inside⟩
      · obtain ⟨asked, done⟩ := raises e objects
        exact ⟨_, done, List.cons_ne_nil _ _⟩
    obtain ⟨after, done, inside⟩ := done
    rw [done]
    exact step_of_entering (entering_of_enter frames element) done inside

end Assembly

/-- The only element of a document has just been entered. Its scope binds a variable. -/
def requesting (attributes : List Attribute) : Coroutine where
  id := 1
  stack := {
    document := { number := 0, nodes := #[
      { kind := .document, firstChild := some 1, lastChild := some 1 },
      { kind := .element { tag := "request", attributes }, parent := some 0 }] }
    limit := 8
    scopes := ({} : ScopeVars).bind 1 "score" (.list [.bool true, .text "late"])
    frames := [Frame.enter .request 1] }

/-- There is no operation, and the name for the answer is no text. -/
def nameless : Coroutine :=
  requesting [{ name := "as", value := some (.literal (.bool true)) }]

def updating : Coroutine :=
  requesting [
    { name := "with", value := some (.variable "score") },
    { name := "on"
      value := some (.interpolation [.literal (.text "#ti"), .literal (.text "tle")]) },
    { name := "to", value := some (.literal (.text "update")) },
    { name := "at", value := some (.literal (.text "text")) }]

theorem afterPushed_sets_up_updating : ∃ el el', nameless.stack.frames = [Frame.enter .request 1] ∧
    nameless.stack.document.element? 1 = some el ∧ nameless.stack.exception = none ∧
    updating.stack.frames = [Frame.enter .request 1] ∧
    updating.stack.document.element? 1 = some el' ∧ updating.stack.exception = none ∧
    ElementKind.request ≠ .catcher ∧
    nameless.SetsUp .request 1 [] {} el ∧ updating.SetsUp .request 1 [] {} el' ∧
    (updating.afterPushed {} .request).1.pending = [.renderer {
      id := .ofNat UInt64.size, target := .dom, handle := 0, operation := "update"
      elementType := .id, element := some "title", property := some "text"
      payload := .json (.list [.bool true, .text "late"]) }] :=
  ⟨_, _, rfl, rfl, rfl, rfl, rfl, rfl, by decide, afterPushed_sets_up rfl rfl {} rfl (by decide),
    afterPushed_sets_up rfl rfl {} rfl (by decide), rfl⟩

/-- Texts are asked for before the operation is missed. -/
example : (nameless.afterPushed {} .request).1.stack.exception.bind (·.message?) =
    some "`as` must be a string, got boolean" := by decide +kernel

end Coroutine

end MarkupMachine
