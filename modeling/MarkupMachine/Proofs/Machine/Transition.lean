import MarkupMachine.Machine.Step

/-! What one step of a coroutine can do, rule by rule. `step_of_transition` and `step_of_fails`
say that each rule is what the step computes; that there is no other case for a coroutine in good
order is `progress`, once good order is defined. -/

namespace MarkupMachine

@[simp] theorem Stats.release_none (s : Stats) : s.release none = s := rfl

namespace ElementKind

def blank : ElementKind → ContextState
  | .structural => .structural
  | .catcher => .catcher none
  | .sleep => .sleep ⟨0⟩
  | .request => .request none none

end ElementKind

namespace Coroutine

def covering (co : Coroutine) (f : Frame) (state : ContextState) : Frame :=
  { f with context := some ⟨co.stack.document.children f.position, state⟩ }

def equip (co : Coroutine) (f : Frame) (outer : List Frame) : Coroutine :=
  { co with stack := { co.stack with
      frames := f :: outer
      stats := co.stack.stats.install } }

def cleared (co : Coroutine) : Coroutine := co.onStack Stack.clear

structure Entering (co : Coroutine) (kind : ElementKind) (f : Frame) (outer : List Frame)
    (el : Element) : Prop where
  frames : co.stack.frames = f :: outer
  kind : f.kind = kind
  next : f.next = .afterPushed
  context : f.context = none
  element : co.stack.document.element? f.position = some el

/-- A frame with a context that is due for an operation. -/
structure Due (co : Coroutine) (next : NextStep) (f : Frame) (outer : List Frame)
    (context : Context) : Prop where
  frames : co.stack.frames = f :: outer
  next : f.next = next
  context : f.context = some context

inductive SetUpFails (env : Environment) (co : Coroutine) (f : Frame) (outer : List Frame)
    (el : Element) : ElementKind → Exception → List String → Prop where
  | structural {e asked} :
    (Structural.attributes (env.valueOf (co.equip (co.covering f .structural) outer).stack)
      el.attributes []).run.run co.asked = (.error e, asked) →
    SetUpFails env co f outer el .structural e asked
  | sleep {e asked} :
    (Sleep.setup (env.valueOf co.stack) el).run.run co.asked = (.error e, asked) →
    SetUpFails env co f outer el .sleep e asked
  | request {e asked} :
    (Requester.setup (env.valueOf co.stack) (Requester.requestId co) env.target el).run.run
      co.asked = (.error e, asked) →
    SetUpFails env co f outer el .request e asked

/-- A set-up that comes to a wait: what the frame keeps, and at which step it goes on. -/
inductive SetUpAsks (env : Environment) (co : Coroutine) (el : Element) :
    ElementKind → ContextState → NextStep → Wait → List String → Prop where
  | sleep {d asked} :
    (Sleep.setup (env.valueOf co.stack) el).run.run co.asked = (.ok d, asked) →
    SetUpAsks env co el .sleep (.sleep d) .rerun (.timer d) asked
  | request {request bindAs asked} :
    (Requester.setup (env.valueOf co.stack) (Requester.requestId co) env.target el).run.run
      co.asked = (.ok (request, bindAs), asked) →
    SetUpAsks env co el .request (.request bindAs none) Requester.awaiting (.renderer request) asked

inductive Breaks (el : Element) : ElementKind → NextStep → Completion → Exception → Prop where
  | sleep {e} : Breaks el .sleep .rerun (.failed e) e
  | request {e state} : Breaks el .request (.custom state) (.failed e) (e.atElement el)
  | refused {response state} : response.isOk = false →
    Breaks el .request (.custom state) (.renderer response)
      ((Exception.raised .serverRefused s!"renderer answered {response.status}").atElement el)

/-- What a request hands to its parent when it leaves: its name for it, and the value. -/
def commitment (co : Coroutine) (f : Frame) : Option (Option String × Value) :=
  match f.kind, f.context, co.stack.exception with
  | .request, some ⟨_, .request bindAs (some value)⟩, none => some (bindAs, value)
  | _, _, _ => none

def consumed (co : Coroutine) (f : Frame) (c : Completion) : Coroutine :=
  { co with resume := none, stack := co.stack.note (.consumed (some f.position) c) }

def bound (co : Coroutine) (f : Frame) (outer : List Frame) : ScopeVars :=
  match co.commitment f, outer with
  | some (some name, value), p :: _ => co.stack.scopes.bind p.scope name value
  | _, _ => co.stack.scopes

def scopesAfter (co : Coroutine) (f : Frame) (outer : List Frame) : ScopeVars :=
  if outer.any (·.scope == f.scope) then co.bound f outer else (co.bound f outer).drop f.scope

def committing (co : Coroutine) (f : Frame) : List Event :=
  match co.commitment f with
  | some (bindAs, value) => [.committed f.position bindAs value]
  | none => []

def receive (co : Coroutine) (f p : Frame) : Frame :=
  match co.commitment f with
  | some (_, value) => p.setSymbol .question value
  | none => p

def resultAfter (co : Coroutine) (f : Frame) : Value :=
  match f.kind, co.commitment f with
  | .structural, _ => f.symbols .question
  | _, some (_, value) => value
  | _, none => co.stack.result

def left (co : Coroutine) (f : Frame) (outer frames : List Frame) : Stack :=
  { co.stack with
    frames
    scopes := co.scopesAfter f outer
    stats := (co.stack.stats.release f.context).leave
    journal := .left f.position :: co.committing f ++ co.stack.journal }

end Coroutine

open Coroutine in
/-- What a step that succeeds can do. -/
inductive Transition (env : Environment) (co : Coroutine) : Coroutine → Prop where
  | opens {f outer el values asked} : Entering co .structural f outer el →
    (Structural.attributes (env.valueOf (co.equip (co.covering f .structural) outer).stack)
      el.attributes []).run.run co.asked = (.ok values, asked) →
    Transition env co { co.equip
      { co.covering f .structural with attributes := values, next := .selectChild } outer with asked }
  | fails {kind f outer el e asked} : Entering co kind f outer el →
    SetUpFails env co f outer el kind e asked →
    Transition env co ({ co.equip { co.covering f kind.blank with next := .selectChild } outer with
      asked }.onStack (·.raise (e.atElement el)))
  | asks {kind f outer el state next wait asked} : Entering co kind f outer el →
    SetUpAsks env co el kind state next wait asked →
    Transition env co ({ co.equip { co.covering f state with next } outer with
      asked, pending := co.pending ++ [wait], waits := co.waits + 1, state := .waiting }.onStack
        (·.note (.suspended (some f.position) wait)))
  | idles {f outer el} : Entering co .catcher f outer el → co.stack.exception = none →
    Transition env co (co.equip { co.covering f (.catcher none) with next := .onPopping } outer)
  | catches {f outer el e filter asked} : Entering co .catcher f outer el →
    co.stack.exception = some e →
    (Catcher.filter (env.valueOf co.cleared.stack) el.attributes none).run.run co.asked =
      (.ok filter, asked) →
    filterAccepts filter e.category = true →
    Transition env co ({ co.cleared.equip { (co.covering f (.catcher (some e))).setSymbol .question
      e.toValue with next := .selectChild } outer with asked }.onStack (·.note (.caught e)))
  | misses {f outer el e filter asked} : Entering co .catcher f outer el →
    co.stack.exception = some e →
    (Catcher.filter (env.valueOf co.cleared.stack) el.attributes none).run.run co.asked =
      (.ok filter, asked) →
    filterAccepts filter e.category = false →
    Transition env co ({ co.cleared.equip { co.covering f (.catcher none) with next := .onPopping }
      outer with asked }.onStack (·.raise e .missed))
  | fumbles {f outer el e own asked} : Entering co .catcher f outer el →
    co.stack.exception = some e →
    (Catcher.filter (env.valueOf co.cleared.stack) el.attributes none).run.run co.asked =
      (.error own, asked) →
    Transition env co ({ co.cleared.equip { co.covering f (.catcher none) with next := .onPopping }
      outer with asked }.onStack (·.raise ((Catcher.failure own e).atElement el) (.handling e)))
  | wakes {f outer context} : Due co .rerun f outer context → f.kind = .sleep →
    co.resume = some .timer →
    Transition env co ((co.consumed f .timer).onStack fun s =>
      { s with frames := { f with next := .selectChild } :: outer })
  | responds {f outer rest bindAs response state} :
    Due co (.custom state) f outer ⟨rest, .request bindAs none⟩ → f.kind = .request →
    co.resume = some (.renderer response) → response.isOk = true →
    (∃ el, co.stack.document.element? f.position = some el) →
    Transition env co ((co.consumed f (.renderer response)).onStack fun s =>
      { s with frames := { f.setSymbol .question response.payload.toValue with
        context := some ⟨rest, .request bindAs (some response.payload.toValue)⟩
        next := .selectChild } :: outer })
  | breaks {kind next f outer context el c e} : Due co next f outer context → f.kind = kind →
    co.stack.document.element? f.position = some el → co.resume = some c →
    Breaks el kind next c e →
    Transition env co ((co.consumed f c).onStack fun s =>
      { s with frames := { f with next := .selectChild } :: outer }.raise e .wait)
  | exhausts {f outer rest state content} : Due co .selectChild f outer ⟨rest, state⟩ →
    co.stack.document.select co.stack.exception.isSome rest f.content = ⟨content, [], .exhausted⟩ →
    Transition env co (co.onStack fun s => { s with
      frames := { f with content, context := some ⟨[], state⟩, next := .onPopping } :: outer })
  | enters {f outer rest state content beyond kind id} :
    Due co .selectChild f outer ⟨rest, state⟩ →
    co.stack.document.select co.stack.exception.isSome rest f.content =
      ⟨content, beyond, .element kind id⟩ →
    co.stack.depth < co.stack.limit →
    Transition env co (co.onStack fun s => { s with
      frames := Frame.enter kind id ::
        { f with content, context := some ⟨beyond, state⟩ } :: outer
      stats := s.stats.enter (s.depth + 1)
      journal := .entered kind id s.exception.isSome :: s.journal })
  | leaves {f p outer context} : Due co .onPopping f (p :: outer) context →
    Transition env co (co.onStack fun _ => co.left f (p :: outer) (co.receive f p :: outer))
  | completes {f context} : Due co .onPopping f [] context →
    Transition env co ((co.onStack fun _ =>
      { co.left f [] [] with result := co.resultAfter f }).complete)

namespace Coroutine

/-- How a step can fail, and how far it got. -/
inductive Fails (co : Coroutine) : Fault → Coroutine → Prop where
  | overflow {f outer rest state content beyond kind id} :
    Due co .selectChild f outer ⟨rest, state⟩ →
    co.stack.document.select co.stack.exception.isSome rest f.content =
      ⟨content, beyond, .element kind id⟩ →
    co.stack.limit ≤ co.stack.depth →
    Fails co (.stackOverflow co.stack.limit) (co.onStack fun s => { s with
      frames := { f with content, context := some ⟨beyond, state⟩ } :: outer })
  | misplaced {f outer rest state content beyond} : Due co .selectChild f outer ⟨rest, state⟩ →
    co.stack.document.select co.stack.exception.isSome rest f.content =
      ⟨content, beyond, .misplaced⟩ →
    Fails co (.structural f.kind.name "document node found among children")
      (co.onStack fun s => { s with
        frames := { f with content, context := some ⟨beyond, state⟩ } :: outer })
  | displayed {f outer context response} : Due co .rerun f outer context → f.kind = .sleep →
    co.resume = some (.renderer response) →
    Fails co (.structural ElementKind.sleep.name "resumed with a renderer response")
      (co.consumed f (.renderer response))
  | timed {f outer context state} : Due co (.custom state) f outer context → f.kind = .request →
    (∃ el, co.stack.document.element? f.position = some el) → co.resume = some .timer →
    Fails co (.structural ElementKind.request.name "resumed by a timer") (co.consumed f .timer)

section Operations

variable {env : Environment} {co : Coroutine} {f : Frame} {outer : List Frame} {el : Element}

theorem element?_eq (kind : ElementKind) (frames : co.stack.frames = f :: outer)
    (element : co.stack.document.element? f.position = some el) :
    co.element? kind = .ok (f, el) := by
  simp [element?, Stack.top?, frames, element]

theorem installed_eq {g : Frame} (frames : co.stack.frames = g :: outer) (none : g.context = none)
    (f : Frame) (state : ContextState) :
    co.installed f state = .ok (co.equip
      { g with context := some ⟨co.stack.document.children f.position, state⟩ } outer) := by
  simp [installed, Stack.install, frames, none, equip, bind, Except.bind, pure, Except.pure]

theorem installed_covering (co : Coroutine) (frames : co.stack.frames = f :: outer)
    (none : f.context = none) (state : ContextState) :
    co.installed f state = .ok (co.equip (co.covering f state) outer) :=
  installed_eq frames none f state

theorem runSetup_eq {α : Type} (co : Coroutine) {setup : Setup α} {result : Except Exception α}
    {asked : List String} (h : setup.run.run co.asked = (result, asked)) :
    co.runSetup setup = (result, { co with asked }) := by
  simp [runSetup, h]

theorem takeResume_eq {c : Completion} (frames : co.stack.frames = f :: outer)
    (resume : co.resume = some c) : co.takeResume = (some c, co.consumed f c) := by
  simp [takeResume, resume, consumed, Stack.position?, Stack.top?, frames]

theorem step_of_operate {next : Coroutine} (frames : co.stack.frames = f :: outer)
    (op : co.operate env f = (next, none)) (inside : next.stack.frames ≠ []) :
    co.step env = (next, none) := by
  simp [step, Stack.top?, frames, op, inside]

theorem step_of_entering {kind : ElementKind} {next : Coroutine}
    (entering : Entering co kind f outer el) (op : co.afterPushed env kind = (next, none))
    (inside : next.stack.frames ≠ []) : co.step env = (next, none) := by
  apply step_of_operate entering.frames _ inside
  simp only [operate, entering.next, entering.kind, op]

theorem structural_opens {values : List (String × Value)} {asked : List String}
    (entering : Entering co .structural f outer el)
    (eval : (Structural.attributes (env.valueOf (co.equip (co.covering f .structural) outer).stack)
      el.attributes []).run.run co.asked = (.ok values, asked)) :
    Structural.afterPushed env co = .ok { co.equip
      { co.covering f .structural with attributes := values, next := .selectChild } outer with
        asked } := by
  simp only [Structural.afterPushed, element?_eq _ entering.frames entering.element,
    installed_covering co entering.frames entering.context, bind, Except.bind]
  rw [runSetup_eq (co.equip (co.covering f .structural) outer) eval]
  rfl

theorem afterPushed_of_setUpFails {kind : ElementKind} {e : Exception} {asked : List String}
    (entering : Entering co kind f outer el) (failed : SetUpFails env co f outer el kind e asked) :
    co.afterPushed env kind =
      ({ co.equip { co.covering f kind.blank with next := .selectChild } outer with
        asked }.onStack (·.raise (e.atElement el)), none) := by
  have element := element?_eq kind entering.frames entering.element
  cases failed with
  | structural eval =>
    simp only [afterPushed, Structural.afterPushed, element,
      installed_covering co entering.frames entering.context, bind, Except.bind]
    rw [runSetup_eq (co.equip (co.covering f .structural) outer) eval]
    rfl
  | sleep eval =>
    simp only [afterPushed, Sleep.afterPushed, element, runSetup_eq co eval, bind, Except.bind]
    rw [installed_covering { co with asked } entering.frames entering.context]
    rfl
  | request eval =>
    simp only [afterPushed, Requester.afterPushed, element, runSetup_eq co eval, bind, Except.bind]
    rw [installed_covering { co with asked } entering.frames entering.context]
    rfl

theorem afterPushed_of_setUpAsks {kind : ElementKind} {state : ContextState} {next : NextStep}
    {wait : Wait} {asked : List String} (entering : Entering co kind f outer el)
    (asks : SetUpAsks env co el kind state next wait asked) :
    co.afterPushed env kind = ({ co.equip { co.covering f state with next } outer with
      asked, pending := co.pending ++ [wait], waits := co.waits + 1, state := .waiting }.onStack
        (·.note (.suspended (some f.position) wait)), none) := by
  have element := element?_eq kind entering.frames entering.element
  cases asks with
  | sleep eval =>
    simp only [afterPushed, Sleep.afterPushed, element, runSetup_eq co eval, bind, Except.bind]
    rw [installed_covering { co with asked } entering.frames entering.context]
    rfl
  | request eval =>
    simp only [afterPushed, Requester.afterPushed, element, runSetup_eq co eval, bind, Except.bind]
    rw [installed_covering { co with asked } entering.frames entering.context]
    rfl

theorem catcher_idles (entering : Entering co .catcher f outer el)
    (calm : co.stack.exception = none) : Catcher.afterPushed env co =
      .ok (co.equip { co.covering f (.catcher none) with next := .onPopping } outer) := by
  simp only [Catcher.afterPushed, element?_eq _ entering.frames entering.element, calm,
    installed_covering co entering.frames entering.context, bind, Except.bind]
  rfl

section Handling

variable {e : Exception} {asked : List String} (entering : Entering co .catcher f outer el)
  (flying : co.stack.exception = some e)
include entering flying

theorem catcher_catches {filter : Option String}
    (eval : (Catcher.filter (env.valueOf co.cleared.stack) el.attributes none).run.run co.asked =
      (.ok filter, asked)) (accepted : filterAccepts filter e.category = true) :
    Catcher.afterPushed env co = .ok ({ co.cleared.equip
      { (co.covering f (.catcher (some e))).setSymbol .question e.toValue with next := .selectChild }
        outer with asked }.onStack (·.note (.caught e))) := by
  have evaluated := runSetup_eq co.cleared eval
  rw [cleared] at evaluated
  have marked : ({ co.cleared with asked }.onStack
      (·.modifyTop (·.setSymbol .question e.toValue))).stack.frames =
      f.setSymbol .question e.toValue :: outer := by
    simp [cleared, onStack, Stack.clear, Stack.modifyTop, entering.frames]
  simp only [Catcher.afterPushed, element?_eq _ entering.frames entering.element, flying,
    evaluated, accepted, if_true, bind, Except.bind]
  rw [← cleared, installed_eq marked entering.context]
  simp [equip, onStack, Stack.modifyTop, entering.frames, cleared, Stack.clear, covering,
    Stack.setNext, Stack.note, Frame.setSymbol, pure, Except.pure]

theorem catcher_misses {filter : Option String}
    (eval : (Catcher.filter (env.valueOf co.cleared.stack) el.attributes none).run.run co.asked =
      (.ok filter, asked)) (refused : filterAccepts filter e.category = false) :
    Catcher.afterPushed env co = .ok ({ co.cleared.equip
      { co.covering f (.catcher none) with next := .onPopping } outer with
        asked }.onStack (·.raise e .missed)) := by
  have evaluated := runSetup_eq co.cleared eval
  rw [cleared] at evaluated
  simp only [Catcher.afterPushed, element?_eq _ entering.frames entering.element, flying,
    evaluated, refused, Bool.false_eq_true, if_false, bind, Except.bind]
  rw [← cleared, installed_covering { co.cleared with asked } entering.frames entering.context]
  rfl

theorem catcher_fumbles {own : Exception}
    (eval : (Catcher.filter (env.valueOf co.cleared.stack) el.attributes none).run.run co.asked =
      (.error own, asked)) :
    Catcher.afterPushed env co = .ok ({ co.cleared.equip
      { co.covering f (.catcher none) with next := .onPopping } outer with
        asked }.onStack (·.raise ((Catcher.failure own e).atElement el) (.handling e))) := by
  have evaluated := runSetup_eq co.cleared eval
  rw [cleared] at evaluated
  simp only [Catcher.afterPushed, element?_eq _ entering.frames entering.element, flying,
    evaluated, bind, Except.bind]
  rw [← cleared, installed_covering { co.cleared with asked } entering.frames entering.context]
  rfl

end Handling

theorem rerun_wakes {next : NextStep} {context : Context} (due : Due co next f outer context)
    (resume : co.resume = some .timer) :
    co.rerun .sleep = ((co.consumed f .timer).onStack fun s =>
      { s with frames := { f with next := .selectChild } :: outer }, none) := by
  simp [rerun, Sleep.rerun, takeResume_eq due.frames resume, consumed, onStack, Stack.note,
    due.frames, Stack.setNext, Stack.modifyTop]

theorem rerun_responds {next : NextStep} {rest : List NodeId} {bindAs : Option String}
    {response : Response} (due : Due co next f outer ⟨rest, .request bindAs none⟩)
    (element : co.stack.document.element? f.position = some el)
    (resume : co.resume = some (.renderer response)) (ok : response.isOk = true) :
    co.rerun .request = ((co.consumed f (.renderer response)).onStack fun s =>
      { s with frames := { f.setSymbol .question response.payload.toValue with
        context := some ⟨rest, .request bindAs (some response.payload.toValue)⟩
        next := .selectChild } :: outer }, none) := by
  simp [rerun, Requester.rerun, element?_eq _ due.frames element, takeResume_eq due.frames resume,
    ok, Requester.accept, consumed, onStack, Stack.note, due.frames, due.context, Frame.setSymbol,
    Stack.setNext, Stack.modifyTop]

theorem rerun_of_breaks {kind : ElementKind} {next : NextStep} {context : Context}
    {c : Completion} {e : Exception} (due : Due co next f outer context)
    (element : co.stack.document.element? f.position = some el) (resume : co.resume = some c)
    (broken : Breaks el kind next c e) :
    co.rerun kind = ((co.consumed f c).onStack fun s =>
      { s with frames := { f with next := .selectChild } :: outer }.raise e .wait, none) := by
  have taken := takeResume_eq due.frames resume
  have frames : ∀ c, (co.consumed f c).stack.frames = f :: outer := fun _ => due.frames
  cases broken with
  | sleep =>
    simp [rerun, Sleep.rerun, taken, frames, onStack, Stack.raise, Stack.setNext, Stack.modifyTop]
  | request =>
    simp [rerun, Requester.rerun, element?_eq _ due.frames element, taken, frames, onStack,
      Stack.raise, Stack.setNext, Stack.modifyTop]
  | refused notOk =>
    simp [rerun, Requester.rerun, element?_eq _ due.frames element, taken, frames, notOk, onStack,
      Stack.raise, Stack.setNext, Stack.modifyTop]

theorem selectChild_exhausts {rest beyond : List NodeId} {state : ContextState}
    {content : Option String} (kind : ElementKind) (due : Due co .selectChild f outer ⟨rest, state⟩)
    (selected : co.stack.document.select co.stack.exception.isSome rest f.content =
      ⟨content, beyond, .exhausted⟩) :
    co.selectChild kind = (co.onStack fun s => { s with
      frames := { f with content, context := some ⟨beyond, state⟩, next := .onPopping } :: outer },
      none) := by
  simp [selectChild, due.frames, due.context, selected, Stack.setNext, Stack.modifyTop, onStack]

theorem selectChild_element {rest beyond : List NodeId} {state : ContextState}
    {content : Option String} {id : NodeId} {entered : ElementKind} (kind : ElementKind)
    (due : Due co .selectChild f outer ⟨rest, state⟩)
    (selected : co.stack.document.select co.stack.exception.isSome rest f.content =
      ⟨content, beyond, .element entered id⟩) :
    co.selectChild kind =
      if co.stack.limit ≤ co.stack.depth then
        (co.onStack fun s => { s with
          frames := { f with content, context := some ⟨beyond, state⟩ } :: outer },
          some (.stackOverflow co.stack.limit))
      else (co.onStack fun s => { s with
        frames := Frame.enter entered id ::
          { f with content, context := some ⟨beyond, state⟩ } :: outer
        stats := s.stats.enter (s.depth + 1)
        journal := .entered entered id s.exception.isSome :: s.journal }, none) := by
  by_cases full : co.stack.limit ≤ outer.length + 1 <;>
    simp [selectChild, due.frames, due.context, selected, Stack.push, Stack.depth, onStack, full]

theorem selectChild_misplaced {rest beyond : List NodeId} {state : ContextState}
    {content : Option String} (kind : ElementKind) (due : Due co .selectChild f outer ⟨rest, state⟩)
    (selected : co.stack.document.select co.stack.exception.isSome rest f.content =
      ⟨content, beyond, .misplaced⟩) :
    co.selectChild kind = (co.onStack fun s => { s with
      frames := { f with content, context := some ⟨beyond, state⟩ } :: outer },
      some (.structural kind.name "document node found among children")) := by
  simp [selectChild, due.frames, due.context, selected, onStack]

def receiving (co : Coroutine) (f : Frame) : List Frame → List Frame
  | [] => []
  | p :: outer => co.receive f p :: outer

theorem requester_onPopping (frames : co.stack.frames = f :: outer) (kind : f.kind = .request) :
    Requester.onPopping co.stack = { co.stack with
      frames := { f with context := none } :: co.receiving f outer
      result := if outer.isEmpty then co.resultAfter f else co.stack.result
      scopes := co.bound f outer
      stats := co.stack.stats.release f.context
      journal := co.committing f ++ co.stack.journal } := by
  cases context : f.context with
  | none =>
    have same : { f with context := none } = f := by rw [← context]
    cases outer <;>
      simp only [Requester.onPopping, Stack.release, frames, context, kind, commitment, receive,
        receiving, resultAfter, committing, bound, List.isEmpty_nil, List.isEmpty_cons, if_true,
        Bool.false_eq_true, if_false, Stats.release_none, List.nil_append] <;>
      rw [← kind, same, ← frames]
  | some own =>
    obtain ⟨rest, state⟩ := own
    cases state with
    | request bindAs response =>
      cases outer <;> cases response <;> cases exception : co.stack.exception <;> cases bindAs <;>
        simp [Requester.onPopping, Stack.release, frames, context, kind, commitment, receive,
          receiving, resultAfter, committing, bound, exception, Stack.bind]
    | _ =>
      cases outer <;>
        simp [Requester.onPopping, Stack.release, frames, context, kind, commitment, receive,
          receiving, resultAfter, committing, bound]

theorem commitment_eq_none (co : Coroutine) (other : f.kind ≠ .request) : co.commitment f = none := by
  simp [commitment, other]

@[simp] theorem scope_receive (p : Frame) : (co.receive f p).scope = p.scope := by
  unfold receive
  split <;> rfl

@[simp] theorem position_receive (p : Frame) : (co.receive f p).position = p.position := by
  unfold receive
  split <;> rfl

@[simp] theorem kind_receive (p : Frame) : (co.receive f p).kind = p.kind := by
  unfold receive
  split <;> rfl

@[simp] theorem context_receive (p : Frame) : (co.receive f p).context = p.context := by
  unfold receive
  split <;> rfl

@[simp] theorem next_receive (p : Frame) : (co.receive f p).next = p.next := by
  unfold receive
  split <;> rfl

theorem any_scope_receiving (scope : NodeId) :
    (co.receiving f outer).any (·.scope == scope) = outer.any (·.scope == scope) := by
  cases outer <;> simp [receiving]

theorem onPopping_pop (frames : co.stack.frames = f :: outer) :
    (co.onPopping f.kind).onStack Stack.pop = co.onStack fun _ =>
      { co.left f outer (co.receiving f outer) with
        result := if outer.isEmpty then co.resultAfter f else co.stack.result } := by
  by_cases request : f.kind = .request
  · simp only [onPopping, request, onStack, requester_onPopping frames request, Stack.pop, left,
      any_scope_receiving, scopesAfter, Stats.release_none]
    rfl
  · have nothing := commitment_eq_none co request
    cases kind : f.kind with
    | request => exact absurd kind request
    | _ =>
      cases outer <;>
        simp [onPopping, kind, Structural.onPopping, onStack, frames, Stack.pop, left, scopesAfter,
          receiving, receive, bound, committing, resultAfter, nothing]

theorem journal_complete (co : Coroutine) : co.complete.stack.journal = co.stack.journal := by
  unfold complete
  split <;> rfl

theorem outcome_complete_ne_fatal (co : Coroutine) (message : String) :
    co.complete.outcome ≠ some (.fatal message) := by
  unfold complete
  split <;> simp [finish]

end Operations

/-- Each rule is what the step computes. -/
theorem step_of_transition {env : Environment} {co next : Coroutine}
    (h : Transition env co next) : co.step env = (next, none) := by
  cases h with
  | opens entering eval =>
    refine step_of_entering entering ?_ (by simp [equip])
    simp only [afterPushed, structural_opens entering eval]
  | fails entering failed =>
    refine step_of_entering entering (afterPushed_of_setUpFails entering failed) ?_
    simp [equip, onStack, Stack.raise]
  | asks entering asks =>
    refine step_of_entering entering (afterPushed_of_setUpAsks entering asks) ?_
    simp [equip, onStack, Stack.note]
  | idles entering calm =>
    refine step_of_entering entering ?_ (by simp [equip])
    simp only [afterPushed, catcher_idles entering calm]
  | catches entering flying eval accepted =>
    refine step_of_entering entering ?_ (by simp [equip, onStack, Stack.note])
    simp only [afterPushed, catcher_catches entering flying eval accepted]
  | misses entering flying eval refused =>
    refine step_of_entering entering ?_ (by simp [equip, onStack, Stack.raise])
    simp only [afterPushed, catcher_misses entering flying eval refused]
  | fumbles entering flying eval =>
    refine step_of_entering entering ?_ (by simp [equip, onStack, Stack.raise])
    simp only [afterPushed, catcher_fumbles entering flying eval]
  | wakes due kind resume =>
    refine step_of_operate due.frames ?_ (by simp [onStack])
    simp only [operate, due.next, kind, rerun_wakes due resume]
  | responds due kind resume ok element =>
    obtain ⟨el, element⟩ := element
    refine step_of_operate due.frames ?_ (by simp [onStack])
    simp only [operate, due.next, kind, rerun_responds due element resume ok]
  | breaks due kind element resume broken =>
    refine step_of_operate due.frames ?_ (by simp [onStack, Stack.raise])
    have op := rerun_of_breaks due element resume broken
    cases broken <;> simp only [operate, due.next, kind, op]
  | exhausts due selected =>
    refine step_of_operate due.frames ?_ (by simp [onStack])
    simp only [operate, due.next, selectChild_exhausts _ due selected]
  | enters due selected room =>
    refine step_of_operate due.frames ?_ (by simp [onStack])
    simp only [operate, due.next, selectChild_element _ due selected, Nat.not_le.mpr room, if_false]
  | leaves due =>
    refine step_of_operate due.frames ?_ (by simp [onStack, left])
    simp only [operate, due.next, onPopping_pop due.frames]
    rfl
  | completes due =>
    simp only [step, Stack.top?, due.frames, List.head?_cons, operate, due.next,
      onPopping_pop due.frames]
    rfl

theorem step_of_fails (env : Environment) {co next : Coroutine} {fault : Fault}
    (h : co.Fails fault next) : co.step env = (next, some fault) := by
  cases h with
  | overflow due selected full =>
    simp [step, Stack.top?, due.frames, operate, due.next, selectChild_element _ due selected, full]
  | misplaced due selected =>
    simp [step, Stack.top?, due.frames, operate, due.next, selectChild_misplaced _ due selected]
  | displayed due kind resume =>
    simp [step, Stack.top?, due.frames, operate, due.next, kind, rerun, Sleep.rerun,
      takeResume_eq due.frames resume]
  | timed due kind element resume =>
    obtain ⟨el, element⟩ := element
    simp [step, Stack.top?, due.frames, operate, due.next, kind, rerun, Requester.rerun,
      element?_eq _ due.frames element, takeResume_eq due.frames resume]

end Coroutine
end MarkupMachine
