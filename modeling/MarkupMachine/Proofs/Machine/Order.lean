import MarkupMachine.Proofs.Machine.Selection
import MarkupMachine.Proofs.Machine.Transition
import MarkupMachine.Proofs.Tree.Layout

/-! Good order of a coroutine: its frames are a path through the document, and its wait, its
completion and the exception in flight agree with the operation that the innermost frame is due
for. A coroutine in good order that runs has a rule for its next step, and the rules keep it in
good order or end it. -/

namespace MarkupMachine

/-- A frame that stands for an element, with children of it still to visit. -/
structure Frame.Fits (doc : Document) (f : Frame) : Prop where
  scope : f.scope = f.position
  element : ∃ el, doc.element? f.position = some el ∧ f.kind = ElementKind.ofTag el.tag
  rest : ∀ context, f.context = some context →
    ∃ seen, doc.children f.position = seen ++ context.rest

structure Frame.Encloses (doc : Document) (p : Frame) (child : NodeId) : Prop where
  next : p.next = .selectChild
  context : ∃ context seen, p.context = some context ∧
    doc.children p.position = seen ++ child :: context.rest

/-- Frames that lead from the root element inward. -/
inductive Stacked (doc : Document) : List Frame → Prop
  | root {f} : f.Fits doc → doc.rootElement? = some f.position → Stacked doc [f]
  | inside {f p outer} : f.Fits doc → p.Encloses doc f.position → Stacked doc (p :: outer) →
    Stacked doc (f :: p :: outer)

namespace Stacked

variable {doc : Document} {f g p : Frame} {outer : List Frame}

theorem fits (h : Stacked doc (f :: outer)) : f.Fits doc := by
  cases h with
  | root fits => exact fits
  | inside fits => exact fits

theorem parent (h : Stacked doc (f :: p :: outer)) : p.Encloses doc f.position := by
  cases h with
  | inside _ encloses => exact encloses

theorem tail (h : Stacked doc (f :: p :: outer)) : Stacked doc (p :: outer) := by
  cases h with
  | inside _ _ stacked => exact stacked

theorem replace (h : Stacked doc (f :: outer)) (fits : g.Fits doc)
    (position : g.position = f.position) : Stacked doc (g :: outer) := by
  cases h with
  | root _ root => exact .root fits (by rw [root, position])
  | inside _ encloses stacked => exact .inside fits (position ▸ encloses) stacked

theorem scope_lt (built : doc.Built) (h : Stacked doc (f :: outer)) :
    ∀ g ∈ outer, g.scope < f.scope := by
  induction outer generalizing f with
  | nil => simp
  | cons p outer ih =>
    obtain ⟨context, seen, _, children⟩ := h.parent.context
    have child : f.position ∈ doc.children p.position := by simp [children]
    have less : p.scope < f.scope := by
      rw [h.fits.scope, h.tail.fits.scope]
      exact (built.of_mem_children child).1
    intro g mem
    rcases List.mem_cons.mp mem with rfl | mem
    · exact less
    · exact Nat.lt_trans (ih h.tail g mem) less

end Stacked

inductive Frame.Awaits (f : Frame) : Wait → Prop
  | sleep {rest d} : f.kind = .sleep → f.next = .rerun → f.context = some ⟨rest, .sleep d⟩ →
    f.Awaits (.timer d)
  | request {rest bindAs request} : f.kind = .request → f.next = Requester.awaiting →
    f.context = some ⟨rest, .request bindAs none⟩ → f.Awaits (.renderer request)

namespace Coroutine

/-- A coroutine that neither waits nor has an answer at hand. -/
structure Free (co : Coroutine) : Prop where
  waits : co.waits = 0
  pending : co.pending = []
  resume : co.resume = none
  state : co.state ≠ .waiting

structure Suspended (co : Coroutine) (f : Frame) (w : Wait) : Prop where
  waits : co.waits = 1
  pending : co.pending = [w] ∨ co.pending = []
  resume : co.resume = none
  state : co.state = .waiting
  calm : co.stack.exception = none
  journal : ∃ earlier, co.stack.journal = .suspended (some f.position) w :: earlier

structure Answered (co : Coroutine) (f : Frame) (w : Wait) (c : Completion) : Prop where
  waits : co.waits = 0
  pending : co.pending = []
  resume : co.resume = some c
  state : co.state ≠ .waiting
  calm : co.stack.exception = none
  journal : ∃ earlier, co.stack.journal =
    .resumed c :: .suspended (some f.position) w :: earlier

inductive Standing (co : Coroutine) (f : Frame) : Prop
  | entering : f.next = .afterPushed → f.context = none → co.Free →
    (co.stack.exception ≠ none → f.kind = .catcher) → Standing co f
  | suspended {w} : f.Awaits w → co.Suspended f w → Standing co f
  | answered {w c} : f.Awaits w → co.Answered f w c → Standing co f
  | visiting {context} : f.next = .selectChild → f.context = some context → co.Free →
    Standing co f
  | leaving {context} : f.next = .onPopping → f.context = some context → co.Free → Standing co f

/-- A coroutine that has not ended, in good order. -/
structure Live (co : Coroutine) : Prop where
  built : co.stack.document.Built
  depth : co.stack.depth ≤ co.stack.limit
  outcome : co.outcome = none
  state : co.state ≠ .terminated
  standing : ∃ f outer, co.stack.frames = f :: outer ∧ Stacked co.stack.document (f :: outer) ∧
    co.Standing f

structure Ended (co : Coroutine) : Prop where
  frames : co.stack.frames = []
  state : co.state = .terminated
  waits : co.waits = 0
  pending : co.pending = []
  outcome : co.outcome ≠ none

variable {env : Environment} {co next : Coroutine} {f : Frame} {outer : List Frame}

theorem Live.at (live : co.Live) (frames : co.stack.frames = f :: outer) :
    Stacked co.stack.document (f :: outer) ∧ co.Standing f := by
  obtain ⟨g, around, same, stacked, standing⟩ := live.standing
  rw [frames] at same
  cases same
  exact ⟨stacked, standing⟩

theorem Breaks.due {el : Element} {kind : ElementKind} {due : NextStep} {c : Completion}
    {e : Exception} (h : Breaks el kind due c e) : due = .rerun ∨ ∃ state, due = .custom state := by
  cases h with
  | sleep => exact .inl rfl
  | request | refused => exact .inr ⟨_, rfl⟩

theorem Standing.resume_eq (standing : co.Standing f) (running : co.state = .running)
    (due : f.next = .rerun ∨ ∃ state, f.next = .custom state) :
    ∃ w c, f.Awaits w ∧ co.Answered f w c := by
  cases standing with
  | suspended _ suspended => exact absurd suspended.state (by simp [running])
  | answered awaits answered => exact ⟨_, _, awaits, answered⟩
  | entering next | visiting next | leaving next =>
    rcases due with due | ⟨_, due⟩ <;> simp [next] at due

theorem Standing.free (standing : co.Standing f)
    (next : f.next = .afterPushed ∨ f.next = .selectChild ∨ f.next = .onPopping) : co.Free := by
  cases standing with
  | suspended awaits _ | answered awaits _ =>
    cases awaits with
    | sleep _ due | request _ due =>
      rw [due] at next
      simp [Requester.awaiting] at next
  | entering _ _ free | visiting _ _ free | leaving _ _ free => exact free

theorem Standing.of_entering (standing : co.Standing f) (next : f.next = .afterPushed) :
    f.context = none ∧ (co.stack.exception ≠ none → f.kind = .catcher) := by
  cases standing with
  | suspended awaits _ | answered awaits _ =>
    cases awaits with
    | sleep _ due | request _ due =>
      rw [due] at next
      simp [Requester.awaiting] at next
  | entering _ none _ kind => exact ⟨none, kind⟩
  | visiting due | leaving due => simp [due] at next

theorem Standing.catcher_of_flying (standing : co.Standing f) (next : f.next = .afterPushed)
    (flying : co.stack.exception ≠ none) : f.kind = .catcher :=
  (standing.of_entering next).2 flying

section Progress

theorem exists_transition_of_entering {el : Element} {kind : ElementKind}
    (entering : Entering co kind f outer el) : ∃ next, Transition env co next := by
  cases kind with
  | structural =>
    let value := env.valueOf (co.equip (co.covering f .structural) outer).stack
    rcases eval : (Structural.attributes value el.attributes []).run.run co.asked
      with ⟨_ | _, asked⟩
    · exact ⟨_, .fails entering (.structural eval)⟩
    · exact ⟨_, .opens entering eval⟩
  | catcher =>
    cases exception : co.stack.exception with
    | none => exact ⟨_, .idles entering exception⟩
    | some e =>
      rcases eval : (Catcher.filter (env.valueOf co.cleared.stack) el.attributes none).run.run
        co.asked with ⟨_ | filter, asked⟩
      · exact ⟨_, .fumbles entering exception eval⟩
      · cases accepted : filterAccepts filter e.category with
        | true => exact ⟨_, .catches entering exception eval accepted⟩
        | false => exact ⟨_, .misses entering exception eval accepted⟩
  | sleep =>
    rcases eval : (Sleep.setup (env.valueOf co.stack) el).run.run co.asked with ⟨_ | _, asked⟩
    · exact ⟨_, .fails entering (.sleep eval)⟩
    · exact ⟨_, .asks entering (.sleep eval)⟩
  | request =>
    rcases eval : (Requester.setup (env.valueOf co.stack) (Requester.requestId co) env.target
      el).run.run co.asked with ⟨_ | ⟨_, _⟩, asked⟩
    · exact ⟨_, .fails entering (.request eval)⟩
    · exact ⟨_, .asks entering (.request eval)⟩

theorem transition_or_fails_of_answered {el : Element} {w : Wait} {c : Completion}
    (frames : co.stack.frames = f :: outer)
    (element : co.stack.document.element? f.position = some el) (awaits : f.Awaits w)
    (resume : co.resume = some c) :
    (∃ next, Transition env co next) ∨ ∃ fault next, co.Fails fault next := by
  cases awaits with
  | sleep kind due context =>
    have due : Due co .rerun f outer _ := ⟨frames, due, context⟩
    cases c with
    | timer => exact .inl ⟨_, .wakes due kind resume⟩
    | renderer response => exact .inr ⟨_, _, .displayed due kind resume⟩
    | failed e => exact .inl ⟨_, .breaks due kind element resume .sleep⟩
  | request kind due context =>
    have due : Due co (.custom 1) f outer _ := ⟨frames, due, context⟩
    cases c with
    | timer => exact .inr ⟨_, _, .timed due kind ⟨el, element⟩ resume⟩
    | renderer response =>
      cases ok : response.isOk with
      | true => exact .inl ⟨_, .responds due kind resume ok ⟨el, element⟩⟩
      | false => exact .inl ⟨_, .breaks due kind element resume (.refused ok)⟩
    | failed e => exact .inl ⟨_, .breaks due kind element resume .request⟩

theorem transition_or_fails_of_visiting {context : Context}
    (due : Due co .selectChild f outer context) :
    (∃ next, Transition env co next) ∨ ∃ fault next, co.Fails fault next := by
  obtain ⟨rest, state⟩ := context
  rcases co.stack.document.select_cases co.stack.exception.isSome rest f.content with
    ⟨gathered, ended⟩ | ⟨gathered, id, beyond, _, ⟨el, _, entered⟩ | ⟨_, stuck⟩⟩
  · exact .inl ⟨_, .exhausts due ended⟩
  · by_cases room : co.stack.depth < co.stack.limit
    · exact .inl ⟨_, .enters due entered room⟩
    · exact .inr ⟨_, _, .overflow due entered (Nat.le_of_not_lt room)⟩
  · exact .inr ⟨_, _, .misplaced due stuck⟩

theorem Live.progress (env : Environment) (live : co.Live) (running : co.state = .running) :
    (∃ next, Transition env co next) ∨ ∃ fault next, co.Fails fault next := by
  obtain ⟨f, outer, frames, stacked, standing⟩ := live.standing
  obtain ⟨el, element, _⟩ := stacked.fits.element
  cases standing with
  | entering next context =>
    exact .inl (exists_transition_of_entering ⟨frames, rfl, next, context, element⟩)
  | suspended _ suspended => exact absurd suspended.state (by simp [running])
  | answered awaits answered =>
    exact transition_or_fails_of_answered frames element awaits answered.resume
  | visiting next context => exact transition_or_fails_of_visiting ⟨frames, next, context⟩
  | leaving next context =>
    cases outer with
    | nil => exact .inl ⟨_, .completes ⟨frames, next, context⟩⟩
    | cons p outer => exact .inl ⟨_, .leaves ⟨frames, next, context⟩⟩

theorem Live.transition_of_step (live : co.Live) (running : co.state = .running)
    (step : co.step env = (next, none)) : Transition env co next := by
  rcases live.progress env running with ⟨other, rule⟩ | ⟨fault, other, rule⟩
  · rw [step_of_transition rule] at step
    cases step
    exact rule
  · rw [step_of_fails env rule] at step
    cases step

theorem Live.fails_of_step {fault : Fault} (live : co.Live) (running : co.state = .running)
    (step : co.step env = (next, some fault)) : co.Fails fault next := by
  rcases live.progress env running with ⟨other, rule⟩ | ⟨fault, other, rule⟩
  · rw [step_of_transition rule] at step
    cases step
  · rw [step_of_fails env rule] at step
    cases step
    exact rule

end Progress

section Preservation

variable {g : Frame}

theorem Live.fits (live : co.Live) (frames : co.stack.frames = f :: outer) :
    f.Fits co.stack.document := (live.at frames).1.fits

theorem Live.replace (live : co.Live) (frames : co.stack.frames = f :: outer)
    (document : next.stack.document = co.stack.document)
    (limit : next.stack.limit = co.stack.limit) (outcome : next.outcome = co.outcome)
    (state : next.state ≠ .terminated) (changed : next.stack.frames = g :: outer)
    (fits : g.Fits co.stack.document) (position : g.position = f.position)
    (standing : next.Standing g) : next.Live where
  built := by rw [document]; exact live.built
  depth := by
    have depth := live.depth
    simpa [Stack.depth, frames, changed, limit] using depth
  outcome := by rw [outcome, live.outcome]
  state := state
  standing := ⟨g, outer, changed, by
    rw [document]
    exact (live.at frames).1.replace fits position, standing⟩

theorem Live.free (live : co.Live) (frames : co.stack.frames = f :: outer)
    (next : f.next = .afterPushed ∨ f.next = .selectChild ∨ f.next = .onPopping) : co.Free :=
  (live.at frames).2.free next

theorem Live.fits_covering (live : co.Live) (frames : co.stack.frames = f :: outer)
    (state : ContextState) : (co.covering f state).Fits co.stack.document where
  scope := (live.fits frames).scope
  element := (live.fits frames).element
  rest context h := by
    cases h
    exact ⟨[], rfl⟩

theorem Live.fits_beyond {rest beyond : List NodeId} {state : ContextState} {id : NodeId}
    {raising : Bool} (live : co.Live) (due : Due co .selectChild f outer ⟨rest, state⟩)
    (reached : co.stack.document.Reaches raising rest id beyond) :
    ∃ seen, co.stack.document.children f.position = seen ++ id :: beyond := by
  obtain ⟨seen, children⟩ := (live.fits due.frames).rest _ due.context
  obtain ⟨skipped, rfl, _⟩ := reached
  exact ⟨seen ++ skipped, by simp [children]⟩

theorem Live.of_asks {el : Element} {kind : ElementKind} {state : ContextState} {due : NextStep}
    {w : Wait} {asked : List String} (live : co.Live) (entering : Entering co kind f outer el)
    (asks : SetUpAsks env co el kind state due w asked) :
    ({ co.equip { co.covering f state with next := due } outer with
      asked, pending := co.pending ++ [w], waits := co.waits + 1, state := .waiting }.onStack
        (·.note (.suspended (some f.position) w))).Live := by
  have free := live.free entering.frames (.inl entering.next)
  have calm : co.stack.exception = none := by
    apply Classical.byContradiction
    intro flying
    have kind := (live.at entering.frames).2.catcher_of_flying entering.next flying
    rw [entering.kind] at kind
    subst kind
    cases asks
  have awaits : Frame.Awaits { co.covering f state with next := due } w := by
    cases asks with
    | sleep _ => exact .sleep entering.kind rfl rfl
    | request _ => exact .request entering.kind rfl rfl
  refine live.replace entering.frames rfl rfl rfl (by simp [onStack]) rfl
    ⟨(live.fits entering.frames).scope, (live.fits entering.frames).element,
      (live.fits_covering entering.frames state).rest⟩ rfl (.suspended awaits ?_)
  exact {
    waits := by simp [onStack, free.waits]
    pending := .inl (by simp [onStack, free.pending])
    resume := free.resume
    state := rfl
    calm := calm
    journal := ⟨_, rfl⟩ }

theorem Live.of_consumed {due : NextStep} {context : Context} {c : Completion} {stack : Stack}
    (live : co.Live) (running : co.state = .running) (at_ : Due co due f outer context)
    (waiting : due = .rerun ∨ ∃ state, due = .custom state)
    (frames : stack.frames = g :: outer) (document : stack.document = co.stack.document)
    (limit : stack.limit = co.stack.limit) (fits : g.Fits co.stack.document)
    (position : g.position = f.position) (next : g.next = .selectChild)
    (own : ∃ context, g.context = some context) :
    ((co.consumed f c).onStack fun _ => stack).Live := by
  obtain ⟨_, _, _, answered⟩ := (live.at at_.frames).2.resume_eq running
    (at_.next ▸ waiting)
  obtain ⟨_, own⟩ := own
  exact live.replace at_.frames document limit rfl live.state frames fits position
    (.visiting next own ⟨answered.waits, answered.pending, rfl, answered.state⟩)

theorem Live.of_enters {rest beyond : List NodeId} {state : ContextState}
    {content gathered : Option String} {kind : ElementKind} {id : NodeId} {stack : Stack}
    (live : co.Live) (due : Due co .selectChild f outer ⟨rest, state⟩)
    (selected : co.stack.document.select co.stack.exception.isSome rest content =
      ⟨gathered, beyond, .element kind id⟩) (room : co.stack.depth < co.stack.limit)
    (frames : stack.frames = Frame.enter kind id ::
      { f with content := gathered, context := some ⟨beyond, state⟩ } :: outer)
    (document : stack.document = co.stack.document) (limit : stack.limit = co.stack.limit)
    (exception : stack.exception = co.stack.exception) : (co.onStack fun _ => stack).Live := by
  have free := live.free due.frames (.inr (.inl due.next))
  obtain ⟨el, reached, admits, rfl⟩ := Document.exists_reaches_of_select_element selected
  obtain ⟨seen, children⟩ := live.fits_beyond due reached
  have fits := live.fits due.frames
  have outside : Frame.Fits co.stack.document
      { f with content := gathered, context := some ⟨beyond, state⟩ } := {
    scope := fits.scope
    element := fits.element
    rest := fun context h => by
      cases h
      exact ⟨seen ++ [id], by simp [children]⟩ }
  exact {
    built := by simpa [onStack, document] using live.built
    depth := by
      simp only [Stack.depth, due.frames, List.length_cons] at room
      simp only [onStack, Stack.depth, frames, limit, List.length_cons]
      omega
    outcome := live.outcome
    state := live.state
    standing := by
      refine ⟨_, _, frames, ?_, .entering rfl rfl ⟨free.waits, free.pending, free.resume,
        free.state⟩ fun flying => ?_⟩
      · simp only [onStack, document]
        refine .inside ⟨rfl, ⟨el, admits.element?_eq, rfl⟩, fun _ h => by cases h⟩
          ⟨due.next, _, seen, rfl, children⟩ ((live.at due.frames).1.replace outside rfl)
      · simp only [onStack, exception] at flying
        exact admits.calm (Option.isSome_iff_ne_none.mpr flying) }

theorem stacked_receive {p : Frame} (stacked : Stacked co.stack.document (f :: p :: outer)) :
    Stacked co.stack.document (co.receive f p :: outer) := by
  have fits := stacked.tail.fits
  refine stacked.tail.replace ⟨?_, ?_, ?_⟩ (position_receive p)
  · rw [scope_receive, position_receive, fits.scope]
  · rw [position_receive, kind_receive]
    exact fits.element
  · rw [position_receive, context_receive]
    exact fits.rest

theorem Live.of_leaves {p : Frame} {context : Context} {stack : Stack} (live : co.Live)
    (due : Due co .onPopping f (p :: outer) context)
    (frames : stack.frames = co.receive f p :: outer)
    (document : stack.document = co.stack.document) (limit : stack.limit = co.stack.limit) :
    (co.onStack fun _ => stack).Live := by
  have free := live.free due.frames (.inr (.inr due.next))
  have stacked := (live.at due.frames).1
  obtain ⟨context, seen, own, children⟩ := stacked.parent.context
  exact {
    built := by simpa [onStack, document] using live.built
    depth := by
      have depth := live.depth
      simp only [Stack.depth, due.frames, List.length_cons] at depth
      simp only [onStack, Stack.depth, frames, limit, List.length_cons]
      omega
    outcome := live.outcome
    state := live.state
    standing := by
      refine ⟨_, outer, frames, ?_, .visiting ((next_receive p).trans stacked.parent.next)
        ((context_receive p).trans own) ⟨free.waits, free.pending, free.resume, free.state⟩⟩
      simp only [onStack, document]
      exact stacked_receive stacked }

theorem Live.of_entering {el : Element} {kind : ElementKind} {state : ContextState}
    {stack : Stack} {asked : List String} (live : co.Live)
    (entering : Entering co kind f outer el) (frames : stack.frames = g :: outer)
    (document : stack.document = co.stack.document) (limit : stack.limit = co.stack.limit)
    (position : g.position = f.position) (scope : g.scope = f.scope) (same : g.kind = f.kind)
    (context : g.context = (co.covering f state).context)
    (next : g.next = .selectChild ∨ g.next = .onPopping) :
    ({ co with stack, asked } : Coroutine).Live := by
  have free := live.free entering.frames (.inl entering.next)
  have fits := live.fits_covering entering.frames state
  have kept : g.Fits co.stack.document := {
    scope := by rw [scope, position]; exact fits.scope
    element := by rw [position, same]; exact fits.element
    rest := by rw [position, context]; exact fits.rest }
  refine live.replace entering.frames document limit rfl live.state frames kept position ?_
  have free : Free { co with stack, asked } := ⟨free.waits, free.pending, free.resume, free.state⟩
  rcases next with next | next
  · exact .visiting next context free
  · exact .leaving next context free

theorem ended_finish (outcome : Outcome) (h : co.stack.frames = []) :
    (co.finish outcome).Ended :=
  ⟨h, rfl, rfl, rfl, by simp [finish]⟩

theorem ended_complete (h : co.stack.frames = []) : co.complete.Ended := by
  unfold complete
  split
  · exact ended_finish _ h
  · exact ended_finish _ h

theorem Live.after_transition (live : co.Live) (running : co.state = .running)
    (rule : Transition env co next) :
    next.Live ∧ (next.state = .running ∨ next.state = .waiting) ∨ next.Ended := by
  cases rule with
  | opens entering eval =>
    exact .inl ⟨live.of_entering entering rfl rfl rfl rfl rfl rfl rfl (.inl rfl), .inl running⟩
  | fails entering failed =>
    exact .inl ⟨live.of_entering entering rfl rfl rfl rfl rfl rfl rfl (.inl rfl), .inl running⟩
  | asks entering asks => exact .inl ⟨live.of_asks entering asks, .inr rfl⟩
  | idles entering calm =>
    exact .inl ⟨live.of_entering entering rfl rfl rfl rfl rfl rfl rfl (.inr rfl), .inl running⟩
  | catches entering flying eval accepted =>
    exact .inl ⟨live.of_entering entering rfl rfl rfl rfl rfl rfl rfl (.inl rfl), .inl running⟩
  | misses entering flying eval refused =>
    exact .inl ⟨live.of_entering entering rfl rfl rfl rfl rfl rfl rfl (.inr rfl), .inl running⟩
  | fumbles entering flying eval =>
    exact .inl ⟨live.of_entering entering rfl rfl rfl rfl rfl rfl rfl (.inr rfl), .inl running⟩
  | wakes due kind resume =>
    have fits := live.fits due.frames
    exact .inl ⟨live.of_consumed running due (.inl rfl) rfl rfl rfl
      ⟨fits.scope, fits.element, fits.rest⟩ rfl rfl ⟨_, due.context⟩, .inl running⟩
  | responds due kind resume ok element =>
    have fits := live.fits due.frames
    obtain ⟨seen, children⟩ := fits.rest _ due.context
    exact .inl ⟨live.of_consumed running due (.inr ⟨_, rfl⟩) rfl rfl rfl
      ⟨fits.scope, fits.element, fun _ h => by cases h; exact ⟨seen, children⟩⟩ rfl rfl ⟨_, rfl⟩,
      .inl running⟩
  | breaks due kind element resume broken =>
    have fits := live.fits due.frames
    exact .inl ⟨live.of_consumed running due broken.due rfl rfl rfl
      ⟨fits.scope, fits.element, fits.rest⟩ rfl rfl ⟨_, due.context⟩, .inl running⟩
  | exhausts due selected =>
    have free := live.free due.frames (.inr (.inl due.next))
    have fits := live.fits due.frames
    have kept : ∀ rest, ∃ seen, co.stack.document.children rest = seen ++ [] :=
      fun rest => ⟨_, (List.append_nil _).symm⟩
    exact .inl ⟨live.replace due.frames rfl rfl rfl live.state rfl
      ⟨fits.scope, fits.element, fun _ h => by cases h; exact kept _⟩ rfl
      (.leaving rfl rfl ⟨free.waits, free.pending, free.resume, free.state⟩), .inl running⟩
  | enters due selected room =>
    exact .inl ⟨live.of_enters due selected room rfl rfl rfl rfl, .inl running⟩
  | leaves due => exact .inl ⟨live.of_leaves due rfl rfl rfl, .inl running⟩
  | completes due => exact .inr (ended_complete rfl)

end Preservation

end Coroutine
end MarkupMachine
