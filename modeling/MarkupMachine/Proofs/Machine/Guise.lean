import MarkupMachine.Proofs.Machine.Driven
import MarkupMachine.Proofs.Walk.View

/-! Coroutines in disguise. The number of a coroutine and that of its document tell it apart from
others, its requests have identifiers, and a journal is kept of it; nothing of this has a bearing on
the steps that it takes. -/

namespace MarkupMachine

def Completion.anonymous : Completion → Completion
  | .renderer response => .renderer { response with id := Uuid.ofNat 0 }
  | c => c

namespace Completion

variable {c twin : Completion}

theorem eq_timer (h : twin.anonymous = Completion.timer.anonymous) : twin = .timer := by
  cases twin <;> simp_all [anonymous]

theorem eq_failed {e : Exception} (h : twin.anonymous = (Completion.failed e).anonymous) :
    twin = .failed e := by
  cases twin <;> simp_all [anonymous]

theorem exists_renderer {response : Response}
    (h : twin.anonymous = (Completion.renderer response).anonymous) :
    ∃ id, twin = .renderer { response with id } := by
  cases twin with
  | renderer answer =>
    simp only [anonymous, Completion.renderer.injEq, Response.mk.injEq, true_and] at h
    obtain ⟨status, result, payload⟩ := h
    refine ⟨answer.id, congrArg Completion.renderer ?_⟩
    rw [← status, ← result, ← payload]
  | timer | failed => cases h

end Completion

/-- What may differ between two coroutines that run the same program. -/
structure Guise where
  id : Nat
  number : Nat
  journal : List Event
  pending : List Wait
  asked : List String
  resume : Option Completion

structure Environment.Alike (env other : Environment) (number twin : Nat) : Prop where
  evaluator : env.evaluator = .standard
  same : other.evaluator = .standard
  target : other.target = env.target
  globals : Table.get? twin other.globals = Table.get? number env.globals

theorem Environment.Alike.refl {env : Environment} (standard : env.evaluator = .standard)
    (number : Nat) : env.Alike env number number :=
  ⟨standard, standard, rfl, rfl⟩

namespace Coroutine

def guise (co : Coroutine) : Guise :=
  ⟨co.id, co.stack.document.number, co.stack.journal, co.pending, co.asked, co.resume⟩

def disguised (co : Coroutine) (g : Guise) : Coroutine :=
  { co with
    id := g.id
    pending := g.pending
    asked := g.asked
    resume := g.resume
    stack := { co.stack with
      document := { co.stack.document with number := g.number }
      journal := g.journal } }

/-- Two coroutines that differ in their guise only, wait for the same and have the same answer at
hand. -/
structure Akin (co twin : Coroutine) : Prop where
  same : co.disguised twin.guise = twin
  pending : twin.pending.map (·.anonymous) = co.pending.map (·.anonymous)
  resume : twin.resume.map (·.anonymous) = co.resume.map (·.anonymous)

variable {env other : Environment} {co twin next : Coroutine} {g : Guise} {f : Frame}
  {outer : List Frame} {el : Element}

theorem Akin.refl (co : Coroutine) : co.Akin co := ⟨rfl, rfl, rfl⟩

theorem Akin.exists_guise (akin : co.Akin twin) : ∃ g, twin = co.disguised g :=
  ⟨_, akin.same.symm⟩

theorem Akin.state (akin : co.Akin twin) : twin.state = co.state := by
  obtain ⟨g, rfl⟩ := akin.exists_guise
  rfl

theorem Akin.outcome (akin : co.Akin twin) : twin.outcome = co.outcome := by
  obtain ⟨g, rfl⟩ := akin.exists_guise
  rfl

theorem Akin.stats (akin : co.Akin twin) : twin.stack.stats = co.stack.stats := by
  obtain ⟨g, rfl⟩ := akin.exists_guise
  rfl

theorem Akin.keep {last after : Coroutine} (akin : co.Akin twin)
    (same : last.disguised after.guise = after) (pending : last.pending = co.pending)
    (others : after.pending = twin.pending) (resume : last.resume = co.resume)
    (again : after.resume = twin.resume) : last.Akin after :=
  ⟨same, by rw [others, pending, akin.pending], by rw [again, resume, akin.resume]⟩

theorem valueOf_disguised (co : Coroutine) (g : Guise)
    (alike : env.Alike other co.stack.document.number g.number) :
    other.valueOf (co.disguised g).stack = env.valueOf co.stack := by
  have scope : (other.scope (co.disguised g).stack).view = (env.scope co.stack).view := by
    have globals := alike.globals
    simp only [Environment.scope, Scope.view, disguised]
    rw [globals]
    rfl
  rw [Walk.valueOf_eq alike.evaluator, Walk.valueOf_eq alike.same, scope]

theorem Entering.disguised {kind : ElementKind} (entering : Entering co kind f outer el)
    (g : Guise) : Entering (co.disguised g) kind f outer el :=
  ⟨entering.frames, entering.kind, entering.next, entering.context, entering.element⟩

theorem Due.disguised {due : NextStep} {context : Context} (h : Due co due f outer context)
    (g : Guise) : Due (co.disguised g) due f outer context :=
  ⟨h.frames, h.next, h.context⟩

theorem select_disguised (co : Coroutine) (g : Guise) (raising : Bool) (ids : List NodeId)
    (content : Option String) : (co.disguised g).stack.document.select raising ids content =
      co.stack.document.select raising ids content := by
  induction ids generalizing content with
  | nil => rfl
  | cons id ids ih =>
    have same : (co.disguised g).stack.document.kind? id = co.stack.document.kind? id := rfl
    simp only [Document.select, same, ih]

theorem again {α : Type} {setup : Setup α} (silent : Walk.Silent setup)
    {result : Except Exception α} {asked noted : List String}
    (h : setup.run.run asked = (result, noted)) (others : List String) :
    noted = asked ∧ setup.run.run others = (result, others) := by
  rw [silent] at h ⊢
  cases h
  exact ⟨rfl, rfl⟩

theorem silent_valueOf (standard : env.evaluator = .standard) (stack : Stack)
    (e : Option Expression) : Walk.Silent (env.valueOf stack e) := by
  rw [Walk.valueOf_eq standard]
  exact Walk.silent_value _ e

theorem request_again {value : Option Expression → Setup Value} (quiet : ∀ e, Walk.Silent (value e))
    {id : Uuid} {handle : UInt64} {result : Except Exception (Request × Option String)}
    {asked noted : List String}
    (h : (Requester.setup value id handle el).run.run asked = (result, noted)) (twin : Uuid)
    (others : List String) : noted = asked ∧
      (Requester.setup value twin handle el).run.run others =
        (result.map (Walk.withId twin), others) := by
  obtain ⟨same, again⟩ := again (Walk.silent_request quiet id handle el) h []
  have evaluated : Walk.evaluate (Requester.setup value id handle el) = result := by
    rw [Walk.evaluate, again]
  rw [Walk.evaluate_withId] at evaluated
  rw [Walk.silent_request quiet, Walk.evaluate_withId, ← evaluated]
  cases Walk.evaluate (Requester.setup value (Uuid.ofNat 0) handle el) with
  | ok _ => exact ⟨same, rfl⟩
  | error _ => exact ⟨same, rfl⟩

section SetUps

variable (alike : env.Alike other co.stack.document.number g.number)
include alike

theorem attributes_disguised {result : Except Exception (List (String × Value))}
    {asked : List String}
    (eval : (Structural.attributes (env.valueOf (co.equip (co.covering f .structural) outer).stack)
      el.attributes []).run.run co.asked = (result, asked)) : asked = co.asked ∧
    (Structural.attributes (other.valueOf ((co.disguised g).equip
      ((co.disguised g).covering f .structural) outer).stack) el.attributes []).run.run g.asked =
        (result, g.asked) := by
  have quiet := silent_valueOf alike.evaluator
  have same := valueOf_disguised (co.equip (co.covering f .structural) outer) g alike
  obtain ⟨noted, eval⟩ := again (Walk.silent_structural (quiet _) _ _) eval g.asked
  rw [← same] at eval
  exact ⟨noted, eval⟩

theorem filter_disguised {result : Except Exception (Option String)} {asked : List String}
    (eval : (Catcher.filter (env.valueOf co.cleared.stack) el.attributes none).run.run co.asked =
      (result, asked)) : asked = co.asked ∧
    (Catcher.filter (other.valueOf (co.disguised g).cleared.stack) el.attributes none).run.run
      g.asked = (result, g.asked) := by
  have quiet := silent_valueOf alike.evaluator
  have same := valueOf_disguised co.cleared g alike
  obtain ⟨noted, eval⟩ := again (Walk.silent_filter (quiet _) _ _) eval g.asked
  rw [← same] at eval
  exact ⟨noted, eval⟩

theorem duration_disguised {result : Except Exception Duration} {asked : List String}
    (eval : (Sleep.setup (env.valueOf co.stack) el).run.run co.asked = (result, asked)) :
    asked = co.asked ∧ (Sleep.setup (other.valueOf (co.disguised g).stack) el).run.run g.asked =
      (result, g.asked) := by
  have quiet := silent_valueOf alike.evaluator
  obtain ⟨noted, eval⟩ := again (Walk.silent_sleep (quiet _) _) eval g.asked
  rw [← valueOf_disguised co g alike] at eval
  exact ⟨noted, eval⟩

theorem request_disguised {result : Except Exception (Request × Option String)}
    {asked : List String}
    (eval : (Requester.setup (env.valueOf co.stack) (Requester.requestId co) env.target el).run.run
      co.asked = (result, asked)) : asked = co.asked ∧
    (Requester.setup (other.valueOf (co.disguised g).stack)
      (Requester.requestId (co.disguised g)) other.target el).run.run g.asked =
        (result.map (Walk.withId (Requester.requestId (co.disguised g))), g.asked) := by
  have quiet := silent_valueOf alike.evaluator
  obtain ⟨noted, eval⟩ := request_again (quiet _) eval (Requester.requestId (co.disguised g)) g.asked
  rw [← valueOf_disguised co g alike, ← alike.target] at eval
  exact ⟨noted, eval⟩

end SetUps

theorem SetUpFails.disguised {kind : ElementKind} {e : Exception} {asked : List String}
    (failed : SetUpFails env co f outer el kind e asked)
    (alike : env.Alike other co.stack.document.number g.number) :
    asked = co.asked ∧ SetUpFails other (co.disguised g) f outer el kind e g.asked := by
  cases failed with
  | structural eval =>
    obtain ⟨noted, eval⟩ := attributes_disguised alike eval
    exact ⟨noted, .structural eval⟩
  | sleep eval =>
    obtain ⟨noted, eval⟩ := duration_disguised alike eval
    exact ⟨noted, .sleep eval⟩
  | request eval =>
    obtain ⟨noted, eval⟩ := request_disguised alike eval
    exact ⟨noted, .request eval⟩

theorem anonymous_withId (id : Uuid) (request : Request) :
    (Wait.renderer { request with id }).anonymous = (Wait.renderer request).anonymous := rfl

theorem SetUpAsks.disguised {kind : ElementKind} {state : ContextState} {due : NextStep}
    {w : Wait} {asked : List String} (asks : SetUpAsks env co el kind state due w asked)
    (alike : env.Alike other co.stack.document.number g.number) :
    asked = co.asked ∧ ∃ twin : Wait, twin.anonymous = w.anonymous ∧
      SetUpAsks other (co.disguised g) el kind state due twin g.asked := by
  cases asks with
  | sleep eval =>
    obtain ⟨noted, eval⟩ := duration_disguised alike eval
    exact ⟨noted, _, rfl, .sleep eval⟩
  | @request request bindAs _ eval =>
    obtain ⟨noted, eval⟩ := request_disguised alike eval
    have asks := SetUpAsks.request eval
    exact ⟨noted, _, anonymous_withId _ request, asks⟩

theorem exists_resume {c : Completion}
    (same : g.resume.map (·.anonymous) = co.resume.map (·.anonymous)) (resume : co.resume = some c) :
    ∃ d, g.resume = some d ∧ d.anonymous = c.anonymous := by
  rw [resume] at same
  cases twin : g.resume with
  | none => simp [twin] at same
  | some d => exact ⟨d, rfl, by simpa [twin] using same⟩

theorem Breaks.akin {kind : ElementKind} {due : NextStep} {c d : Completion} {e : Exception}
    (breaks : Breaks el kind due c e) (same : d.anonymous = c.anonymous) :
    Breaks el kind due d e := by
  cases breaks with
  | sleep =>
    rw [Completion.eq_failed same]
    exact .sleep
  | request =>
    rw [Completion.eq_failed same]
    exact .request
  | refused refused =>
    obtain ⟨id, rfl⟩ := Completion.exists_renderer same
    exact .refused refused

theorem Akin.finish (akin : co.Akin twin) (outcome : Outcome) :
    (co.finish outcome).Akin (twin.finish outcome) := by
  obtain ⟨g, rfl⟩ := akin.exists_guise
  exact ⟨rfl, rfl, akin.resume⟩

theorem Akin.complete (akin : co.Akin twin) : co.complete.Akin twin.complete := by
  obtain ⟨g, rfl⟩ := akin.exists_guise
  have same : (co.disguised g).stack.exception = co.stack.exception := rfl
  simp only [Coroutine.complete, same]
  split
  · have cleared : (co.onStack Stack.clear).Akin ((co.disguised g).onStack Stack.clear) :=
      akin.keep rfl rfl rfl rfl rfl
    exact cleared.finish _
  · exact akin.finish _

/-- A step without a fault takes no account of the guise. -/
theorem Akin.transition (akin : co.Akin twin)
    (alike : env.Alike other co.stack.document.number twin.stack.document.number)
    (rule : Transition env co next) : next.asked = co.asked ∧
      ∃ after, Transition other twin after ∧ next.Akin after := by
  obtain ⟨g, rfl⟩ := akin.exists_guise
  have alike : env.Alike other co.stack.document.number g.number := alike
  -- The twin goes by the same rule; only what the rule evaluates has to be found again.
  cases rule with
  | opens entering eval =>
    obtain ⟨noted, eval⟩ := attributes_disguised alike eval
    exact ⟨noted, _, .opens (entering.disguised g) eval, akin.keep rfl rfl rfl rfl rfl⟩
  | fails entering failed =>
    obtain ⟨noted, failed⟩ := failed.disguised alike
    exact ⟨noted, _, .fails (entering.disguised g) failed, akin.keep rfl rfl rfl rfl rfl⟩
  | asks entering asks =>
    obtain ⟨noted, w, same, asks⟩ := asks.disguised alike
    refine ⟨noted, _, .asks (entering.disguised g) asks, rfl, ?_, akin.resume⟩
    simp [onStack, akin.pending, same]
  | idles entering calm =>
    exact ⟨rfl, _, .idles (entering.disguised g) calm, akin.keep rfl rfl rfl rfl rfl⟩
  | catches entering flying eval accepted =>
    obtain ⟨noted, eval⟩ := filter_disguised alike eval
    exact ⟨noted, _, .catches (entering.disguised g) flying eval accepted,
      akin.keep rfl rfl rfl rfl rfl⟩
  | misses entering flying eval refused =>
    obtain ⟨noted, eval⟩ := filter_disguised alike eval
    exact ⟨noted, _, .misses (entering.disguised g) flying eval refused,
      akin.keep rfl rfl rfl rfl rfl⟩
  | fumbles entering flying eval =>
    obtain ⟨noted, eval⟩ := filter_disguised alike eval
    exact ⟨noted, _, .fumbles (entering.disguised g) flying eval, akin.keep rfl rfl rfl rfl rfl⟩
  | wakes due kind at_hand =>
    obtain ⟨d, again, same⟩ := exists_resume akin.resume at_hand
    rw [Completion.eq_timer same] at again
    exact ⟨rfl, _, .wakes (due.disguised g) kind again, rfl, akin.pending, rfl⟩
  | responds due kind at_hand ok element =>
    obtain ⟨d, again, same⟩ := exists_resume akin.resume at_hand
    obtain ⟨id, rfl⟩ := Completion.exists_renderer same
    exact ⟨rfl, _, .responds (due.disguised g) kind again ok element, rfl, akin.pending, rfl⟩
  | breaks due kind element at_hand broken =>
    obtain ⟨d, again, same⟩ := exists_resume akin.resume at_hand
    exact ⟨rfl, _, .breaks (due.disguised g) kind element again (broken.akin same), rfl, akin.pending,
      rfl⟩
  | exhausts due selected =>
    rw [← select_disguised co g] at selected
    exact ⟨rfl, _, .exhausts (due.disguised g) selected, akin.keep rfl rfl rfl rfl rfl⟩
  | enters due selected room =>
    rw [← select_disguised co g] at selected
    exact ⟨rfl, _, .enters (due.disguised g) selected room, akin.keep rfl rfl rfl rfl rfl⟩
  | leaves due =>
    exact ⟨rfl, _, .leaves (due.disguised g), akin.keep rfl rfl rfl rfl rfl⟩
  | completes due =>
    refine ⟨?_, _, .completes (due.disguised g),
      Akin.complete (akin.keep rfl rfl rfl rfl rfl)⟩
    unfold Coroutine.complete
    split <;> rfl

theorem Akin.fails {fault : Fault} (akin : co.Akin twin) (rule : co.Fails fault next) :
    ∃ after, twin.Fails fault after ∧ next.Akin after := by
  obtain ⟨g, rfl⟩ := akin.exists_guise
  cases rule with
  | overflow due selected full =>
    rw [← select_disguised co g] at selected
    exact ⟨_, .overflow (due.disguised g) selected full, akin.keep rfl rfl rfl rfl rfl⟩
  | misplaced due selected =>
    rw [← select_disguised co g] at selected
    exact ⟨_, .misplaced (due.disguised g) selected, akin.keep rfl rfl rfl rfl rfl⟩
  | displayed due kind at_hand =>
    obtain ⟨d, again, same⟩ := exists_resume akin.resume at_hand
    obtain ⟨id, rfl⟩ := Completion.exists_renderer same
    exact ⟨_, .displayed (due.disguised g) kind again, rfl, akin.pending, rfl⟩
  | timed due kind element at_hand =>
    obtain ⟨d, again, same⟩ := exists_resume akin.resume at_hand
    rw [Completion.eq_timer same] at again
    exact ⟨_, .timed (due.disguised g) kind element again, rfl, akin.pending, rfl⟩

theorem Akin.unwind (akin : co.Akin twin) (count : Nat) :
    (co.unwind count).Akin (twin.unwind count) := by
  induction count generalizing co twin with
  | zero => exact akin
  | succ count ih =>
    obtain ⟨g, rfl⟩ := akin.exists_guise
    cases frames : co.stack.frames with
    | nil =>
      have again : (co.disguised g).stack.frames = [] := frames
      simpa [Coroutine.unwind, Stack.top?, frames, again] using akin
    | cons f outer =>
      have again : (co.disguised g).stack.frames = f :: outer := frames
      simp only [Coroutine.unwind, Stack.top?, frames, again, List.head?_cons]
      rw [onPopping_pop frames, onPopping_pop again]
      exact ih (akin.keep rfl rfl rfl rfl rfl)

theorem Akin.terminate (akin : co.Akin twin) (outcome : Outcome) :
    (co.terminate outcome).Akin (twin.terminate outcome) := by
  obtain ⟨g, rfl⟩ := akin.exists_guise
  exact (akin.unwind co.stack.depth).finish outcome

def answered (co : Coroutine) (c : Completion) : Coroutine :=
  { co.filed.resumeWith c with state := .running }

theorem Akin.answered {c d : Completion} (akin : co.Akin twin)
    (waiting : co.state = .waiting) (same : d.anonymous = c.anonymous) :
    (co.answered c).Akin (twin.answered d) := by
  obtain ⟨g, rfl⟩ := akin.exists_guise
  have again : (co.disguised g).state = .waiting := waiting
  refine ⟨rfl, ?_, ?_⟩
  · simp [Coroutine.answered, Coroutine.resumeWith, filed, waiting, again]
  · simp [Coroutine.answered, Coroutine.resumeWith, same]

theorem Akin.step {fault : Option Fault} {admits : Coroutine → Completion → Prop}
    (akin : co.Akin twin) (driven : Driven admits co) (running : co.state = .running)
    (alike : env.Alike other co.stack.document.number twin.stack.document.number)
    (step : co.step env = (next, fault)) :
    ∃ after, twin.step other = (after, fault) ∧ next.Akin after ∧ next.asked = co.asked ∧
      next.stack.document = co.stack.document ∧
      after.stack.document = twin.stack.document := by
  have live := driven.live (by simp [running])
  cases fault with
  | none =>
    have rule := live.transition_of_step running step
    obtain ⟨asked, after, again, akin⟩ := akin.transition alike rule
    exact ⟨after, step_of_transition again, akin, asked, (kin_of_transition rule).document,
      (kin_of_transition again).document⟩
  | some fault =>
    have rule := live.fails_of_step running step
    obtain ⟨after, again, akin⟩ := akin.fails rule
    refine ⟨after, step_of_fails other again, akin, ?_, (kin_of_fails rule).document,
      (kin_of_fails again).document⟩
    cases rule <;> rfl

end Coroutine
end MarkupMachine
