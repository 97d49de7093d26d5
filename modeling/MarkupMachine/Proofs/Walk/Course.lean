import MarkupMachine.Proofs.Walk.Mirror

/-! The course of a coroutine that runs alone, its waits answered by a policy: it comes to the end
that a run of the recursion comes to. Each operation of the recursion is some steps of the
coroutine. -/

namespace MarkupMachine.Walk

def Policy.resume (policy : Policy) (waits : List Wait) (w : Wait) (co : Coroutine) : Coroutine :=
  { co.filed.resumeWith (policy.answer waits w.anonymous) with state := .running }

structure Agrees (goal : Run) (waits : List Wait) (co : Coroutine) : Prop where
  state : co.state = .terminated
  outcome : co.outcome = some goal.outcome
  entered : co.stack.entered = goal.entered
  waits : waits = goal.waits

/-- A coroutine that has asked for some waits goes on, by so many steps and waits at most, to an
end that agrees with a run. -/
inductive EndsIn (env : Environment) (policy : Policy) (goal : Run) :
    Nat → List Wait → Coroutine → Prop
  | done {n waits} {co : Coroutine} : Agrees goal waits co → EndsIn env policy goal n waits co
  | step {n waits} {co next : Coroutine} : co.state = .running → co.asked = [] →
    co.step env = (next, none) → EndsIn env policy goal n waits next →
    EndsIn env policy goal (n + 1) waits co
  | fail {n waits} {co next : Coroutine} {fault : Fault} : co.state = .running →
    co.asked = [] → co.step env = (next, some fault) →
    Agrees goal waits (next.terminate (.fatal fault.message)) →
    EndsIn env policy goal (n + 1) waits co
  | wait {n waits} {co : Coroutine} {w : Wait} : co.state = .waiting → co.pending = [w] →
    EndsIn env policy goal n (waits ++ [w.anonymous]) (policy.resume waits w co) →
    EndsIn env policy goal (n + 1) waits co

def Ends (env : Environment) (policy : Policy) (goal : Run) (waits : List Wait) (co : Coroutine) :
    Prop :=
  ∃ n, EndsIn env policy goal n waits co

structure World.Suits (w : World) (env : Environment) (doc : Document) : Prop where
  standard : env.evaluator = .standard
  globals : w.globals = Table.get? doc.number env.globals
  target : env.target = w.target

/-- A run is where a coroutine is. -/
structure Mirrors (w : World) (doc : Document) (run : Run) (waits : List Wait) (co : Coroutine) :
    Prop where
  live : co.Live
  running : co.state = .running
  asked : co.asked = []
  document : co.stack.document = doc
  limit : co.stack.limit = w.limit
  pictures : run.Pictures co.stack
  waits : run.waits = waits
  fault : run.fault = none

section Course

variable {env : Environment} {policy : Policy} {goal : Run} {waits : List Wait}
  {co next : Coroutine}

theorem Ends.step (running : co.state = .running) (asked : co.asked = [])
    (step : co.step env = (next, none)) (ends : Ends env policy goal waits next) :
    Ends env policy goal waits co := by
  obtain ⟨n, ends⟩ := ends
  exact ⟨n + 1, .step running asked step ends⟩

theorem Ends.of_step_eq (running : co.state = .running) (asked : co.asked = [])
    (again : next.state = .running) (same : co.step env = next.step env)
    (ends : Ends env policy goal waits next) : Ends env policy goal waits co := by
  obtain ⟨n, ends⟩ := ends
  cases ends with
  | done agrees =>
    have ended := agrees.state
    simp [again] at ended
  | step _ _ step ends => exact ⟨_, .step running asked (same.trans step) ends⟩
  | fail _ _ step agrees => exact ⟨1, .fail running asked (same.trans step) agrees⟩
  | wait waiting => simp [again] at waiting

theorem Ends.wait {w : Wait} (waiting : co.state = .waiting) (pending : co.pending = [w])
    (ends : Ends env policy goal (waits ++ [w.anonymous]) (policy.resume waits w co)) :
    Ends env policy goal waits co := by
  obtain ⟨n, ends⟩ := ends
  exact ⟨n + 1, .wait waiting pending ends⟩

theorem Policy.live_resume (policy : Policy) (waits : List Wait) (w : Wait) (live : co.Live)
    (waiting : co.state = .waiting) : (policy.resume waits w co).Live := by
  have handed : co.filed.pending = [] := by simp [Coroutine.filed, waiting]
  obtain ⟨_, _, _, _, _, suspended⟩ := live.exists_suspended waiting
  have once : co.filed.waits = 1 := suspended.waits
  have ready : (co.filed.resumeWith (policy.answer waits w.anonymous)).state = .ready := by
    simp [Coroutine.resumeWith, once]
  exact (live.filed.resumeWith waiting handed _).of_state (by simp [ready]) (by simp)

variable {w : World} {doc : Document} {run later : Run}

theorem Run.Pictures.valueOf_eq {s : Stack} (h : run.Pictures s) (suits : w.Suits env s.document) :
    env.valueOf s = value (run.view w.globals) := by
  rw [Walk.valueOf_eq suits.standard, suits.globals]
  have same : (env.scope s).view = run.view (env.scope s).globals := Walk.Pictures.view_eq h.levels
  exact congrArg value same

theorem Mirrors.along (h : Mirrors w doc run waits co) (rule : Transition env co next)
    (running : next.state = .running) (asked : next.asked = []) (pictures : later.Pictures next.stack)
    (same : later.waits = run.waits) (fault : later.fault = none) :
    Mirrors w doc later waits next where
  live := by
    rcases h.live.after_transition h.running rule with ⟨live, _⟩ | ended
    · exact live
    · simp [ended.state] at running
  running := running
  asked := asked
  document := (Coroutine.kin_of_transition rule).document.trans h.document
  limit := (Coroutine.kin_of_transition rule).limit.trans h.limit
  pictures := pictures
  waits := same.trans h.waits
  fault := fault

theorem Mirrors.ends (h : Mirrors w doc run waits co) (rule : Transition env co next)
    (ends : Ends env policy goal waits next) : Ends env policy goal waits co :=
  .step h.running h.asked (Coroutine.step_of_transition rule) ends

theorem Mirrors.advance (h : Mirrors w doc run waits co) (rule : Transition env co next)
    (running : next.state = .running) (asked : next.asked = []) (pictures : later.Pictures next.stack)
    (same : later.waits = run.waits) (fault : later.fault = run.fault)
    (then_ : Mirrors w doc later waits next → Ends env policy goal waits next) :
    Ends env policy goal waits co :=
  h.ends rule (then_ (h.along rule running asked pictures same (fault.trans h.fault)))

end Course

def commits (kind : ElementKind) (state : ContextState) : Option (Option String × Value) :=
  match kind, state with
  | .request, .request bindAs (some value) => some (bindAs, value)
  | _, _ => none

structure Opening (w : World) (doc : Document) (opened : Opened) (f : Frame) (outer : List Frame)
    (waits : List Wait) (co : Coroutine) : Prop where
  mirrors : Mirrors w doc opened.run waits co
  due : ∃ g state, co.Due (if opened.visits then .selectChild else .onPopping) g outer
    ⟨doc.children f.position, state⟩ ∧ g.kind = f.kind ∧ commits f.kind state = opened.commits

section SetUp

variable {env : Environment} {goal : Run} {waits : List Wait} {co next : Coroutine}
  {w : World} {doc : Document} {run : Run} {f g : Frame} {outer : List Frame} {el : Element}

theorem Run.Pictures.equip (h : run.Pictures co.stack) (frames : co.stack.frames = f :: outer)
    (scope : g.scope = f.scope) (symbols : g.symbols = f.symbols) (content : g.content = f.content) :
    run.Pictures (co.equip g outer).stack :=
  (h.keep frames scope symbols content).congr (fun _ _ => rfl) rfl rfl rfl rfl

theorem Mirrors.opens {opened : Opened} {state : ContextState} (h : Mirrors w doc run waits co)
    (rule : Transition env co next) (running : next.state = .running) (asked : next.asked = [])
    (pictures : opened.run.Pictures next.stack) (same : opened.run.waits = run.waits)
    (fault : opened.run.fault = run.fault) (frames : next.stack.frames = g :: outer)
    (due : g.next = if opened.visits then .selectChild else .onPopping)
    (context : g.context = some ⟨co.stack.document.children f.position, state⟩)
    (kind : g.kind = f.kind)
    (committed : commits f.kind state = opened.commits)
    (then_ : ∀ next, Opening w doc opened f outer waits next → Ends env w.policy goal waits next) :
    Ends env w.policy goal waits co := by
  rw [h.document] at context
  refine h.advance rule running asked pictures same fault fun mirrors => then_ next ?_
  exact ⟨mirrors, g, state, ⟨frames, due, context⟩, kind, committed⟩

theorem Mirrors.fails {kind : ElementKind} {e : Exception} (h : Mirrors w doc run waits co)
    (entering : co.Entering kind f outer el)
    (failed : co.SetUpFails env f outer el kind e [])
    (then_ : ∀ next, Opening w doc { run := run.raise (e.atElement el) } f outer waits next →
      Ends env w.policy goal waits next) : Ends env w.policy goal waits co := by
  have kept := h.pictures.equip (g := { co.covering f kind.blank with next := .selectChild })
    entering.frames rfl rfl rfl
  have nothing : commits f.kind kind.blank = none := by
    cases kind <;> simp [commits, entering.kind, ElementKind.blank]
  exact h.opens (.fails entering failed) h.running rfl (kept.raise (e.atElement el) .setUp) rfl rfl
    rfl rfl rfl rfl nothing then_

theorem Mirrors.asks {kind : ElementKind} {state : ContextState} {due : NextStep} {wait : Wait}
    (h : Mirrors w doc run waits co) (entering : co.Entering kind f outer el)
    (asks : co.SetUpAsks env el kind state due wait [])
    (then_ : ∀ next, Mirrors w doc (run.ask wait.anonymous) (waits ++ [wait.anonymous]) next →
      next.Due due { co.covering f state with next := due } outer ⟨doc.children f.position, state⟩ →
      next.resume = some (w.policy.answer waits wait.anonymous) →
      Ends env w.policy goal (waits ++ [wait.anonymous]) next) : Ends env w.policy goal waits co := by
  have live := h.live.of_asks entering asks
  have pending := (h.live.free entering.frames (.inl entering.next)).pending
  refine h.ends (.asks entering asks)
    (.wait (w := wait) rfl (by simp [Coroutine.onStack, pending]) ?_)
  have kept := h.pictures.equip (g := { co.covering f state with next := due }) entering.frames
    rfl rfl rfl
  refine then_ _ ?_ ⟨rfl, rfl, ?_⟩ rfl
  · exact {
      live := w.policy.live_resume waits wait live rfl
      running := rfl
      asked := rfl
      document := h.document
      limit := h.limit
      pictures := ⟨kept.levels, kept.owned, kept.flight, kept.result, kept.entered⟩
      waits := congrArg (· ++ [wait.anonymous]) h.waits
      fault := h.fault }
  · rw [← h.document]
    rfl

variable (suits : w.Suits env doc)
include suits

theorem Mirrors.valueOf_eq (h : Mirrors w doc run waits co) :
    env.valueOf co.stack = value (run.view w.globals) :=
  h.pictures.valueOf_eq (h.document ▸ suits)

theorem Mirrors.structural (h : Mirrors w doc run waits co)
    (entering : co.Entering .structural f outer el) (tag : ElementKind.ofTag el.tag = .structural)
    (then_ : ∀ waits next, Opening w doc (setUp w el run) f outer waits next →
      Ends env w.policy goal waits next) : Ends env w.policy goal waits co := by
  have same : env.valueOf (co.equip (co.covering f .structural) outer).stack =
      value (run.view w.globals) :=
    (h.pictures.equip (g := co.covering f .structural) entering.frames rfl rfl rfl).valueOf_eq
      (h.document ▸ suits)
  have eval : (Structural.attributes (env.valueOf (co.equip (co.covering f .structural) outer).stack)
      el.attributes []).run.run co.asked =
      (evaluate (Structural.attributes (value (run.view w.globals)) el.attributes []), []) := by
    rw [same, h.asked]
    exact silent_structural (silent_value _) el.attributes [] []
  simp only [setUp, tag] at then_
  cases result : evaluate (Structural.attributes (value (run.view w.globals)) el.attributes []) with
  | ok values =>
    simp only [result] at then_ eval
    have kept := h.pictures.equip
      (g := { co.covering f .structural with attributes := values, next := .selectChild })
      entering.frames rfl rfl rfl
    have nothing : commits f.kind .structural = none := by simp [commits, entering.kind]
    exact h.opens (.opens entering eval) h.running rfl kept rfl rfl rfl rfl rfl rfl nothing
      (then_ waits)
  | error e =>
    simp only [result] at then_ eval
    exact h.fails entering (.structural eval) (then_ waits)

theorem Mirrors.catcher (h : Mirrors w doc run waits co)
    (entering : co.Entering .catcher f outer el) (tag : ElementKind.ofTag el.tag = .catcher)
    (then_ : ∀ waits next, Opening w doc (setUp w el run) f outer waits next →
      Ends env w.policy goal waits next) : Ends env w.policy goal waits co := by
  have flight := h.pictures.flight
  have nothing (caught : Option Exception) : commits f.kind (.catcher caught) = none := by
    simp [commits, entering.kind]
  simp only [setUp, tag] at then_
  cases flying : run.flight with
  | none =>
    simp only [flying] at then_ flight
    have kept := h.pictures.equip (g := { co.covering f (.catcher none) with next := .onPopping })
      entering.frames rfl rfl rfl
    exact h.opens (.idles entering flight) h.running h.asked kept rfl rfl rfl rfl rfl rfl
      (nothing none) (then_ waits)
  | some e =>
    simp only [flying] at then_ flight
    have calm : ({ run with flight := none } : Run).Pictures co.cleared.stack :=
      ⟨h.pictures.levels, h.pictures.owned, rfl, h.pictures.result, h.pictures.entered⟩
    have same : env.valueOf co.cleared.stack = value (run.view w.globals) :=
      calm.valueOf_eq (h.document ▸ suits)
    have eval : (Catcher.filter (env.valueOf co.cleared.stack) el.attributes none).run.run co.asked =
        (evaluate (Catcher.filter (value (run.view w.globals)) el.attributes none), []) := by
      rw [same, h.asked]
      exact silent_filter (silent_value _) el.attributes none []
    have passed := calm.equip (g := { co.covering f (.catcher none) with next := .onPopping })
      entering.frames rfl rfl rfl
    cases result : evaluate (Catcher.filter (value (run.view w.globals)) el.attributes none) with
    | error own =>
      simp only [result] at then_ eval
      have raised := passed.raise ((Catcher.failure own e).atElement el) (.handling e)
      exact h.opens (.fumbles entering flight eval) h.running rfl raised rfl rfl rfl rfl rfl rfl
        (nothing none) (then_ waits)
    | ok filter =>
      simp only [result] at then_ eval
      cases accepted : filterAccepts filter e.category with
      | true =>
        simp only [accepted, if_true] at then_
        have caught := calm.setQuestion (g := { (co.covering f (.catcher (some e))).setSymbol .question
          e.toValue with next := .selectChild }) entering.frames e.toValue rfl rfl rfl
        refine h.opens (.catches entering flight eval accepted) h.running rfl ?_
          (Run.waits_setQuestion ..) (Run.fault_setQuestion ..) rfl rfl rfl rfl (nothing (some e))
          (then_ waits)
        exact caught.congr (fun _ _ => rfl) rfl rfl rfl rfl
      | false =>
        simp only [accepted, Bool.false_eq_true, if_false] at then_
        have again : ({ run with flight := none } : Run).raise e = run := by
          simp only [Run.raise, ← flying]
        have raised := passed.raise e .missed
        rw [again] at raised
        exact h.opens (.misses entering flight eval accepted) h.running rfl raised rfl rfl rfl rfl
          rfl rfl (nothing none) (then_ waits)

theorem Mirrors.sleep (h : Mirrors w doc run waits co)
    (entering : co.Entering .sleep f outer el) (tag : ElementKind.ofTag el.tag = .sleep)
    (then_ : ∀ waits next, Opening w doc (setUp w el run) f outer waits next →
      Ends env w.policy goal waits next) : Ends env w.policy goal waits co := by
  have eval : (Sleep.setup (env.valueOf co.stack) el).run.run co.asked =
      (evaluate (Sleep.setup (value (run.view w.globals)) el), []) := by
    rw [h.valueOf_eq suits, h.asked]
    exact silent_sleep (silent_value _) el []
  simp only [setUp, tag] at then_
  cases result : evaluate (Sleep.setup (value (run.view w.globals)) el) with
  | error e =>
    simp only [result] at then_ eval
    exact h.fails entering (.sleep eval) (then_ waits)
  | ok d =>
    simp only [result] at then_ eval
    refine h.asks entering (.sleep eval) fun next mirrors due resume => ?_
    have nothing : commits f.kind (.sleep d) = none := by simp [commits, entering.kind]
    have context := due.context
    rw [← mirrors.document] at context
    have kept := mirrors.pictures.keep (g := { co.covering f (.sleep d) with next := .selectChild })
      due.frames rfl rfl rfl
    cases answer : w.policy.timer run.waits d with
    | ok _ =>
      simp only [answer, await] at then_
      have answered : w.policy.answer waits (Wait.timer d).anonymous = .timer := by
        simp only [Wait.anonymous, Policy.answer, ← h.waits, answer]
      refine mirrors.opens (.wakes due entering.kind (by rw [resume, answered])) mirrors.running
        mirrors.asked ?_ rfl rfl rfl rfl context rfl nothing (then_ _)
      exact kept.congr (fun _ _ => rfl) rfl rfl rfl rfl
    | error e =>
      simp only [answer, await, id] at then_
      have answered : w.policy.answer waits (Wait.timer d).anonymous = .failed e := by
        simp only [Wait.anonymous, Policy.answer, ← h.waits, answer]
      have element : next.stack.document.element? f.position = some el := by
        rw [mirrors.document, ← h.document]
        exact entering.element
      refine mirrors.opens (.breaks due entering.kind element (by rw [resume, answered]) .sleep)
        mirrors.running mirrors.asked ?_ rfl rfl rfl rfl context rfl nothing (then_ _)
      exact (kept.raise e .wait).congr (fun _ _ => rfl) rfl rfl rfl rfl

theorem Mirrors.request (h : Mirrors w doc run waits co)
    (entering : co.Entering .request f outer el) (tag : ElementKind.ofTag el.tag = .request)
    (then_ : ∀ waits next, Opening w doc (setUp w el run) f outer waits next →
      Ends env w.policy goal waits next) : Ends env w.policy goal waits co := by
  let id := Requester.requestId co
  have eval : (Requester.setup (env.valueOf co.stack) id env.target el).run.run co.asked =
      ((evaluate (Requester.setup (value (run.view w.globals)) (Uuid.ofNat 0) w.target el)).map
        (withId id), []) := by
    rw [h.valueOf_eq suits, h.asked, suits.target, ← evaluate_withId]
    exact silent_request (silent_value _) id w.target el []
  simp only [setUp, tag] at then_
  cases result : evaluate (Requester.setup (value (run.view w.globals)) (Uuid.ofNat 0) w.target el)
    with
  | error e =>
    simp only [result] at then_ eval
    exact h.fails entering (.request eval) (then_ waits)
  | ok described =>
    obtain ⟨request, bindAs⟩ := described
    simp only [result] at then_ eval
    have anonymous : (Wait.renderer { request with id }).anonymous = .renderer request :=
      anonymous_of_evaluate id w.target result
    have asks : co.SetUpAsks env el .request (.request bindAs none) Requester.awaiting
        (.renderer { request with id }) [] := .request eval
    refine h.asks entering asks fun next mirrors due resume => ?_
    rw [anonymous] at mirrors resume ⊢
    have nothing : commits f.kind (.request bindAs none) = none := by simp [commits]
    have context := due.context
    rw [← mirrors.document] at context
    have element : next.stack.document.element? f.position = some el := by
      rw [mirrors.document, ← h.document]
      exact entering.element
    have kept := mirrors.pictures.keep
      (g := { co.covering f (.request bindAs none) with next := .selectChild }) due.frames rfl rfl rfl
    cases answer : w.policy.renderer run.waits request with
    | error e =>
      simp only [answer, await] at then_
      have answered : w.policy.answer waits (.renderer request) = .failed e := by
        simp only [Policy.answer, ← h.waits, answer]
      refine mirrors.opens (.breaks due entering.kind element (by rw [resume, answered]) .request)
        mirrors.running mirrors.asked ?_ rfl rfl rfl rfl context rfl nothing (then_ _)
      exact (kept.raise (e.atElement el) .wait).congr (fun _ _ => rfl) rfl rfl rfl rfl
    | ok response =>
      simp only [answer, await, respond] at then_
      have answered : w.policy.answer waits (.renderer request) = .renderer response := by
        simp only [Policy.answer, ← h.waits, answer]
      cases ok : response.isOk with
      | false =>
        simp only [ok, Bool.false_eq_true, if_false] at then_
        refine mirrors.opens (.breaks due entering.kind element (by rw [resume, answered])
          (.refused ok)) mirrors.running mirrors.asked ?_ rfl rfl rfl rfl context rfl nothing
          (then_ _)
        exact (kept.raise _ .wait).congr (fun _ _ => rfl) rfl rfl rfl rfl
      | true =>
        simp only [ok, if_true] at then_
        have question := mirrors.pictures.setQuestion
          (g := {
            (co.covering f (.request bindAs none)).setSymbol .question response.payload.toValue with
            context := some ⟨doc.children f.position,
              .request bindAs (some response.payload.toValue)⟩
            next := .selectChild }) due.frames response.payload.toValue rfl rfl rfl
        have something : commits f.kind (.request bindAs (some response.payload.toValue)) =
            some (bindAs, response.payload.toValue) := by simp [commits, entering.kind]
        refine mirrors.opens (f := f) (.responds due entering.kind (by rw [resume, answered]) ok
          ⟨el, element⟩) mirrors.running mirrors.asked ?_ (Run.waits_setQuestion ..)
          (Run.fault_setQuestion ..) rfl rfl (by rw [mirrors.document]) rfl something (then_ _)
        exact question.congr (fun _ _ => rfl) rfl rfl rfl rfl

theorem Mirrors.setUp (h : Mirrors w doc run waits co)
    (entering : co.Entering (ElementKind.ofTag el.tag) f outer el)
    (then_ : ∀ waits next, Opening w doc (setUp w el run) f outer waits next →
      Ends env w.policy goal waits next) : Ends env w.policy goal waits co := by
  cases tag : ElementKind.ofTag el.tag with
  | structural => exact h.structural suits (tag ▸ entering) tag then_
  | catcher => exact h.catcher suits (tag ▸ entering) tag then_
  | sleep => exact h.sleep suits (tag ▸ entering) tag then_
  | request => exact h.request suits (tag ▸ entering) tag then_

end SetUp

end MarkupMachine.Walk
