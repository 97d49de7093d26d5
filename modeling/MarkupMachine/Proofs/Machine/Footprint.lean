import MarkupMachine.Proofs.Machine.Entrance
import MarkupMachine.Proofs.Machine.Order

/-! What a step consults. The evaluator, the globals and the handle of a scheduler matter to a step
for the set-up of an element only, and then only by what they make of one stack. -/

namespace MarkupMachine

/-- Environments that are the same to whoever evaluates on a stack. -/
structure Environment.Agrees (env env' : Environment) (stack : Stack) : Prop where
  target : env.target = env'.target
  evaluate : ∀ x, env.evaluator.evaluate (env.scope stack) x =
    env'.evaluator.evaluate (env'.scope stack) x
  asks : ∀ x, env.evaluator.asks x = env'.evaluator.asks x

theorem Environment.Agrees.valueOf_eq {env env' : Environment} {stack : Stack}
    (agrees : env.Agrees env' stack) : env.valueOf stack = env'.valueOf stack := by
  funext x
  cases x with
  | none => rfl
  | some x => simp only [valueOf, agrees.evaluate, agrees.asks]

namespace Coroutine

/-- The stack on which the innermost element is set up, if it is due for that. A catch has taken
the exception off by then. -/
def settingUp (co : Coroutine) : Stack :=
  match co.stack.frames with
  | [] => co.stack
  | f :: outer => if f.kind = .catcher then co.cleared.stack else co.evaluating f outer f.kind

variable {env env' : Environment} {co next : Coroutine} {kind : ElementKind} {f : Frame}
  {outer : List Frame} {el : Element}

theorem Entering.settingUp_eq (entering : Entering co kind f outer el) (other : kind ≠ .catcher) :
    co.settingUp = co.evaluating f outer kind := by
  rw [settingUp, entering.frames]
  simp [entering.kind, other]

theorem Entering.settingUp_catcher (entering : Entering co .catcher f outer el) :
    co.settingUp = co.cleared.stack := by
  rw [settingUp, entering.frames]
  simp [entering.kind]

theorem SetUpFails.congr {e : Exception} {asked : List String}
    (failed : SetUpFails env co f outer el kind e asked) (entering : Entering co kind f outer el)
    (agrees : env.Agrees env' co.settingUp) : SetUpFails env' co f outer el kind e asked := by
  have same := agrees.valueOf_eq
  cases failed with
  | structural eval =>
    rw [entering.settingUp_eq nofun] at same
    exact .structural (same ▸ eval)
  | sleep eval =>
    rw [entering.settingUp_eq nofun] at same
    exact .sleep (same ▸ eval)
  | request eval =>
    rw [entering.settingUp_eq nofun] at same
    exact .request (agrees.target ▸ same ▸ eval)

theorem SetUpAsks.congr {state : ContextState} {due : NextStep} {wait : Wait} {asked : List String}
    (asks : SetUpAsks env co el kind state due wait asked)
    (entering : Entering co kind f outer el) (agrees : env.Agrees env' co.settingUp) :
    SetUpAsks env' co el kind state due wait asked := by
  have same := agrees.valueOf_eq
  cases asks with
  | sleep eval =>
    rw [entering.settingUp_eq nofun] at same
    exact .sleep (same ▸ eval)
  | request eval =>
    rw [entering.settingUp_eq nofun] at same
    exact .request (agrees.target ▸ same ▸ eval)

theorem transition_congr (rule : Transition env co next)
    (agrees : ∀ f outer, co.stack.frames = f :: outer → f.next = .afterPushed →
      env.Agrees env' co.settingUp) : Transition env' co next := by
  have consulted {kind f outer el} (entering : Entering co kind f outer el) :
      env.Agrees env' co.settingUp := agrees f outer entering.frames entering.next
  have filtered {f outer el} (entering : Entering co .catcher f outer el) :
      env.valueOf co.cleared.stack = env'.valueOf co.cleared.stack :=
    entering.settingUp_catcher ▸ (consulted entering).valueOf_eq
  cases rule with
  | opens entering eval =>
    have same := (consulted entering).valueOf_eq
    rw [entering.settingUp_eq nofun] at same
    exact .opens entering (same ▸ eval)
  | fails entering failed => exact .fails entering (failed.congr entering (consulted entering))
  | asks entering asks => exact .asks entering (asks.congr entering (consulted entering))
  | idles entering calm => exact .idles entering calm
  | catches entering flying eval accepted =>
    exact .catches entering flying (filtered entering ▸ eval) accepted
  | misses entering flying eval refused =>
    exact .misses entering flying (filtered entering ▸ eval) refused
  | fumbles entering flying eval => exact .fumbles entering flying (filtered entering ▸ eval)
  | wakes due kind resume => exact .wakes due kind resume
  | responds due kind resume ok element => exact .responds due kind resume ok element
  | breaks due kind element resume broken => exact .breaks due kind element resume broken
  | exhausts due selected => exact .exhausts due selected
  | enters due selected room => exact .enters due selected room
  | leaves due => exact .leaves due
  | completes due => exact .completes due

/-- The environment matters to a step for the set-up of an element only. -/
theorem Live.step_congr (live : co.Live) (running : co.state = .running)
    (agrees : ∀ f outer, co.stack.frames = f :: outer → f.next = .afterPushed →
      env.Agrees env' co.settingUp) : co.step env = co.step env' := by
  rcases live.progress env running with ⟨next, rule⟩ | ⟨fault, next, rule⟩
  · rw [step_of_transition rule, step_of_transition (transition_congr rule agrees)]
  · rw [step_of_fails env rule, step_of_fails env' rule]

end Coroutine
end MarkupMachine
