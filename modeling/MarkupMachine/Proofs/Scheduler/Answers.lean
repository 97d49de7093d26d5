import MarkupMachine.Proofs.Machine.Answers
import MarkupMachine.Proofs.Scheduler.Calls

/-! Answers over whole runs of a scheduler: each request hands its answer over when it leaves, or
keeps it for good, and the value that a coroutine returns is what its root element was handed
last. -/

namespace MarkupMachine

/-- A coroutine that commits answers when it should, on its way through the document and on its way
out of it, and returns nothing else. -/
structure Coroutine.CommitsAnswers (co : Coroutine) : Prop where
  steps : ∀ env f outer, co.stack.frames = f :: outer → f.next = .onPopping → co.step env =
    (if outer.isEmpty then (co.popped f).complete else co.popped f, none)
  pops : ∀ at_ count f outer, Unwinds co at_ → (at_.unwind count).stack.frames = f :: outer →
    f.kind = .request → (at_.unwind count).Pops f outer
  shows_ : co.state ≠ .terminated → co.stack.result = .null ∧ ∀ f ∈ co.stack.frames,
    f.symbols .question = (co.stack.document.answer? f.position co.stack.journal).getD f.voice
  returned : ∀ value, co.outcome = some (.returned value) → ∃ root el,
    co.stack.document.rootElement? = some root ∧ co.stack.document.element? root = some el ∧
    co.stack.Returns value root (ElementKind.ofTag el.tag)

theorem Coroutine.Driven.commitsAnswers {admits : Coroutine → Completion → Prop} {co : Coroutine}
    (driven : Driven admits co) : co.CommitsAnswers where
  steps env f outer frames due := step_popped env frames due
  pops at_ count f outer from_ frames request :=
    pops_of_poised (driven.poised from_ count (by simp [frames])) frames request
  shows_ alive :=
    ⟨(driven.tells alive).result, fun f mem => ((driven.tells alive).voiced f mem).question⟩
  returned := driven.closes

namespace Scheduler

/-- Answers are committed when they should be and not otherwise, whatever the host calls and hands
in. -/
theorem answers_committed (maxFrames sliceSteps : Nat) (evaluator : Evaluator) (calls : List Call)
    {co : Coroutine} (shows_ : ((empty maxFrames sliceSteps evaluator).afterAll calls).Shows co) :
    co.CommitsAnswers := by
  have sound := (Sound.empty (fun _ _ => True) maxFrames sliceSteps evaluator).afterAll
    (grantsAll_true (empty maxFrames sliceSteps evaluator) calls)
  exact (sound.driven_of_shows shows_).commitsAnswers

def polls : Tree :=
  let request (operation : String) : Tree := .element {
    tag := "request"
    attributes := [{ name := "to", value := some (.literal (.text operation)) }] } []
  .element { tag := "main" } [request "first", .element { tag := "group" } [request "second"]]

def reply (text : String) : Call :=
  .deliver 1 (.renderer { id := Uuid.ofNat 0, status := 200, payload := .text text })

def polled : List Call :=
  [.spawn 0 polls, .step, reply "near", .step, reply "far", .step]

theorem answers_committed_polled : ∃ co, ((empty 4 16).afterAll polled).Shows co ∧
    co.state = .terminated ∧ co.stack.result.joined = "near" ∧ co.CommitsAnswers := by
  have known : (((empty 4 16).afterAll polled).coroutine? 1).any (fun co =>
      co.state == .terminated && co.stack.result.joined == "near") = true := by
    decide +kernel
  obtain ⟨co, stored, known⟩ := (Option.any_eq_true _ _).mp known
  simp only [Bool.and_eq_true, beq_iff_eq] at known
  have shows_ := Shows.stored stored
  exact ⟨co, shows_, known.1, known.2, answers_committed 4 16 .standard polled shows_⟩

end Scheduler
end MarkupMachine
