import MarkupMachine.Proofs.Machine.Frames
import MarkupMachine.Proofs.Scheduler.Calls

/-! Stacks over whole runs of a scheduler: until it has ended, a coroutine stands on a path of
elements from the root element inward, and each of its frames knows what it has passed. -/

namespace MarkupMachine.Scheduler

theorem stacks_shaped (maxFrames sliceSteps : Nat) (evaluator : Evaluator) (calls : List Call)
    {co : Coroutine} (shows_ : ((empty maxFrames sliceSteps evaluator).afterAll calls).Shows co)
    (alive : co.state ≠ .terminated) : co.Shaped maxFrames := by
  have grants := grantsAll_true (empty maxFrames sliceSteps evaluator) calls
  have begun := Sound.empty (fun _ _ => True) maxFrames sliceSteps evaluator
  have sound := begun.afterAll grants
  have driven := sound.driven_of_shows shows_
  have limit : co.stack.limit = maxFrames :=
    (sound.limit_of_shows shows_).trans (begun.maxFrames_afterAll grants)
  exact limit ▸ (driven.live alive).shaped driven.consistent

def greeting : Tree :=
  .element { tag := "main" } [.content "Good ", .comment "by the hour", .content "morning",
    .element { tag := "sleep", attributes := [{
      name := "for", value := some (.literal (.text "1s")) }] } [],
    .content "!"]

theorem stacks_shaped_greeting : ∃ co,
    ((empty 2 8).afterAll [.spawn 0 greeting, .step]).Shows co ∧ co.state = .waiting ∧
      co.stack.frames.map (·.content) = [none, some "Good morning"] ∧ co.Shaped 2 := by
  have known : (((empty 2 8).afterAll [.spawn 0 greeting, .step]).coroutine? 1).any (fun co =>
      co.state == .waiting &&
        co.stack.frames.map (·.content) == [none, some "Good morning"]) = true := by
    decide +kernel
  obtain ⟨co, stored, known⟩ := (Option.any_eq_true _ _).mp known
  simp only [Bool.and_eq_true, beq_iff_eq] at known
  obtain ⟨waiting, contents⟩ := known
  have shows_ := Shows.stored stored
  exact ⟨co, shows_, waiting, contents,
    stacks_shaped 2 8 .standard [.spawn 0 greeting, .step] shows_ (by simp [waiting])⟩

end MarkupMachine.Scheduler
