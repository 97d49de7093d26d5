import MarkupMachine.Proofs.Machine.Accounts
import MarkupMachine.Proofs.Scheduler.Lifecycle

/-! Counts over whole runs of a scheduler: at every moment they agree with the frames, and a
coroutine that has ended, in whatever way, has popped all its frames and released all its contexts.
-/

namespace MarkupMachine.Scheduler

/-- What the counts of stacks come to: under any operations on the frames of one, over all runs of
a scheduler, and when a coroutine is ended from outside. -/
theorem counts_agree :
    (∀ doc limit operations, ((Stack.fresh doc limit).performAll operations).Accounted ∧
      ((Stack.fresh doc limit).performAll operations).depth ≤ limit ∧
      (∀ before, before <+: operations → ((Stack.fresh doc limit).performAll before).depth ≤
        ((Stack.fresh doc limit).performAll operations).stats.peakFrames) ∧
      ∃ before, before <+: operations ∧ ((Stack.fresh doc limit).performAll before).depth =
        ((Stack.fresh doc limit).performAll operations).stats.peakFrames) ∧
    (∀ maxFrames sliceSteps evaluator calls,
      (∀ co, ((empty maxFrames sliceSteps evaluator).afterAll calls).Shows co →
        co.stack.Accounted ∧ co.stack.limit = maxFrames ∧
        (co.state = .terminated → co.stack.stats.Closed)) ∧
      ∀ f ∈ ((empty maxFrames sliceSteps evaluator).afterAll calls).reap.1, f.stats.Closed) ∧
    ∀ outcome co, Coroutine.TornDown outcome co (co.terminate outcome) := by
  refine ⟨fun doc limit operations => ?_, fun maxFrames sliceSteps evaluator calls => ?_,
    Coroutine.tornDown_terminate⟩
  · have begun := Stack.Accounted.fresh doc limit
    have accounted := begun.performAll operations
    obtain ⟨_, greatest, reached⟩ := begun.peak_performAll operations
    have depth := Nat.le_trans accounted.peak accounted.limit
    rw [Stack.limit_performAll] at depth
    refine ⟨accounted, depth, greatest, ?_⟩
    rcases reached with none | reached
    · exact ⟨[], List.nil_prefix, none.symm⟩
    · exact reached
  · have grants := grantsAll_true (empty maxFrames sliceSteps evaluator) calls
    have begun := Sound.empty (fun _ _ => True) maxFrames sliceSteps evaluator
    have sound := begun.afterAll grants
    have closed {co : Coroutine} (driven : co.Driven fun _ _ => True)
        (state : co.state = .terminated) : co.stack.stats.Closed := by
      have ended := driven.live_or_ended.resolve_left fun live => live.state state
      exact driven.accounted.closed ended.frames
    refine ⟨fun co shows_ => ?_, fun f mem => ?_⟩
    · have driven := sound.driven_of_shows shows_
      exact ⟨driven.accounted,
        (sound.limit_of_shows shows_).trans (begun.maxFrames_afterAll grants), closed driven⟩
    · obtain ⟨co, stored, ended, rfl⟩ := (mem_reap_iff sound f).mp mem
      exact closed (sound.driven stored) (by simpa [Coroutine.isTerminated] using ended)

/-- A program that is cancelled while it waits for its response. -/
theorem counts_agree_cancelled : ∃ co,
    ((empty 1 8).afterAll [.spawn 0 ping, .step, .cancel 1]).Shows co ∧ co.state = .terminated ∧
      co.stack.stats = ⟨1, 1, 1, 1, 1⟩ ∧ co.stack.stats.Closed := by
  have known : (((empty 1 8).afterAll [.spawn 0 ping, .step, .cancel 1]).coroutine? 1).any (fun co =>
      co.state == .terminated && co.stack.stats == ⟨1, 1, 1, 1, 1⟩) = true := by decide +kernel
  obtain ⟨co, stored, known⟩ := (Option.any_eq_true _ _).mp known
  simp only [Bool.and_eq_true, beq_iff_eq] at known
  obtain ⟨state, stats⟩ := known
  have shows_ := Shows.stored stored
  obtain ⟨_, _, closed⟩ :=
    (counts_agree.2.1 1 8 .standard [.spawn 0 ping, .step, .cancel 1]).1 co shows_
  exact ⟨co, shows_, state, stats, closed state⟩

end MarkupMachine.Scheduler
