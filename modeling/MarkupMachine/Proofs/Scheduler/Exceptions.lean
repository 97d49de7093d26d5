import MarkupMachine.Proofs.Machine.Flight
import MarkupMachine.Proofs.Scheduler.Calls

/-! Exceptions over whole runs of a scheduler: at every moment of a run, each coroutine keeps what
is in flight in it, and once it has ended, each exception that it raised has one fate. -/

namespace MarkupMachine

/-- A coroutine that neither overwrites nor loses an exception. -/
structure Coroutine.KeepsExceptions (co : Coroutine) : Prop where
  placed : co.state ≠ .terminated → co.stack.exception ≠ none → co.state ≠ .waiting ∧
    ∃ f, co.stack.top? = some f ∧ (f.kind = .catcher ∧ f.next = .afterPushed ∨
      f.next = .selectChild ∨ f.next = .onPopping)
  entered : ∀ kind id, .entered kind id true ∈ co.stack.journal → kind = .catcher
  empty : ∀ e cause slot, .raised e cause slot ∈ co.stack.journal → slot = none
  carried : ∀ env next e, co.state = .running → co.stack.exception = some e →
    co.step env = (next, none) → Carries env co next e
  settled : co.state ≠ .terminated → ∃ settled,
    Settles co.stack.journal co.stack.exception settled ∧
    raised co.stack.journal = co.stack.exception.toList ++ settled.map Prod.fst
  fates : co.state = .terminated → ∃ fates, co.Fates fates ∧
    raised co.stack.journal = fates.map Prod.fst ∧ ∀ other, co.Fates other → other = fates

theorem Coroutine.Driven.keepsExceptions {admits : Coroutine → Completion → Prop}
    {co : Coroutine} (driven : Driven admits co) : co.KeepsExceptions where
  placed alive flying := (driven.live alive).placed flying
  entered kind id mem := by
    obtain ⟨_, settles⟩ := driven.settles
    exact settles.catcher_of_entered mem
  empty e cause slot mem := by
    obtain ⟨_, settles⟩ := driven.settles
    exact settles.slot_eq_none mem
  carried env next e running flying step := by
    have live := driven.live (by simp [running])
    exact live.carries running flying (live.transition_of_step running step)
  settled alive := by
    obtain ⟨settled, settles⟩ := driven.settles
    rw [(driven.live alive).outcome] at settles
    exact ⟨settled, settles, settles.raised_eq⟩
  fates ended := by
    have ended := driven.live_or_ended.resolve_left fun live => live.state ended
    obtain ⟨fates, all⟩ := driven.exists_fates ended
    exact ⟨fates, all, all.raised_eq, fun _ => all.unique⟩

namespace Scheduler

/-- No exception is overwritten or lost, whatever the host calls and hands in. -/
theorem exceptions_kept (maxFrames sliceSteps : Nat) (evaluator : Evaluator) (calls : List Call)
    {co : Coroutine} (shows_ : ((empty maxFrames sliceSteps evaluator).afterAll calls).Shows co) :
    co.KeepsExceptions := by
  have sound := (Sound.empty (fun _ _ => True) maxFrames sliceSteps evaluator).afterAll
    (grantsAll_true (empty maxFrames sliceSteps evaluator) calls)
  exact (sound.driven_of_shows shows_).keepsExceptions

def mended : Tree :=
  .element { tag := "main" } [.element { tag := "sleep" } [], .element { tag := "catch" } []]

theorem exceptions_kept_mended : ∃ co,
    ((empty 2 16).afterAll [.spawn 0 mended, .step]).Shows co ∧ co.state = .terminated ∧
      co.KeepsExceptions := by
  have ended : (((empty 2 16).afterAll [.spawn 0 mended, .step]).coroutine? 1).any
      (·.state == .terminated) = true := by decide +kernel
  obtain ⟨co, stored, state⟩ := (Option.any_eq_true _ _).mp ended
  have shows_ := Shows.stored stored
  exact ⟨co, shows_, by simpa using state,
    exceptions_kept 2 16 .standard [.spawn 0 mended, .step] shows_⟩

end Scheduler
end MarkupMachine
