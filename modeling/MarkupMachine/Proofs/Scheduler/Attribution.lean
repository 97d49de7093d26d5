import MarkupMachine.Proofs.Machine.Attribution
import MarkupMachine.Proofs.Scheduler.Standard

/-! Attribution over whole runs of a scheduler with the standard evaluator: what is in flight, or
ended a coroutine, came up in one element, and names it or what it named before; a failure of the
timer of a sleep may name nothing. -/

namespace MarkupMachine

/-- A coroutine that attributes its exceptions to elements, those of timers apart. -/
structure Coroutine.AttributesExceptions (co : Coroutine) : Prop where
  source : ∀ e, co.stack.flying co.outcome = some e →
    ∃ later cause slot earlier id around el,
      co.stack.journal = later ++ .raised e cause slot :: earlier ∧ raised later = [] ∧
      path earlier = id :: around ∧ co.stack.document.element? id = some el ∧
      Arises el id earlier cause e
  named : ∀ e, co.stack.flying co.outcome = some e → e.element? = none →
    ∃ later slot id el earlier, co.stack.journal =
        later ++ .raised e .wait slot :: .consumed (some id) (.failed e) :: earlier ∧
      co.stack.document.element? id = some el ∧ ElementKind.ofTag el.tag = .sleep
  innermost : co.state ≠ .terminated →
    path co.stack.journal = co.stack.frames.map (·.position)

theorem Coroutine.kept_traced : KeptUnder .standard Stack.Traced where
  spawned := traced_start
  stepped standard live rule h := live.traced_of_transition standard rule h
  failed rule h := traced_of_fails rule h
  resumed c live h := live.traced_resumeWith c h
  terminated outcome h := terminate_keeps Leaves.traced outcome h

theorem Coroutine.Driven.attributesExceptions {admits : Coroutine → Completion → Prop}
    {co : Coroutine} (driven : Driven admits co) (traced : co.stack.Traced) :
    co.AttributesExceptions where
  source e flying := driven.exists_source traced flying
  named e flying unnamed := by
    obtain ⟨later, cause, slot, earlier, id, _, el, journal, _, _, element, arises⟩ :=
      driven.exists_source traced flying
    rcases arises.named_or_slept with named | ⟨sleep, rfl, before, rfl⟩
    · exact absurd unnamed named
    · exact ⟨later, slot, id, el, before, journal, element, sleep⟩
  innermost _ := traced.path

namespace Scheduler

/-- Each exception names the element that raised it, or keeps the name it came with, whatever the
host calls and hands in; only what a timer failed with goes on as it is. -/
theorem exceptions_attributed (maxFrames sliceSteps : Nat) (calls : List Call) {co : Coroutine}
    (shows_ : ((empty maxFrames sliceSteps .standard).afterAll calls).Shows co) :
    co.AttributesExceptions := by
  have under := (Under.empty Stack.Traced maxFrames sliceSteps .standard).afterAll
    Coroutine.kept_traced calls
  exact (under.sound.driven_of_shows shows_).attributesExceptions
    (under.of_shows Coroutine.kept_traced shows_)

/-- What a host hands in for a renderer or a timer that failed. -/
def lost : Exception := .raised .timeout "lost"

theorem exceptions_attributed_pinged : ∃ co,
    ((empty 2 16).afterAll [.spawn 0 ping, .step, .deliver 1 (.failed lost), .step]).Shows co ∧
    (co.stack.flying co.outcome).bind (·.element?) = some "request" ∧
    co.AttributesExceptions := by
  have known : (((empty 2 16).afterAll
      [.spawn 0 ping, .step, .deliver 1 (.failed lost), .step]).coroutine? 1).any (fun co =>
        (co.stack.flying co.outcome).bind (·.element?) == some "request") = true := by
    decide +kernel
  obtain ⟨co, stored, known⟩ := (Option.any_eq_true _ _).mp known
  have shows_ := Shows.stored stored
  exact ⟨co, shows_, by simpa using known, exceptions_attributed 2 16 _ shows_⟩

def dozes : Tree :=
  .element {
    tag := "sleep"
    attributes := [{ name := "for", value := some (.literal (.text "1s")) }]
    position := some { line := 3, column := 5, offset := 40 } } []

/-- A timer that fails ends the coroutine by an exception that names no element. -/
theorem exceptions_attributed_dozes : ∃ co e,
    ((empty 2 16).afterAll [.spawn 0 dozes, .step, .deliver 1 (.failed lost), .step]).Shows co ∧
    co.outcome = some (.thrown e) ∧ e.element? = none := by
  have known : (((empty 2 16).afterAll
      [.spawn 0 dozes, .step, .deliver 1 (.failed lost), .step]).coroutine? 1).any (fun co =>
        co.stack.exception == none &&
          (co.stack.flying co.outcome).any (·.element? == none)) = true := by
    decide +kernel
  obtain ⟨co, stored, known⟩ := (Option.any_eq_true _ _).mp known
  rw [Bool.and_eq_true, beq_iff_eq] at known
  obtain ⟨e, flying, unnamed⟩ := (Option.any_eq_true _ _).mp known.2
  refine ⟨co, e, .stored stored, ?_, by simpa using unnamed⟩
  cases ended : co.outcome with
  | none => simp [ended, Stack.flying, known.1] at flying
  | some outcome =>
    cases outcome <;> simp_all [Stack.flying]

end Scheduler
end MarkupMachine
