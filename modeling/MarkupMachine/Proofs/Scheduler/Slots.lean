import MarkupMachine.Proofs.Machine.Slots
import MarkupMachine.Proofs.Scheduler.Calls

/-! Slots over whole runs of a scheduler: what the `?` of a frame holds is told by what has
happened, and nothing else is ever in a slot. -/

namespace MarkupMachine.Scheduler

/-- Slots hold what they should, whatever the host calls and hands in, and however attributes are
evaluated. -/
theorem slots_known (maxFrames sliceSteps : Nat) (evaluator : Evaluator) (calls : List Call)
    {co : Coroutine} (shows_ : ((empty maxFrames sliceSteps evaluator).afterAll calls).Shows co) :
    co.KnowsSlots := by
  have sound := (Sound.empty (fun _ _ => True) maxFrames sliceSteps evaluator).afterAll
    (grantsAll_true (empty maxFrames sliceSteps evaluator) calls)
  exact (sound.driven_of_shows shows_).knowsSlots

def relays : Tree :=
  let operation : Attribute := { name := "to", value := some (.literal (.text "first")) }
  let heard : Attribute := { name := "heard", value := some (.symbol '?' 1) }
  .element { tag := "main" } [
    .element { tag := "request", attributes := [operation] } [],
    .element { tag := "group", attributes := [heard] } []]

/-- Turns of a single step each, up to the one that sets the element up. -/
def relayed : List Call :=
  let response : Response := { id := Uuid.ofNat 0, status := 200, payload := .text "near" }
  [.spawn 0 relays, .step, .step, .step, .deliver 1 (.renderer response),
    .step, .step, .step, .step]

theorem slots_known_relayed : ∃ co, ((empty 4 1).afterAll relayed).Shows co ∧
    co.stack.frames.map (·.next) = [.afterPushed, .selectChild] ∧
    (Evaluator.standard.evaluate ⟨co.settingUp, none⟩ (.symbol '?' 1)).toOption.map (·.joined) =
      some "near" ∧ co.KnowsSlots := by
  have known : (((empty 4 1).afterAll relayed).coroutine? 1).any (fun co =>
      co.stack.frames.map (·.next) == [.afterPushed, .selectChild] &&
      (Evaluator.standard.evaluate ⟨co.settingUp, none⟩ (.symbol '?' 1)).toOption.map (·.joined) ==
        some "near") = true := by
    decide +kernel
  obtain ⟨co, stored, known⟩ := (Option.any_eq_true _ _).mp known
  simp only [Bool.and_eq_true, beq_iff_eq] at known
  have shows_ := Shows.stored stored
  exact ⟨co, shows_, known.1, known.2, slots_known 4 1 .standard relayed shows_⟩

end MarkupMachine.Scheduler
