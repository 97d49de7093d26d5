import MarkupMachine.Proofs.Machine.Faults
import MarkupMachine.Proofs.Scheduler.Calls

/-! Faults over whole runs of a scheduler: a document that was made of a tree can be started, a step
fails in four ways only, and a coroutine whose program and host keep clear of them never ends by a
fault. -/

namespace MarkupMachine.Scheduler

structure FaultsKnown (maxFrames : Nat) (start : Scheduler) (calls : List Call) : Prop where
  spawns : ∀ number tree doc, Document.ofTree? number tree = some doc → 0 < maxFrames →
    ∃ id next, (start.afterAll calls).spawn doc = .ok (id, next)
  steps : ∀ env co fault, (start.afterAll calls).Shows co → co.state = .running →
    ((∃ next, co.step env = (next, some fault)) ↔ co.FailsWith maxFrames fault)
  harmless : ∀ id number tree root co message, start.GrantsAll (Coroutine.MatchesFor id) calls →
    (start.afterAll calls).Shows co → co.id = id →
    Document.ofTree? number tree = some co.stack.document → tree.rootElement? = some root →
    root.hasDocument = false → root.elementDepth ≤ maxFrames →
    co.outcome ≠ some (.fatal message)

theorem faults_known (maxFrames sliceSteps : Nat) (evaluator : Evaluator) (calls : List Call) :
    FaultsKnown maxFrames (empty maxFrames sliceSteps evaluator) calls := by
  have grants := grantsAll_true (empty maxFrames sliceSteps evaluator) calls
  have begun := Sound.empty (fun _ _ => True) maxFrames sliceSteps evaluator
  have sound := begun.afterAll grants
  have frames := begun.maxFrames_afterAll grants
  refine ⟨?_, ?_, ?_⟩
  · intro number tree doc made room
    obtain ⟨root, el, rooted, element⟩ := Document.Built.exists_root ⟨number, tree, made⟩
    rw [spawn_eq _ rooted element, if_neg (by rw [frames]; exact Nat.ne_of_gt room)]
    exact ⟨_, _, rfl⟩
  · intro env co fault shows_ running
    have live := (sound.driven_of_shows shows_).live (by simp [running])
    rw [live.step_fails_iff running, sound.limit_of_shows shows_, frames]
    rfl
  · intro id number tree root co message answered shows_ own made rooted plain room
    have begun := Sound.empty (Coroutine.MatchesFor id) maxFrames sliceSteps evaluator
    have matched := begun.afterAll answered
    refine (matched.driven_of_shows shows_).not_fatal own made rooted plain ?_ message
    rw [matched.limit_of_shows shows_, frames]
    exact room

def echo : Completion := .renderer { id := Uuid.ofNat 0, status := 200 }

def echoed : List Call := [.spawn 0 ping, .step, .deliver 1 echo, .step]

theorem faults_known_echoed : ∃ co, (empty 1 8).GrantsAll (Coroutine.MatchesFor 1) echoed ∧
    ((empty 1 8).afterAll echoed).Shows co ∧ co.state = .terminated ∧
    Document.ofTree? 0 ping = some co.stack.document ∧
    ∀ message, co.outcome ≠ some (.fatal message) := by
  have asked : (((empty 1 8).afterAll [.spawn 0 ping, .step]).coroutine? 1).all
      (fun co => co.awaited?.all fun w => decide (w.Accepts echo)) = true := by decide +kernel
  have ended : (((empty 1 8).afterAll echoed).coroutine? 1).any
      (·.state == .terminated) = true := by decide +kernel
  have document : (((empty 1 8).afterAll echoed).coroutine? 1).map (·.stack.document) =
      Document.ofTree? 0 ping := rfl
  have answered : (empty 1 8).GrantsAll (Coroutine.MatchesFor 1) echoed := by
    refine ⟨trivial, trivial, ?_, trivial, trivial⟩
    intro co stored _ _ w awaited
    simp only [afterAll, List.foldl] at asked
    rw [stored] at asked
    simp only [Option.all_some, awaited] at asked
    exact of_decide_eq_true asked
  obtain ⟨co, stored, state⟩ := (Option.any_eq_true _ _).mp ended
  rw [stored] at document
  have sound := (Sound.empty (fun _ _ => True) 1 8 .standard).afterAll (grantsAll_true _ echoed)
  have known := faults_known 1 8 .standard echoed
  refine ⟨co, answered, .stored stored, by simpa using state, document.symm, fun message => ?_⟩
  exact known.harmless 1 0 ping ping co message answered (.stored stored) (sound.own stored)
    document.symm rfl rfl (by decide)

end MarkupMachine.Scheduler
