import MarkupMachine.Proofs.Machine.Driven
import MarkupMachine.Proofs.Tree.Shape

/-! When a step fails. There are four ways, two of them the program's own and two the host's; a
program without either, whose waits are answered in kind, does not end by a fault. -/

namespace MarkupMachine

def Wait.Accepts : Wait → Completion → Prop
  | .timer _, .renderer _ => False
  | .renderer _, .timer => False
  | _, _ => True

instance : (w : Wait) → (c : Completion) → Decidable (w.Accepts c)
  | .timer _, .renderer _ | .renderer _, .timer => isFalse id
  | .timer _, .timer | .timer _, .failed _ => isTrue trivial
  | .renderer _, .renderer _ | .renderer _, .failed _ => isTrue trivial

namespace Coroutine

/-- The ways in which a step fails, with as many frames allowed as the limit says. -/
inductive FailsWith (limit : Nat) (co : Coroutine) : Fault → Prop
  | overflow {f outer context id beyond el} : Due co .selectChild f outer context →
    co.stack.document.Reaches co.stack.exception.isSome context.rest id beyond →
    co.stack.document.Admits co.stack.exception.isSome id el → co.stack.depth = limit →
    FailsWith limit co (.stackOverflow limit)
  | misplaced {f outer context id beyond} : Due co .selectChild f outer context →
    co.stack.document.Reaches co.stack.exception.isSome context.rest id beyond →
    co.stack.document.kind? id = some .document →
    FailsWith limit co (.structural f.kind.name "document node found among children")
  | displayed {f outer context response} : Due co .rerun f outer context → f.kind = .sleep →
    co.resume = some (.renderer response) →
    FailsWith limit co (.structural ElementKind.sleep.name "resumed with a renderer response")
  | timed {f outer context state} : Due co (.custom state) f outer context → f.kind = .request →
    co.resume = some .timer →
    FailsWith limit co (.structural ElementKind.request.name "resumed by a timer")

variable {env : Environment} {co : Coroutine} {f : Frame} {outer : List Frame} {context : Context}

theorem Live.mem_children {id : NodeId} {beyond : List NodeId} (live : co.Live)
    (due : Due co .selectChild f outer context)
    (reached : co.stack.document.Reaches co.stack.exception.isSome context.rest id beyond) :
    id ∈ co.stack.document.children f.position := by
  obtain ⟨seen, children⟩ := live.fits_beyond due reached
  simp [children]

theorem Live.failsWith_of_fails {fault : Fault} {next : Coroutine} (live : co.Live)
    (rule : co.Fails fault next) : co.FailsWith co.stack.limit fault := by
  cases rule with
  | overflow due selected full =>
    obtain ⟨el, reached, admits, _⟩ := Document.exists_reaches_of_select_element selected
    exact .overflow due reached admits (Nat.le_antisymm live.depth full)
  | misplaced due selected =>
    obtain ⟨id, reached, blocks⟩ := Document.exists_reaches_of_select_misplaced selected
    obtain ⟨_, kind, node⟩ := live.built.of_mem_children (live.mem_children due reached)
    rcases blocks with document | nothing
    · exact .misplaced due reached document
    · simp [node] at nothing
  | displayed due kind resume => exact .displayed due kind resume
  | timed due kind _ resume => exact .timed due kind resume

theorem Live.fails_of_failsWith {fault : Fault} (live : co.Live)
    (fails : co.FailsWith co.stack.limit fault) : ∃ next, co.Fails fault next := by
  cases fails with
  | @overflow f _ _ _ _ _ due reached admits full =>
    obtain ⟨_, selected⟩ := reached.select_of_admits admits f.content
    exact ⟨_, .overflow due selected (Nat.le_of_eq full.symm)⟩
  | @misplaced f _ _ _ _ due reached document =>
    obtain ⟨_, selected⟩ := reached.select_of_blocks (.inl document) f.content
    exact ⟨_, .misplaced due selected⟩
  | displayed due kind resume => exact ⟨_, .displayed due kind resume⟩
  | timed due kind resume =>
    obtain ⟨el, element, _⟩ := (live.fits due.frames).element
    exact ⟨_, .timed due kind ⟨el, element⟩ resume⟩

theorem Live.step_fails_iff {fault : Fault} (live : co.Live) (running : co.state = .running) :
    (∃ next, co.step env = (next, some fault)) ↔ co.FailsWith co.stack.limit fault := by
  constructor
  · rintro ⟨next, step⟩
    exact live.failsWith_of_fails (live.fails_of_step running step)
  · intro fails
    obtain ⟨next, rule⟩ := live.fails_of_failsWith fails
    exact ⟨next, step_of_fails env rule⟩

section Harmless

variable {doc : Document} {parent : Option NodeId} {root : NodeId} {t : Tree}

theorem exists_tree_of_stacked (rooted : doc.rootElement? = some root)
    (held : doc.Holds parent root t) (plain : t.hasDocument = false)
    {f : Frame} {outer : List Frame} (stacked : Stacked doc (f :: outer)) :
    ∃ p u, doc.Holds p f.position u ∧ u.hasDocument = false ∧
      outer.length + u.elementDepth ≤ t.elementDepth := by
  induction outer generalizing f with
  | nil =>
    cases stacked with
    | root _ same =>
      rw [rooted] at same
      cases same
      exact ⟨parent, t, held, plain, by simp⟩
  | cons p outer ih =>
    obtain ⟨_, u, above, clear, bound⟩ := ih stacked.tail
    obtain ⟨_, seen, _, children⟩ := stacked.parent.context
    obtain ⟨_, v, mem, below⟩ := above.exists_of_mem_children (c := f.position) (by simp [children])
    obtain ⟨el, element, _⟩ := stacked.tail.fits.element
    rw [above.eq_element element] at clear bound
    simp only [Tree.hasDocument] at clear
    simp only [Tree.elementDepth] at bound
    have within := Tree.elementDepth_le_of_mem mem
    exact ⟨_, v, below, Tree.hasDocument_of_mem mem clear, by simp only [List.length_cons]; omega⟩

theorem Live.not_failsWith {fault : Fault} (live : co.Live)
    (rooted : co.stack.document.rootElement? = some root)
    (held : co.stack.document.Holds parent root t) (plain : t.hasDocument = false)
    (room : t.elementDepth ≤ co.stack.limit)
    (answered : ∀ f w c, f.Awaits w → co.Answered f w c → w.Accepts c)
    (running : co.state = .running) : ¬ co.FailsWith co.stack.limit fault := by
  intro fails
  have child {f outer context id beyond} (due : Due co .selectChild f outer context)
      (reached : co.stack.document.Reaches co.stack.exception.isSome context.rest id beyond) :
      ∃ p u, co.stack.document.Holds p id u ∧ u.hasDocument = false ∧
        outer.length + 1 + u.elementDepth ≤ t.elementDepth := by
    have stacked := (live.at due.frames).1
    obtain ⟨_, u, above, clear, bound⟩ := exists_tree_of_stacked rooted held plain stacked
    obtain ⟨_, v, mem, below⟩ := above.exists_of_mem_children (live.mem_children due reached)
    obtain ⟨el, element, _⟩ := stacked.fits.element
    rw [above.eq_element element] at clear bound
    simp only [Tree.hasDocument] at clear
    simp only [Tree.elementDepth] at bound
    have within := Tree.elementDepth_le_of_mem mem
    exact ⟨_, v, below, Tree.hasDocument_of_mem mem clear, by omega⟩
  cases fails with
  | overflow due reached admits full =>
    obtain ⟨_, u, below, _, bound⟩ := child due reached
    rw [below.eq_element admits.element?_eq] at bound
    simp only [Tree.elementDepth] at bound
    simp only [Stack.depth, due.frames, List.length_cons] at full
    omega
  | misplaced due reached document =>
    obtain ⟨_, u, below, clear, _⟩ := child due reached
    rw [below.kind?_eq] at document
    cases u <;> simp [Tree.kind, Tree.hasDocument] at document clear
  | displayed due kind resume =>
    obtain ⟨w, c, awaits, taken⟩ := (live.at due.frames).2.resume_eq running (.inl due.next)
    have accepts := answered _ w c awaits taken
    cases Option.some.inj (taken.resume.symm.trans resume)
    cases awaits with
    | sleep => exact accepts
    | request other => simp [kind] at other
  | timed due kind resume =>
    obtain ⟨w, c, awaits, taken⟩ := (live.at due.frames).2.resume_eq running
      (.inr ⟨_, due.next⟩)
    have accepts := answered _ w c awaits taken
    cases Option.some.inj (taken.resume.symm.trans resume)
    cases awaits with
    | sleep other => simp [kind] at other
    | request => exact accepts

end Harmless

def Answers (journal : List Event) : Prop :=
  ∀ c p w earlier, journal = .resumed c :: .suspended p w :: earlier → w.Accepts c

theorem answers_of_transition {next : Coroutine} (answers : Answers co.stack.journal)
    (rule : Transition env co next) : Answers next.stack.journal := by
  cases rule with
  | opens | idles | exhausts => exact answers
  | completes =>
    intro c p w earlier journal
    rw [journal_complete] at journal
    cases journal
  | _ => intro c p w earlier journal; cases journal

/-- The completions that go to one coroutine answer its waits in kind. -/
def MatchesFor (id : Nat) (co : Coroutine) (c : Completion) : Prop :=
  co.id = id → ∀ w, co.awaited? = some w → w.Accepts c

/-- A program that is not too deep and has no document node in it does not end by a fault, as long
as its waits are answered in kind. -/
theorem Driven.not_fatal {id number : Nat} {tree t : Tree} (driven : Driven (MatchesFor id) co)
    (own : co.id = id) (made : Document.ofTree? number tree = some co.stack.document)
    (rooted : tree.rootElement? = some t) (plain : t.hasDocument = false)
    (room : t.elementDepth ≤ co.stack.limit) (message : String) :
    co.outcome ≠ some (.fatal message) := by
  refine (driven.keeps (P := fun other stack outcome => other = id →
    (outcome = none → Answers stack.journal) ∧
    (Document.ofTree? number tree = some stack.document → t.elementDepth ≤ stack.limit →
      outcome ≠ some (.fatal message))) ?_ ?_ ?_ ?_ ?_ own).2 made room
  · intro limit other doc root el _ _ _ _ _
    refine ⟨fun _ c p w earlier journal => ?_, fun _ _ => by simp⟩
    cases journal
  · intro env co next live running kept rule own
    refine ⟨fun _ => answers_of_transition ((kept own).1 rfl) rule, fun _ _ => ?_⟩
    cases rule with
    | completes => exact outcome_complete_ne_fatal _ message
    | _ =>
      intro outcome
      cases live.outcome.symm.trans outcome
  · intro co next fault live running kept rule own
    refine ⟨fun h => absurd h (by simp), fun made room => ?_⟩
    have kin := (kin_of_fails rule).trans (unwound_terminate (.fatal fault.message) next).toKin
    rw [kin.document] at made
    rw [kin.limit] at room
    obtain ⟨root, _, begins, _⟩ := live.built.exists_root
    obtain ⟨_, u, same, held⟩ := Document.exists_holds_of_rootElement? made begins
    cases Option.some.inj (rooted.symm.trans same)
    refine absurd (live.failsWith_of_fails rule)
      (live.not_failsWith begins held plain room (fun f w c _ answered => ?_) running)
    obtain ⟨earlier, journal⟩ := answered.journal
    exact (kept own).1 rfl c _ w earlier journal
  · intro co c live waiting admitted kept own
    refine ⟨fun _ other p w earlier journal => ?_, fun _ _ => by simp⟩
    simp only [resumeWith, Stack.note, List.cons.injEq, Event.resumed.injEq] at journal
    obtain ⟨rfl, journal⟩ := journal
    exact admitted own w (by simp [awaited?, journal])
  · intro co live kept own
    exact ⟨fun h => absurd h (by simp), fun _ _ => by simp⟩

end Coroutine
end MarkupMachine
