import MarkupMachine.Proofs.Machine.Driven

/-! Waits as one coroutine sees them: the completion that an element takes is the one that answered
the wait it had just asked for, and a coroutine that stopped to wait asks for one thing. -/

namespace MarkupMachine

/-- Each completion that was taken came for the wait that the same frame asked for last. -/
def Paired (journal : List Event) : Prop :=
  ∀ later p c earlier, journal = later ++ .consumed p c :: earlier →
    ∃ w rest, earlier = .resumed c :: .suspended p w :: rest

theorem Paired.cons {event : Event} {journal : List Event} (paired : Paired journal)
    (h : ∀ p c, event = .consumed p c →
      ∃ w rest, journal = .resumed c :: .suspended p w :: rest) : Paired (event :: journal) := by
  intro later p c earlier same
  cases later with
  | nil =>
    simp only [List.nil_append, List.cons.injEq] at same
    exact same.2 ▸ h p c same.1
  | cons first later =>
    simp only [List.cons_append, List.cons.injEq] at same
    exact paired later p c earlier same.2

theorem Paired.exits {events journal : List Event} (all : ∀ event ∈ events, event.Exits)
    (paired : Paired journal) : Paired (events ++ journal) := by
  induction events with
  | nil => exact paired
  | cons event events ih =>
    refine (ih fun other mem => all other (by simp [mem])).cons fun p c same => ?_
    have exits := all event (by simp)
    subst same
    cases exits

namespace Coroutine

variable {env : Environment} {co next : Coroutine} {f : Frame} {outer : List Frame}

theorem Live.paired_consumed {due : NextStep} {context : Context} {c : Completion}
    (live : co.Live) (running : co.state = .running) (at_ : Due co due f outer context)
    (waiting : due = .rerun ∨ ∃ state, due = .custom state) (resume : co.resume = some c)
    (paired : Paired co.stack.journal) :
    Paired (.consumed (some f.position) c :: co.stack.journal) := by
  obtain ⟨w, d, _, answered⟩ := (live.at at_.frames).2.resume_eq running (at_.next ▸ waiting)
  cases Option.some.inj (answered.resume.symm.trans resume)
  obtain ⟨earlier, journal⟩ := answered.journal
  refine paired.cons fun p c same => ?_
  cases same
  exact ⟨w, earlier, journal⟩

theorem Live.paired_of_transition (live : co.Live) (running : co.state = .running)
    (paired : Paired co.stack.journal) (rule : Transition env co next) :
    Paired next.stack.journal := by
  cases rule with
  | opens | idles | exhausts => exact paired
  | fails | asks | catches | misses | fumbles | enters =>
    exact paired.cons fun _ _ same => by cases same
  | wakes due kind resume => exact live.paired_consumed running due (.inl rfl) resume paired
  | responds due kind resume =>
    exact live.paired_consumed running due (.inr ⟨_, rfl⟩) resume paired
  | breaks due kind element resume broken =>
    exact (live.paired_consumed running due broken.due resume paired).cons fun _ _ same => by
      cases same
  | @leaves f p outer _ due =>
    have unwound := unwound_of_left co f (p :: outer) (co.receive f p :: outer) co.stack.result
    obtain ⟨exits, journal, all⟩ := unwound.journal
    have kept := paired.exits all
    rwa [← journal] at kept
  | @completes f _ due =>
    have unwound := unwound_of_left co f [] [] (co.resultAfter f)
    obtain ⟨exits, journal, all⟩ := unwound.journal
    have kept := paired.exits all
    rw [← journal] at kept
    rw [journal_complete]
    exact kept

theorem Live.paired_of_fails {fault : Fault} (live : co.Live) (running : co.state = .running)
    (paired : Paired co.stack.journal) (rule : co.Fails fault next) :
    Paired next.stack.journal := by
  cases rule with
  | overflow | misplaced => exact paired
  | displayed due kind resume => exact live.paired_consumed running due (.inl rfl) resume paired
  | timed due kind _ resume =>
    exact live.paired_consumed running due (.inr ⟨_, rfl⟩) resume paired

theorem paired_terminate (outcome : Outcome) (paired : Paired co.stack.journal) :
    Paired (co.terminate outcome).stack.journal := by
  obtain ⟨exits, journal, all⟩ := (unwound_terminate outcome co).journal
  rw [journal]
  exact paired.exits all

theorem Driven.paired {admits : Coroutine → Completion → Prop} (driven : Driven admits co) :
    Paired co.stack.journal := by
  refine driven.keeps (P := fun _ stack _ => Paired stack.journal) ?_ ?_ ?_ ?_ ?_
  · intro limit id doc root el room built rooted element later p c earlier same
    rcases later with _ | ⟨_, _ | _⟩ <;> cases same
  · exact fun live running paired rule => live.paired_of_transition running paired rule
  · exact fun live running paired rule =>
      paired_terminate _ (live.paired_of_fails running paired rule)
  · exact fun _ _ _ paired => paired.cons fun _ _ same => by cases same
  · exact fun _ paired => paired_terminate _ paired

theorem Live.resume_isSome_iff (live : co.Live) (still : co.state ≠ .running) :
    co.resume.isSome = true ↔ co.state = .ready ∧
      ∃ f, co.stack.top? = some f ∧ (f.next = .rerun ∨ ∃ state, f.next = .custom state) := by
  obtain ⟨f, outer, frames, _, standing⟩ := live.standing
  have top : co.stack.top? = some f := by simp [Stack.top?, frames]
  have ready (h : co.state ≠ .waiting) : co.state = .ready := by
    have alive := live.state
    cases state : co.state <;> simp [state] at h still alive ⊢
  simp only [top, Option.some.injEq, exists_eq_left']
  cases standing with
  | suspended _ suspended => simp [suspended.resume, suspended.state]
  | answered awaits answered =>
    have due : f.next = .rerun ∨ ∃ state, f.next = .custom state := by
      cases awaits with
      | sleep _ next => exact .inl next
      | request _ next => exact .inr ⟨_, next⟩
    simp [answered.resume, ready answered.state, due]
  | entering next _ free | visiting next _ free | leaving next _ free =>
    simp [free.resume, next]

theorem Live.waits_eq (live : co.Live) :
    co.waits = if co.state = .waiting then 1 else 0 := by
  obtain ⟨f, outer, frames, _, standing⟩ := live.standing
  cases standing with
  | suspended _ suspended => rw [suspended.waits, if_pos suspended.state]
  | answered _ answered => rw [answered.waits, if_neg answered.state]
  | entering _ _ free | visiting _ _ free | leaving _ _ free => rw [free.waits, if_neg free.state]

theorem Live.answered (live : co.Live) (running : co.state = .running)
    (top : co.stack.top? = some f) (due : f.next = .rerun ∨ ∃ state, f.next = .custom state) :
    ∃ w c earlier, f.Awaits w ∧ co.resume = some c ∧
      co.stack.journal = .resumed c :: .suspended (some f.position) w :: earlier := by
  obtain ⟨g, outer, frames, _, standing⟩ := live.standing
  have same : g = f := by simpa [Stack.top?, frames] using top
  subst same
  obtain ⟨w, c, awaits, answered⟩ := standing.resume_eq running due
  obtain ⟨earlier, journal⟩ := answered.journal
  exact ⟨w, c, earlier, awaits, answered.resume, journal⟩

theorem Fails.ne_unanswered {fault : Fault} (rule : co.Fails fault next) (kind : String) :
    fault ≠ .structural kind "resumed without a completion" := by
  cases rule <;> simp

theorem Live.pending_of_transition (live : co.Live) (running : co.state = .running)
    (rule : Transition env co next) (waiting : next.state = .waiting) :
    next.pending = next.awaited?.toList := by
  cases rule with
  | asks entering asks =>
    have free := live.free entering.frames (.inl entering.next)
    simp [onStack, free.pending, awaited?, Stack.note]
  | completes =>
    rw [(ended_complete rfl).state] at waiting
    cases waiting
  | _ => exact absurd (running.symm.trans waiting) (by simp)

end Coroutine
end MarkupMachine
