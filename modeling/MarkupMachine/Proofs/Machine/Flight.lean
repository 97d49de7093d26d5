import MarkupMachine.Proofs.Machine.Driven

/-! Exceptions in flight. None is overwritten and none is lost: what a journal says was raised is
what it says was settled, together with what is still in flight. -/

namespace MarkupMachine

inductive Fate where
  | caught
  | replaced
  | thrown
  | discarded
  deriving DecidableEq, Repr

namespace Event

def Apart : Event → Prop
  | .raised .. | .caught _ | .entered .. => False
  | _ => True

theorem Exits.apart {event : Event} (h : event.Exits) : event.Apart := by
  cases h <;> trivial

/-- The exception that an entry brings up; one that is put back is none. -/
def fresh? : Event → Option Exception
  | .raised _ .missed _ => none
  | .raised e _ _ => some e
  | _ => none

end Event

def raised (journal : List Event) : List Exception := journal.filterMap Event.fresh?

theorem raised_cons (event : Event) (journal : List Event) :
    raised (event :: journal) = event.fresh?.toList ++ raised journal := by
  cases h : event.fresh? <;> simp [raised, h]

/-- A history that loses no exception, with what is in flight after it, and what became of the
others. An exception is raised only while none is in flight, and only a catch is entered while one
is. -/
inductive Settles : List Event → Option Exception → List (Exception × Fate) → Prop
  | start : Settles [] none []
  | entered {kind id flying journal slot settled} : flying = slot.isSome →
    (slot ≠ none → kind = .catcher) → Settles journal slot settled →
    Settles (.entered kind id flying :: journal) slot settled
  | setUp {e journal settled} : Settles journal none settled →
    Settles (.raised e .setUp none :: journal) (some e) settled
  | wait {e journal settled} : Settles journal none settled →
    Settles (.raised e .wait none :: journal) (some e) settled
  | missed {e journal settled} : Settles journal (some e) settled →
    Settles (.raised e .missed none :: journal) (some e) settled
  | replaced {e own journal settled} : Settles journal (some e) settled →
    Settles (.raised own (.handling e) none :: journal) (some own) ((e, .replaced) :: settled)
  | caught {e journal settled} : Settles journal (some e) settled →
    Settles (.caught e :: journal) none ((e, .caught) :: settled)
  | apart {event journal slot settled} : event.Apart → Settles journal slot settled →
    Settles (event :: journal) slot settled

namespace Settles

variable {journal : List Event} {slot : Option Exception} {settled : List (Exception × Fate)}

theorem exits {events : List Event} (all : ∀ event ∈ events, event.Exits)
    (h : Settles journal slot settled) : Settles (events ++ journal) slot settled := by
  induction events with
  | nil => exact h
  | cons event events ih =>
    exact .apart (all event (by simp)).apart (ih fun other mem => all other (by simp [mem]))

/-- Nothing is lost: each exception raised is settled or in flight, in this order. -/
theorem raised_eq (h : Settles journal slot settled) :
    raised journal = slot.toList ++ settled.map Prod.fst := by
  induction h with
  | start => rfl
  | entered _ _ _ ih => rw [raised_cons, ih]; rfl
  | setUp _ ih | wait _ ih | replaced _ ih | missed _ ih | caught _ ih => rw [raised_cons, ih]; rfl
  | @apart event _ _ _ apart _ ih =>
    have nothing : event.fresh? = none := by
      cases event <;> first | rfl | exact apart.elim
    rw [raised_cons, nothing, ih]
    rfl

theorem slot_eq_none (h : Settles journal slot settled) {e : Exception} {cause : Cause}
    {before : Option Exception} (mem : .raised e cause before ∈ journal) : before = none := by
  induction h with
  | start => cases mem
  | entered _ _ _ ih | caught _ ih => exact ih (by simpa using mem)
  | setUp _ ih | wait _ ih | missed _ ih | replaced _ ih =>
    rcases List.mem_cons.mp mem with same | mem
    · cases same
      rfl
    · exact ih mem
  | apart apart _ ih =>
    rcases List.mem_cons.mp mem with rfl | mem
    · exact apart.elim
    · exact ih mem

theorem catcher_of_entered (h : Settles journal slot settled) {kind : ElementKind} {id : NodeId}
    (mem : .entered kind id true ∈ journal) : kind = .catcher := by
  induction h with
  | start => cases mem
  | entered flying only _ ih =>
    rcases List.mem_cons.mp mem with same | mem
    · cases same
      exact only (Option.isSome_iff_ne_none.mp flying.symm)
    · exact ih mem
  | setUp _ ih | wait _ ih | missed _ ih | replaced _ ih | caught _ ih => exact ih (by simpa using mem)
  | apart apart _ ih =>
    rcases List.mem_cons.mp mem with rfl | mem
    · exact apart.elim
    · exact ih mem

theorem unique (h : Settles journal slot settled) {slot' : Option Exception}
    {settled' : List (Exception × Fate)} (h' : Settles journal slot' settled') :
    slot' = slot ∧ settled' = settled := by
  induction h generalizing slot' settled' with
  | start => cases h'; exact ⟨rfl, rfl⟩
  | entered _ _ _ ih =>
    cases h' with
    | entered _ _ h' => exact ih h'
    | apart apart => exact apart.elim
  | setUp _ ih =>
    cases h' with
    | setUp h' => exact ⟨rfl, (ih h').2⟩
    | apart apart => exact apart.elim
  | wait _ ih =>
    cases h' with
    | wait h' => exact ⟨rfl, (ih h').2⟩
    | apart apart => exact apart.elim
  | missed _ ih =>
    cases h' with
    | missed h' => exact ⟨rfl, (ih h').2⟩
    | apart apart => exact apart.elim
  | replaced _ ih =>
    cases h' with
    | replaced h' => exact ⟨rfl, by rw [(ih h').2]⟩
    | apart apart => exact apart.elim
  | caught _ ih =>
    cases h' with
    | caught h' => exact ⟨rfl, by rw [(ih h').2]⟩
    | apart apart => exact apart.elim
  | apart apart _ ih =>
    cases h' with
    | apart _ h' => exact ih h'
    | entered | setUp | wait | missed | replaced | caught => exact apart.elim

end Settles

/-- What is in flight, or was when the coroutine ended by it. -/
def Stack.flying (s : Stack) : Option Outcome → Option Exception
  | some (.thrown e) => some e
  | _ => s.exception

namespace Coroutine

variable {env : Environment} {co next : Coroutine} {f : Frame} {outer : List Frame}
  {settled : List (Exception × Fate)}

theorem Live.calm_of_entering {kind : ElementKind} {el : Element} (live : co.Live)
    (entering : Entering co kind f outer el) (other : kind ≠ .catcher) :
    co.stack.exception = none := by
  apply Classical.byContradiction
  intro flying
  exact other (entering.kind ▸ (live.at entering.frames).2.catcher_of_flying entering.next flying)

theorem Live.calm_of_due {due : NextStep} {context : Context} (live : co.Live)
    (running : co.state = .running) (at_ : Due co due f outer context)
    (waiting : due = .rerun ∨ ∃ state, due = .custom state) : co.stack.exception = none := by
  obtain ⟨_, _, _, answered⟩ := (live.at at_.frames).2.resume_eq running (at_.next ▸ waiting)
  exact answered.calm

theorem settles_complete {journal : List Event} (stack : co.stack.journal = journal)
    (settles : Settles journal co.stack.exception settled) :
    Settles co.complete.stack.journal (co.complete.stack.flying co.complete.outcome) settled := by
  unfold complete
  split
  · rename_i flying
    rw [flying, ← stack] at settles
    exact settles
  · rename_i calm
    rw [← stack] at settles
    exact settles

theorem Live.settles_of_going (live : co.Live) (outcome : next.outcome = co.outcome)
    (settles : ∃ settled, Settles next.stack.journal next.stack.exception settled) :
    ∃ settled, Settles next.stack.journal (next.stack.flying next.outcome) settled := by
  rw [outcome, live.outcome]
  exact settles

theorem Live.settles (live : co.Live) (running : co.state = .running)
    (settles : Settles co.stack.journal co.stack.exception settled)
    (rule : Transition env co next) :
    ∃ settled, Settles next.stack.journal (next.stack.flying next.outcome) settled := by
  cases rule with
  | opens | idles | exhausts => exact live.settles_of_going rfl ⟨settled, settles⟩
  | fails entering failed =>
    have calm := live.calm_of_entering entering (by cases failed <;> simp)
    rw [calm] at settles
    refine live.settles_of_going rfl ⟨settled, ?_⟩
    simp only [onStack, Stack.raise, equip, calm]
    exact .setUp settles
  | asks => exact live.settles_of_going rfl ⟨_, .apart trivial settles⟩
  | catches entering flying =>
    rw [flying] at settles
    exact live.settles_of_going rfl ⟨_, .caught settles⟩
  | misses entering flying =>
    rw [flying] at settles
    exact live.settles_of_going rfl ⟨_, .missed settles⟩
  | fumbles entering flying =>
    rw [flying] at settles
    exact live.settles_of_going rfl ⟨_, .replaced settles⟩
  | wakes | responds => exact live.settles_of_going rfl ⟨_, .apart trivial settles⟩
  | breaks due kind element resume broken =>
    have calm := live.calm_of_due running due broken.due
    rw [calm] at settles
    refine live.settles_of_going rfl ⟨settled, ?_⟩
    simp only [onStack, Stack.raise, consumed, Stack.note, calm]
    exact .wait (.apart trivial settles)
  | enters due selected =>
    obtain ⟨el, _, admits, rfl⟩ := Document.exists_reaches_of_select_element selected
    refine live.settles_of_going rfl ⟨settled, ?_⟩
    exact .entered rfl (fun flying => admits.calm (Option.isSome_iff_ne_none.mpr flying)) settles
  | @leaves f p outer _ due =>
    have unwound := unwound_of_left co f (p :: outer) (co.receive f p :: outer) co.stack.result
    obtain ⟨exits, journal, all⟩ := unwound.journal
    have kept := settles.exits all
    rw [← journal] at kept
    exact live.settles_of_going rfl ⟨settled, kept⟩
  | @completes f _ due =>
    have unwound := unwound_of_left co f [] [] (co.resultAfter f)
    obtain ⟨exits, journal, all⟩ := unwound.journal
    exact ⟨settled, settles_complete journal (settles.exits all)⟩

theorem settles_terminate (outcome : Outcome) (quiet : ∀ e, outcome ≠ .thrown e)
    (settles : Settles co.stack.journal co.stack.exception settled) :
    Settles (co.terminate outcome).stack.journal
      ((co.terminate outcome).stack.flying (some outcome)) settled := by
  have unwound := unwound_terminate outcome co
  obtain ⟨exits, journal, all⟩ := unwound.journal
  have same : (co.terminate outcome).stack.flying (some outcome) = co.stack.exception := by
    rw [← unwound.exception]
    cases outcome <;> first | rfl | exact absurd rfl (quiet _)
  rw [journal, same]
  exact settles.exits all

theorem Fails.settles {fault : Fault} (rule : co.Fails fault next)
    (settles : Settles co.stack.journal co.stack.exception settled) :
    Settles next.stack.journal next.stack.exception settled := by
  cases rule with
  | overflow | misplaced => exact settles
  | displayed | timed => exact .apart trivial settles

theorem Driven.settles {admits : Coroutine → Completion → Prop} (driven : Driven admits co) :
    ∃ settled, Settles co.stack.journal (co.stack.flying co.outcome) settled := by
  refine driven.keeps (P := fun _ stack outcome =>
    ∃ settled, Settles stack.journal (stack.flying outcome) settled) ?_ ?_ ?_ ?_ ?_
  · intro limit id doc root el room built rooted element
    exact ⟨[], .entered rfl (fun flying => absurd rfl flying) .start⟩
  · intro env co next live running ⟨settled, settles⟩ rule
    exact live.settles running settles rule
  · intro co next fault live running ⟨settled, settles⟩ rule
    exact ⟨settled, settles_terminate _ (by simp) (rule.settles settles)⟩
  · intro co c live waiting _ ⟨settled, settles⟩
    exact ⟨settled, .apart trivial settles⟩
  · intro co live ⟨settled, settles⟩
    exact ⟨settled, settles_terminate _ (by simp) settles⟩

theorem outcome_complete (co : Coroutine) (value : Value)
    (h : co.complete.outcome = some (.returned value)) : co.complete.stack.exception = none := by
  unfold complete at h ⊢
  split
  · rename_i flying
    simp [flying, finish] at h
  · assumption

theorem Driven.calm_of_returned {admits : Coroutine → Completion → Prop} {value : Value}
    (driven : Driven admits co) (returned : co.outcome = some (.returned value)) :
    co.stack.exception = none := by
  refine driven.keeps (P := fun _ stack outcome =>
    outcome = some (.returned value) → stack.exception = none) ?_ ?_ ?_ ?_ ?_ returned
  · exact fun _ _ _ _ h => by cases h
  · intro env co next live running _ rule returned
    cases rule with
    | completes => exact outcome_complete _ value returned
    | _ => exact absurd (live.outcome.symm.trans returned) (by simp)
  · exact fun _ _ _ _ h => by cases h
  · exact fun _ _ _ _ h => by cases h
  · exact fun _ _ h => by cases h

inductive Carries (env : Environment) (co next : Coroutine) (e : Exception) : Prop
  | flies : next.outcome = none → next.stack.exception = some e → Carries env co next e
  | caught {f g outer el filter asked rest} : Entering co .catcher f outer el →
    (Catcher.filter (env.valueOf co.cleared.stack) el.attributes none).run.run co.asked =
      (.ok filter, asked) →
    filterAccepts filter e.category = true → next.stack.frames = g :: outer →
    g.context = some ⟨rest, .catcher (some e)⟩ → next.stack.exception = none →
    Carries env co next e
  | replaced {f outer el own asked} : Entering co .catcher f outer el →
    (Catcher.filter (env.valueOf co.cleared.stack) el.attributes none).run.run co.asked =
      (.error own, asked) →
    next.stack.exception = some ((Catcher.failure own e).atElement el) → Carries env co next e
  | thrown : next.outcome = some (.thrown e) → Carries env co next e

theorem Live.carries {e : Exception} (live : co.Live) (running : co.state = .running)
    (flying : co.stack.exception = some e) (rule : Transition env co next) :
    Carries env co next e := by
  have outcome := live.outcome
  cases rule with
  | opens | idles | exhausts | asks | wakes | responds | enters | leaves =>
    exact .flies outcome flying
  | fails entering failed =>
    have calm := live.calm_of_entering entering (by cases failed <;> simp)
    simp [calm] at flying
  | breaks due kind element resume broken =>
    have calm := live.calm_of_due running due broken.due
    simp [calm] at flying
  | catches entering same eval accepted =>
    cases same.symm.trans flying
    exact .caught entering eval accepted rfl rfl rfl
  | misses entering same => exact .flies outcome (same.symm.trans flying ▸ rfl)
  | fumbles entering same eval =>
    cases same.symm.trans flying
    exact .replaced entering eval rfl
  | completes => exact .thrown (by simp [complete, onStack, left, flying, finish])

theorem Live.placed (live : co.Live) (flying : co.stack.exception ≠ none) :
    co.state ≠ .waiting ∧ ∃ f, co.stack.top? = some f ∧
      (f.kind = .catcher ∧ f.next = .afterPushed ∨ f.next = .selectChild ∨ f.next = .onPopping) := by
  obtain ⟨f, outer, frames, _, standing⟩ := live.standing
  have top : co.stack.top? = some f := by simp [Stack.top?, frames]
  cases standing with
  | suspended _ suspended => exact absurd suspended.calm flying
  | answered _ answered => exact absurd answered.calm flying
  | entering next _ free kind => exact ⟨free.state, f, top, .inl ⟨kind flying, next⟩⟩
  | visiting next _ free => exact ⟨free.state, f, top, .inr (.inl next)⟩
  | leaving next _ free => exact ⟨free.state, f, top, .inr (.inr next)⟩

/-- What became of all exceptions that a coroutine raised until it ended, the latest first. -/
inductive Fates (co : Coroutine) : List (Exception × Fate) → Prop
  | returned {value settled} : co.outcome = some (.returned value) →
    Settles co.stack.journal none settled → co.Fates settled
  | thrown {e settled} : co.outcome = some (.thrown e) →
    Settles co.stack.journal (some e) settled → co.Fates ((e, .thrown) :: settled)
  | stopped {outcome settled} : co.outcome = some outcome →
    (outcome = .cancelled ∨ ∃ message, outcome = .fatal message) →
    Settles co.stack.journal co.stack.exception settled →
    co.Fates (co.stack.exception.toList.map (·, .discarded) ++ settled)

theorem Fates.unique {fates other : List (Exception × Fate)} (h : co.Fates fates)
    (h' : co.Fates other) : other = fates := by
  cases h with
  | returned outcome settles =>
    cases h' with
    | returned _ settles' => exact (settles.unique settles').2
    | thrown outcome' => simp [outcome] at outcome'
    | stopped outcome' stops =>
      rw [outcome] at outcome'
      cases outcome'
      simp at stops
  | thrown outcome settles =>
    cases h' with
    | returned outcome' => simp [outcome] at outcome'
    | thrown outcome' settles' =>
      rw [outcome] at outcome'
      cases outcome'
      rw [(settles.unique settles').2]
    | stopped outcome' stops =>
      rw [outcome] at outcome'
      cases outcome'
      simp at stops
  | stopped outcome stops settles =>
    cases h' with
    | returned outcome' =>
      rw [outcome] at outcome'
      cases outcome'
      simp at stops
    | thrown outcome' =>
      rw [outcome] at outcome'
      cases outcome'
      simp at stops
    | stopped _ _ settles' => rw [(settles.unique settles').2]

theorem Fates.raised_eq {fates : List (Exception × Fate)} (h : co.Fates fates) :
    raised co.stack.journal = fates.map Prod.fst := by
  cases h with
  | returned _ settles => simpa using settles.raised_eq
  | thrown _ settles => simpa using settles.raised_eq
  | stopped _ _ settles =>
    rw [settles.raised_eq, List.map_append, List.map_map]
    simp [Function.comp_def]

theorem Driven.exists_fates {admits : Coroutine → Completion → Prop} (driven : Driven admits co)
    (ended : co.Ended) : ∃ fates, co.Fates fates := by
  obtain ⟨settled, settles⟩ := driven.settles
  cases outcome : co.outcome with
  | none => exact absurd outcome ended.outcome
  | some last =>
    rw [outcome] at settles
    cases last with
    | returned value =>
      simp only [Stack.flying, driven.calm_of_returned outcome] at settles
      exact ⟨_, .returned outcome settles⟩
    | thrown e => exact ⟨_, .thrown outcome settles⟩
    | fatal message => exact ⟨_, .stopped outcome (.inr ⟨message, rfl⟩) settles⟩
    | cancelled => exact ⟨_, .stopped outcome (.inl rfl) settles⟩

end Coroutine

end MarkupMachine
