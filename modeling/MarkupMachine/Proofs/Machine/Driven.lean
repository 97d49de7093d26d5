import MarkupMachine.Proofs.Machine.Order

/-! Coroutines as a scheduler drives them: in slices from their start on, with completions handed
in while they wait, until they are done, fail or are cancelled. They are in good order at every
moment; `Driven.keeps` proves of the stack of each what the rules keep. -/

namespace MarkupMachine

inductive Event.Exits : Event → Prop
  | left {id} : Exits (.left id)
  | committed {id bindAs value} : Exits (.committed id bindAs value)

namespace Coroutine

variable {co next : Coroutine} {f : Frame} {outer : List Frame}

/-- Two states of one coroutine. -/
structure Kin (co next : Coroutine) : Prop where
  id : next.id = co.id
  document : next.stack.document = co.stack.document
  limit : next.stack.limit = co.stack.limit

theorem Kin.trans {a b c : Coroutine} (first : Kin a b) (second : Kin b c) : Kin a c :=
  ⟨second.id.trans first.id, second.document.trans first.document, second.limit.trans first.limit⟩

theorem kin_finish (outcome : Outcome) (co : Coroutine) : Kin co (co.finish outcome) :=
  ⟨rfl, rfl, rfl⟩

theorem kin_complete (co : Coroutine) : Kin co co.complete := by
  unfold complete
  split
  · exact ⟨rfl, rfl, rfl⟩
  · exact ⟨rfl, rfl, rfl⟩

theorem kin_of_transition {env : Environment} (rule : Transition env co next) : Kin co next := by
  cases rule with
  | completes due => exact Kin.trans (b := co.onStack _) ⟨rfl, rfl, rfl⟩ (kin_complete _)
  | _ => exact ⟨rfl, rfl, rfl⟩

theorem kin_of_fails {fault : Fault} (rule : co.Fails fault next) : Kin co next := by
  cases rule <;> exact ⟨rfl, rfl, rfl⟩

structure Unwound (co next : Coroutine) : Prop extends Kin co next where
  exception : next.stack.exception = co.stack.exception
  journal : ∃ exits, next.stack.journal = exits ++ co.stack.journal ∧
    ∀ event ∈ exits, event.Exits

theorem Unwound.refl (co : Coroutine) : Unwound co co :=
  ⟨⟨rfl, rfl, rfl⟩, rfl, [], rfl, fun _ mem => by cases mem⟩

theorem Unwound.trans {a b c : Coroutine} (first : Unwound a b) (second : Unwound b c) :
    Unwound a c := by
  obtain ⟨exits, journal, exit⟩ := first.journal
  obtain ⟨later, journal', exit'⟩ := second.journal
  refine ⟨first.toKin.trans second.toKin, second.exception.trans first.exception, later ++ exits,
    ?_, ?_⟩
  · rw [journal', journal, List.append_assoc]
  · intro event mem
    rcases List.mem_append.mp mem with mem | mem
    · exact exit' event mem
    · exact exit event mem

theorem exits_of_mem_committing {event : Event} (mem : event ∈ co.committing f) :
    event.Exits := by
  unfold committing at mem
  split at mem
  · rw [List.mem_singleton.mp mem]
    exact .committed
  · cases mem

theorem unwound_of_left (co : Coroutine) (f : Frame) (outer frames : List Frame) (result : Value) :
    Unwound co (co.onStack fun _ => { co.left f outer frames with result }) := by
  refine ⟨⟨rfl, rfl, rfl⟩, rfl, .left f.position :: co.committing f, rfl, fun event mem => ?_⟩
  rcases List.mem_cons.mp mem with rfl | mem
  · exact .left
  · exact exits_of_mem_committing mem

theorem length_receiving (co : Coroutine) (f : Frame) (outer : List Frame) :
    (co.receiving f outer).length = outer.length := by
  cases outer <;> rfl

theorem unwind_spec (count : Nat) (co : Coroutine) (enough : co.stack.depth ≤ count) :
    Unwound co (co.unwind count) ∧ (co.unwind count).stack.frames = [] := by
  induction count generalizing co with
  | zero => exact ⟨.refl co, List.length_eq_zero_iff.mp (Nat.le_zero.mp enough)⟩
  | succ count ih =>
    cases frames : co.stack.frames with
    | nil => simpa [unwind, Stack.top?, frames] using Unwound.refl co
    | cons f outer =>
      have step : co.unwind (count + 1) =
          unwind count ((co.onPopping f.kind).onStack Stack.pop) := by
        simp [unwind, Stack.top?, frames]
      rw [step, onPopping_pop frames]
      have below : (co.receiving f outer).length ≤ count := by
        simp only [Stack.depth, frames, List.length_cons] at enough
        rw [length_receiving]
        omega
      obtain ⟨unwound, empty⟩ := ih (co.onStack fun _ =>
        { co.left f outer (co.receiving f outer) with
          result := if outer.isEmpty then co.resultAfter f else co.stack.result }) below
      exact ⟨(unwound_of_left co f outer _ _).trans unwound, empty⟩

theorem Ended.unwind_eq (ended : co.Ended) (count : Nat) : co.unwind count = co := by
  cases count <;> simp [unwind, Stack.top?, ended.frames]

theorem unwound_terminate (outcome : Outcome) (co : Coroutine) :
    Unwound co (co.terminate outcome) := by
  have unwound := (unwind_spec co.stack.depth co (Nat.le_refl _)).1
  exact ⟨unwound.toKin.trans (kin_finish outcome _), unwound.exception, unwound.journal⟩

theorem ended_terminate (outcome : Outcome) (co : Coroutine) : (co.terminate outcome).Ended :=
  ended_finish outcome (unwind_spec co.stack.depth co (Nat.le_refl _)).2

def start (limit id : Nat) (doc : Document) (root : NodeId) (kind : ElementKind) : Coroutine where
  id := id
  stack := {
    document := doc
    limit
    frames := [Frame.enter kind root]
    stats := Stats.enter 1 {}
    journal := [.entered kind root false] }

def filed (co : Coroutine) : Coroutine :=
  { co with asked := [], pending := if co.state = .waiting then [] else co.pending }

/-- A coroutine as the scheduler drives it. Some completions only are admitted. -/
inductive Driven (admits : Coroutine → Completion → Prop) : Coroutine → Prop
  | spawned {limit id doc root el} : 0 < limit → doc.Built → doc.rootElement? = some root →
    doc.element? root = some el →
    Driven admits (start limit id doc root (ElementKind.ofTag el.tag))
  | started {co : Coroutine} : Driven admits co → co.state = .ready →
    Driven admits { co with state := .running }
  | stepped {env : Environment} {co next : Coroutine} : Driven admits co → co.state = .running →
    co.step env = (next, none) → Driven admits next
  | failed {env : Environment} {co next : Coroutine} {fault : Fault} : Driven admits co →
    co.state = .running → co.step env = (next, some fault) →
    Driven admits (next.terminate (.fatal fault.message))
  | paused {co : Coroutine} : Driven admits co → co.state = .running →
    Driven admits { co with state := .ready }
  | filed {co : Coroutine} : Driven admits co → Driven admits co.filed
  | resumed {co : Coroutine} {c : Completion} : Driven admits co → co.state = .waiting →
    co.pending = [] → admits co c → Driven admits (co.resumeWith c)
  | cancelled {co : Coroutine} : Driven admits co → co.isTerminated = false →
    Driven admits (co.terminate .cancelled)

theorem Live.of_state {state : RunState} {asked : List String} (live : co.Live)
    (waiting : state = .waiting ↔ co.state = .waiting) (alive : state ≠ .terminated) :
    ({ co with state, asked } : Coroutine).Live := by
  obtain ⟨f, outer, frames, stacked, standing⟩ := live.standing
  refine ⟨live.built, live.depth, live.outcome, alive, f, outer, frames, stacked, ?_⟩
  have free (h : co.Free) : Free { co with state, asked } :=
    ⟨h.waits, h.pending, h.resume, fun h' => h.state (waiting.mp h')⟩
  cases standing with
  | entering next context h kind => exact .entering next context (free h) kind
  | suspended awaits h =>
    exact .suspended awaits ⟨h.waits, h.pending, h.resume, waiting.mpr h.state, h.calm, h.journal⟩
  | answered awaits h =>
    exact .answered awaits
      ⟨h.waits, h.pending, h.resume, fun h' => h.state (waiting.mp h'), h.calm, h.journal⟩
  | visiting next context h => exact .visiting next context (free h)
  | leaving next context h => exact .leaving next context (free h)

theorem Live.start {limit id : Nat} {doc : Document} {root : NodeId} {el : Element}
    (room : 0 < limit) (built : doc.Built) (rooted : doc.rootElement? = some root)
    (element : doc.element? root = some el) :
    (start limit id doc root (ElementKind.ofTag el.tag)).Live where
  built := built
  depth := room
  outcome := rfl
  state := by simp [Coroutine.start]
  standing := ⟨_, [], rfl,
    .root ⟨rfl, ⟨el, element, rfl⟩, fun _ h => by cases h⟩ rooted,
    .entering rfl rfl ⟨rfl, rfl, rfl, by simp [Coroutine.start]⟩ fun h => absurd rfl h⟩

theorem Live.exists_suspended (live : co.Live) (waiting : co.state = .waiting) :
    ∃ f outer w, co.stack.frames = f :: outer ∧ f.Awaits w ∧ co.Suspended f w := by
  obtain ⟨f, outer, frames, _, standing⟩ := live.standing
  cases standing with
  | suspended awaits suspended => exact ⟨f, outer, _, frames, awaits, suspended⟩
  | answered _ answered => exact absurd waiting answered.state
  | entering _ _ free | visiting _ _ free | leaving _ _ free => exact absurd waiting free.state

def awaited? (co : Coroutine) : Option Wait :=
  match co.stack.journal with
  | .suspended _ w :: _ => some w
  | _ => none

theorem Suspended.awaited?_eq {w : Wait} (h : co.Suspended f w) : co.awaited? = some w := by
  obtain ⟨earlier, journal⟩ := h.journal
  simp [awaited?, journal]

theorem Live.pending_of_not_waiting (live : co.Live) (h : co.state ≠ .waiting) :
    co.pending = [] := by
  obtain ⟨f, outer, frames, _, standing⟩ := live.standing
  cases standing with
  | suspended _ suspended => exact absurd suspended.state h
  | answered _ answered => exact answered.pending
  | entering _ _ free | visiting _ _ free | leaving _ _ free => exact free.pending

theorem Live.resumeWith (live : co.Live) (waiting : co.state = .waiting)
    (handed : co.pending = []) (c : Completion) : (co.resumeWith c).Live := by
  obtain ⟨f, outer, w, frames, awaits, suspended⟩ := live.exists_suspended waiting
  have ready : (co.resumeWith c).state = .ready := by
    simp [Coroutine.resumeWith, suspended.waits]
  obtain ⟨earlier, journal⟩ := suspended.journal
  refine live.replace frames rfl rfl rfl (by simp [ready]) frames (live.fits frames) rfl
    (.answered awaits ⟨?_, handed, rfl, by simp [ready], suspended.calm, earlier, ?_⟩)
  · simp [Coroutine.resumeWith, suspended.waits]
  · simp [Coroutine.resumeWith, Stack.note, journal]

theorem Live.filed (live : co.Live) : co.filed.Live := by
  have live : ({ co with asked := [] } : Coroutine).Live := live.of_state Iff.rfl live.state
  by_cases waiting : co.state = .waiting
  · obtain ⟨f, outer, w, frames, awaits, suspended⟩ := live.exists_suspended waiting
    refine live.replace frames rfl rfl rfl live.state frames (live.fits frames) rfl
      (.suspended awaits ?_)
    exact ⟨suspended.waits, .inr (by simp [Coroutine.filed, waiting]), suspended.resume,
      suspended.state, suspended.calm, suspended.journal⟩
  · simpa [Coroutine.filed, waiting] using live

theorem Ended.filed (ended : co.Ended) : co.filed.Ended := by
  refine ⟨ended.frames, ended.state, ended.waits, ?_, ended.outcome⟩
  simp [Coroutine.filed, ended.state, ended.pending]

namespace Driven

variable {admits : Coroutine → Completion → Prop}

theorem live_or_ended (driven : Driven admits co) : co.Live ∨ co.Ended := by
  induction driven with
  | spawned room built rooted element => exact .inl (.start room built rooted element)
  | started _ ready ih =>
    rcases ih with live | ended
    · exact .inl (live.of_state (by simp [ready]) (by simp))
    · simp [ended.state] at ready
  | stepped _ running step ih =>
    rcases ih with live | ended
    · have rule := live.transition_of_step running step
      rcases live.after_transition running rule with ⟨live, _⟩ | ended
      · exact .inl live
      · exact .inr ended
    · simp [ended.state] at running
  | failed => exact .inr (ended_terminate _ _)
  | paused _ running ih =>
    rcases ih with live | ended
    · exact .inl (live.of_state (by simp [running]) (by simp))
    · simp [ended.state] at running
  | filed _ ih => exact ih.imp Live.filed Ended.filed
  | @resumed _ c _ waiting handed _ ih =>
    rcases ih with live | ended
    · exact .inl (live.resumeWith waiting handed c)
    · simp [ended.state] at waiting
  | cancelled => exact .inr (ended_terminate _ _)

theorem live (driven : Driven admits co) (alive : co.state ≠ .terminated) : co.Live :=
  driven.live_or_ended.resolve_right fun ended => alive ended.state

/-- What the rules keep, and the way out keeps, holds of every driven coroutine. -/
theorem keeps {P : Nat → Stack → Option Outcome → Prop}
    (spawned : ∀ {limit id doc root el}, 0 < limit → doc.Built → doc.rootElement? = some root →
      doc.element? root = some el →
      P id (start limit id doc root (ElementKind.ofTag el.tag)).stack none)
    (stepped : ∀ {env} {co next : Coroutine}, co.Live → co.state = .running →
      P co.id co.stack none → Transition env co next → P co.id next.stack next.outcome)
    (failed : ∀ {co next : Coroutine} {fault : Fault}, co.Live → co.state = .running →
      P co.id co.stack none → co.Fails fault next →
      P co.id (next.terminate (.fatal fault.message)).stack (some (.fatal fault.message)))
    (resumed : ∀ {co : Coroutine} {c}, co.Live → co.state = .waiting → admits co c →
      P co.id co.stack none → P co.id (co.resumeWith c).stack none)
    (cancelled : ∀ {co : Coroutine}, co.Live → P co.id co.stack none →
      P co.id (co.terminate .cancelled).stack (some .cancelled))
    (driven : Driven admits co) : P co.id co.stack co.outcome := by
  induction driven with
  | spawned room built rooted element => exact spawned room built rooted element
  | started _ _ ih => exact ih
  | stepped driven running step ih =>
    have live := driven.live (by simp [running])
    have rule := live.transition_of_step running step
    rw [live.outcome] at ih
    rw [(kin_of_transition rule).id]
    exact stepped live running ih rule
  | failed driven running step ih =>
    have live := driven.live (by simp [running])
    have rule := live.fails_of_step running step
    rw [live.outcome] at ih
    rw [(unwound_terminate _ _).id, (kin_of_fails rule).id]
    exact failed live running ih rule
  | paused _ _ ih => exact ih
  | filed _ ih => exact ih
  | resumed driven waiting _ admitted ih =>
    have live := driven.live (by simp [waiting])
    rw [live.outcome] at ih
    have kept := resumed live waiting admitted ih
    rwa [← live.outcome] at kept
  | cancelled driven alive ih =>
    have live := driven.live (by simpa [isTerminated] using alive)
    rw [live.outcome] at ih
    rw [(unwound_terminate _ _).id]
    exact cancelled live ih

end Driven

end Coroutine
end MarkupMachine
