import MarkupMachine.Proofs.Machine.Driven

/-! The counts of a stack. Frames that were pushed and not popped are the live ones, contexts that
were installed and not released are held by live frames, and the peak is the greatest depth there
was. Four operations change counts, and each step of a coroutine amounts to one of them at most, as
far as counts go. -/

namespace MarkupMachine

structure Stats.Closed (s : Stats) : Prop where
  frames : s.framesPopped = s.framesPushed
  contexts : s.contextsReleased = s.contextsInstalled

namespace Stack

inductive Operation where
  | push (kind : ElementKind) (id : NodeId)
  | pop
  | install (context : Context)
  | release

def fresh (doc : Document) (limit : Nat) : Stack := { document := doc, limit }

/-- The stack after an operation. One that fails changes nothing. -/
def perform (s : Stack) : Operation → Stack
  | .push kind id =>
    match s.push kind id with
    | .ok next => next
    | .error _ => s
  | .pop => s.pop
  | .install context =>
    match s.install context with
    | .ok next => next
    | .error _ => s
  | .release => s.release.2

def performAll (s : Stack) (operations : List Operation) : Stack := operations.foldl perform s

def contexts (s : Stack) : Nat := s.frames.countP (·.context.isSome)

/-- Counts that agree with the frames. -/
structure Accounted (s : Stack) : Prop where
  frames : s.stats.framesPushed = s.stats.framesPopped + s.depth
  contexts : s.stats.contextsInstalled = s.stats.contextsReleased + s.contexts
  peak : s.depth ≤ s.stats.peakFrames
  limit : s.stats.peakFrames ≤ s.limit

/-- Two stacks that differ in nothing that is counted. -/
structure SameBooks (s t : Stack) : Prop where
  limit : t.limit = s.limit
  stats : t.stats = s.stats
  held : t.frames.map (·.context.isSome) = s.frames.map (·.context.isSome)

variable {s t : Stack} {f g : Frame} {outer : List Frame}

theorem contexts_eq_count (s : Stack) :
    s.contexts = (s.frames.map (·.context.isSome)).countP id := by
  rw [contexts, List.countP_map]
  rfl

theorem contexts_cons (frames : s.frames = f :: outer) :
    s.contexts = outer.countP (·.context.isSome) + if f.context.isSome then 1 else 0 := by
  rw [contexts, frames, List.countP_cons]

theorem SameBooks.trans {u : Stack} (first : SameBooks s t) (second : SameBooks t u) :
    SameBooks s u :=
  ⟨second.limit.trans first.limit, second.stats.trans first.stats, second.held.trans first.held⟩

theorem SameBooks.accounted (same : SameBooks s t) (h : s.Accounted) : t.Accounted := by
  have depth : t.depth = s.depth := by
    have lengths := congrArg List.length same.held
    simpa [Stack.depth] using lengths
  have contexts : t.contexts = s.contexts := by
    rw [contexts_eq_count, contexts_eq_count, same.held]
  constructor
  · rw [same.stats, depth, h.frames]
  · rw [same.stats, contexts, h.contexts]
  · rw [same.stats, depth]
    exact h.peak
  · rw [same.stats, same.limit]
    exact h.limit

theorem Accounted.fresh (doc : Document) (limit : Nat) : (fresh doc limit).Accounted :=
  ⟨rfl, rfl, Nat.le_refl 0, Nat.zero_le limit⟩

theorem push_eq (s : Stack) (kind : ElementKind) (id : NodeId) :
    s.perform (.push kind id) = if s.limit ≤ s.depth then s else { s with
      frames := Frame.enter kind id :: s.frames
      stats := s.stats.enter (s.depth + 1)
      journal := .entered kind id s.exception.isSome :: s.journal } := by
  by_cases full : s.limit ≤ s.depth <;> simp [perform, push, full]

theorem limit_perform (s : Stack) (operation : Operation) :
    (s.perform operation).limit = s.limit := by
  cases operation with
  | push kind id =>
    rw [push_eq]
    split <;> rfl
  | pop => cases live : s.frames <;> simp [perform, pop, live]
  | install => cases live : s.frames <;> simp [perform, install, live]
  | release =>
    cases live : s.frames with
    | nil => simp [perform, release, live]
    | cons f outer => cases held : f.context <;> simp [perform, release, live, held]

theorem limit_performAll (s : Stack) (operations : List Operation) :
    (s.performAll operations).limit = s.limit := by
  induction operations generalizing s with
  | nil => rfl
  | cons operation rest ih => exact (ih _).trans (limit_perform s operation)

theorem Accounted.perform (h : s.Accounted) (operation : Operation) :
    (s.perform operation).Accounted := by
  obtain ⟨frames, contexts, peak, limit⟩ := h
  cases operation with
  | push kind id =>
    rw [push_eq]
    split
    · exact ⟨frames, contexts, peak, limit⟩
    · rename_i room
      constructor
      · simp only [Stats.enter, depth, List.length_cons] at frames ⊢
        omega
      · simpa [Stats.enter, Stack.contexts, Frame.enter] using contexts
      · exact Nat.le_max_right _ _
      · exact Nat.max_le.mpr ⟨limit, Nat.lt_of_not_le room⟩
  | pop =>
    cases live : s.frames with
    | nil => simpa [Stack.perform, pop, live] using Accounted.mk frames contexts peak limit
    | cons f outer =>
      rw [contexts_cons live] at contexts
      simp only [depth, live, List.length_cons] at frames peak
      constructor <;>
        simp only [Stack.perform, pop, live, Stats.release, Stats.leave, depth, Stack.contexts] <;>
        omega
  | install context =>
    cases live : s.frames with
    | nil => simpa [Stack.perform, install, live] using Accounted.mk frames contexts peak limit
    | cons f outer =>
      rw [contexts_cons live] at contexts
      simp only [depth, live, List.length_cons] at frames peak
      constructor <;>
        simp only [Stack.perform, install, live, Stats.release, Stats.install, depth,
          Stack.contexts, List.length_cons, List.countP_cons, Option.isSome_some, if_true] <;>
        omega
  | release =>
    cases live : s.frames with
    | nil => simpa [Stack.perform, release, live] using Accounted.mk frames contexts peak limit
    | cons f outer =>
      cases held : f.context with
      | none =>
        simpa [Stack.perform, release, live, held] using Accounted.mk frames contexts peak limit
      | some context =>
        rw [contexts_cons live] at contexts
        simp only [held, Option.isSome_some, if_true] at contexts
        simp only [depth, live, List.length_cons] at frames peak
        constructor <;>
          simp only [Stack.perform, release, live, held, Stats.release, depth, Stack.contexts,
            List.length_cons, List.countP_cons, Option.isSome_some, Option.isSome_none, if_true,
            Bool.false_eq_true, if_false] <;>
          omega

theorem Accounted.performAll (h : s.Accounted) (operations : List Operation) :
    (s.performAll operations).Accounted := by
  induction operations generalizing s with
  | nil => exact h
  | cons operation rest ih => exact ih (h.perform operation)

theorem Accounted.peak_perform (h : s.Accounted) (operation : Operation) :
    (s.perform operation).stats.peakFrames =
      max s.stats.peakFrames (s.perform operation).depth := by
  have peak := h.peak
  cases operation with
  | push kind id =>
    rw [push_eq]
    split
    · exact (Nat.max_eq_left peak).symm
    · rfl
  | pop =>
    cases live : s.frames with
    | nil => simp [Stack.perform, pop, live, depth]
    | cons f outer =>
      simp only [depth, live, List.length_cons] at peak
      simp only [Stack.perform, pop, live, Stats.release, Stats.leave, depth]
      omega
  | install context =>
    cases live : s.frames with
    | nil => simp [Stack.perform, install, live, depth]
    | cons f outer =>
      simp only [depth, live, List.length_cons] at peak
      simp only [Stack.perform, install, live, Stats.release, Stats.install, depth,
        List.length_cons]
      omega
  | release =>
    cases live : s.frames with
    | nil => simp [Stack.perform, release, live, depth]
    | cons f outer =>
      simp only [depth, live, List.length_cons] at peak
      cases held : f.context <;>
        simp only [Stack.perform, release, live, held, Stats.release, depth, List.length_cons] <;>
        omega

theorem Accounted.peak_performAll (h : s.Accounted) (operations : List Operation) :
    s.stats.peakFrames ≤ (s.performAll operations).stats.peakFrames ∧
    (∀ before, before <+: operations →
      (s.performAll before).depth ≤ (s.performAll operations).stats.peakFrames) ∧
    ((s.performAll operations).stats.peakFrames = s.stats.peakFrames ∨
      ∃ before, before <+: operations ∧
        (s.performAll before).depth = (s.performAll operations).stats.peakFrames) := by
  induction operations generalizing s with
  | nil =>
    refine ⟨Nat.le_refl _, fun before none => ?_, .inl rfl⟩
    rw [List.prefix_nil.mp none]
    exact h.peak
  | cons operation rest ih =>
    have grown := h.peak_perform operation
    obtain ⟨higher, greatest, reached⟩ := ih (h.perform operation)
    have least : s.stats.peakFrames ≤ ((s.perform operation).performAll rest).stats.peakFrames :=
      Nat.le_trans (grown ▸ Nat.le_max_left _ _) higher
    refine ⟨least, fun before first => ?_, ?_⟩
    · cases before with
      | nil => exact Nat.le_trans h.peak least
      | cons other before =>
        obtain ⟨rfl, within⟩ := List.cons_prefix_cons.mp first
        exact greatest before within
    · rcases reached with kept | ⟨before, first, reached⟩
      · rcases Nat.le_total (s.perform operation).depth s.stats.peakFrames with below | above
        · rw [Nat.max_eq_left below] at grown
          exact .inl (kept.trans grown)
        · rw [Nat.max_eq_right above] at grown
          exact .inr ⟨[operation], by simp, (kept.trans grown).symm⟩
      · exact .inr ⟨operation :: before, List.cons_prefix_cons.mpr ⟨rfl, first⟩, reached⟩

end Stack

def Event.left? : Event → Option NodeId
  | .left id => some id
  | _ => none

namespace Coroutine

variable {env : Environment} {co next : Coroutine} {f : Frame} {outer : List Frame}

open Stack

theorem sameBooks_complete (co : Coroutine) : SameBooks co.stack co.complete.stack := by
  unfold complete
  split <;> exact ⟨rfl, rfl, rfl⟩

theorem Entering.sameBooks {kind : ElementKind} {el : Element} {g : Frame} {stack : Stack}
    (entering : Entering co kind f outer el) (context : Context) (held : g.context = some context)
    (frames : stack.frames = g :: outer) (stats : stack.stats = co.stack.stats.install)
    (limit : stack.limit = co.stack.limit) :
    SameBooks (co.stack.perform (.install context)) stack := by
  constructor
  · simp [perform, install, entering.frames, limit]
  · simp [perform, install, entering.frames, entering.context, stats]
  · simp [perform, install, entering.frames, frames, held]

theorem held_receiving (co : Coroutine) (f : Frame) (outer : List Frame) :
    (co.receiving f outer).map (·.context.isSome) = outer.map (·.context.isSome) := by
  cases outer <;> simp [receiving]

theorem sameBooks_left (frames : co.stack.frames = f :: outer) (result : Value) :
    SameBooks (co.stack.perform .pop)
      { co.left f outer (co.receiving f outer) with result } := by
  constructor
  · simp [perform, pop, frames, left]
  · simp [perform, pop, frames, left]
  · simp [perform, pop, frames, left, held_receiving]

/-- As far as counts go, a step is one operation on the frames, or none. -/
theorem sameBooks_of_transition (rule : Transition env co next) :
    SameBooks co.stack next.stack ∨
      ∃ operation, SameBooks (co.stack.perform operation) next.stack := by
  cases rule with
  | opens entering | fails entering | asks entering | idles entering | catches entering
  | misses entering | fumbles entering =>
    exact .inr ⟨_, entering.sameBooks _ rfl rfl rfl rfl⟩
  | wakes due | responds due | breaks due | exhausts due =>
    exact .inl ⟨rfl, rfl, by simp [onStack, Stack.raise, consumed, due.frames, due.context]⟩
  | @enters f outer rest state content beyond kind id due selected room =>
    refine .inr ⟨.push kind id, ?_⟩
    rw [push_eq, if_neg (Nat.not_le.mpr room)]
    exact ⟨rfl, rfl, by simp [onStack, due.frames, due.context]⟩
  | leaves due => exact .inr ⟨.pop, sameBooks_left due.frames _⟩
  | @completes f _ due =>
    have popped := sameBooks_left due.frames (co.resultAfter f)
    exact .inr ⟨.pop, popped.trans (sameBooks_complete
      (co.onStack fun _ => { co.left f [] [] with result := co.resultAfter f }))⟩

theorem accounted_of_transition (rule : Transition env co next) (h : co.stack.Accounted) :
    next.stack.Accounted := by
  rcases sameBooks_of_transition rule with same | ⟨operation, same⟩
  · exact same.accounted h
  · exact same.accounted (h.perform operation)

theorem Fails.sameBooks {fault : Fault} (rule : co.Fails fault next) :
    SameBooks co.stack next.stack := by
  cases rule with
  | overflow due | misplaced due =>
    exact ⟨rfl, rfl, by simp [onStack, due.frames, due.context]⟩
  | displayed | timed => exact ⟨rfl, rfl, rfl⟩

/-- What is left of a coroutine once its frames are gone: each was popped once, from the innermost
outward, and nothing else was done. -/
structure Emptied (co next : Coroutine) : Prop where
  frames : next.stack.frames = []
  popped : next.stack.stats.framesPopped = co.stack.stats.framesPopped + co.stack.depth
  pushed : next.stack.stats.framesPushed = co.stack.stats.framesPushed
  released : next.stack.stats.contextsReleased =
    co.stack.stats.contextsReleased + co.stack.contexts
  installed : next.stack.stats.contextsInstalled = co.stack.stats.contextsInstalled
  peak : next.stack.stats.peakFrames = co.stack.stats.peakFrames
  limit : next.stack.limit = co.stack.limit
  exception : next.stack.exception = co.stack.exception
  asked : next.asked = co.asked
  journal : ∃ exits, next.stack.journal = exits ++ co.stack.journal ∧
    (∀ event ∈ exits, event.Exits) ∧
    exits.filterMap Event.left? = (co.stack.frames.map (·.position)).reverse

theorem left_committing (co : Coroutine) (f : Frame) :
    (co.committing f).filterMap Event.left? = [] := by
  unfold committing
  split <;> rfl

theorem countP_receiving (co : Coroutine) (f : Frame) (outer : List Frame) :
    (co.receiving f outer).countP (·.context.isSome) = outer.countP (·.context.isSome) := by
  cases outer <;> simp [receiving, List.countP_cons]

theorem positions_receiving (co : Coroutine) (f : Frame) (outer : List Frame) :
    (co.receiving f outer).map (·.position) = outer.map (·.position) := by
  cases outer <;> simp [receiving]

theorem Emptied.nothing (empty : co.stack.frames = []) : Emptied co co :=
  ⟨empty, by simp [Stack.depth, empty], rfl, by simp [Stack.contexts, empty], rfl, rfl, rfl, rfl,
    rfl, [], rfl, fun _ mem => (nomatch mem), by simp [empty]⟩

theorem Emptied.of_left (frames : co.stack.frames = f :: outer) (result : Value)
    (rest : Emptied (co.onStack fun _ =>
      { co.left f outer (co.receiving f outer) with result }) next) : Emptied co next := by
  obtain ⟨empty, popped, pushed, released, installed, peak, limit, exception, asked, exits, journal,
    all, places⟩ := rest
  have contexts : co.stack.contexts =
      (co.receiving f outer).countP (·.context.isSome) + if f.context.isSome then 1 else 0 := by
    rw [contexts_cons frames, countP_receiving]
  refine ⟨empty, ?_, pushed, ?_, installed, peak, limit, exception, asked,
    exits ++ .left f.position :: co.committing f, ?_, fun event mem => ?_, ?_⟩
  · rw [popped]
    simp only [onStack, left, Stats.leave, Stats.release, Stack.depth, frames, length_receiving,
      List.length_cons]
    omega
  · rw [released, contexts]
    simp only [onStack, left, Stats.leave, Stats.release, Stack.contexts]
    omega
  · rw [journal]
    simp [onStack, left]
  · rcases List.mem_append.mp mem with mem | mem
    · exact all event mem
    · rcases List.mem_cons.mp mem with rfl | mem
      · exact .left
      · exact exits_of_mem_committing mem
  · rw [List.filterMap_append, places]
    simp [onStack, left, positions_receiving, left_committing, frames, Event.left?]

theorem emptied_unwind (count : Nat) (co : Coroutine) (enough : co.stack.depth ≤ count) :
    Emptied co (co.unwind count) := by
  induction count generalizing co with
  | zero => exact .nothing (List.length_eq_zero_iff.mp (Nat.le_zero.mp enough))
  | succ count ih =>
    cases frames : co.stack.frames with
    | nil => simpa [unwind, Stack.top?, frames] using Emptied.nothing frames
    | cons f outer =>
      have step : co.unwind (count + 1) =
          unwind count ((co.onPopping f.kind).onStack Stack.pop) := by
        simp [unwind, Stack.top?, frames]
      have below : (co.receiving f outer).length ≤ count := by
        simp only [Stack.depth, frames, List.length_cons] at enough
        rw [length_receiving]
        omega
      rw [step, onPopping_pop frames]
      exact .of_left frames _ (ih _ below)

structure TornDown (outcome : Outcome) (co next : Coroutine) : Prop extends Emptied co next where
  id : next.id = co.id
  outcome : next.outcome = some outcome
  state : next.state = .terminated
  waits : next.waits = 0
  pending : next.pending = []

theorem tornDown_terminate (outcome : Outcome) (co : Coroutine) :
    TornDown outcome co (co.terminate outcome) := by
  have emptied := emptied_unwind co.stack.depth co (Nat.le_refl _)
  exact {
    frames := emptied.frames
    popped := emptied.popped
    pushed := emptied.pushed
    released := emptied.released
    installed := emptied.installed
    peak := emptied.peak
    limit := emptied.limit
    exception := emptied.exception
    asked := emptied.asked
    journal := emptied.journal
    id := (unwound_terminate outcome co).id
    outcome := rfl
    state := rfl
    waits := rfl
    pending := rfl }

theorem Emptied.accounted (emptied : Emptied co next) (h : co.stack.Accounted) :
    next.stack.Accounted := by
  obtain ⟨frames, contexts, peak, limit⟩ := h
  have none : next.stack.contexts = 0 := by simp [Stack.contexts, emptied.frames]
  have empty : next.stack.depth = 0 := by simp [Stack.depth, emptied.frames]
  constructor
  · rw [emptied.pushed, emptied.popped, empty, frames]
    rfl
  · rw [emptied.installed, emptied.released, none, contexts]
    rfl
  · rw [empty]
    exact Nat.zero_le _
  · rw [emptied.peak, emptied.limit]
    exact limit

theorem Driven.accounted {admits : Coroutine → Completion → Prop} (driven : Driven admits co) :
    co.stack.Accounted := by
  refine driven.keeps (P := fun _ stack _ => stack.Accounted) ?_ ?_ ?_ ?_ ?_
  · intro limit id doc root el room _ _ _
    have entered := (Accounted.fresh doc limit).perform (.push (ElementKind.ofTag el.tag) root)
    simpa [push_eq, fresh, Stack.depth, Nat.not_le.mpr room, start] using entered
  · exact fun _ _ accounted rule => accounted_of_transition rule accounted
  · exact fun _ _ accounted rule =>
      (tornDown_terminate _ _).accounted (rule.sameBooks.accounted accounted)
  · exact fun _ _ _ accounted => SameBooks.accounted (by exact ⟨rfl, rfl, rfl⟩) accounted
  · exact fun _ accounted => (tornDown_terminate _ _).accounted accounted

end Coroutine

theorem Stack.Accounted.closed {s : Stack} (h : s.Accounted) (frames : s.frames = []) :
    s.stats.Closed := by
  obtain ⟨pushed, installed, _, _⟩ := h
  simp only [depth, Stack.contexts, frames, List.length_nil, List.countP_nil] at pushed installed
  exact ⟨pushed.symm, installed.symm⟩

end MarkupMachine
