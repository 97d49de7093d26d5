import MarkupMachine.Proofs.Machine.Bindings
import MarkupMachine.Proofs.Scheduler.Calls

/-! Variables over whole runs of a scheduler: which value a name shows at any moment is told by the
journal of the coroutine, and nothing is left of a variable once the element that owns it has gone.
-/

namespace MarkupMachine

/-- A coroutine in which a variable lives from the pop of its request to that of the frame around.
-/
structure Coroutine.KeepsBindings (co : Coroutine) : Prop where
  found : ∀ (env : Environment) (name : String), Symbol.ofName? name = none →
    (env.scope co.stack).named? name =
      (co.stack.frames.findSome? fun f => co.stack.latest? f.position name).or
        (env.global? co.stack.document.number name)
  committed : ∀ id bindAs value earlier,
    .committed id bindAs value :: earlier <:+ co.stack.journal →
    co.stack.document.Sent earlier id bindAs ∧ Heard earlier id value ∧
      .left id :: .committed id bindAs value :: earlier <:+ co.stack.journal
  commits : ∀ env next f p outer rest bindAs value, co.state = .running →
    co.step env = (next, none) → co.stack.frames = f :: p :: outer → f.next = .onPopping →
    f.context = some ⟨rest, .request bindAs (some value)⟩ → co.stack.exception = none →
    next.stack.frames.map (·.position) = (p :: outer).map (·.position) ∧
    next.stack.journal = .left f.position :: .committed f.position bindAs value :: co.stack.journal
  withholds : ∀ env next f outer, co.state = .running → co.step env = (next, none) →
    co.stack.frames = f :: outer → f.next = .onPopping →
    (co.stack.exception ≠ none ∨
      ∀ rest bindAs value, f.context ≠ some ⟨rest, .request bindAs (some value)⟩) →
    next.stack.journal = .left f.position :: co.stack.journal
  lasts : ∀ later id name value earlier inner p outer, Symbol.ofName? name = none →
    co.stack.journal = later ++ .committed id (some name) value :: earlier →
    co.stack.document.parent? id = some p.position → co.stack.frames = inner ++ p :: outer →
    (∀ event ∈ later, event.binds? co.stack.document p.position name = none) →
    (∀ g ∈ inner, co.stack.latest? g.position name = none) →
    ∀ env : Environment, (env.scope co.stack).named? name = some value
  own : ∀ f ∈ co.stack.frames, ∀ bindAs value,
    .committed f.position bindAs value ∉ co.stack.journal
  gone : ∀ id, .left id ∈ co.stack.journal →
    (∀ f ∈ co.stack.frames, f.position ≠ id) ∧ co.stack.scopes.hasScope id = false
  owned : ∀ scope, co.stack.scopes.hasScope scope = true →
    ∃ f ∈ co.stack.frames, f.scope = scope
  cleared : co.stack.frames = [] → co.stack.scopes.scopes = []

namespace Coroutine

variable {admits : Coroutine → Completion → Prop} {env : Environment} {co next : Coroutine}
  {f p : Frame} {outer : List Frame}

theorem Driven.current_or_ended (driven : Driven admits co) :
    (co.Live ∧ co.stack.entered.Nodup ∧ co.stack.Current) ∨ co.Ended := by
  rcases driven.live_or_ended with live | ended
  · exact .inl ⟨live, driven.once, driven.bindings.2.2 live.outcome driven.once⟩
  · exact .inr ended

theorem Driven.named?_eq (driven : Driven admits co) (env : Environment) {name : String}
    (plain : Symbol.ofName? name = none) : (env.scope co.stack).named? name =
      (co.stack.frames.findSome? fun f => co.stack.latest? f.position name).or
        (env.global? co.stack.document.number name) := by
  have through : Scope.inFrames? co.stack.scopes name co.stack.frames =
      co.stack.frames.findSome? fun f => co.stack.latest? f.position name := by
    rcases driven.current_or_ended with ⟨_, _, current⟩ | ended
    · exact current.inFrames?_eq name
    · rw [ended.frames]
      rfl
  simp only [Scope.named?, plain, Environment.scope, through]
  cases co.stack.frames.findSome? fun f => co.stack.latest? f.position name <;> rfl

theorem Driven.lasts (driven : Driven admits co) {later earlier : List Event} {id : NodeId}
    {name : String} {value : Value} {inner : List Frame}
    (journal : co.stack.journal = later ++ .committed id (some name) value :: earlier)
    (parent : co.stack.document.parent? id = some p.position)
    (frames : co.stack.frames = inner ++ p :: outer)
    (last : ∀ event ∈ later, event.binds? co.stack.document p.position name = none)
    (innermost : ∀ g ∈ inner, co.stack.latest? g.position name = none) :
    (co.stack.frames.findSome? fun f => co.stack.latest? f.position name) = some value := by
  rcases driven.current_or_ended with ⟨_, once, current⟩ | ended
  · have before := current.around id (some name) value earlier _
      (journal ▸ List.suffix_append _ _) parent
    have since : p.position ∉ later.filterMap Event.entered? := by
      rw [Stack.entered, journal, List.filterMap_append] at once
      exact fun mem => (List.nodup_append.mp once).2.2 _ mem _
        (by simpa [List.filterMap_cons, Event.entered?] using before) rfl
    have own : co.stack.latest? p.position name = some value := by
      rw [Stack.latest?, journal, Document.latest?_append last since, Document.latest?_cons]
      simp [Event.entered?, Event.binds?, parent]
    rw [frames, List.findSome?_append, List.findSome?_eq_none_iff.mpr innermost]
    simp [own]
  · rw [ended.frames] at frames
    simp at frames

theorem Live.leaves_of_step (live : co.Live) (step : co.step env = (next, none))
    (frames : co.stack.frames = f :: outer) (due : f.next = .onPopping) :
    Leaves co next f outer := by
  obtain ⟨context, own⟩ : ∃ context, f.context = some context := by
    cases (live.at frames).2 with
    | leaving _ own | visiting _ own => exact ⟨_, own⟩
    | entering next => simp [next] at due
    | suspended awaits | answered awaits =>
      cases awaits with
      | sleep _ _ own | request _ _ own => exact ⟨_, own⟩
  cases outer with
  | nil =>
    rw [step_of_transition (.completes ⟨frames, due, own⟩)] at step
    obtain ⟨rfl, _⟩ := Prod.mk.inj step
    exact Leaves.complete ⟨frames, rfl, rfl, rfl, rfl⟩
  | cons p outer =>
    rw [step_of_transition (.leaves ⟨frames, due, own⟩)] at step
    obtain ⟨rfl, _⟩ := Prod.mk.inj step
    exact ⟨frames, rfl, rfl, rfl, rfl⟩

theorem Driven.keepsBindings (driven : Driven admits co) : co.KeepsBindings where
  found env name plain := driven.named?_eq env plain
  committed := driven.bindings.2.1.committed
  commits env next f p outer rest bindAs value running step frames due context calm := by
    have leaves := (driven.live (by simp [running])).leaves_of_step step frames due
    have kind : f.kind = .request := ((driven.consistent f (by simp [frames])).kind _ context).symm
    have committing : co.committing f = [.committed f.position bindAs value] := by
      simp [Coroutine.committing, commitment, kind, context, calm]
    exact ⟨by simp [leaves.frames, receiving], by simp [leaves.journal, committing]⟩
  withholds env next f outer running step frames due without := by
    have leaves := (driven.live (by simp [running])).leaves_of_step step frames due
    rcases committing_cases co f with none | ⟨rest, bindAs, value, context, calm, _⟩
    · simp [leaves.journal, none]
    · rcases without with flying | bare
      · exact absurd calm flying
      · exact absurd context (bare rest bindAs value)
  lasts later id name value earlier inner p outer plain journal parent frames last innermost env := by
    rw [driven.named?_eq env plain, driven.lasts journal parent frames last innermost]
    rfl
  own f mem bindAs value committed := by
    rcases driven.current_or_ended with ⟨_, _, current⟩ | ended
    · exact current.apart f mem (List.mem_filterMap.mpr ⟨_, committed, rfl⟩)
    · rw [ended.frames] at mem
      cases mem
  gone id left := by
    have apart : ∀ f ∈ co.stack.frames, f.position ≠ id := by
      intro f mem same
      rcases driven.current_or_ended with ⟨_, _, current⟩ | ended
      · exact current.apart f mem (List.mem_filterMap.mpr ⟨_, left, by rw [same]; rfl⟩)
      · rw [ended.frames] at mem
        cases mem
    refine ⟨apart, Bool.eq_false_iff.mpr fun has => ?_⟩
    obtain ⟨f, mem, scope⟩ := driven.bindings.1 id has
    rcases driven.current_or_ended with ⟨live, _⟩ | ended
    · obtain ⟨_, _, frames, stacked, _⟩ := live.standing
      exact apart f mem ((stacked.fits_of_mem (frames ▸ mem)).scope.symm.trans scope)
    · rw [ended.frames] at mem
      cases mem
  owned := driven.bindings.1
  cleared frames := by
    refine ScopeVars.scopes_eq_nil fun scope has => ?_
    obtain ⟨f, mem, _⟩ := driven.bindings.1 scope has
    rw [frames] at mem
    cases mem

end Coroutine

namespace Scheduler

/-- Variables live and die with the elements that own them, whatever the host calls and hands in. -/
theorem bindings_kept (maxFrames sliceSteps : Nat) (evaluator : Evaluator) (calls : List Call)
    {co : Coroutine} (shows_ : ((empty maxFrames sliceSteps evaluator).afterAll calls).Shows co) :
    co.KeepsBindings := by
  have sound := (Sound.empty (fun _ _ => True) maxFrames sliceSteps evaluator).afterAll
    (grantsAll_true (empty maxFrames sliceSteps evaluator) calls)
  exact (sound.driven_of_shows shows_).keepsBindings

def named : Tree :=
  .element { tag := "main" } [
    .element { tag := "request", attributes := [
      { name := "to", value := some (.literal (.text "ping")) },
      { name := "as", value := some (.literal (.text "reply")) }] } [],
    .element { tag := "sleep", attributes := [
      { name := "for", value := some (.literal (.text "1s")) }] } []]

def answer : Completion := .renderer { id := Uuid.ofNat 0, status := 200, payload := .text "pong" }

def answered : List Call := [.spawn 0 named, .step, .deliver 1 answer, .step]

theorem bindings_kept_answered : ∃ co, ((empty 2 16).afterAll answered).Shows co ∧
    co.state = .waiting ∧ co.KeepsBindings ∧
    ((({} : Environment).scope co.stack).named? "reply").map (·.joined) = some "pong" := by
  have known : (((empty 2 16).afterAll answered).coroutine? 1).any (fun co =>
      co.state == .waiting && ((co.stack.frames.findSome? fun f =>
        co.stack.latest? f.position "reply").map (·.joined)) == some "pong") = true := by
    decide +kernel
  obtain ⟨co, stored, known⟩ := (Option.any_eq_true _ _).mp known
  simp only [Bool.and_eq_true, beq_iff_eq] at known
  obtain ⟨waiting, latest⟩ := known
  have shows_ := Shows.stored stored
  have keeps := bindings_kept 2 16 .standard answered shows_
  refine ⟨co, shows_, waiting, keeps, ?_⟩
  obtain ⟨value, latest, joined⟩ := Option.map_eq_some_iff.mp latest
  rw [keeps.found {} "reply" (by decide), latest]
  simp [joined]

end Scheduler
end MarkupMachine
