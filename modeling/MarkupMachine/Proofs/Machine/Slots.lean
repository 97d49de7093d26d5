import MarkupMachine.Proofs.Machine.Caught
import MarkupMachine.Proofs.Machine.Evaluation
import MarkupMachine.Proofs.Machine.Footprint

/-! What the slots of a frame hold. All of them but the `?` are empty at every moment, and the `?`
is told by the journal. An element that is about to evaluate its attributes has not come to anything
that could fill it. -/

namespace MarkupMachine

/-- What is to be found in the `?` of a frame. What was committed to it counts before what its
element has caught or heard itself. -/
inductive Stack.Holds (s : Stack) (f : Frame) : Value → Prop
  | committed {value} : s.document.answer? f.position s.journal = some value → Holds s f value
  | caught {e} : s.document.answer? f.position s.journal = none → f.kind = .catcher →
    Caught s.journal f.position e → Holds s f e.toValue
  | heard {value} : s.document.answer? f.position s.journal = none → f.kind = .request →
    Heard s.journal f.position value → Holds s f value
  | nothing : s.document.answer? f.position s.journal = none →
    (f.kind = .catcher → ∀ e, ¬ Caught s.journal f.position e) →
    (f.kind = .request → ∀ value, ¬ Heard s.journal f.position value) → Holds s f .null

def Stack.Blank (s : Stack) : Prop :=
  ∀ f ∈ s.frames, ∀ symbol, symbol ≠ .question → f.symbols symbol = .null

structure Stack.Slotted (s : Stack) : Prop where
  blank : s.Blank
  question_iff : ∀ f ∈ s.frames, ∀ value, f.symbols .question = value ↔ s.Holds f value

structure Stack.Retold (s : Stack) : Prop where
  built : s.document.Built
  stacked : ∀ f outer, s.frames = f :: outer → Stacked s.document (f :: outer)
  backed : s.Backed
  hears : s.Hears
  catches : s.Catches
  voiced : ∀ f ∈ s.frames, f.Voiced s.document s.journal
  blank : s.Blank

section Question

variable {s : Stack} {f : Frame} {value : Value}

theorem Stack.Retold.holds_voice (h : s.Retold) (mem : f ∈ s.frames)
    (none : s.document.answer? f.position s.journal = none) : s.Holds f f.voice := by
  have caught_iff (catcher : f.kind = .catcher) := h.catches.keeps_iff f mem catcher
  unfold Frame.voice
  split
  · next e kind state =>
    obtain ⟨⟨rest, _⟩, context, rfl⟩ := Option.map_eq_some_iff.mp state
    exact .caught none kind ((caught_iff kind e).mp ⟨rest, context⟩)
  · next bindAs value kind state =>
    obtain ⟨⟨rest, _⟩, context, rfl⟩ := Option.map_eq_some_iff.mp state
    exact .heard none kind ((h.backed.frames f mem).heard rest bindAs value context)
  · next silent unheard =>
    refine .nothing none (fun catcher e caught => ?_) fun request value heard => ?_
    · obtain ⟨rest, context⟩ := (caught_iff catcher e).mpr caught
      exact silent e catcher (by rw [context]; rfl)
    · obtain ⟨rest, bindAs, context⟩ := h.hears.kept f mem request value heard
      exact unheard bindAs value request (by rw [context]; rfl)

theorem Stack.Retold.holds (h : s.Retold) (mem : f ∈ s.frames) :
    s.Holds f (f.symbols .question) := by
  rw [(h.voiced f mem).question]
  cases last : s.document.answer? f.position s.journal with
  | some value => exact .committed last
  | none => exact h.holds_voice mem last

theorem Stack.Retold.shows_ (h : s.Retold) (mem : f ∈ s.frames) (holds : s.Holds f value) :
    f.symbols .question = value := by
  rw [(h.voiced f mem).question]
  cases holds with
  | committed last => rw [last]; rfl
  | caught none kind caught =>
    obtain ⟨rest, context⟩ := (h.catches.keeps_iff f mem kind _).mpr caught
    simp [none, Frame.voice, kind, context]
  | heard none kind heard =>
    obtain ⟨rest, bindAs, context⟩ := h.hears.kept f mem kind value heard
    simp [none, Frame.voice, kind, context]
  | nothing none silent unheard =>
    have own := h.holds_voice mem none
    rw [none, Option.getD_none]
    generalize f.voice = voice at own
    cases own with
    | committed last => cases none.symm.trans last
    | caught _ kind caught => exact absurd caught (silent kind _)
    | heard _ kind heard => exact absurd heard (unheard kind _)
    | nothing => rfl

theorem Stack.Retold.slotted (h : s.Retold) : s.Slotted where
  blank := h.blank
  question_iff _ mem _ := ⟨fun shown => shown ▸ h.holds mem, h.shows_ mem⟩

theorem Stack.slotted_of_nil (none : s.frames = []) : s.Slotted := by
  constructor
  · intro f mem
    simp [none] at mem
  · intro f mem
    simp [none] at mem

end Question

section Blank

variable {s t : Stack} {f g : Frame} {outer : List Frame}

theorem Stack.Blank.change (h : s.Blank) (frames : s.frames = f :: outer)
    (changed : t.frames = g :: outer)
    (same : ∀ symbol, symbol ≠ .question → g.symbols symbol = f.symbols symbol) : t.Blank := by
  intro other mem symbol slot
  rw [changed] at mem
  rcases List.mem_cons.mp mem with rfl | mem
  · exact (same symbol slot).trans (h f (by simp [frames]) symbol slot)
  · exact h other (by simp [frames, mem]) symbol slot

theorem setSymbol_other (value : Value) (f : Frame) : ∀ symbol, symbol ≠ .question →
    (f.setSymbol .question value).symbols symbol = f.symbols symbol :=
  fun _ slot => if_neg slot

namespace Coroutine

variable {env : Environment} {co next : Coroutine} {p : Frame}

theorem receive_other (p : Frame) : ∀ symbol, symbol ≠ .question →
    (co.receive f p).symbols symbol = p.symbols symbol := by
  unfold receive
  split
  · exact setSymbol_other _ p
  · exact fun _ _ => rfl

theorem Leaves.blank (leaves : Leaves co next f outer) (h : co.stack.Blank) : next.stack.Blank := by
  have around (g : Frame) (mem : g ∈ outer) := h g (by simp [leaves.before, mem])
  intro g mem symbol slot
  rw [leaves.frames] at mem
  cases outer with
  | nil => cases mem
  | cons p outer =>
    rcases List.mem_cons.mp mem with rfl | mem
    · exact (receive_other p symbol slot).trans (around p (by simp) symbol slot)
    · exact around g (by simp [mem]) symbol slot

theorem blank_of_transition (rule : Transition env co next) (h : co.stack.Blank) :
    next.stack.Blank := by
  cases rule with
  | opens entering | fails entering | asks entering | idles entering | misses entering
  | fumbles entering => exact h.change entering.frames rfl fun _ _ => rfl
  | catches entering => exact h.change entering.frames rfl (setSymbol_other _ _)
  | wakes due | breaks due | exhausts due => exact h.change due.frames rfl fun _ _ => rfl
  | responds due => exact h.change due.frames rfl (setSymbol_other _ _)
  | @enters f _ _ _ _ _ _ _ due =>
    intro g mem symbol slot
    rcases List.mem_cons.mp mem with rfl | mem
    · rfl
    · rcases List.mem_cons.mp mem with rfl | mem
      · exact h f (by simp [due.frames]) symbol slot
      · exact h g (by simp [due.frames, mem]) symbol slot
  | leaves due => exact Leaves.blank ⟨due.frames, rfl, rfl, rfl, rfl⟩ h
  | completes due => exact Leaves.blank (Leaves.complete ⟨due.frames, rfl, rfl, rfl, rfl⟩) h

theorem blank_of_fails {fault : Fault} (rule : co.Fails fault next) (h : co.stack.Blank) :
    next.stack.Blank := by
  cases rule with
  | overflow due | misplaced due => exact h.change due.frames rfl fun _ _ => rfl
  | displayed due | timed due => exact h.change due.frames due.frames fun _ _ => rfl

theorem Ended.blank (ended : co.Ended) : co.stack.Blank := by
  intro f mem
  simp [ended.frames] at mem

theorem Driven.blank {admits : Coroutine → Completion → Prop} (driven : Driven admits co) :
    co.stack.Blank := by
  refine driven.keeps (P := fun _ stack _ => stack.Blank) ?_ ?_ ?_ ?_ ?_
  · intro limit id doc root el _ _ _ _ f mem symbol _
    obtain rfl : f = Frame.enter _ root := List.mem_singleton.mp mem
    rfl
  · exact fun _ _ kept rule => blank_of_transition rule kept
  · exact fun _ _ _ _ => (ended_terminate _ _).blank
  · exact fun _ _ _ kept => kept
  · exact fun _ _ => (ended_terminate _ _).blank

end Coroutine
end Blank

namespace Coroutine

variable {co next at_ : Coroutine} {f g : Frame} {outer : List Frame}

theorem Leaves.retold (leaves : Leaves co next f outer) (h : co.stack.Retold) :
    next.stack.Retold := by
  have stacked := h.stacked f outer leaves.before
  refine ⟨leaves.document ▸ h.built, ?_, leaves.backed h.backed, leaves.hears h.hears,
    leaves.catches h.catches stacked, ?_, leaves.blank h.blank⟩
  · intro g around frames
    rw [leaves.frames] at frames
    cases outer with
    | nil => cases frames
    | cons p outer =>
      rw [leaves.document, ← frames]
      exact stacked_receive stacked
  · cases outer with
    | nil =>
      intro g mem
      rw [leaves.frames] at mem
      cases mem
    | cons p outer => exact leaves.voiced h.built stacked h.voiced

theorem Live.stacked_of_fails {fault : Fault} (live : co.Live) (rule : co.Fails fault next)
    (frames : next.stack.frames = g :: outer) :
    Stacked next.stack.document (g :: outer) := by
  -- a child that cannot be entered is passed over all the same
  have passing {f : Frame} {outer rest beyond state content id}
      (due : Due co .selectChild f outer ⟨rest, state⟩)
      (reached : co.stack.document.Reaches co.stack.exception.isSome rest id beyond) :
      Stacked co.stack.document
        ({ f with content, context := some ⟨beyond, state⟩ } :: outer) := by
    obtain ⟨seen, children⟩ := live.fits_beyond due reached
    have stacked := (live.at due.frames).1
    refine stacked.replace ⟨stacked.fits.scope, stacked.fits.element, fun _ own => ?_⟩ rfl
    cases own
    exact ⟨seen ++ [id], by simp [children]⟩
  cases rule with
  | overflow due selected =>
    obtain ⟨_, reached, -⟩ := Document.exists_reaches_of_select_element selected
    cases frames
    exact passing due reached
  | misplaced due selected =>
    obtain ⟨_, reached, -⟩ := Document.exists_reaches_of_select_misplaced selected
    cases frames
    exact passing due reached
  | displayed | timed => exact (live.at frames).1

namespace Driven

variable {admits : Coroutine → Completion → Prop}

theorem retold (driven : Driven admits co) (alive : co.state ≠ .terminated) :
    co.stack.Retold := by
  have tells := driven.tells alive
  have live := driven.live alive
  exact {
    built := live.built
    stacked := fun f outer frames => (live.at frames).1
    backed := tells.backed
    hears := tells.hears
    catches := driven.catches alive
    voiced := tells.voiced
    blank := driven.blank }

theorem retold_of_fails {fault : Fault} (driven : Driven admits co) (running : co.state = .running)
    (rule : co.Fails fault next) : next.stack.Retold := by
  have live := driven.live (by simp [running])
  have before := driven.retold live.state
  have tells := live.tells_of_fails rule (driven.tells live.state)
  exact {
    built := (kin_of_fails rule).document ▸ before.built
    stacked := fun f outer => live.stacked_of_fails rule
    backed := tells.backed
    hears := tells.hears
    catches := catches_of_fails rule before.catches
    voiced := tells.voiced
    blank := blank_of_fails rule before.blank }

theorem slotted (driven : Driven admits co) : co.stack.Slotted := by
  rcases driven.live_or_ended with live | ended
  · exact (driven.retold live.state).slotted
  · exact Stack.slotted_of_nil ended.frames

theorem slotted_unwind (driven : Driven admits co) (from_ : Unwinds co at_) (count : Nat) :
    (at_.unwind count).stack.Slotted := by
  cases from_ with
  | cancelled =>
    rcases driven.live_or_ended with live | ended
    · exact (unwind_keeps Leaves.retold count _ (driven.retold live.state)).slotted
    · rw [ended.unwind_eq]
      exact driven.slotted
  | failed running step =>
    have live := driven.live (by simp [running])
    have rule := live.fails_of_step running step
    exact (unwind_keeps Leaves.retold count _ (driven.retold_of_fails running rule)).slotted

theorem symbols_of_entering (driven : Driven admits co) (frames : co.stack.frames = f :: outer)
    (due : f.next = .afterPushed) (symbol : Symbol) : f.symbols symbol = .null := by
  rcases driven.live_or_ended with live | ended
  · have mem : f ∈ co.stack.frames := by simp [frames]
    by_cases question : symbol = .question
    · subst question
      have retold := driven.retold live.state
      have voiced := retold.voiced f mem
      rw [voiced.question, voiced.fresh (by simp [due]) (by simp [due])]
      simp [Frame.voice, ((live.at frames).2.of_entering due).1]
    · exact driven.blank f mem symbol question
  · simp [ended.frames] at frames

end Driven

section SettingUp

theorem exists_frames_settingUp (frames : co.stack.frames = f :: outer) :
    ∃ g, co.settingUp.frames = g :: outer ∧ g.symbols = f.symbols := by
  have stack : co.settingUp = if f.kind = .catcher then co.cleared.stack
      else co.evaluating f outer f.kind := by
    rw [settingUp, frames]
  rw [stack]
  cases f.kind
  case structural => exact ⟨_, rfl, rfl⟩
  all_goals exact ⟨f, frames, rfl⟩

theorem symbols_settingUp {level : Nat} (found : co.stack.frames[level]? = some f) :
    ∃ g, co.settingUp.frames[level]? = some g ∧ g.symbols = f.symbols := by
  cases frames : co.stack.frames with
  | nil => simp [frames] at found
  | cons top outer =>
    obtain ⟨g, same, symbols⟩ := exists_frames_settingUp frames
    rw [frames] at found
    rw [same]
    cases level with
    | zero =>
      cases found
      exact ⟨g, rfl, symbols⟩
    | succ level => exact ⟨f, found, rfl⟩

end SettingUp

/-- What the slots of a coroutine hold, and what the attributes of an element can learn of them
when it is set up. -/
structure KnowsSlots (co : Coroutine) : Prop where
  slots : co.stack.Slotted
  leaving : ∀ at_ count, Unwinds co at_ → (at_.unwind count).stack.Slotted
  consults : co.state = .running → ∀ env env' : Environment,
    (∀ f outer, co.stack.frames = f :: outer → f.next = .afterPushed →
      env.Agrees env' co.settingUp) → co.step env = co.step env'
  finds : ∀ f outer, co.stack.frames = f :: outer → f.next = .afterPushed →
    ∃ g, co.settingUp.frames = g :: outer ∧ ∀ symbol, g.symbols symbol = .null
  own : ∀ f outer, co.stack.frames = f :: outer → f.next = .afterPushed →
    ∀ (globals : Option Bindings) (symbol : Symbol) (name : String),
      name.toList = [symbol.char] →
      Evaluator.standard.evaluate ⟨co.settingUp, globals⟩ (.variable name) = .ok .null ∧
      Evaluator.standard.evaluate ⟨co.settingUp, globals⟩ (.symbol symbol.char 0) = .ok .null
  around : ∀ (globals : Option Bindings) (level : UInt32) (f : Frame), 0 < level.toNat →
    co.stack.frames[level.toNat]? = some f → ∀ value,
      Evaluator.standard.evaluate ⟨co.settingUp, globals⟩ (.symbol '?' level) = .ok value ↔
        co.stack.Holds f value

theorem Driven.knowsSlots {admits : Coroutine → Completion → Prop} (driven : Driven admits co) :
    co.KnowsSlots := by
  have finds (f : Frame) (outer : List Frame) (frames : co.stack.frames = f :: outer)
      (due : f.next = .afterPushed) :
      ∃ g, co.settingUp.frames = g :: outer ∧ ∀ symbol, g.symbols symbol = .null := by
    obtain ⟨g, same, symbols⟩ := exists_frames_settingUp frames
    exact ⟨g, same, fun symbol => symbols ▸ driven.symbols_of_entering frames due symbol⟩
  constructor
  case slots => exact driven.slotted
  case leaving => exact fun at_ count from_ => driven.slotted_unwind from_ count
  case consults =>
    exact fun running env env' => (driven.live (by simp [running])).step_congr running
  case finds => exact finds
  case own =>
    intro f outer frames due globals symbol name chars
    obtain ⟨g, same, null⟩ := finds f outer frames due
    have innermost : (Scope.mk co.settingUp globals).stack.frames[0]? = some g := by simp [same]
    constructor
    · exact (Expression.evaluate_of_yields (.slot chars same)).trans (by rw [null])
    · exact (Expression.evaluate_of_yields (.symbol innermost)).trans (by rw [null])
  case around =>
    intro globals level f _ found value
    obtain ⟨g, same, symbols⟩ := symbols_settingUp found
    have read : Evaluator.standard.evaluate ⟨co.settingUp, globals⟩ (.symbol '?' level) =
        .ok (f.symbols .question) :=
      (Expression.evaluate_of_yields (.symbol (s := .question) same)).trans (by rw [symbols])
    rw [read, Except.ok.injEq]
    exact driven.slotted.question_iff f (List.mem_of_getElem? found) value

end Coroutine
end MarkupMachine
