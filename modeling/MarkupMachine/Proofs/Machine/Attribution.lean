import MarkupMachine.Proofs.Machine.Bindings
import MarkupMachine.Proofs.Machine.Flight
import MarkupMachine.Proofs.Walk.View

/-! Which element an exception names. Under the standard evaluator no set-up comes to an exception
that names an element already, so that each element which raises one puts its own name there; a
sleep alone raises what its timer failed with as it comes. -/

namespace MarkupMachine

namespace Exception

def element? (e : Exception) : Option String := e.info.bind (·.element)

structure Names (el : Element) (e : Exception) : Prop where
  info : ∃ info, e.info = some info ∧ info.element = some el.tag ∧ info.position = el.position

/-- An exception that an element raises on account of one it was given: it names the element, unless
the one given names some element already. -/
structure Attributes (el : Element) (given e : Exception) : Prop where
  category : e.category = given.category
  message : e.message?.getD "" = given.message?.getD ""
  bare : given.element? = none → e.Names el
  kept : given.element? ≠ none → e = given

theorem atElement_attributes (el : Element) (given : Exception) :
    Attributes el given (given.atElement el) := by
  obtain ⟨category, info⟩ := given
  cases info with
  | none => exact ⟨rfl, rfl, fun _ => ⟨_, rfl, rfl, rfl⟩, fun named => absurd rfl named⟩
  | some info =>
    obtain ⟨message, element, position⟩ := info
    cases element with
    | none => exact ⟨rfl, rfl, fun _ => ⟨_, rfl, rfl, rfl⟩, fun named => absurd rfl named⟩
    | some tag => exact ⟨rfl, rfl, (by simp [element?]), fun _ => rfl⟩

theorem names_atElement (el : Element) {given : Exception} (bare : given.element? = none) :
    (given.atElement el).Names el :=
  (atElement_attributes el given).bare bare

theorem Names.element?_eq {el : Element} {e : Exception} (h : e.Names el) :
    e.element? = some el.tag := by
  obtain ⟨info, own, element, _⟩ := h.info
  simp [element?, own, element]

end Exception

section Bare

def Bare {α : Type} (setup : Setup α) : Prop :=
  ∀ asked e asked', setup.run.run asked = (.error e, asked') → e.element? = none

theorem bare_closed : Setup.Closed @Bare where
  pure a asked e asked' h := by cases h
  raised category message asked e asked' h := by
    cases h
    rfl
  bind {α β setup next} first then_ asked e asked' h := by
    simp only [ExceptT.run_bind, StateT.run_bind] at h
    rcases run : setup.run.run asked with ⟨_ | a, noted⟩
    · rw [run] at h
      cases h
      exact first asked _ _ run
    · rw [run] at h
      exact then_ a noted e asked' h

mutual

theorem bare_of_evaluate (view : View) : ∀ (x : Expression) (e : Exception),
    x.evaluate view = .error e → e.element? = none
  | .literal _, _, h => by cases h
  | .variable name, e, h => by
    unfold Expression.evaluate at h
    split at h <;> cases h
    rfl
  | .symbol c level, e, h => by
    unfold Expression.evaluate at h
    split at h
    · cases h
      rfl
    · split at h <;> cases h
      rfl
  | .interpolation parts, e, h => by
    unfold Expression.evaluate at h
    cases joined : Expression.join view parts with
    | error own =>
      rw [joined] at h
      cases h
      exact bare_of_join view parts e joined
    | ok s =>
      rw [joined] at h
      cases h

theorem bare_of_join (view : View) : ∀ (parts : List Expression) (e : Exception),
    Expression.join view parts = .error e → e.element? = none
  | [], _, h => by
    unfold Expression.join at h
    cases h
  | part :: rest, e, h => by
    unfold Expression.join at h
    cases value : part.evaluate view with
    | error own =>
      rw [value] at h
      cases h
      exact bare_of_evaluate view part e value
    | ok v =>
      rw [value] at h
      cases others : Expression.join view rest with
      | error own =>
        rw [others] at h
        cases h
        exact bare_of_join view rest e others
      | ok s =>
        rw [others] at h
        cases h

end

theorem bare_valueOf {env : Environment} (standard : env.evaluator = .standard) (stack : Stack)
    (x : Option Expression) : Bare (env.valueOf stack x) := by
  rw [Walk.valueOf_eq standard]
  intro asked e asked' h
  cases x with
  | none => cases h
  | some x =>
    simp only [Walk.value] at h
    cases value : x.evaluate (env.scope stack).view with
    | error own =>
      rw [value] at h
      cases h
      exact bare_of_evaluate _ x e value
    | ok v =>
      rw [value] at h
      cases h

end Bare

namespace Coroutine

variable {env : Environment} {co next : Coroutine} {f : Frame} {outer : List Frame} {el : Element}

theorem SetUpFails.bare {kind : ElementKind} {e : Exception} {asked : List String}
    (failed : SetUpFails env co f outer el kind e asked) (standard : env.evaluator = .standard) :
    e.element? = none := by
  have values := fun stack => bare_valueOf standard stack
  cases failed with
  | structural eval => exact bare_closed.structural (values _) _ _ _ _ _ eval
  | sleep eval => exact bare_closed.sleep (values _) _ _ _ _ eval
  | request eval => exact bare_closed.request (values _) _ _ _ _ _ _ eval

end Coroutine

def path : List Event → List NodeId
  | [] => []
  | .entered _ id _ :: earlier => id :: path earlier
  | .left _ :: earlier => (path earlier).tail
  | _ :: earlier => path earlier

/-- What an exception that comes up in an element has to do with it, by what was the last to happen
in the element. -/
inductive Arises (el : Element) (id : NodeId) : List Event → Cause → Exception → Prop
  | setUp {journal e} : e.Names el → Arises el id journal .setUp e
  | handling {journal handled e} : e.Names el → Arises el id journal (.handling handled) e
  | failed {journal given e} :
    ElementKind.ofTag el.tag = .request → Exception.Attributes el given e →
    Arises el id (.consumed (some id) (.failed given) :: journal) .wait e
  | refused {journal response e} : ElementKind.ofTag el.tag = .request → response.isOk = false →
    e.Names el → Arises el id (.consumed (some id) (.renderer response) :: journal) .wait e
  | slept {journal e} : ElementKind.ofTag el.tag = .sleep →
    Arises el id (.consumed (some id) (.failed e) :: journal) .wait e

/-- Each exception that is new came up in the element that was the innermost then. -/
def Sourced (doc : Document) (journal : List Event) : Prop :=
  ∀ later e cause slot earlier, journal = later ++ .raised e cause slot :: earlier →
    (Event.raised e cause slot).fresh? = some e → ∃ id around el, path earlier = id :: around ∧
      doc.element? id = some el ∧ Arises el id earlier cause e

section Journals

variable {doc : Document} {journal : List Event}

theorem Sourced.cons {event : Event} (sourced : Sourced doc journal)
    (h : ∀ e cause slot, event = .raised e cause slot → event.fresh? = some e →
      ∃ id around el, path journal = id :: around ∧ doc.element? id = some el ∧
        Arises el id journal cause e) : Sourced doc (event :: journal) := by
  intro later e cause slot earlier same fresh
  cases later with
  | nil =>
    obtain ⟨rfl, rfl⟩ := List.cons.inj same
    exact h e cause slot rfl fresh
  | cons first later => exact sourced later e cause slot earlier (List.cons.inj same).2 fresh

theorem Sourced.apart {events : List Event} (apart : ∀ event ∈ events, event.fresh? = none)
    (sourced : Sourced doc journal) : Sourced doc (events ++ journal) := by
  induction events with
  | nil => exact sourced
  | cons event events ih =>
    refine (ih fun other mem => apart other (by simp [mem])).cons fun e cause slot _ fresh => ?_
    simp [apart event (by simp)] at fresh

theorem path_quiet {events : List Event} (quiet : ∀ event ∈ events, event.Quiet) :
    path (events ++ journal) = path journal := by
  induction events with
  | nil => rfl
  | cons event events ih =>
    have rest := ih fun other mem => quiet other (by simp [mem])
    have own := quiet event (by simp)
    cases event with
    | entered => cases own.entered
    | left => cases own.exited
    | _ => exact rest

theorem exists_of_raised_eq {e : Exception} {rest : List Exception}
    (h : raised journal = e :: rest) :
    ∃ later cause slot earlier, journal = later ++ .raised e cause slot :: earlier ∧
      (Event.raised e cause slot).fresh? = some e ∧ raised later = [] := by
  induction journal with
  | nil => cases h
  | cons event journal ih =>
    rw [raised_cons] at h
    cases fresh : event.fresh? with
    | none =>
      rw [fresh] at h
      obtain ⟨later, cause, slot, earlier, rfl, own, none⟩ := ih h
      exact ⟨event :: later, cause, slot, earlier, rfl, own, by rw [raised_cons, fresh, none]; rfl⟩
    | some first =>
      rw [fresh] at h
      obtain ⟨rfl, -⟩ := List.cons.inj h
      cases event with
      | raised e cause slot =>
        obtain rfl : e = first := by
          cases cause <;> simp_all [Event.fresh?]
        exact ⟨[], cause, slot, journal, rfl, fresh, rfl⟩
      | _ => cases fresh

end Journals

/-- A stack whose journal leads to its frames, and says where its exceptions came from. -/
structure Stack.Traced (s : Stack) : Prop where
  path : path s.journal = s.frames.map (·.position)
  sourced : Sourced s.document s.journal

namespace Coroutine

variable {env : Environment} {co next : Coroutine} {f g : Frame} {outer : List Frame} {el : Element}

theorem Leaves.traced (leaves : Leaves co next f outer) (h : co.stack.Traced) :
    next.stack.Traced := by
  have exits : ∀ event ∈ .left f.position :: co.committing f, event.Exits := by
    intro event mem
    rcases List.mem_cons.mp mem with rfl | mem
    · exact .left
    · exact exits_of_mem_committing mem
  constructor
  · have inner : path (co.committing f ++ co.stack.journal) = path co.stack.journal := by
      rcases committing_cases co f with none | ⟨_, _, _, _, _, committing⟩
      · rw [none]
        rfl
      · rw [committing]
        rfl
    have places : (co.receiving f outer).map (·.position) = outer.map (·.position) := by
      cases outer <;> simp [receiving]
    rw [leaves.journal, leaves.frames, places, List.cons_append, MarkupMachine.path, inner, h.path,
      leaves.before]
    rfl
  · rw [leaves.document, leaves.journal]
    refine h.sourced.apart fun event mem => ?_
    cases exits event mem <;> rfl

theorem traced_of_quiet {t : Stack} (h : co.stack.Traced) (frames : co.stack.frames = f :: outer)
    (events : List Event) (changed : t.frames = g :: outer)
    (document : t.document = co.stack.document) (journal : t.journal = events ++ co.stack.journal)
    (quiet : ∀ event ∈ events, event.Quiet) (position : g.position = f.position)
    (sourced : Sourced co.stack.document (events ++ co.stack.journal)) : t.Traced := by
  refine ⟨?_, ?_⟩
  · rw [journal, path_quiet quiet, h.path, frames, changed]
    simp [position]
  · rw [document, journal]
    exact sourced

theorem Live.traced_of_transition (live : co.Live) (standard : env.evaluator = .standard)
    (rule : Transition env co next) (h : co.stack.Traced) : next.stack.Traced := by
  cases rule with
  | opens entering | idles entering =>
    exact traced_of_quiet h entering.frames [] rfl rfl rfl (by simp) rfl h.sourced
  | fails entering failed =>
    refine traced_of_quiet h entering.frames [_] rfl rfl rfl (.alone ⟨rfl, rfl⟩) rfl
      (h.sourced.cons fun e cause slot same _ => ?_)
    cases same
    exact ⟨_, _, _, by rw [h.path, entering.frames]; rfl, entering.element,
      .setUp (Exception.names_atElement _ (failed.bare standard))⟩
  | asks entering | catches entering =>
    exact traced_of_quiet h entering.frames [_] rfl rfl rfl (.alone ⟨rfl, rfl⟩) rfl
      (h.sourced.cons fun e cause slot same => by cases same)
  | misses entering =>
    exact traced_of_quiet h entering.frames [_] rfl rfl rfl (.alone ⟨rfl, rfl⟩) rfl
      (h.sourced.cons fun e cause slot same fresh => by cases fresh)
  | fumbles entering =>
    refine traced_of_quiet h entering.frames [_] rfl rfl rfl (.alone ⟨rfl, rfl⟩) rfl
      (h.sourced.cons fun e cause slot same _ => ?_)
    cases same
    exact ⟨_, _, _, by rw [h.path, entering.frames]; rfl, entering.element,
      .handling (Exception.names_atElement _ rfl)⟩
  | wakes due | responds due =>
    exact traced_of_quiet h due.frames [_] rfl rfl rfl (.alone ⟨rfl, rfl⟩) rfl
      (h.sourced.cons fun e cause slot same => by cases same)
  | @breaks kind _ f outer _ el c e due same element resume broken =>
    -- The kind of a frame is that of its element, so that each way to break tells the tag.
    obtain ⟨el', element', own⟩ := (live.fits due.frames).element
    cases element.symm.trans element'
    have tag : ElementKind.ofTag el.tag = kind := own.symm.trans same
    have taken : Sourced co.stack.document (.consumed (some f.position) c :: co.stack.journal) :=
      h.sourced.cons fun _ _ _ same => by cases same
    refine traced_of_quiet h due.frames [_, _] rfl rfl rfl (.both ⟨rfl, rfl⟩ ⟨rfl, rfl⟩) rfl
      (taken.cons fun e cause slot same _ => ?_)
    cases same
    have inner : path (.consumed (some f.position) c :: co.stack.journal) =
        f.position :: outer.map (·.position) := by
      simp [path, h.path, due.frames]
    refine ⟨f.position, _, el, inner, element, ?_⟩
    cases broken with
    | sleep => exact .slept tag
    | request => exact .failed tag (Exception.atElement_attributes el _)
    | refused refused => exact .refused tag refused (Exception.names_atElement el rfl)
  | exhausts due => exact traced_of_quiet h due.frames [] rfl rfl rfl (by simp) rfl h.sourced
  | enters due =>
    refine ⟨?_, h.sourced.cons fun e cause slot same => by cases same⟩
    simp [onStack, path, h.path, due.frames, Frame.enter]
  | leaves due => exact Leaves.traced ⟨due.frames, rfl, rfl, rfl, rfl⟩ h
  | completes due => exact Leaves.traced (Leaves.complete ⟨due.frames, rfl, rfl, rfl, rfl⟩) h

theorem traced_of_fails {fault : Fault} (rule : co.Fails fault next) (h : co.stack.Traced) :
    next.stack.Traced := by
  cases rule with
  | overflow due | misplaced due =>
    exact traced_of_quiet h due.frames [] rfl rfl rfl (by simp) rfl h.sourced
  | displayed due | timed due =>
    exact traced_of_quiet h due.frames [_] due.frames rfl rfl
      (.alone ⟨rfl, rfl⟩) rfl
      (h.sourced.cons fun _ _ _ same => by cases same)

theorem Live.traced_resumeWith (live : co.Live) (c : Completion) (h : co.stack.Traced) :
    (co.resumeWith c).stack.Traced := by
  obtain ⟨f, outer, frames, -⟩ := live.standing
  exact traced_of_quiet h frames [_] frames rfl rfl
    (.alone ⟨rfl, rfl⟩) rfl
    (h.sourced.cons fun _ _ _ same => by cases same)

theorem traced_start (limit id : Nat) (doc : Document) (root : NodeId) (kind : ElementKind) :
    (start limit id doc root kind).stack.Traced := by
  refine ⟨rfl, ?_⟩
  have nothing : Sourced doc [] := fun later _ _ _ _ same => by simp at same
  exact nothing.cons fun _ _ _ same => by cases same

theorem Driven.exists_source {admits : Coroutine → Completion → Prop} (driven : Driven admits co)
    (traced : co.stack.Traced) {e : Exception} (flying : co.stack.flying co.outcome = some e) :
    ∃ later cause slot earlier id around el,
      co.stack.journal = later ++ .raised e cause slot :: earlier ∧ raised later = [] ∧
      path earlier = id :: around ∧ co.stack.document.element? id = some el ∧
      Arises el id earlier cause e := by
  obtain ⟨settled, settles⟩ := driven.settles
  have latest := settles.raised_eq
  rw [flying] at latest
  obtain ⟨later, cause, slot, earlier, journal, fresh, none⟩ := exists_of_raised_eq latest
  obtain ⟨id, around, el, inner, element, arises⟩ :=
    traced.sourced later e cause slot earlier journal fresh
  exact ⟨later, cause, slot, earlier, id, around, el, journal, none, inner, element, arises⟩

end Coroutine

/-- An exception names an element, unless it is what the timer of a sleep failed with. -/
theorem Arises.named_or_slept {el : Element} {id : NodeId} {journal : List Event} {cause : Cause}
    {e : Exception} (h : Arises el id journal cause e) : e.element? ≠ none ∨
      ElementKind.ofTag el.tag = .sleep ∧ cause = .wait ∧
        ∃ earlier, journal = .consumed (some id) (.failed e) :: earlier := by
  cases h with
  | setUp names | handling names | refused _ _ names => exact .inl (by simp [names.element?_eq])
  | @failed _ given _ _ attributes =>
    refine .inl ?_
    by_cases bare : given.element? = none
    · simp [(attributes.bare bare).element?_eq]
    · rw [attributes.kept bare]
      exact bare
  | slept sleep => exact .inr ⟨sleep, rfl, _, rfl⟩

end MarkupMachine
