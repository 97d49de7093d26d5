import MarkupMachine.Proofs.Machine.Transition

/-! What a catch does with the exception in flight when it has just been entered. Its attributes
are judged by five checks each, in document order, and the value they leave by one more; the
judgement is stated apart from the filter that computes it. -/

namespace MarkupMachine
namespace Catcher

inductive Check where
  | named
  | single
  | assigned
  | valued
  | evaluated
  deriving DecidableEq

def Check.rank : Check → Nat
  | .named => 0
  | .single => 1
  | .assigned => 2
  | .valued => 3
  | .evaluated => 4

section Judgement

variable (value : Expression → Except Exception Value)

/-- An attribute that no check objects to, after some others. -/
structure Passes (earlier : List Attribute) (a : Attribute) : Prop where
  named : a.name = "for"
  single : ∀ b ∈ earlier, b.name ≠ a.name
  assigned : a.operator = .assign
  evaluated : ∃ x v, a.value = some x ∧ value x = .ok v

inductive Violates (earlier : List Attribute) (a : Attribute) : Check → Exception → Prop where
  | named : a.name ≠ "for" → Violates earlier a .named
    (.raised .notImplemented s!"unknown attribute `{a.name}` on <catch>")
  | single {b} : b ∈ earlier → b.name = a.name →
    Violates earlier a .single (.raised .duplicateName "duplicate attribute `for`")
  | assigned : a.operator ≠ .assign → Violates earlier a .assigned
    (.raised .invalidValue s!"unsupported operator `{a.operator.text}` for `for`")
  | valued : a.value = none →
    Violates earlier a .valued (.raised .invalidValue "attribute `for` requires a value")
  | evaluated {x e} : a.value = some x → value x = .error e → Violates earlier a .evaluated e

def PassAll (attributes : List Attribute) : Prop :=
  ∀ earlier a later, attributes = earlier ++ a :: later → Passes value earlier a

inductive Accepts (attributes : List Attribute) : Option String → Prop where
  | bare : attributes = [] → Accepts attributes none
  | filter {earlier a x s} : PassAll value attributes → attributes = earlier ++ [a] →
    a.value = some x → value x = .ok (.text s) → Accepts attributes (some s)

/-- The attributes make no filter: one of them violates a check, first of all that are violated,
or all of them pass and the value of the last is no text. -/
inductive Objects (attributes : List Attribute) : Exception → Prop where
  | check {earlier a later check e} : attributes = earlier ++ a :: later → PassAll value earlier →
    Violates value earlier a check e →
    (∀ other o, other.rank < check.rank → ¬ Violates value earlier a other o) →
    Objects attributes e
  | last {earlier a x v} : PassAll value attributes → attributes = earlier ++ [a] →
    a.value = some x → value x = .ok v → (∀ s, v ≠ .text s) →
    Objects attributes (.raised .wrongDataType s!"`for` must be a string, got {v.kind}")

/-- The judgement as a filter gives it. -/
def Judges (attributes : List Attribute) : Except Exception (Option String) → Prop
  | .ok filter => Accepts value attributes filter
  | .error e => Objects value attributes e

end Judgement

section Laws

variable {value : Expression → Except Exception Value} {attributes earlier : List Attribute}
  {a : Attribute} {e : Exception} {filter : Option String}

theorem Passes.not_violates {check : Check} (passes : Passes value earlier a) :
    ¬ Violates value earlier a check e := by
  rintro (other | ⟨mem, same⟩ | other | none | ⟨some, failed⟩)
  · exact other passes.named
  · exact passes.single _ mem same
  · exact other passes.assigned
  · obtain ⟨x, v, some, -⟩ := passes.evaluated
    simp [none] at some
  · obtain ⟨x, v, some', ok⟩ := passes.evaluated
    cases some.symm.trans some'
    simp [failed] at ok

theorem first_of_met {check : Check} (named : 0 < check.rank → a.name = "for")
    (single : 1 < check.rank → ∀ b ∈ earlier, b.name ≠ a.name)
    (assigned : 2 < check.rank → a.operator = .assign) (valued : 3 < check.rank → a.value ≠ none) :
    ∀ other o, other.rank < check.rank → ¬ Violates value earlier a other o := by
  rintro _ _ less (other | ⟨mem, same⟩ | other | none | -)
  · exact other (named less)
  · exact single less _ mem same
  · exact other (assigned less)
  · exact valued less none
  · cases check <;> simp [Check.rank] at less

theorem Violates.unique {check other : Check} {o : Exception}
    (violates : Violates value earlier a check e)
    (first : ∀ other o, other.rank < check.rank → ¬ Violates value earlier a other o)
    (violates' : Violates value earlier a other o)
    (first' : ∀ check e, check.rank < other.rank → ¬ Violates value earlier a check e) : e = o := by
  have least : ¬ other.rank < check.rank := fun less => first _ _ less violates'
  have least' : ¬ check.rank < other.rank := fun less => first' _ _ less violates
  cases violates <;> cases violates' <;> simp_all [Check.rank]

theorem passAll_nil : PassAll value [] := by
  intro earlier a later split
  simp at split

theorem passAll_snoc : PassAll value (earlier ++ [a]) ↔
    PassAll value earlier ∧ Passes value earlier a := by
  constructor
  · intro all
    refine ⟨fun before b later split => ?_, all earlier a [] rfl⟩
    exact all before b (later ++ [a]) (by simp [split])
  · rintro ⟨all, passes⟩ before b later split
    rcases List.eq_nil_or_concat later with rfl | ⟨later, c, rfl⟩
    · obtain ⟨rfl, same⟩ := List.append_inj' split rfl
      cases same
      exact passes
    · have split : earlier ++ [a] = (before ++ b :: later) ++ [c] := by simpa using split
      exact all before b later (List.append_inj' split rfl).1

theorem last_unique {earlier' : List Attribute} {b : Attribute}
    (split : attributes = earlier ++ [a]) (split' : attributes = earlier' ++ [b]) : a = b := by
  simpa using (List.append_inj' (split.symm.trans split') rfl).2

theorem split_unique {earlier' later later' : List Attribute} {b : Attribute}
    (all : PassAll value earlier) (fails : ¬ Passes value earlier a)
    (all' : PassAll value earlier') (fails' : ¬ Passes value earlier' b)
    (same : earlier ++ a :: later = earlier' ++ b :: later') : earlier = earlier' ∧ a = b := by
  rcases List.append_eq_append_iff.mp same with ⟨between, rfl, rest⟩ | ⟨between, rfl, rest⟩
  · cases between with
    | nil => simp_all
    | cons c between =>
      obtain ⟨rfl, -⟩ := List.cons.inj rest
      exact absurd (all' earlier a between rfl) fails
  · cases between with
    | nil => simp_all
    | cons c between =>
      obtain ⟨rfl, -⟩ := List.cons.inj rest
      exact absurd (all earlier' b between rfl) fails'

theorem Accepts.passAll (accepts : Accepts value attributes filter) : PassAll value attributes := by
  cases accepts with
  | bare empty => exact empty ▸ passAll_nil
  | filter all => exact all

theorem Accepts.unique {other : Option String} (accepts : Accepts value attributes filter)
    (accepts' : Accepts value attributes other) : filter = other := by
  cases accepts with
  | bare empty =>
    cases accepts' with
    | bare => rfl
    | filter _ split => simp [empty] at split
  | filter _ split some ok =>
    cases accepts' with
    | bare empty => simp [empty] at split
    | filter _ split' some' ok' =>
      cases last_unique split split'
      cases some.symm.trans some'
      cases ok.symm.trans ok'
      rfl

theorem Accepts.not_objects (accepts : Accepts value attributes filter) :
    ¬ Objects value attributes e := by
  intro objects
  cases objects with
  | check split _ violates => exact (accepts.passAll _ _ _ split).not_violates violates
  | last _ split some ok other =>
    cases accepts with
    | bare empty => simp [empty] at split
    | filter _ split' some' ok' =>
      cases last_unique split split'
      cases some.symm.trans some'
      exact other _ (Except.ok.inj (ok.symm.trans ok'))

theorem Objects.unique {o : Exception} (objects : Objects value attributes e)
    (objects' : Objects value attributes o) : e = o := by
  cases objects with
  | check split all violates first =>
    cases objects' with
    | check split' all' violates' first' =>
      obtain ⟨rfl, rfl⟩ := split_unique all (fun passes => passes.not_violates violates) all'
        (fun passes => passes.not_violates violates') (split.symm.trans split')
      exact violates.unique first violates' first'
    | last all' => exact absurd violates (all' _ _ _ split).not_violates
  | last all split some ok =>
    cases objects' with
    | check split' _ violates' => exact absurd violates' (all _ _ _ split').not_violates
    | last _ split' some' ok' =>
      cases last_unique split split'
      cases some.symm.trans some'
      cases ok.symm.trans ok'
      rfl

end Laws

/-! The filter walks over the attributes with the value of the last one in hand. -/

inductive Holds (value : Expression → Except Exception Value) :
    List Attribute → Option Value → Prop where
  | none : Holds value [] none
  | some {earlier a x v} : a.value = some x → value x = .ok v →
    Holds value (earlier ++ [a]) (some v)

theorem valueOf_run (env : Environment) (stack : Stack) (x : Expression) (asked : List String) :
    ((env.valueOf stack (some x)).run.run asked) =
      (env.evaluator.evaluate (env.scope stack) x, asked ++ env.evaluator.asks x) := by
  cases ok : env.evaluator.evaluate (env.scope stack) x <;>
    simp only [Environment.valueOf, ok] <;> rfl

theorem filter_judges (env : Environment) (stack : Stack) (later : List Attribute) :
    ∀ (earlier : List Attribute) (found : Option Value) (asked : List String),
    PassAll (env.evaluator.evaluate (env.scope stack)) earlier →
    Holds (env.evaluator.evaluate (env.scope stack)) earlier found →
    Judges (env.evaluator.evaluate (env.scope stack)) (earlier ++ later)
      ((filter (env.valueOf stack) later found).run.run asked).1 := by
  generalize known : env.evaluator.evaluate (env.scope stack) = value
  induction later with
  | nil =>
    intro earlier found asked all holds
    rw [List.append_nil]
    cases holds with
    | none => exact .bare rfl
    | @some before a x v some ok =>
      cases v with
      | text s => exact .filter all rfl some ok
      | _ => exact .last all rfl some ok (by simp)
  | cons a rest ih =>
    intro earlier found asked all holds
    by_cases named : a.name = "for"
    case neg =>
      simp only [filter, ne_eq, named, not_false_eq_true, if_true]
      exact .check rfl all (.named named) (first_of_met nofun nofun nofun nofun)
    cases holds with
    | @some before b x v some ok =>
      -- A value in hand came from an attribute that passed, which has the name that is due.
      have same := (all before b [] rfl).named
      have violates : Violates value (before ++ [b]) a .single _ :=
        .single (by simp) (same.trans named.symm)
      simp only [filter, ne_eq, named, not_true_eq_false, if_false, Option.isSome_some, if_true]
      exact .check rfl all violates (first_of_met (fun _ => named) nofun nofun nofun)
    | none =>
      have single : ∀ b ∈ ([] : List Attribute), b.name ≠ a.name := nofun
      by_cases assigned : a.operator = .assign
      case neg =>
        simp only [filter, ne_eq, named, assigned, not_true_eq_false, not_false_eq_true, if_false,
          if_true, Option.isSome_none, Bool.false_eq_true]
        exact .check rfl all (.assigned assigned)
          (first_of_met (fun _ => named) (fun _ => single) nofun nofun)
      cases given : a.value with
      | none =>
        simp only [filter, ne_eq, named, assigned, given, not_true_eq_false, if_false, if_true,
          Option.isSome_none, Option.isNone_none, Bool.false_eq_true]
        exact .check rfl all (.valued given)
          (first_of_met (fun _ => named) (fun _ => single) (fun _ => assigned) nofun)
      | some x =>
        simp only [filter, ne_eq, named, assigned, given, not_true_eq_false, if_false,
          Option.isSome_none, Option.isNone_some, Bool.false_eq_true, ExceptT.run_bind,
          StateT.run_bind, valueOf_run, known]
        cases ok : value x with
        | error e =>
          exact .check rfl all (.evaluated given ok) (first_of_met (fun _ => named)
            (fun _ => single) (fun _ => assigned) (fun _ => by simp [given]))
        | ok v =>
          have passes : Passes value [] a := ⟨named, single, assigned, x, v, given, ok⟩
          exact ih [a] (some v) (asked ++ env.evaluator.asks x) (passAll_snoc.mpr ⟨all, passes⟩)
            (@Holds.some value [] a x v given ok)

/-- What is settled by the first operation of a catch: the exception in the slot, the one that the
frame keeps, its `?`, and the step it goes on with. -/
structure Decision where
  slot : Option Exception
  caught : Option Exception
  question : Value
  next : NextStep

def decided (co : Coroutine) (f : Frame) (outer : List Frame) (d : Decision) (events : List Event)
    (asked : List String) : Coroutine :=
  { co with
    asked
    stack := { co.stack with
      frames := { f.setSymbol .question d.question with
        context := some ⟨co.stack.document.children f.position, .catcher d.caught⟩
        next := d.next } :: outer
      exception := d.slot
      stats := (co.stack.stats.release f.context).install
      journal := events ++ co.stack.journal } }

section Operation

variable {env : Environment} {co : Coroutine} {f : Frame} {outer : List Frame} {el : Element}
  {asked : List String}

theorem setSymbol_same (f : Frame) (s : Symbol) : f.setSymbol s (f.symbols s) = f := by
  have symbols : (fun t => if t = s then f.symbols s else f.symbols t) = f.symbols := by
    funext t
    split <;> simp_all
  simp only [Frame.setSymbol, symbols]

theorem installed_anew (frames : co.stack.frames = f :: outer) (g : Frame) (state : ContextState) :
    co.installed g state = .ok { co with stack := { co.stack with
      frames := { f with context := some ⟨co.stack.document.children g.position, state⟩ } :: outer
      stats := (co.stack.stats.release f.context).install } } := by
  simp [Coroutine.installed, Stack.install, frames, bind, Except.bind, pure, Except.pure]

section Exits

variable (frames : co.stack.frames = f :: outer)
  (element : co.stack.document.element? f.position = some el)
include frames element

theorem afterPushed_calm (calm : co.stack.exception = none) : Catcher.afterPushed env co =
    .ok (decided co f outer ⟨none, none, f.symbols .question, .onPopping⟩ [] co.asked) := by
  simp only [Catcher.afterPushed, Coroutine.element?_eq _ frames element, calm,
    installed_anew frames, bind, Except.bind, decided, setSymbol_same]
  simp [pure, Except.pure, Coroutine.onStack, Stack.setNext, Stack.modifyTop, ← calm]

variable {e : Exception} (flying : co.stack.exception = some e)
include flying

theorem afterPushed_error {own : Exception}
    (run : (filter (env.valueOf co.cleared.stack) el.attributes none).run.run co.asked =
      (.error own, asked)) :
    Catcher.afterPushed env co = .ok (decided co f outer
      ⟨some ((failure own e).atElement el), none, f.symbols .question, .onPopping⟩
      [.raised ((failure own e).atElement el) (.handling e) none] asked) := by
  have setup := Coroutine.runSetup_eq co.cleared run
  rw [Coroutine.cleared] at setup
  have frames' : ({ co.onStack Stack.clear with asked } : Coroutine).stack.frames = f :: outer :=
    frames
  simp only [Catcher.afterPushed, Coroutine.element?_eq _ frames element, flying, setup,
    installed_anew frames', bind, Except.bind, decided, setSymbol_same]
  rfl

theorem afterPushed_ok {filter : Option String}
    (run : (Catcher.filter (env.valueOf co.cleared.stack) el.attributes none).run.run co.asked =
      (.ok filter, asked)) :
    Catcher.afterPushed env co = .ok (
      if filterAccepts filter e.category then
        decided co f outer ⟨none, some e, e.toValue, .selectChild⟩ [.caught e] asked
      else decided co f outer ⟨some e, none, f.symbols .question, .onPopping⟩
        [.raised e .missed none] asked) := by
  have setup := Coroutine.runSetup_eq co.cleared run
  rw [Coroutine.cleared] at setup
  have frames' : ({ co.onStack Stack.clear with asked } : Coroutine).stack.frames = f :: outer :=
    frames
  have marked : (({ co.onStack Stack.clear with asked } : Coroutine).onStack
      (·.modifyTop (·.setSymbol .question e.toValue))).stack.frames =
      f.setSymbol .question e.toValue :: outer := by
    simp [Coroutine.onStack, Stack.clear, Stack.modifyTop, frames]
  simp only [Catcher.afterPushed, Coroutine.element?_eq _ frames element, flying, setup,
    bind, Except.bind, decided, setSymbol_same]
  split
  · rw [installed_anew marked]
    simp [pure, Except.pure, Coroutine.onStack, Stack.setNext, Stack.modifyTop, Stack.note,
      Stack.clear, frames]
  · rw [installed_anew frames']
    rfl

end Exits

theorem step_decided {d : Decision} {events : List Event} (frames : co.stack.frames = f :: outer)
    (kind : f.kind = .catcher) (due : f.next = .afterPushed)
    (done : Catcher.afterPushed env co = .ok (decided co f outer d events asked)) :
    co.step env = (decided co f outer d events asked, none) := by
  refine Coroutine.step_of_operate frames ?_ (by simp [decided])
  simp only [Coroutine.operate, due, kind, Coroutine.afterPushed, done]

end Operation

structure Does (env : Environment) (co co' : Coroutine) : Prop where
  operation : Catcher.afterPushed env co = .ok co'
  step : co.step env = (co', none)

structure Departs (co : Coroutine) (outer : List Frame) : Prop where
  succeeds : ∀ env, (co.step env).2 = none
  frames : ∀ env, (co.step env).1.stack.frames = outer
  pushed : ∀ env, (co.step env).1.stack.stats.framesPushed = co.stack.stats.framesPushed

theorem departs_decided {co : Coroutine} {f : Frame} {outer : List Frame} {d : Decision}
    (events : List Event) (asked : List String) (kind : f.kind = .catcher)
    (leaving : d.next = .onPopping) : Departs (decided co f outer d events asked) outer := by
  generalize decision : decided co f outer d events asked = after
  obtain ⟨g, frames, next, same⟩ : ∃ g, after.stack.frames = g :: outer ∧ g.next = .onPopping ∧
      g.kind = .catcher := by
    subst decision
    exact ⟨_, rfl, leaving, kind⟩
  have step (env : Environment) : after.step env =
      (if outer.isEmpty then (after.onStack Stack.pop).complete else after.onStack Stack.pop,
        none) := by
    simp [Coroutine.step, Stack.top?, frames, Coroutine.operate, next, same, Coroutine.onPopping,
      Coroutine.onStack, Stack.pop]
  have popped : (after.onStack Stack.pop).stack.frames = outer := by
    simp [Coroutine.onStack, Stack.pop, frames]
  have counted : (after.onStack Stack.pop).stack.stats.framesPushed =
      after.stack.stats.framesPushed := by
    simp [Coroutine.onStack, Stack.pop, frames, Stats.leave, Stats.release]
  have completed (co : Coroutine) : co.complete.stack.frames = co.stack.frames ∧
      co.complete.stack.stats = co.stack.stats := by
    unfold Coroutine.complete
    split <;> exact ⟨rfl, rfl⟩
  constructor <;> intro env <;> rw [step env] <;> split <;> simp [completed, popped, counted]

/-- What becomes of the exception in flight at a catch. The values of the attributes are those that
the evaluator finds when the slot has been emptied. -/
structure Decides (env : Environment) (co : Coroutine) (f : Frame) (outer : List Frame)
    (el : Element) : Prop where
  calm : co.stack.exception = none → ∀ env,
    Does env co (decided co f outer ⟨none, none, f.symbols .question, .onPopping⟩ [] co.asked)
  judged : ∃ verdict,
    Judges (env.evaluator.evaluate (env.scope co.cleared.stack)) el.attributes verdict ∧
    ∀ other, Judges (env.evaluator.evaluate (env.scope co.cleared.stack)) el.attributes other →
      other = verdict
  catches : ∀ e filter, co.stack.exception = some e →
    Accepts (env.evaluator.evaluate (env.scope co.cleared.stack)) el.attributes filter →
    filterAccepts filter e.category = true →
    ∃ asked, Does env co
      (decided co f outer ⟨none, some e, e.toValue, .selectChild⟩ [.caught e] asked)
  misses : ∀ e filter, co.stack.exception = some e →
    Accepts (env.evaluator.evaluate (env.scope co.cleared.stack)) el.attributes filter →
    filterAccepts filter e.category = false →
    ∃ asked co', Does env co co' ∧ Departs co' outer ∧ co' = decided co f outer
      ⟨some e, none, f.symbols .question, .onPopping⟩ [.raised e .missed none] asked
  objects : ∀ e own, co.stack.exception = some e →
    Objects (env.evaluator.evaluate (env.scope co.cleared.stack)) el.attributes own →
    ∃ new asked co', Does env co co' ∧ Departs co' outer ∧ co' = decided co f outer
      ⟨some new, none, f.symbols .question, .onPopping⟩ [.raised new (.handling e) none] asked ∧
      new = ⟨own.category, some {
        message := own.message?.getD "" ++ s!" (while handling {e.category})"
        element := some el.tag
        position := el.position }⟩

theorem Judges.unique {value : Expression → Except Exception Value} {attributes : List Attribute}
    {verdict other : Except Exception (Option String)} (judges : Judges value attributes verdict)
    (judges' : Judges value attributes other) : other = verdict := by
  cases verdict <;> cases other
  · exact congrArg _ (Objects.unique judges' judges)
  · exact absurd judges (Accepts.not_objects judges')
  · exact absurd judges' (Accepts.not_objects judges)
  · exact congrArg _ (Accepts.unique judges' judges)

/-- An entered catch settles the exception in flight, whatever its attributes are and however they
evaluate. -/
theorem afterPushed_decides (env : Environment) {co : Coroutine} {f : Frame} {outer : List Frame}
    {el : Element} (frames : co.stack.frames = f :: outer) (kind : f.kind = .catcher)
    (due : f.next = .afterPushed)
    (element : co.stack.document.element? f.position = some el) : Decides env co f outer el := by
  have judges := filter_judges env co.cleared.stack el.attributes [] none co.asked passAll_nil .none
  rcases run : (filter (env.valueOf co.cleared.stack) el.attributes none).run.run co.asked with
    ⟨verdict, asked⟩
  rw [run, List.nil_append] at judges
  constructor
  case calm =>
    intro calm env
    have done : Catcher.afterPushed env co = _ := afterPushed_calm frames element calm
    exact ⟨done, step_decided frames kind due done⟩
  case judged => exact ⟨verdict, judges, fun _ => judges.unique⟩
  case catches =>
    intro e filter flying accepts matched
    obtain rfl : Except.ok filter = verdict := judges.unique accepts
    have done := afterPushed_ok frames element flying run
    rw [if_pos matched] at done
    exact ⟨asked, done, step_decided frames kind due done⟩
  case misses =>
    intro e filter flying accepts other
    obtain rfl : Except.ok filter = verdict := judges.unique accepts
    have done := afterPushed_ok frames element flying run
    rw [if_neg (by simp [other])] at done
    exact ⟨asked, _, ⟨done, step_decided frames kind due done⟩, departs_decided _ _ kind rfl, rfl⟩
  case objects =>
    intro e own flying objects
    obtain rfl : Except.error own = verdict := judges.unique objects
    have done := afterPushed_error frames element flying run
    exact ⟨_, asked, _, ⟨done, step_decided frames kind due done⟩, departs_decided _ _ kind rfl,
      rfl, rfl⟩

/-- A catch with a filter that is no text, entered while there is an exception to handle. -/
def misled : Coroutine :=
  let attributes := [{ name := "for", value := some (.literal (.bool true)) }]
  { id := 1
    stack := {
      document := { number := 0, nodes := #[
        { kind := .document, firstChild := some 1, lastChild := some 1 },
        { kind := .element { tag := "catch", attributes }, parent := some 0 }] }
      limit := 8
      frames := [Frame.enter .catcher 1]
      exception := some (.raised .noData "nothing there") } }

theorem afterPushed_decides_misled : ∃ f el, misled.stack.frames = [f] ∧ f.kind = .catcher ∧
    f.next = .afterPushed ∧ misled.stack.document.element? f.position = some el ∧
    Decides {} misled f [] el :=
  ⟨_, _, rfl, rfl, rfl, rfl, afterPushed_decides {} rfl rfl rfl rfl⟩

end Catcher
end MarkupMachine
