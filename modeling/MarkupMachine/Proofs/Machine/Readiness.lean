import Mathlib.Data.List.Induction
import Mathlib.Data.List.Nodup
import MarkupMachine.Proofs.Duration
import MarkupMachine.Proofs.Machine.Transition

/-! The set-up of an element is all or nothing. What attributes have to be is said apart from the
loops that read them: names that are known, each only once, and a value of the right kind for each.
An element whose attributes are so comes to its children, or to its one wait; of any other the first
objection is raised, and nothing else of it is left behind. -/

namespace MarkupMachine

def Environment.valueAt (env : Environment) (stack : Stack) (a : Attribute) :
    Except Exception Value :=
  match a.value with
  | none => .ok .null
  | some x => env.evaluator.evaluate (env.scope stack) x

theorem Environment.run_valueOf (env : Environment) (stack : Stack) (a : Attribute)
    (asked : List String) :
    ∃ more, (env.valueOf stack a.value).run.run asked = (env.valueAt stack a, asked ++ more) := by
  cases given : a.value with
  | none => exact ⟨[], by simp only [valueOf, valueAt, given, List.append_nil]; rfl⟩
  | some x =>
    refine ⟨env.evaluator.asks x, ?_⟩
    simp only [valueOf, valueAt, given]
    cases env.evaluator.evaluate (env.scope stack) x <;> rfl

namespace ElementKind

def Knows : ElementKind → String → Prop
  | .structural, _ => True
  | .catcher, name | .sleep, name => name = "for"
  | .request, name => name ∈ Requester.names

instance : (kind : ElementKind) → (name : String) → Decidable (kind.Knows name)
  | .structural, _ => inferInstanceAs (Decidable True)
  | .catcher, name | .sleep, name => inferInstanceAs (Decidable (name = "for"))
  | .request, name => inferInstanceAs (Decidable (name ∈ Requester.names))

end ElementKind

section Reading

variable (kind : ElementKind) (value : Attribute → Except Exception Value)

structure Legible (attributes : List Attribute) : Prop where
  known : ∀ a ∈ attributes, kind.Knows a.name
  distinct : (attributes.map (·.name)).Nodup
  valued : ∀ a ∈ attributes, ∃ v, value a = .ok v

/-- Why an attribute cannot be read after some others: the first of three checks that fails. -/
inductive Illegible (earlier : List Attribute) (a : Attribute) : Exception → Prop where
  | unknown : ¬ kind.Knows a.name →
    Illegible earlier a (.raised .notImplemented s!"unknown attribute `{a.name}` on <{kind.name}>")
  | repeated {b} : kind.Knows a.name → b ∈ earlier → b.name = a.name →
    Illegible earlier a (.raised .duplicateName s!"duplicate attribute `{a.name}`")
  | failed {e} : kind.Knows a.name → (∀ b ∈ earlier, b.name ≠ a.name) → value a = .error e →
    Illegible earlier a e

inductive Refuses (attributes : List Attribute) (e : Exception) : Prop where
  | first {earlier a later} : attributes = earlier ++ a :: later → Legible kind value earlier →
    Illegible kind value earlier a e → Refuses attributes e

def Gives (attributes : List Attribute) (name : String) (v : Value) : Prop :=
  ∃ a ∈ attributes, a.name = name ∧ value a = .ok v

/-- A table of names with the values that attributes give. -/
def Tabulates (attributes : List Attribute) (table : List (String × Value)) : Prop :=
  ∀ name v, Table.get? name table = some v ↔ Gives value attributes name v

end Reading

section Laws

variable {kind : ElementKind} {value : Attribute → Except Exception Value}
  {attributes earlier : List Attribute} {a : Attribute} {v : Value} {name : String}
  {table : List (String × Value)} {e : Exception}

theorem legible_nil : Legible kind value [] := ⟨nofun, List.nodup_nil, nofun⟩

theorem legible_snoc : Legible kind value (earlier ++ [a]) ↔
    Legible kind value earlier ∧ kind.Knows a.name ∧ (∀ b ∈ earlier, b.name ≠ a.name) ∧
      ∃ v, value a = .ok v := by
  constructor
  · rintro ⟨known, distinct, valued⟩
    simp only [List.map_append, List.map_cons, List.map_nil, List.nodup_append, List.mem_map,
      List.mem_singleton] at distinct
    refine ⟨⟨fun b mem => known b (by simp [mem]), distinct.1,
      fun b mem => valued b (by simp [mem])⟩, known a (by simp), fun b mem => ?_,
      valued a (by simp)⟩
    exact distinct.2.2 _ ⟨b, mem, rfl⟩ _ rfl
  · rintro ⟨⟨known, distinct, valued⟩, own, apart, there⟩
    refine ⟨fun b mem => ?_, ?_, fun b mem => ?_⟩
    · rcases List.mem_append.mp mem with mem | mem
      · exact known b mem
      · exact List.mem_singleton.mp mem ▸ own
    · simp only [List.map_append, List.map_cons, List.map_nil, List.nodup_append, List.mem_map,
        List.mem_singleton]
      refine ⟨distinct, List.nodup_singleton _, ?_⟩
      rintro _ ⟨b, mem, rfl⟩ _ rfl
      exact apart b mem
    · rcases List.mem_append.mp mem with mem | mem
      · exact valued b mem
      · exact List.mem_singleton.mp mem ▸ there

variable (kind value) in
theorem legible_or_refuses (attributes : List Attribute) :
    Legible kind value attributes ∨ ∃ e, Refuses kind value attributes e := by
  induction attributes using List.reverseRecOn with
  | nil => exact .inl legible_nil
  | append_singleton earlier a ih =>
    rcases ih with legible | ⟨e, ⟨rfl, before, illegible⟩⟩
    · by_cases known : kind.Knows a.name
      case neg => exact .inr ⟨_, .first rfl legible (.unknown known)⟩
      by_cases apart : ∀ b ∈ earlier, b.name ≠ a.name
      case neg =>
        simp only [not_forall, not_not] at apart
        obtain ⟨b, mem, same⟩ := apart
        exact .inr ⟨_, .first rfl legible (.repeated known mem same)⟩
      cases there : value a with
      | error e => exact .inr ⟨e, .first rfl legible (.failed known apart there)⟩
      | ok v => exact .inl (legible_snoc.mpr ⟨legible, known, apart, v, there⟩)
    · exact .inr ⟨e, .first (List.append_assoc _ _ _) before illegible⟩

theorem tabulates_nil : Tabulates value [] [] := by
  intro name v
  simp [Gives]

theorem Tabulates.snoc (tabulates : Tabulates value earlier table)
    (apart : ∀ b ∈ earlier, b.name ≠ a.name) (there : value a = .ok v) :
    Tabulates value (earlier ++ [a]) (Table.insert a.name v table) := by
  intro name w
  rw [Table.get?_insert]
  by_cases same : name = a.name
  · subst same
    rw [if_pos rfl]
    constructor
    · intro h
      cases h
      exact ⟨a, by simp, rfl, there⟩
    · rintro ⟨b, mem, named, there'⟩
      rcases List.mem_append.mp mem with mem | mem
      · exact absurd named (apart b mem)
      · obtain rfl := List.mem_singleton.mp mem
        rw [there] at there'
        rw [Except.ok.inj there']
  · rw [if_neg same, tabulates name w]
    constructor
    · rintro ⟨b, mem, rest⟩
      exact ⟨b, by simp [mem], rest⟩
    · rintro ⟨b, mem, named, there'⟩
      rcases List.mem_append.mp mem with mem | mem
      · exact ⟨b, mem, named, there'⟩
      · rw [List.mem_singleton.mp mem] at named
        exact absurd named.symm same

theorem Tabulates.contains_iff (tabulates : Tabulates value earlier table)
    (legible : Legible kind value earlier) :
    Table.contains name table = true ↔ ∃ b ∈ earlier, b.name = name := by
  rw [Table.contains, Option.isSome_iff_exists]
  constructor
  · rintro ⟨v, found⟩
    obtain ⟨b, mem, named, _⟩ := (tabulates name v).mp found
    exact ⟨b, mem, named⟩
  · rintro ⟨b, mem, named⟩
    obtain ⟨v, there⟩ := legible.valued b mem
    exact ⟨v, (tabulates name v).mpr ⟨b, mem, named, there⟩⟩

theorem Tabulates.fresh (tabulates : Tabulates value earlier table)
    (legible : Legible kind value earlier) (apart : ∀ b ∈ earlier, b.name ≠ name) :
    Table.contains name table = false := by
  rw [← Bool.not_eq_true, tabulates.contains_iff legible]
  rintro ⟨b, mem, same⟩
  exact apart b mem same

end Laws

/-! The three loops over attributes are one: they differ in the names that they know, and in what
they do with the values. -/

def collect (kind : ElementKind) (value : Option Expression → Setup Value) :
    List Attribute → List (String × Value) → Setup (List (String × Value))
  | [], done => return done
  | a :: rest, done => do
    if ¬ kind.Knows a.name then
      throw (Exception.raised .notImplemented s!"unknown attribute `{a.name}` on <{kind.name}>")
    if Table.contains a.name done then
      throw (Exception.raised .duplicateName s!"duplicate attribute `{a.name}`")
    collect kind value rest (Table.insert a.name (← value a.value) done)

section Loops

variable (value : Option Expression → Setup Value)

theorem collect_cons {kind : ElementKind} {a : Attribute} {done : List (String × Value)}
    (known : kind.Knows a.name) (fresh : Table.contains a.name done = false)
    (rest : List Attribute) : collect kind value (a :: rest) done =
      (value a.value >>= fun v => collect kind value rest (Table.insert a.name v done)) := by
  simp [collect, known, fresh]

theorem Structural.attributes_eq (attributes : List Attribute) (done : List (String × Value)) :
    Structural.attributes value attributes done = collect .structural value attributes done := by
  induction attributes generalizing done with
  | nil => rfl
  | cons a rest ih => simp [Structural.attributes, collect, ElementKind.Knows, ih]

theorem Requester.attributes_eq (attributes : List Attribute) (done : List (String × Value)) :
    Requester.attributes value attributes done = collect .request value attributes done := by
  induction attributes generalizing done with
  | nil => rfl
  | cons a rest ih =>
    simp [Requester.attributes, collect, ElementKind.Knows, ElementKind.name, ih,
      toString, String.append_assoc]

def Setup.ofExcept {α : Type} (result : Except Exception α) : Setup α := ExceptT.mk (pure result)

def Sleep.settle (table : List (String × Value)) : Except Exception Duration :=
  match Table.get? "for" table with
  | some v => duration v
  | none => .error (.raised .argumentMissed "<sleep> requires a `for` attribute")

theorem Sleep.argument_bind (attributes : List Attribute) (done : List (String × Value)) :
    (Sleep.argument value attributes (Table.get? "for" done) >>= fun v =>
        Setup.ofExcept (duration v)) =
      (collect .sleep value attributes done >>= fun table => Setup.ofExcept (settle table)) := by
  induction attributes generalizing done with
  | nil =>
    cases found : Table.get? "for" done <;>
      simp only [argument, collect, pure_bind, settle, found]
    rfl
  | cons a rest ih =>
    by_cases named : a.name = "for"
    case neg =>
      simp [argument, collect, ElementKind.Knows, ElementKind.name, named, toString,
        String.append_assoc]
    cases found : Table.get? "for" done with
    | some w => simp [argument, collect, ElementKind.Knows, named, Table.contains, found, toString]
    | none =>
      have next (v : Value) : some v = Table.get? "for" (Table.insert "for" v done) := by
        rw [Table.get?_insert, if_pos rfl]
      simp [argument, collect, ElementKind.Knows, named, Table.contains, found, next, ih]

theorem Sleep.setup_eq (el : Element) : Sleep.setup value el =
    (collect .sleep value el.attributes [] >>= fun table => Setup.ofExcept (settle table)) := by
  have read := argument_bind value el.attributes []
  rw [← read, setup]
  congr
  funext v
  cases duration v <;> rfl

theorem Requester.setup_eq (id : Uuid) (handle : UInt64) (el : Element) :
    Requester.setup value id handle el = (collect .request value el.attributes [] >>= fun table =>
      Setup.ofExcept (describe id handle table)) := by
  rw [setup, attributes_eq]
  congr
  funext table
  cases describe id handle table <;> rfl

end Loops

section Runs

variable {env : Environment} {stack : Stack} {kind : ElementKind} {earlier : List Attribute}
  {a : Attribute} {table : List (String × Value)}

theorem run_collect_cons {v : Value} (tabulates : Tabulates (env.valueAt stack) earlier table)
    (legible : Legible kind (env.valueAt stack) earlier) (known : kind.Knows a.name)
    (apart : ∀ b ∈ earlier, b.name ≠ a.name) (there : env.valueAt stack a = .ok v)
    (asked : List String) : ∃ more, ∀ later,
      (collect kind (env.valueOf stack) (a :: later) table).run.run asked =
        (collect kind (env.valueOf stack) later (Table.insert a.name v table)).run.run
          (asked ++ more) := by
  obtain ⟨more, run⟩ := env.run_valueOf stack a asked
  refine ⟨more, fun later => ?_⟩
  rw [collect_cons _ known (tabulates.fresh legible apart), ExceptT.run_bind, StateT.run_bind, run,
    there]
  rfl

theorem run_collect_append (later : List Attribute) {earlier : List Attribute}
    {table : List (String × Value)} (tabulates : Tabulates (env.valueAt stack) earlier table)
    (legible : Legible kind (env.valueAt stack) (earlier ++ later)) (asked : List String) :
    ∃ whole more, Tabulates (env.valueAt stack) (earlier ++ later) whole ∧ ∀ rest,
      (collect kind (env.valueOf stack) (later ++ rest) table).run.run asked =
        (collect kind (env.valueOf stack) rest whole).run.run (asked ++ more) := by
  induction later generalizing earlier table asked with
  | nil => exact ⟨table, [], by simpa using tabulates, fun rest => by simp⟩
  | cons a later ih =>
    have split : earlier ++ a :: later = (earlier ++ [a]) ++ later := by simp
    rw [split] at legible ⊢
    have first : Legible kind (env.valueAt stack) (earlier ++ [a]) :=
      ⟨fun b mem => legible.known b (List.mem_append_left _ mem),
        List.Nodup.of_append_left (by simpa using legible.distinct),
        fun b mem => legible.valued b (List.mem_append_left _ mem)⟩
    obtain ⟨before, known, apart, v, there⟩ := legible_snoc.mp first
    obtain ⟨more, step⟩ := run_collect_cons tabulates before known apart there asked
    obtain ⟨whole, others, all, run⟩ := ih (tabulates.snoc apart there) legible (asked ++ more)
    refine ⟨whole, more ++ others, all, fun rest => ?_⟩
    rw [List.cons_append, step, run, List.append_assoc]

theorem run_collect_of_legible {attributes : List Attribute}
    (legible : Legible kind (env.valueAt stack) attributes) (asked : List String) :
    ∃ whole more, Tabulates (env.valueAt stack) attributes whole ∧
      (collect kind (env.valueOf stack) attributes []).run.run asked =
        (.ok whole, asked ++ more) := by
  obtain ⟨whole, more, all, run⟩ := run_collect_append attributes (tabulates_nil) legible asked
  refine ⟨whole, more, all, ?_⟩
  have run := run []
  rw [List.append_nil] at run
  rw [run]
  rfl

theorem run_collect_of_refuses {attributes : List Attribute} {e : Exception}
    (refuses : Refuses kind (env.valueAt stack) attributes e) (asked : List String) :
    ∃ more, (collect kind (env.valueOf stack) attributes []).run.run asked =
      (.error e, asked ++ more) := by
  obtain @⟨earlier, a, later, rfl, legible, illegible⟩ := refuses
  obtain ⟨table, more, tabulates, run⟩ := run_collect_append earlier (tabulates_nil) legible asked
  rw [run]
  cases illegible with
  | unknown unknown =>
    refine ⟨more, ?_⟩
    simp only [collect, unknown, not_false_eq_true, if_true]
    rfl
  | repeated known mem same =>
    have present := (tabulates.contains_iff legible).mpr ⟨_, mem, same⟩
    refine ⟨more, ?_⟩
    simp only [collect, known, present, not_true_eq_false, if_false, if_true]
    rfl
  | failed known apart failed =>
    obtain ⟨others, value⟩ := env.run_valueOf stack a (asked ++ more)
    refine ⟨more ++ others, ?_⟩
    rw [collect_cons _ known (tabulates.fresh legible apart), ExceptT.run_bind, StateT.run_bind,
      value, failed, List.append_assoc]
    rfl

theorem run_verdict_of_legible {α : Type} {attributes : List Attribute}
    (legible : Legible kind (env.valueAt stack) attributes)
    (verdict : List (String × Value) → Except Exception α) (asked : List String) :
    ∃ whole more, Tabulates (env.valueAt stack) attributes whole ∧
      (collect kind (env.valueOf stack) attributes [] >>= fun table =>
        Setup.ofExcept (verdict table)).run.run asked = (verdict whole, asked ++ more) := by
  obtain ⟨whole, more, all, run⟩ := run_collect_of_legible legible asked
  refine ⟨whole, more, all, ?_⟩
  rw [ExceptT.run_bind, StateT.run_bind, run]
  rfl

theorem run_verdict_of_error {α : Type} {attributes : List Attribute} {e : Exception}
    {verdict : List (String × Value) → Except Exception α}
    (fails : Refuses kind (env.valueAt stack) attributes e ∨
      Legible kind (env.valueAt stack) attributes ∧
        ∀ whole, Tabulates (env.valueAt stack) attributes whole → verdict whole = .error e)
    (asked : List String) :
    ∃ more, (collect kind (env.valueOf stack) attributes [] >>= fun table =>
      Setup.ofExcept (verdict table)).run.run asked = (.error e, asked ++ more) := by
  rcases fails with refuses | ⟨legible, fails⟩
  · obtain ⟨more, run⟩ := run_collect_of_refuses refuses asked
    refine ⟨more, ?_⟩
    rw [ExceptT.run_bind, StateT.run_bind, run]
    rfl
  · obtain ⟨whole, more, all, run⟩ := run_verdict_of_legible legible verdict asked
    exact ⟨more, by rw [run, fails whole all]⟩

end Runs

/-! What the values have to be, kind by kind. -/

namespace Sleep

/-- A value that stands for a duration: a number of milliseconds that is not negative and not beyond
what a duration can be, or a text that reads as one. -/
inductive Lasts : Value → Duration → Prop where
  | number {x d} : x.AtLeastZero → Duration.Counts x d → Lasts (.number x) d
  | text {s d} : Duration.parse? s = some d → Lasts (.text s) d

inductive Unfit : Value → Exception → Prop where
  | beyond {x} : x.AtLeastZero → (∀ d, ¬ Duration.Counts x d) →
    Unfit (.number x) (.raised .invalidValue s!"duration of {x.text}ms out of range")
  | garbled {s} : Duration.parse? s = none →
    Unfit (.text s) (.raised .invalidValue s!"invalid duration `{s}`")
  | misfit {v} : (∀ s, v ≠ .text s) → (∀ x, v = .number x → ¬ x.AtLeastZero) →
    Unfit v (.raised .wrongDataType s!"`for` must be a duration, got {v.kind}")

theorem duration_eq_ok {v : Value} {d : Duration} (lasts : Lasts v d) : duration v = .ok d := by
  cases lasts with
  | number least counts =>
    have inside := (Duration.ofNumber?_eq_some_iff least d).mpr counts
    simp [duration, Binary64.isNonnegative_iff.mpr least, inside]
  | text parsed => simp [duration, parsed]

theorem duration_eq_error {v : Value} {e : Exception} (unfit : Unfit v e) :
    duration v = .error e := by
  cases unfit with
  | @beyond x least outside =>
    have nothing : Duration.ofNumber? x = none := by
      refine Option.eq_none_iff_forall_ne_some.mpr fun d inside => outside d ?_
      exact (Duration.ofNumber?_eq_some_iff least d).mp inside
    simp [duration, Binary64.isNonnegative_iff.mpr least, nothing]
  | garbled parsed => simp [duration, parsed]
  | misfit notText notNumber =>
    cases v with
    | text s => exact absurd rfl (notText s)
    | number x => simp [duration, Binary64.isNonnegative_iff, notNumber x rfl]
    | _ => rfl

theorem lasts_or_unfit (v : Value) : (∃ d, Lasts v d) ∨ ∃ e, Unfit v e := by
  cases v with
  | number x =>
    by_cases least : x.AtLeastZero
    case neg => exact .inr ⟨_, .misfit nofun fun _ same => by cases same; exact least⟩
    by_cases inside : ∃ d, Duration.Counts x d
    · obtain ⟨d, counts⟩ := inside
      exact .inl ⟨d, .number least counts⟩
    · exact .inr ⟨_, .beyond least (not_exists.mp inside)⟩
  | text s =>
    cases parsed : Duration.parse? s with
    | none => exact .inr ⟨_, .garbled parsed⟩
    | some d => exact .inl ⟨d, .text parsed⟩
  | _ => exact .inr ⟨_, .misfit (fun _ same => by cases same) (fun _ same => by cases same)⟩

end Sleep

section Kinds

variable (value : Attribute → Except Exception Value) (attributes : List Attribute)

def Textual (name : String) : Prop := ∀ v, Gives value attributes name v → ∃ s, v = .text s

def GivesText (name : String) (text : Option String) : Prop :=
  ∀ s, text = some s ↔ Gives value attributes name (.text s)

def Structural.Ready : Prop :=
  (attributes.map (·.name)).Nodup ∧ ∀ a ∈ attributes, ∃ v, value a = .ok v

def Sleep.Ready : Prop :=
  ∃ a v d, attributes = [a] ∧ a.name = "for" ∧ value a = .ok v ∧ Sleep.Lasts v d

def Requester.Ready : Prop :=
  (∀ a ∈ attributes, a.name ∈ ["to", "on", "at", "with", "as"]) ∧
  (attributes.map (·.name)).Nodup ∧ (∃ a ∈ attributes, a.name = "to") ∧
  ∀ a ∈ attributes, ∃ v, value a = .ok v ∧
    (a.name ∈ ["to", "on", "at", "as"] → ∃ s, v = .text s)

/-- What a value travels as: a string as text, anything else but `null` as JSON. -/
inductive Requester.Carries : Value → Payload → Prop
  | nothing : Carries .null .void
  | text {s} : Carries (.text s) (.text s)
  | json {v} : v ≠ .null → (∀ s, v ≠ .text s) → Carries v (.json v)

/-- Which element a name addresses: by its id after a number sign, or else by its handle. -/
inductive Requester.Addresses : Option String → ElementType → Option String → Prop
  | whole : Addresses none .void none
  | id {name id} : name.toList = '#' :: id.toList → Addresses (some name) .id (some id)
  | handle {name} : (∀ rest, name.toList ≠ '#' :: rest) →
    Addresses (some name) .handle (some name)

structure Requester.Describes (id : Uuid) (handle : UInt64) (request : Request)
    (bindAs : Option String) : Prop where
  id : request.id = id
  target : request.target = .dom
  handle : request.handle = handle
  operation : Gives value attributes "to" (.text request.operation)
  element : ∃ name, GivesText value attributes "on" name ∧
    Addresses name request.elementType request.element
  property : GivesText value attributes "at" request.property
  payload : ∀ v, Gives value attributes "with" v → Carries v request.payload
  empty : (∀ v, ¬ Gives value attributes "with" v) → request.payload = .void
  bindAs : GivesText value attributes "as" bindAs

/-- What an element has to object to its attributes. Values are looked at when all can be read. -/
inductive Objects : ElementKind → Exception → Prop where
  | reading {kind e} : Refuses kind value attributes e → Objects kind e
  | endless : attributes = [] →
    Objects .sleep (.raised .argumentMissed "<sleep> requires a `for` attribute")
  | unfit {v e} : Legible .sleep value attributes → Gives value attributes "for" v →
    Sleep.Unfit v e → Objects .sleep e
  | misfit {before name after v} : Legible .request value attributes →
    ["to", "on", "at", "as"] = before ++ name :: after →
    (∀ other ∈ before, Textual value attributes other) → Gives value attributes name v →
    (∀ s, v ≠ .text s) →
    Objects .request (.raised .wrongDataType s!"`{name}` must be a string, got {v.kind}")
  | aimless : Legible .request value attributes → (∀ v, ¬ Gives value attributes "to" v) →
    (∀ name ∈ ["on", "at", "as"], Textual value attributes name) →
    Objects .request (.raised .argumentMissed "<request> requires a `to` attribute")

/-- What attributes have to be for an element of a kind. Those of a catch are judged in another
way. -/
def ElementKind.Ready : ElementKind → Prop
  | .structural => Structural.Ready value attributes
  | .sleep => Sleep.Ready value attributes
  | .request => Requester.Ready value attributes
  | .catcher => False

end Kinds

section Verdicts

variable {value : Attribute → Except Exception Value} {attributes : List Attribute}
  {table : List (String × Value)} {name : String} {e : Exception}

theorem Tabulates.get?_eq_none (tabulates : Tabulates value attributes table)
    (absent : ∀ v, ¬ Gives value attributes name v) : Table.get? name table = none := by
  cases found : Table.get? name table with
  | none => rfl
  | some v => exact absurd ((tabulates name v).mp found) (absent v)

namespace Requester

theorem text?_eq_ok (tabulates : Tabulates value attributes table)
    (textual : Textual value attributes name) :
    ∃ text, text? name table = .ok text ∧ GivesText value attributes name text := by
  cases found : Table.get? name table with
  | none =>
    refine ⟨none, by simp [text?, found], fun s => ?_⟩
    simp [← tabulates name, found]
  | some v =>
    obtain ⟨s, rfl⟩ := textual v ((tabulates name v).mp found)
    refine ⟨some s, by simp [text?, found], fun t => ?_⟩
    simp [← tabulates name, found]

theorem text?_eq_error {v : Value} (tabulates : Tabulates value attributes table)
    (gives : Gives value attributes name v) (other : ∀ s, v ≠ .text s) : text? name table =
      .error (.raised .wrongDataType s!"`{name}` must be a string, got {v.kind}") := by
  have found := (tabulates name v).mpr gives
  cases v with
  | text s => exact absurd rfl (other s)
  | _ => simp [text?, found]

theorem carries_ofValue (v : Value) : Carries v (.ofValue v) := by
  cases v with
  | null => exact .nothing
  | text s => exact .text
  | _ => exact .json (fun same => by cases same) (fun _ same => by cases same)

theorem exists_onElement (name : String) (r : Request) : ∃ elementType element,
    Addresses (some name) elementType element ∧
      r.onElement name = { r with elementType, element } := by
  unfold Request.onElement
  split
  · rename_i id chars
    exact ⟨_, _, .id (by rw [chars, String.toList_ofList]), rfl⟩
  · rename_i other
    exact ⟨_, _, .handle other, rfl⟩

theorem describe_of_texts {operation : String} {element property bindAs : Option String}
    (aims : text? "to" table = .ok (some operation)) (ons : text? "on" table = .ok element)
    (ats : text? "at" table = .ok property) (ass : text? "as" table = .ok bindAs) (id : Uuid)
    (handle : UInt64) : ∃ elementType place, Addresses element elementType place ∧
      describe id handle table = .ok ({
        id, target := .dom, handle, operation, elementType, element := place, property
        payload := .ofValue ((Table.get? "with" table).getD .null) }, bindAs) := by
  cases element with
  | none =>
    refine ⟨_, _, .whole, ?_⟩
    simp only [describe, aims, ons, ats, ass, bind, Except.bind, pure, Except.pure]
  | some name =>
    obtain ⟨elementType, place, addresses, addressed⟩ := exists_onElement name {
      id, target := .dom, handle, operation
      payload := .ofValue ((Table.get? "with" table).getD .null) }
    refine ⟨elementType, place, addresses, ?_⟩
    simp only [describe, aims, ons, ats, ass, bind, Except.bind, pure, Except.pure, addressed]

theorem describe_eq_ok (tabulates : Tabulates value attributes table)
    (ready : Ready value attributes) (id : Uuid) (handle : UInt64) :
    ∃ request bindAs, describe id handle table = .ok (request, bindAs) ∧
      Describes value attributes id handle request bindAs := by
  obtain ⟨known, distinct, ⟨a, mem, named⟩, valued⟩ := ready
  have textual (name : String) (own : name ∈ ["to", "on", "at", "as"]) :
      Textual value attributes name := by
    rintro v ⟨b, mem, rfl, there⟩
    obtain ⟨w, there', text⟩ := valued b mem
    cases there.symm.trans there'
    exact text own
  obtain ⟨text, aims, aimed⟩ := text?_eq_ok tabulates (textual "to" (by simp))
  obtain ⟨element, ons, on⟩ := text?_eq_ok tabulates (textual "on" (by simp))
  obtain ⟨property, ats, inside⟩ := text?_eq_ok tabulates (textual "at" (by simp))
  obtain ⟨bindAs, ass, bound⟩ := text?_eq_ok tabulates (textual "as" (by simp))
  obtain ⟨v, there, isText⟩ := valued a mem
  obtain ⟨operation, rfl⟩ := isText (by simp [named])
  have gives : Gives value attributes "to" (.text operation) := ⟨a, mem, named, there⟩
  obtain rfl : text = some operation := (aimed operation).mpr gives
  obtain ⟨elementType, place, addresses, described⟩ := describe_of_texts aims ons ats ass id handle
  refine ⟨_, bindAs, described, {
    id := rfl, target := rfl, handle := rfl, operation := gives
    element := ⟨element, on, addresses⟩
    property := inside
    payload := fun v gives => ?_
    empty := fun absent => ?_
    bindAs := bound }⟩
  · rw [(tabulates "with" v).mpr gives]
    exact carries_ofValue v
  · rw [tabulates.get?_eq_none absent]
    rfl

theorem describe_eq_error_of_misfit {before after : List String} {v : Value}
    (tabulates : Tabulates value attributes table)
    (order : ["to", "on", "at", "as"] = before ++ name :: after)
    (textual : ∀ other ∈ before, Textual value attributes other)
    (gives : Gives value attributes name v) (other : ∀ s, v ≠ .text s) (id : Uuid)
    (handle : UInt64) : describe id handle table =
      .error (.raised .wrongDataType s!"`{name}` must be a string, got {v.kind}") := by
  have fails := text?_eq_error tabulates gives other
  have passes (earlier : String) (mem : earlier ∈ before) :
      ∃ text, text? earlier table = .ok text := by
    obtain ⟨text, eq, _⟩ := text?_eq_ok tabulates (textual earlier mem)
    exact ⟨text, eq⟩
  rcases before with _ | ⟨first, _ | ⟨second, _ | ⟨third, _ | ⟨fourth, before⟩⟩⟩⟩
  · cases order
    simp only [describe, fails, bind, Except.bind]
  · cases order
    obtain ⟨_, eq⟩ := passes "to" (by simp)
    simp only [describe, eq, fails, bind, Except.bind]
  · cases order
    obtain ⟨_, eq⟩ := passes "to" (by simp)
    obtain ⟨_, eq₁⟩ := passes "on" (by simp)
    simp only [describe, eq, eq₁, fails, bind, Except.bind]
  · cases order
    obtain ⟨_, eq⟩ := passes "to" (by simp)
    obtain ⟨_, eq₁⟩ := passes "on" (by simp)
    obtain ⟨_, eq₂⟩ := passes "at" (by simp)
    simp only [describe, eq, eq₁, eq₂, fails, bind, Except.bind]
  · simp at order

theorem describe_eq_error_of_aimless (tabulates : Tabulates value attributes table)
    (absent : ∀ v, ¬ Gives value attributes "to" v)
    (textual : ∀ name ∈ ["on", "at", "as"], Textual value attributes name) (id : Uuid)
    (handle : UInt64) : describe id handle table =
      .error (.raised .argumentMissed "<request> requires a `to` attribute") := by
  obtain ⟨_, ons, _⟩ := text?_eq_ok tabulates (textual "on" (by simp))
  obtain ⟨_, ats, _⟩ := text?_eq_ok tabulates (textual "at" (by simp))
  obtain ⟨_, ass, _⟩ := text?_eq_ok tabulates (textual "as" (by simp))
  have aims : text? "to" table = .ok none := by
    simp only [text?, tabulates.get?_eq_none absent]
  simp only [describe, aims, ons, ats, ass, bind, Except.bind]
  rfl

end Requester

theorem Sleep.settle_eq_ok (tabulates : Tabulates value attributes table) {v : Value}
    {d : Duration} (gives : Gives value attributes "for" v) (lasts : Lasts v d) :
    settle table = .ok d := by
  simp only [settle, (tabulates "for" v).mpr gives, duration_eq_ok lasts]

theorem Sleep.settle_eq_error (objects : Objects value attributes .sleep e) :
    Refuses .sleep value attributes e ∨ Legible .sleep value attributes ∧
      ∀ table, Tabulates value attributes table → settle table = .error e := by
  cases objects with
  | reading refuses => exact .inl refuses
  | endless none =>
    subst none
    refine .inr ⟨legible_nil, fun table tabulates => ?_⟩
    have absent (v : Value) : ¬ Gives value [] "for" v := by simp [Gives]
    simp only [settle, tabulates.get?_eq_none absent]
  | unfit legible gives unfit =>
    refine .inr ⟨legible, fun table tabulates => ?_⟩
    simp only [settle, (tabulates "for" _).mpr gives, duration_eq_error unfit]

theorem Requester.describe_eq_error (objects : Objects value attributes .request e) (id : Uuid)
    (handle : UInt64) : Refuses .request value attributes e ∨ Legible .request value attributes ∧
      ∀ table, Tabulates value attributes table → describe id handle table = .error e := by
  cases objects with
  | reading refuses => exact .inl refuses
  | misfit legible order textual gives other =>
    exact .inr ⟨legible, fun table tabulates =>
      describe_eq_error_of_misfit tabulates order textual gives other id handle⟩
  | aimless legible absent textual =>
    exact .inr ⟨legible, fun table tabulates =>
      describe_eq_error_of_aimless tabulates absent textual id handle⟩

/-! An element is ready, or it objects. -/

theorem Structural.ready_iff : Ready value attributes ↔ Legible .structural value attributes :=
  ⟨fun ⟨distinct, valued⟩ => ⟨fun _ _ => trivial, distinct, valued⟩,
    fun ⟨_, distinct, valued⟩ => ⟨distinct, valued⟩⟩

theorem Sleep.Ready.legible (ready : Ready value attributes) :
    Legible .sleep value attributes := by
  obtain ⟨a, v, d, rfl, named, there, _⟩ := ready
  refine ⟨fun b mem => ?_, List.nodup_singleton _, fun b mem => ?_⟩ <;>
    obtain rfl := List.mem_singleton.mp mem
  · exact named
  · exact ⟨v, there⟩

theorem Requester.Ready.legible (ready : Ready value attributes) :
    Legible .request value attributes := by
  obtain ⟨known, distinct, _, valued⟩ := ready
  refine ⟨known, distinct, fun a mem => ?_⟩
  obtain ⟨v, there, _⟩ := valued a mem
  exact ⟨v, there⟩

theorem Sleep.attributes_of_legible (legible : Legible .sleep value attributes) :
    attributes = [] ∨ ∃ a v, attributes = [a] ∧ a.name = "for" ∧ value a = .ok v := by
  obtain ⟨known, distinct, valued⟩ := legible
  rcases attributes with _ | ⟨a, _ | ⟨b, rest⟩⟩
  · exact .inl rfl
  · obtain ⟨v, there⟩ := valued a (by simp)
    exact .inr ⟨a, v, rfl, known a (by simp), there⟩
  · have named : a.name = "for" := known a (by simp)
    have named' : b.name = "for" := known b (by simp)
    simp [named, named'] at distinct

theorem Sleep.ready_or_objects (legible : Legible .sleep value attributes) :
    Ready value attributes ∨ ∃ e, Objects value attributes .sleep e := by
  rcases attributes_of_legible legible with rfl | ⟨a, v, rfl, named, there⟩
  · exact .inr ⟨_, .endless rfl⟩
  · have gives : Gives value [a] "for" v := ⟨a, by simp, named, there⟩
    rcases lasts_or_unfit v with ⟨d, lasts⟩ | ⟨e, unfit⟩
    · exact .inl ⟨a, v, d, rfl, named, there, lasts⟩
    · exact .inr ⟨e, .unfit legible gives unfit⟩

variable (value attributes) in
theorem textual_or_misfit (names : List String) :
    (∀ name ∈ names, Textual value attributes name) ∨
      ∃ before name after v, names = before ++ name :: after ∧
        (∀ other ∈ before, Textual value attributes other) ∧ Gives value attributes name v ∧
        ∀ s, v ≠ .text s := by
  induction names with
  | nil => exact .inl nofun
  | cons name names ih =>
    by_cases textual : Textual value attributes name
    case neg =>
      simp only [Textual, not_forall] at textual
      obtain ⟨v, gives, other⟩ := textual
      exact .inr ⟨[], name, names, v, rfl, nofun, gives, fun s same => other ⟨s, same⟩⟩
    rcases ih with all | ⟨before, found, after, v, rfl, earlier, gives, other⟩
    · exact .inl (List.forall_mem_cons.mpr ⟨textual, all⟩)
    · exact .inr ⟨name :: before, found, after, v, rfl,
        List.forall_mem_cons.mpr ⟨textual, earlier⟩, gives, other⟩

theorem Requester.ready_or_objects (legible : Legible .request value attributes) :
    Ready value attributes ∨ ∃ e, Objects value attributes .request e := by
  rcases textual_or_misfit value attributes ["to", "on", "at", "as"] with
    textual | ⟨before, name, after, v, order, earlier, gives, other⟩
  case inr => exact .inr ⟨_, .misfit legible order earlier gives other⟩
  by_cases aims : ∃ a ∈ attributes, a.name = "to"
  case neg =>
    refine .inr ⟨_, .aimless legible (fun v gives => aims ?_) fun name own => ?_⟩
    · obtain ⟨a, mem, named, _⟩ := gives
      exact ⟨a, mem, named⟩
    · exact textual name (List.mem_cons_of_mem _ own)
  refine .inl ⟨legible.known, legible.distinct, aims, fun a mem => ?_⟩
  obtain ⟨v, there⟩ := legible.valued a mem
  exact ⟨v, there, fun own => textual a.name own v ⟨a, mem, rfl, there⟩⟩

theorem ElementKind.ready_or_objects {kind : ElementKind} (other : kind ≠ .catcher) :
    kind.Ready value attributes ∨ ∃ e, Objects value attributes kind e := by
  rcases legible_or_refuses kind value attributes with legible | ⟨e, refuses⟩
  case inr => exact .inr ⟨e, .reading refuses⟩
  cases kind with
  | structural => exact .inl (Structural.ready_iff.mpr legible)
  | catcher => exact absurd rfl other
  | sleep => exact Sleep.ready_or_objects legible
  | request => exact Requester.ready_or_objects legible

end Verdicts

end MarkupMachine
