import MarkupMachine.Machine.Step

/-! What holds of every set-up: that of its parts, if steps that come after each other keep it. -/

namespace MarkupMachine

/-- A property that set-ups get from what they are put together of. -/
structure Setup.Closed (P : ∀ {α : Type}, Setup α → Prop) : Prop where
  pure : ∀ {α : Type} (a : α), P (pure a : Setup α)
  raised : ∀ {α : Type} (category : Category) (message : String),
    P (throw (Exception.raised category message) : Setup α)
  bind : ∀ {α β : Type} {setup : Setup α} {next : α → Setup β}, P setup → (∀ a, P (next a)) →
    P (setup >>= next)

def Exception.Own (e : Exception) : Prop := ∃ category message, e = .raised category message

theorem own_of_bind {α β : Type} {result : Except Exception α} {next : α → Except Exception β}
    (first : ∀ e, result = .error e → e.Own) (then_ : ∀ a e, next a = .error e → e.Own)
    (e : Exception) (h : result >>= next = .error e) : e.Own := by
  cases result with
  | error own => exact Except.error.inj h ▸ first own rfl
  | ok a => exact then_ a e h

theorem Sleep.own_of_duration {v : Value} {e : Exception} (h : Sleep.duration v = .error e) :
    e.Own := by
  unfold Sleep.duration at h
  repeat' split at h
  all_goals cases h
  all_goals exact ⟨_, _, rfl⟩

theorem Requester.own_of_text? (name : String) (values : List (String × Value)) (e : Exception)
    (h : Requester.text? name values = .error e) : e.Own := by
  unfold Requester.text? at h
  split at h <;> cases h
  exact ⟨_, _, rfl⟩

theorem Requester.own_of_describe {id : Uuid} {handle : UInt64} {values : List (String × Value)}
    {e : Exception} (h : Requester.describe id handle values = .error e) : e.Own := by
  refine own_of_bind (own_of_text? "to" values) (fun operation => ?_) e h
  refine own_of_bind (own_of_text? "on" values) fun element => ?_
  refine own_of_bind (own_of_text? "at" values) fun property => ?_
  refine own_of_bind (own_of_text? "as" values) fun bindAs e h => ?_
  cases operation <;> cases h
  exact ⟨_, _, rfl⟩

namespace Setup.Closed

variable {P : ∀ {α : Type}, Setup α → Prop} {α β : Type} (closed : Setup.Closed @P)
include closed

theorem check {p : Prop} [Decidable p] {category : Category} {message : String}
    {next : PUnit → Setup α} (rest : P (next ⟨⟩)) :
    P (if p then throw (Exception.raised category message) >>= next else next ⟨⟩) := by
  split
  · exact closed.bind (closed.raised category message) fun _ => rest
  · exact rest

variable {value : Option Expression → Setup Value} (values : ∀ e, P (value e))
include values

theorem structural (attrs : List Attribute) (done : List (String × Value)) :
    P (Structural.attributes value attrs done) := by
  induction attrs generalizing done with
  | nil => exact closed.pure done
  | cons a rest ih =>
    unfold Structural.attributes
    apply closed.check
    exact closed.bind (values _) fun _ => ih _

theorem filter (attrs : List Attribute) (found : Option Value) :
    P (Catcher.filter value attrs found) := by
  induction attrs generalizing found with
  | nil =>
    cases found with
    | none => exact closed.pure none
    | some v => cases v <;> first | exact closed.pure _ | exact closed.raised _ _
  | cons a rest ih =>
    unfold Catcher.filter
    apply closed.check
    apply closed.check
    apply closed.check
    apply closed.check
    exact closed.bind (values _) fun _ => ih _

theorem argument (attrs : List Attribute) (found : Option Value) :
    P (Sleep.argument value attrs found) := by
  induction attrs generalizing found with
  | nil =>
    cases found with
    | none => exact closed.raised _ _
    | some v => exact closed.pure v
  | cons a rest ih =>
    unfold Sleep.argument
    apply closed.check
    apply closed.check
    exact closed.bind (values _) fun _ => ih _

theorem sleep (el : Element) : P (Sleep.setup value el) := by
  refine closed.bind (closed.argument values el.attributes none) fun v => ?_
  cases found : Sleep.duration v with
  | ok d => exact closed.pure d
  | error e =>
    obtain ⟨category, message, rfl⟩ := Sleep.own_of_duration found
    exact closed.raised category message

theorem attributes (attrs : List Attribute) (done : List (String × Value)) :
    P (Requester.attributes value attrs done) := by
  induction attrs generalizing done with
  | nil => exact closed.pure done
  | cons a rest ih =>
    unfold Requester.attributes
    apply closed.check
    apply closed.check
    exact closed.bind (values _) fun _ => ih _

theorem request (id : Uuid) (handle : UInt64) (el : Element) :
    P (Requester.setup value id handle el) := by
  refine closed.bind (closed.attributes values el.attributes []) fun attrs => ?_
  cases found : Requester.describe id handle attrs with
  | ok described => exact closed.pure described
  | error e =>
    obtain ⟨category, message, rfl⟩ := Requester.own_of_describe found
    exact closed.raised category message

end Setup.Closed
end MarkupMachine
