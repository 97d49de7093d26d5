import MarkupMachine.Machine.Evaluation
import MarkupMachine.Proofs.Value.Text

/-! What expressions give. A name or a slot gives what the frames, the variables and the globals
hold for it, and an interpolation is as good as the list of its leaves. -/

namespace MarkupMachine

namespace Symbol

variable {c : Char} {name : String} {s : Symbol}

theorem ofChar?_eq_some_iff : ofChar? c = some s ↔ c = s.char := by
  constructor
  · intro found
    have same := List.find?_some (p := fun s => char s == c) found
    exact (beq_iff_eq.mp same).symm
  · rintro rfl
    cases s <;> decide

theorem ofChar?_eq_none_iff : ofChar? c = none ↔ ∀ s : Symbol, c ≠ s.char := by
  rw [Option.eq_none_iff_forall_ne_some]
  exact forall_congr' fun s => not_congr ofChar?_eq_some_iff

theorem ofName?_eq_some_iff : ofName? name = some s ↔ name.toList = [s.char] := by
  unfold ofName?
  split
  · next c chars => rw [chars, ofChar?_eq_some_iff, List.singleton_inj]
  · next other => exact ⟨fun found => (nomatch found), fun chars => absurd chars (other _)⟩

theorem ofName?_eq_none_iff : ofName? name = none ↔ ∀ s : Symbol, name.toList ≠ [s.char] := by
  rw [Option.eq_none_iff_forall_ne_some]
  exact forall_congr' fun s => not_congr ofName?_eq_some_iff

end Symbol

namespace Scope

variable {scope : Scope}

/-- What the variables hold for a name. The innermost frame whose scope binds it decides, and the
globals come last. -/
inductive Names (scope : Scope) (name : String) : Option Value → Prop
  | bound {inner f outer value} : scope.stack.frames = inner ++ f :: outer →
    (∀ g ∈ inner, scope.stack.scopes.get? g.scope name = none) →
    scope.stack.scopes.get? f.scope name = some value → Names scope name (some value)
  | unbound : (∀ f ∈ scope.stack.frames, scope.stack.scopes.get? f.scope name = none) →
    Names scope name (scope.globals.bind (·.get? name))

theorem inFrames?_eq_findSome? (vars : ScopeVars) (name : String) (frames : List Frame) :
    inFrames? vars name frames = frames.findSome? fun f => vars.get? f.scope name := by
  induction frames with
  | nil => rfl
  | cons f outer ih => cases own : vars.get? f.scope name <;> simp [inFrames?, own, ih]

theorem names_iff {name : String} (plain : ∀ s : Symbol, name.toList ≠ [s.char])
    (found : Option Value) : scope.Names name found ↔ scope.named? name = found := by
  have looked : scope.named? name =
      (inFrames? scope.stack.scopes name scope.stack.frames).or
        (scope.globals.bind (·.get? name)) := by
    unfold named?
    rw [Symbol.ofName?_eq_none_iff.mpr plain]
    cases inFrames? scope.stack.scopes name scope.stack.frames <;> rfl
  rw [looked, inFrames?_eq_findSome?]
  constructor
  · rintro (⟨frames, passed, held⟩ | nowhere)
    · rw [List.findSome?_eq_some_iff.mpr ⟨_, _, _, frames, held, passed⟩]
      rfl
    · rw [List.findSome?_eq_none_iff.mpr nowhere]
      rfl
  · rintro rfl
    cases first : scope.stack.frames.findSome? fun f => scope.stack.scopes.get? f.scope name with
    | none => exact .unbound (List.findSome?_eq_none_iff.mp first)
    | some value =>
      obtain ⟨inner, f, outer, frames, held, passed⟩ := List.findSome?_eq_some_iff.mp first
      exact .bound frames passed held

/-- What an expression gives that is no interpolation. -/
inductive Yields (scope : Scope) : Expression → Except Exception Value → Prop
  | literal {value} : Yields scope (.literal value) (.ok value)
  | slot {name f outer} {s : Symbol} : name.toList = [s.char] → scope.stack.frames = f :: outer →
    Yields scope (.variable name) (.ok (f.symbols s))
  | slotless {name} {s : Symbol} : name.toList = [s.char] → scope.stack.frames = [] →
    Yields scope (.variable name)
      (.error (.raised .entityNotFound s!"variable `${name}` not found"))
  | held {name value} : (∀ s : Symbol, name.toList ≠ [s.char]) → scope.Names name (some value) →
    Yields scope (.variable name) (.ok value)
  | unknown {name} : (∀ s : Symbol, name.toList ≠ [s.char]) → scope.Names name none →
    Yields scope (.variable name)
      (.error (.raised .entityNotFound s!"variable `${name}` not found"))
  | symbol {level f} {s : Symbol} : scope.stack.frames[level.toNat]? = some f →
    Yields scope (.symbol s.char level) (.ok (f.symbols s))
  | beyond {level} {s : Symbol} : scope.stack.frames.length ≤ level.toNat →
    Yields scope (.symbol s.char level) (.error (.raised .noData s!"no frame at level {level}"))
  | foreign {c level} : (∀ s : Symbol, c ≠ s.char) → Yields scope (.symbol c level)
      (.error (.raised .invalidValue s!"`{c}` is not a symbol variable"))

end Scope

namespace Expression

variable {scope : Scope}

theorem evaluate_of_yields {e : Expression} {r : Except Exception Value}
    (yields : scope.Yields e r) : e.evaluate scope.view = r := by
  cases yields with
  | literal => rfl
  | slot chars frames =>
    simp [evaluate, Scope.view, Scope.named?, Symbol.ofName?_eq_some_iff.mpr chars, Stack.top?,
      frames]
  | slotless chars none =>
    simp [evaluate, Scope.view, Scope.named?, Symbol.ofName?_eq_some_iff.mpr chars, Stack.top?,
      none]
  | held plain names | unknown plain names =>
    simp [evaluate, Scope.view, (Scope.names_iff plain _).mp names]
  | @symbol _ _ s found =>
    simp [evaluate, Symbol.ofChar?_eq_some_iff.mpr (Eq.refl s.char), Scope.view, Scope.symbol?,
      found]
  | @beyond _ s short =>
    simp [evaluate, Symbol.ofChar?_eq_some_iff.mpr (Eq.refl s.char), Scope.view, Scope.symbol?,
      List.getElem?_eq_none short]
  | foreign other => simp [evaluate, Symbol.ofChar?_eq_none_iff.mpr other]

theorem exists_yields (scope : Scope) {e : Expression}
    (leaf : ∀ parts, e ≠ .interpolation parts) : ∃ r, scope.Yields e r := by
  rcases e with value | name | ⟨c, level⟩ | parts
  · exact ⟨_, .literal⟩
  · cases chars : Symbol.ofName? name with
    | some s =>
      have chars := Symbol.ofName?_eq_some_iff.mp chars
      cases frames : scope.stack.frames with
      | nil => exact ⟨_, .slotless chars frames⟩
      | cons f outer => exact ⟨_, .slot chars frames⟩
    | none =>
      have plain := Symbol.ofName?_eq_none_iff.mp chars
      cases found : scope.named? name with
      | some value => exact ⟨_, .held plain ((Scope.names_iff plain _).mpr found)⟩
      | none => exact ⟨_, .unknown plain ((Scope.names_iff plain _).mpr found)⟩
  · cases known : Symbol.ofChar? c with
    | none => exact ⟨_, .foreign (Symbol.ofChar?_eq_none_iff.mp known)⟩
    | some s =>
      obtain rfl := Symbol.ofChar?_eq_some_iff.mp known
      cases found : scope.stack.frames[level.toNat]? with
      | some f => exact ⟨_, .symbol found⟩
      | none => exact ⟨_, .beyond (List.getElem?_eq_none_iff.mp found)⟩
  · exact absurd rfl (leaf parts)

mutual

def leaves : Expression → List Expression
  | .literal value => [.literal value]
  | .variable name => [.variable name]
  | .symbol c level => [.symbol c level]
  | .interpolation parts => leavesOf parts

def leavesOf : List Expression → List Expression
  | [] => []
  | part :: rest => part.leaves ++ leavesOf rest

end

theorem leavesOf_append (first later : List Expression) :
    leavesOf (first ++ later) = leavesOf first ++ leavesOf later := by
  induction first with
  | nil => simp [leavesOf]
  | cons part rest ih => simp [leavesOf, ih]

mutual

theorem not_interpolation_of_mem_leaves : ∀ (e leaf : Expression), leaf ∈ e.leaves →
    ∀ parts, leaf ≠ .interpolation parts
  | .literal _, leaf, mem, parts => by
    rw [leaves, List.mem_singleton] at mem
    simp [mem]
  | .variable _, leaf, mem, parts => by
    rw [leaves, List.mem_singleton] at mem
    simp [mem]
  | .symbol _ _, leaf, mem, parts => by
    rw [leaves, List.mem_singleton] at mem
    simp [mem]
  | .interpolation parts, leaf, mem, others => by
    rw [leaves] at mem
    exact not_interpolation_of_mem_leavesOf parts leaf mem others

theorem not_interpolation_of_mem_leavesOf : ∀ (parts : List Expression) (leaf : Expression),
    leaf ∈ leavesOf parts → ∀ parts, leaf ≠ .interpolation parts
  | [], _, mem, _ => by
    rw [leavesOf] at mem
    cases mem
  | part :: rest, leaf, mem, others => by
    rw [leavesOf] at mem
    rcases List.mem_append.mp mem with mem | mem
    · exact not_interpolation_of_mem_leaves part leaf mem others
    · exact not_interpolation_of_mem_leavesOf rest leaf mem others

end

theorem join_append (view : View) (first later : List Expression) :
    join view (first ++ later) = do
      let text ← join view first
      let others ← join view later
      return text ++ others := by
  induction first with
  | nil =>
    cases others : join view later <;>
      simp [join, others, bind, Except.bind, pure, Except.pure]
  | cons part rest ih =>
    rw [List.cons_append, join, join, ih]
    cases part.evaluate view with
    | error e => rfl
    | ok value =>
      cases join view rest with
      | error e => rfl
      | ok text =>
        cases join view later with
        | error e => rfl
        | ok others => simp [bind, Except.bind, pure, Except.pure, String.append_assoc]

theorem join_singleton (view : View) (e : Expression) :
    join view [e] = (e.evaluate view).map Value.joined := by
  cases value : e.evaluate view <;>
    simp [join, value, bind, Except.bind, pure, Except.pure, Except.map]

theorem evaluate_interpolation (view : View) (parts : List Expression) :
    (interpolation parts).evaluate view = (join view parts).map Value.text := by
  rw [evaluate]
  cases join view parts <;> rfl

theorem evaluate_of_join {view : View} {parts : List Expression} {text : String}
    (written : (join view parts).toOption = some text) :
    (interpolation parts).evaluate view = .ok (.text text) := by
  rw [evaluate_interpolation]
  cases joined : join view parts with
  | error e => simp [joined, Except.toOption] at written
  | ok own =>
    rw [joined] at written
    cases written
    rfl

mutual

theorem join_leaves (view : View) : ∀ e : Expression,
    join view e.leaves = (e.evaluate view).map Value.joined
  | .literal value => by rw [leaves, join_singleton]
  | .variable name => by rw [leaves, join_singleton]
  | .symbol c level => by rw [leaves, join_singleton]
  | .interpolation parts => by
    rw [leaves, join_leavesOf view parts, evaluate_interpolation]
    cases join view parts <;> rfl

theorem join_leavesOf (view : View) : ∀ parts : List Expression,
    join view (leavesOf parts) = join view parts
  | [] => rfl
  | part :: rest => by
    rw [leavesOf, join_append, join_leaves view part, join_leavesOf view rest, join]
    cases part.evaluate view <;> rfl

end

theorem evaluate_of_leavesOf (view : View) {parts others : List Expression}
    (same : leavesOf parts = leavesOf others) :
    (interpolation parts).evaluate view = (interpolation others).evaluate view := by
  rw [evaluate_interpolation, evaluate_interpolation, ← join_leavesOf, same, join_leavesOf]

end Expression

namespace Scope

open Expression (leavesOf leavesOf_append)

variable {scope : Scope}

def Writes (scope : Scope) (leaf : Expression) (text : String) : Prop :=
  ∃ value, scope.Yields leaf (.ok value) ∧ value.Displays text

/-- What an expression gives. An interpolation gives the texts of its leaves, joined from left to
right, or fails as the first of them that does. -/
inductive Gives (scope : Scope) : Expression → Except Exception Value → Prop
  | leaf {e r} : scope.Yields e r → Gives scope e r
  | text {parts texts} : List.Forall₂ scope.Writes (leavesOf parts) texts →
    Gives scope (.interpolation parts) (.ok (.text (String.join texts)))
  | fails {parts before leaf after e} : leavesOf parts = before ++ leaf :: after →
    (∀ other ∈ before, ∃ value, scope.Yields other (.ok value)) →
    scope.Yields leaf (.error e) → Gives scope (.interpolation parts) (.error e)

theorem join_of_writes {leaves : List Expression} {texts : List String}
    (writes : List.Forall₂ scope.Writes leaves texts) :
    Expression.join scope.view leaves = .ok (String.join texts) := by
  induction writes with
  | nil => rw [Expression.join, String.join_nil]
  | cons writes _ ih =>
    obtain ⟨value, yields, displays⟩ := writes
    rw [Expression.join, Expression.evaluate_of_yields yields, ih, String.join_cons,
      ← Value.displays_iff.mp displays]
    rfl

theorem join_of_fails {before after : List Expression} {leaf : Expression} {e : Exception}
    (gives : ∀ other ∈ before, ∃ value, scope.Yields other (.ok value))
    (fails : scope.Yields leaf (.error e)) :
    Expression.join scope.view (before ++ leaf :: after) = .error e := by
  induction before with
  | nil =>
    rw [List.nil_append, Expression.join, Expression.evaluate_of_yields fails]
    rfl
  | cons first before ih =>
    obtain ⟨value, yields⟩ := gives first List.mem_cons_self
    rw [List.cons_append, Expression.join, Expression.evaluate_of_yields yields,
      ih fun other mem => gives other (List.mem_cons_of_mem _ mem)]
    rfl

theorem writes_or_fails (scope : Scope) {leaves : List Expression}
    (plain : ∀ leaf ∈ leaves, ∀ parts, leaf ≠ .interpolation parts) :
    (∃ texts, List.Forall₂ scope.Writes leaves texts) ∨
    ∃ before leaf after e, leaves = before ++ leaf :: after ∧
      (∀ other ∈ before, ∃ value, scope.Yields other (.ok value)) ∧
      scope.Yields leaf (.error e) := by
  induction leaves with
  | nil => exact .inl ⟨[], .nil⟩
  | cons leaf rest ih =>
    obtain ⟨r, yields⟩ := Expression.exists_yields scope (plain leaf List.mem_cons_self)
    cases r with
    | error e => exact .inr ⟨[], leaf, rest, e, rfl, fun _ mem => (nomatch mem), yields⟩
    | ok value =>
      rcases ih fun leaf mem => plain leaf (List.mem_cons_of_mem _ mem) with
        ⟨texts, writes⟩ | ⟨before, failing, after, e, split, gives, fails⟩
      · have displays := Value.displays_iff.mpr (Eq.refl value.joined)
        exact .inl ⟨value.joined :: texts, .cons ⟨value, yields, displays⟩ writes⟩
      · refine .inr ⟨leaf :: before, failing, after, e, by rw [split]; rfl, ?_, fails⟩
        exact List.forall_mem_cons.mpr ⟨⟨value, yields⟩, gives⟩

theorem Gives.evaluate {e : Expression} {r : Except Exception Value} (gives : scope.Gives e r) :
    e.evaluate scope.view = r := by
  cases gives with
  | leaf yields => exact Expression.evaluate_of_yields yields
  | text writes =>
    rw [Expression.evaluate_interpolation, ← Expression.join_leavesOf, join_of_writes writes]
    rfl
  | fails split gives fails =>
    rw [Expression.evaluate_interpolation, ← Expression.join_leavesOf, split,
      join_of_fails gives fails]
    rfl

theorem exists_gives (scope : Scope) (e : Expression) : ∃ r, scope.Gives e r := by
  by_cases nested : ∃ parts, e = .interpolation parts
  · obtain ⟨parts, rfl⟩ := nested
    rcases writes_or_fails scope (Expression.not_interpolation_of_mem_leavesOf parts) with
      ⟨texts, writes⟩ | ⟨before, leaf, after, e, split, gives, fails⟩
    · exact ⟨_, .text writes⟩
    · exact ⟨_, .fails split gives fails⟩
  · obtain ⟨r, yields⟩ := Expression.exists_yields scope fun parts same => nested ⟨parts, same⟩
    exact ⟨r, .leaf yields⟩

structure Evaluates (scope : Scope) : Prop where
  gives_iff : ∀ e r, Evaluator.standard.evaluate scope e = r ↔ scope.Gives e r
  slots : ∀ (name : String) (s : Symbol) (other : Scope), name.toList = [s.char] →
    other.stack.frames = scope.stack.frames →
    Evaluator.standard.evaluate other (.variable name) =
      Evaluator.standard.evaluate scope (.variable name)
  flattened : ∀ parts others, leavesOf parts = leavesOf others →
    Evaluator.standard.evaluate scope (.interpolation parts) =
      Evaluator.standard.evaluate scope (.interpolation others)
  spliced : ∀ before parts after,
    Evaluator.standard.evaluate scope (.interpolation (before ++ .interpolation parts :: after)) =
      Evaluator.standard.evaluate scope (.interpolation (before ++ parts ++ after))

theorem evaluation_refers (scope : Scope) : scope.Evaluates where
  gives_iff e r := by
    refine ⟨fun value => ?_, Gives.evaluate⟩
    obtain ⟨own, gives⟩ := exists_gives scope e
    have same : own = r := gives.evaluate.symm.trans value
    exact same ▸ gives
  slots name s other chars frames := by
    simp [Evaluator.standard, Expression.evaluate, view, named?, Stack.top?,
      Symbol.ofName?_eq_some_iff.mpr chars, frames]
  flattened _ _ same := Expression.evaluate_of_leavesOf scope.view same
  spliced before parts after := by
    refine Expression.evaluate_of_leavesOf scope.view ?_
    rw [leavesOf_append, leavesOf_append, leavesOf_append, List.append_assoc]
    rfl

/-- An element inside another one. The slots of the inner one hold values of all kinds. -/
def crowded : Scope where
  stack := {
    document := default
    limit := 2
    frames := [
      ([(.question, .number (.ofRatio false 5 2)), (.at, .null), (.number, .bool true),
        (.asterisk, .list [.number (.ofRatio true 7 1), .text "é\n\x07"]),
        (.colon, .object [("k", .bool false)]), (.ampersand, .number .nan),
        (.percent, .number (.ofRatio false 1000000000000000 1))] : List (Symbol × Value)).foldl
        (fun f slot => f.setSymbol slot.1 slot.2) (Frame.enter .structural 2),
      (Frame.enter .structural 1).setSymbol .question (.text "outer")]
    scopes :=
      ((({} : ScopeVars).bind 1 "a" (.text "one")).bind 2 "b" (.text "two")).bind 1 "b" .null }
  globals := some (({} : Bindings).bind "c" (.text "three"))

def roll : List Expression :=
  [.variable "?", .variable "@", .literal (.text "; "), .variable "#", .variable "*",
    .interpolation [.variable ":", .interpolation [.variable "&", .literal (.text " ")],
      .variable "%"], .interpolation [], .symbol '?' 1, .variable "a", .variable "b", .variable "c"]

theorem evaluation_refers_crowded : crowded.Evaluates ∧
    crowded.Gives (.interpolation roll) (.ok (.text ("2.5null; true[-7, \"é\\n\\u\x7b7\x7d\"]" ++
      "\x7b\"k\": false\x7dNaN 1000000000000000outeronetwothree"))) := by
  have evaluates := evaluation_refers crowded
  refine ⟨evaluates, (evaluates.gives_iff _ _).mp (Expression.evaluate_of_join ?_)⟩
  decide +kernel

end Scope
end MarkupMachine
