import MarkupMachine.Proofs.Machine.Selection

/-! One move along the children of a frame: past all that the walk passes over, and onto the next
node, or the end. -/

namespace MarkupMachine

theorem Document.siblings_behind {doc : Document} {count : Nat} {cursor : Option NodeId}
    {passed after : List NodeId} {id : NodeId}
    (linked : Node.siblings doc.nodes count cursor = passed ++ id :: after) :
    ∃ fewer, after = Node.siblings doc.nodes fewer (doc.nextSibling? id) := by
  induction passed generalizing count cursor with
  | nil =>
    cases count <;> cases cursor <;> simp only [Node.siblings, List.nil_append] at linked <;>
      cases linked
    exact ⟨_, rfl⟩
  | cons j passed ih =>
    cases count <;> cases cursor <;> simp only [Node.siblings, List.cons_append] at linked <;>
      injection linked
    rename_i rest
    exact ih rest

namespace Coroutine

/-- One move of a frame along its children, by what there is beyond those passed over. The frame
has the content gathered on the way, and goes on behind the node that the move comes to. -/
inductive Advances (co : Coroutine) (name : String) (f : Frame) (outer : List Frame)
    (content : Option String) (state : ContextState) :
    List NodeId → Coroutine × Option Fault → Prop where
  | exhausts : Advances co name f outer content state []
    (co.onStack fun s => { s with
      frames := { f with content, context := some ⟨[], state⟩, next := .onPopping } :: outer },
      none)
  | enters {id after el} : co.stack.document.kind? id = some (.element el) →
    co.stack.depth < co.stack.limit → Advances co name f outer content state (id :: after)
      (co.onStack fun s => { s with
        frames := Frame.enter (ElementKind.ofTag el.tag) id ::
          { f with content, context := some ⟨after, state⟩ } :: outer
        stats := s.stats.enter (s.depth + 1)
        journal :=
          .entered (ElementKind.ofTag el.tag) id s.exception.isSome :: s.journal }, none)
  | overflows {id after el} : co.stack.document.kind? id = some (.element el) →
    co.stack.limit ≤ co.stack.depth → Advances co name f outer content state (id :: after)
      (co.onStack fun s => { s with
        frames := { f with content, context := some ⟨after, state⟩ } :: outer },
        some (.stackOverflow co.stack.limit))
  | misplaced {id after} : co.stack.document.Blocks id →
    Advances co name f outer content state (id :: after)
      (co.onStack fun s => { s with
        frames := { f with content, context := some ⟨after, state⟩ } :: outer },
        some (.structural name "document node found among children"))

/-- What selecting a child comes to for a frame whose context has some children ahead: one move past
the longest run of those that are passed over, and nothing else. Where the children ahead are
linked, so are those behind the node that the move comes to. -/
structure Visits (co : Coroutine) (kind : ElementKind) (f : Frame) (outer : List Frame)
    (state : ContextState) (rest passed beyond : List NodeId) : Prop where
  parts : co.stack.document.Parts co.stack.exception.isSome rest passed beyond
  longest : ∀ passed' beyond',
    co.stack.document.Parts co.stack.exception.isSome rest passed' beyond' →
      passed' = passed ∧ beyond' = beyond
  advances : co.Advances kind.name f outer (appended f.content (co.stack.document.texts passed))
    state beyond (co.selectChild kind)
  links : ∀ count cursor id after,
    rest = Node.siblings co.stack.document.nodes count cursor → beyond = id :: after →
    ∃ fewer, after =
      Node.siblings co.stack.document.nodes fewer (co.stack.document.nextSibling? id)
  outside : ∃ inner g, (co.selectChild kind).1.stack.frames = inner ++ g :: outer ∧
    inner.length ≤ 1
  exception : (co.selectChild kind).1.stack.exception = co.stack.exception
  scopes : (co.selectChild kind).1.stack.scopes = co.stack.scopes
  result : (co.selectChild kind).1.stack.result = co.stack.result
  others : { (co.selectChild kind).1 with stack := co.stack } = co
  step : f.next = .selectChild → f.kind = kind → ∀ env, co.step env = co.selectChild kind

section Walk

variable {co : Coroutine} {f : Frame} {outer : List Frame}
  {state : ContextState} {rest passed beyond : List NodeId}

theorem selectChild_of_parts (kind : ElementKind) (frames : co.stack.frames = f :: outer)
    (context : f.context = some ⟨rest, state⟩)
    (parts : co.stack.document.Parts co.stack.exception.isSome rest passed beyond) :
    co.Advances kind.name f outer (appended f.content (co.stack.document.texts passed)) state beyond
      (co.selectChild kind) := by
  have walk := Document.select_append parts.skips beyond f.content
  rw [← parts.split] at walk
  have deep : co.stack.depth = outer.length + 1 := by rw [Stack.depth, frames, List.length_cons]
  cases beyond with
  | nil =>
    rw [Document.select] at walk
    simp only [selectChild, frames, context, walk]
    exact .exhausts
  | cons id after =>
    rcases (co.stack.document.skips_or_admits_or_blocks co.stack.exception.isSome id).resolve_left
      (parts.rests id rfl) with ⟨el, admits⟩ | blocks
    · rw [admits.select] at walk
      simp only [selectChild, frames, context, walk, Stack.push]
      rw [Stack.depth, List.length_cons, ← deep]
      by_cases full : co.stack.limit ≤ co.stack.depth
      · rw [if_pos full]
        exact .overflows admits.element full
      · rw [if_neg full]
        exact .enters admits.element (Nat.lt_of_not_le full)
    · rw [blocks.select] at walk
      simp only [selectChild, frames, context, walk]
      exact .misplaced blocks

theorem Advances.kept {name : String} {content : Option String} {after : Coroutine × Option Fault}
    (advances : co.Advances name f outer content state beyond after) :
    (∃ inner g, after.1.stack.frames = inner ++ g :: outer ∧ inner.length ≤ 1) ∧
      after.1.stack.exception = co.stack.exception ∧ after.1.stack.scopes = co.stack.scopes ∧
      after.1.stack.result = co.stack.result ∧ { after.1 with stack := co.stack } = co := by
  cases advances with
  | enters => exact ⟨⟨[_], _, rfl, Nat.le_refl 1⟩, rfl, rfl, rfl, rfl⟩
  | _ => exact ⟨⟨[], _, rfl, Nat.zero_le 1⟩, rfl, rfl, rfl, rfl⟩

theorem step_of_advances {name : String} {content : Option String} (env : Environment)
    (frames : co.stack.frames = f :: outer) (next : f.next = .selectChild)
    (advances : co.Advances name f outer content state beyond (co.selectChild f.kind)) :
    co.step env = co.selectChild f.kind := by
  obtain ⟨⟨inner, g, inside, -⟩, -⟩ := advances.kept
  have nonempty : (co.selectChild f.kind).1.stack.frames.isEmpty = false := by
    cases inner <;> simp [inside]
  simp only [step, Stack.top?, frames, List.head?_cons, operate, next]
  rcases selected : co.selectChild f.kind with ⟨after, _ | fault⟩
  · rw [selected] at nonempty
    simp [nonempty]
  · rfl

/-- Wherever a frame is among its children, selecting a child is one move. -/
theorem selectChild_visits (frames : co.stack.frames = f :: outer)
    (context : f.context = some ⟨rest, state⟩) (kind : ElementKind) :
    ∃ passed beyond, co.Visits kind f outer state rest passed beyond := by
  obtain ⟨passed, beyond, parts⟩ := co.stack.document.exists_parts co.stack.exception.isSome rest
  have advances := selectChild_of_parts kind frames context parts
  obtain ⟨outside, exception, scopes, result, others⟩ := advances.kept
  refine ⟨passed, beyond, parts, fun _ _ => parts.unique, advances, ?_, outside, exception, scopes,
    result, others, ?_⟩
  · rintro count cursor id after linked rfl
    exact Document.siblings_behind (linked.symm.trans parts.split)
  · rintro next rfl env
    exact step_of_advances env frames next advances

end Walk

def resuming : Coroutine :=
  { id := 1
    stack := {
      document := { number := 0, nodes := #[
        { kind := .document, firstChild := some 1, lastChild := some 1 },
        { kind := .element { tag := "p" }, parent := some 0, firstChild := some 2,
          lastChild := some 5 },
        { kind := .content "one, ", parent := some 1, nextSibling := some 3 },
        { kind := .element { tag := "b" }, parent := some 1, nextSibling := some 4 },
        { kind := .content "two", parent := some 1, nextSibling := some 5 },
        { kind := .element { tag := "catch" }, parent := some 1 }] }
      limit := 8
      frames := [{ Frame.enter .structural 1 with
        content := some "one, "
        context := some ⟨[3, 4, 5], .structural⟩
        next := .selectChild }]
      exception := some (.raised .noData "nothing there") } }

theorem selectChild_visits_resuming : ∃ f rest state, resuming.stack.frames = [f] ∧
    f.context = some ⟨rest, state⟩ ∧ ∃ passed beyond,
      resuming.Visits .structural f [] state rest passed beyond :=
  ⟨_, _, _, rfl, rfl, selectChild_visits rfl rfl .structural⟩

/-- The element that does not catch is passed over, and so is the text behind it. -/
example : (resuming.selectChild .structural).1.stack.frames.map (fun f => (f.position, f.content)) =
    [(5, none), (1, some "one, two")] := by decide +kernel

end Coroutine
end MarkupMachine
