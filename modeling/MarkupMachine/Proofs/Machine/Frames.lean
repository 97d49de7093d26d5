import MarkupMachine.Proofs.Machine.Driven
import MarkupMachine.Proofs.Tree.Order

/-! What a frame holds while it walks over its children: a context of its own kind, and the content
of the children that it has passed. -/

namespace MarkupMachine

def ContextState.kind : ContextState → ElementKind
  | .structural => .structural
  | .catcher _ => .catcher
  | .sleep _ => .sleep
  | .request _ _ => .request

@[simp] theorem ElementKind.kind_blank (kind : ElementKind) : kind.blank.kind = kind := by
  cases kind <;> rfl

def contentOf (texts : List String) : Option String :=
  if texts.isEmpty then none else some (String.join texts)

theorem appended_contentOf (texts more : List String) :
    appended (contentOf texts) more = contentOf (texts ++ more) := by
  have same (texts : List String) : contentOf texts = appended none texts := by
    simp [contentOf, appended]
  rw [same, same, appended_append]

theorem Document.select_passes (doc : Document) (raising : Bool) (ids seen : List NodeId) :
    ∃ passed, ids = passed ++ (doc.select raising ids (contentOf (doc.texts seen))).rest ∧
      (doc.select raising ids (contentOf (doc.texts seen))).content =
        contentOf (doc.texts (seen ++ passed)) := by
  obtain ⟨passed, beyond, parts⟩ := doc.exists_parts raising ids
  have walk := select_append parts.skips beyond (contentOf (doc.texts seen))
  rw [← parts.split, appended_contentOf, ← texts_append] at walk
  cases beyond with
  | nil =>
    rw [walk]
    exact ⟨passed, parts.split, rfl⟩
  | cons id after =>
    have split : ids = (passed ++ [id]) ++ after := by rw [parts.split, List.append_assoc]; rfl
    have silent : doc.text? id = none → doc.texts (seen ++ (passed ++ [id])) =
        doc.texts (seen ++ passed) := by
      intro none
      rw [← List.append_assoc, texts_append]
      simp [Document.texts, none]
    refine ⟨passed ++ [id], ?_⟩
    rcases (doc.skips_or_admits_or_blocks raising id).resolve_left (parts.rests id rfl) with
      ⟨el, admits⟩ | blocks
    · rw [walk, admits.select, silent (by simp [text?, admits.element])]
      exact ⟨split, rfl⟩
    · rw [walk, blocks.select, silent (by rcases blocks with h | h <;> simp [text?, h])]
      exact ⟨split, rfl⟩

/-- A frame whose context is one of its own kind, and whose content is that of the children which
the context has left behind. -/
structure Frame.Consistent (doc : Document) (f : Frame) : Prop where
  bare : f.context = none → f.content = none
  kind : ∀ context, f.context = some context → context.state.kind = f.kind
  content : ∀ context, f.context = some context → ∃ passed,
    doc.children f.position = passed ++ context.rest ∧ f.content = contentOf (doc.texts passed)

namespace Frame.Consistent

variable {doc : Document} {f g : Frame}

theorem congr (h : f.Consistent doc) (position : g.position = f.position) (kind : g.kind = f.kind)
    (content : g.content = f.content) (context : g.context = f.context) : g.Consistent doc where
  bare none := by rw [content, h.bare (context ▸ none)]
  kind own found := by rw [kind, h.kind own (context ▸ found)]
  content own found := by
    rw [position, content]
    exact h.content own (context ▸ found)

theorem enter (doc : Document) (kind : ElementKind) (id : NodeId) :
    (Frame.enter kind id).Consistent doc :=
  ⟨fun _ => rfl, fun _ found => (nomatch found), fun _ found => (nomatch found)⟩

theorem covering {co : Coroutine} {state : ContextState} (h : f.Consistent co.stack.document)
    (none : f.context = none) (own : state.kind = f.kind) :
    (co.covering f state).Consistent co.stack.document where
  bare found := nomatch found
  kind context found := by
    cases found
    exact own
  content context found := by
    cases found
    exact ⟨[], rfl, h.bare none⟩

theorem passes {rest : List NodeId} {state : ContextState} {raising : Bool} {selection : Selection}
    (h : f.Consistent doc) (next : NextStep) (context : f.context = some ⟨rest, state⟩)
    (selected : doc.select raising rest f.content = selection) :
    Frame.Consistent doc { f with
      content := selection.content, context := some ⟨selection.rest, state⟩, next } where
  bare found := nomatch found
  kind own found := by
    cases found
    have own := h.kind _ context
    exact own
  content own found := by
    cases found
    obtain ⟨seen, children, content⟩ := h.content _ context
    obtain ⟨passed, split, gathered⟩ := doc.select_passes raising rest seen
    rw [← content, selected] at split gathered
    exact ⟨seen ++ passed, by rw [children, split, List.append_assoc], gathered⟩

end Frame.Consistent

def Stack.Consistent (s : Stack) : Prop := ∀ f ∈ s.frames, f.Consistent s.document

namespace Coroutine

variable {env : Environment} {co next : Coroutine} {g : Frame} {outer : List Frame}

theorem consistent_cons {s : Stack} (frames : s.frames = g :: outer)
    (first : g.Consistent s.document) (others : ∀ f ∈ outer, f.Consistent s.document) :
    s.Consistent := by
  intro f mem
  rw [frames] at mem
  rcases List.mem_cons.mp mem with rfl | mem
  · exact first
  · exact others f mem

theorem content_receive (co : Coroutine) (f p : Frame) : (co.receive f p).content = p.content := by
  unfold receive
  split <;> rfl

theorem SetUpAsks.kind_eq {el : Element} {kind : ElementKind} {state : ContextState}
    {due : NextStep} {w : Wait} {asked : List String}
    (asks : SetUpAsks env co el kind state due w asked) : state.kind = kind := by
  cases asks <;> rfl

theorem consistent_of_transition (consistent : co.stack.Consistent)
    (rule : Transition env co next) : next.stack.Consistent := by
  have split {f : Frame} {outer : List Frame} (frames : co.stack.frames = f :: outer) :
      f.Consistent co.stack.document ∧ ∀ g ∈ outer, g.Consistent co.stack.document :=
    ⟨consistent f (by simp [frames]), fun g mem => consistent g (by simp [frames, mem])⟩
  have covers {kind : ElementKind} {f : Frame} {outer : List Frame} {el : Element}
      (entering : Entering co kind f outer el) {state : ContextState} (own : state.kind = kind) :
      (co.covering f state).Consistent co.stack.document :=
    (split entering.frames).1.covering entering.context (own.trans entering.kind.symm)
  cases rule with
  | opens entering eval =>
    exact consistent_cons rfl ((covers entering rfl).congr rfl rfl rfl rfl) (split entering.frames).2
  | fails entering failed =>
    exact consistent_cons rfl ((covers entering (ElementKind.kind_blank _)).congr rfl rfl rfl rfl)
      (split entering.frames).2
  | asks entering asks =>
    exact consistent_cons rfl ((covers entering asks.kind_eq).congr rfl rfl rfl rfl)
      (split entering.frames).2
  | idles entering calm =>
    exact consistent_cons rfl ((covers entering rfl).congr rfl rfl rfl rfl) (split entering.frames).2
  | catches entering flying eval accepted =>
    exact consistent_cons rfl ((covers entering rfl).congr rfl rfl rfl rfl) (split entering.frames).2
  | misses entering flying eval refused =>
    exact consistent_cons rfl ((covers entering rfl).congr rfl rfl rfl rfl) (split entering.frames).2
  | fumbles entering flying eval =>
    exact consistent_cons rfl ((covers entering rfl).congr rfl rfl rfl rfl) (split entering.frames).2
  | wakes due | breaks due =>
    obtain ⟨first, others⟩ := split due.frames
    exact consistent_cons rfl (first.congr rfl rfl rfl rfl) others
  | @responds f outer rest bindAs response state due kind =>
    obtain ⟨first, others⟩ := split due.frames
    refine consistent_cons rfl ⟨fun found => (nomatch found), fun own found => ?_,
      fun own found => ?_⟩ others
    · cases found
      exact kind.symm
    · cases found
      have content := first.content _ due.context
      exact content
  | exhausts due selected =>
    obtain ⟨first, others⟩ := split due.frames
    exact consistent_cons rfl (first.passes .onPopping due.context selected) others
  | @enters f outer _ _ _ _ _ _ due selected =>
    obtain ⟨first, others⟩ := split due.frames
    refine consistent_cons rfl (.enter _ _ _) (fun g mem => ?_)
    rcases List.mem_cons.mp mem with rfl | mem
    · exact (first.passes f.next due.context selected).congr rfl rfl rfl rfl
    · exact others g mem
  | leaves due =>
    obtain ⟨_, others⟩ := split due.frames
    refine consistent_cons rfl ?_ fun g mem => others g (List.mem_cons_of_mem _ mem)
    exact (others _ (by simp)).congr (position_receive _) (kind_receive _)
      (content_receive co _ _) (context_receive _)
  | completes due =>
    intro g mem
    rw [(ended_complete rfl).frames] at mem
    cases mem

theorem Ended.consistent (ended : co.Ended) : co.stack.Consistent := by
  intro f mem
  rw [ended.frames] at mem
  cases mem

theorem Driven.consistent {admits : Coroutine → Completion → Prop} (driven : Driven admits co) :
    co.stack.Consistent := by
  refine driven.keeps (P := fun _ stack _ => stack.Consistent) ?_ ?_ ?_ ?_ ?_
  · intro limit id doc root el _ _ _ _
    exact consistent_cons rfl (.enter _ _ _) fun f mem => (nomatch mem)
  · exact fun _ _ consistent rule => consistent_of_transition consistent rule
  · exact fun _ _ _ _ => (ended_terminate _ _).consistent
  · exact fun _ _ _ consistent => consistent
  · exact fun _ _ => (ended_terminate _ _).consistent

end Coroutine

namespace Stacked

variable {doc : Document} {f p : Frame} {frames : List Frame}

theorem fits_of_mem (h : Stacked doc frames) (mem : f ∈ frames) : f.Fits doc := by
  induction h with
  | root fits => exact List.mem_singleton.mp mem ▸ fits
  | inside fits _ _ ih =>
    rcases List.mem_cons.mp mem with rfl | mem
    · exact fits
    · exact ih mem

theorem encloses_of_getElem? (h : Stacked doc frames) {i : Nat} (inner : frames[i]? = some f)
    (around : frames[i + 1]? = some p) : p.Encloses doc f.position := by
  induction h generalizing i with
  | root => simp at around
  | inside _ encloses _ ih =>
    cases i with
    | zero =>
      simp only [List.getElem?_cons_zero, List.getElem?_cons_succ, Option.some.injEq] at inner around
      exact inner ▸ around ▸ encloses
    | succ i => exact ih inner around

theorem exists_outermost (h : Stacked doc frames) :
    ∃ f, frames.getLast? = some f ∧ doc.rootElement? = some f.position := by
  induction h with
  | @root f _ root => exact ⟨f, rfl, root⟩
  | inside _ _ _ ih =>
    obtain ⟨f, last, root⟩ := ih
    exact ⟨f, by rw [List.getLast?_cons_cons, last], root⟩

end Stacked

namespace Coroutine

variable {co : Coroutine} {f : Frame} {outer : List Frame}

/-- The shape of a stack, whose frames are listed from the innermost outward. -/
structure Shaped (limit : Nat) (co : Coroutine) : Prop where
  outermost : ∃ f, co.stack.frames.getLast? = some f ∧
    co.stack.document.rootElement? = some f.position
  elements : ∀ f ∈ co.stack.frames, f.scope = f.position ∧
    ∃ el, co.stack.document.element? f.position = some el ∧ f.kind = ElementKind.ofTag el.tag
  nested : ∀ i f p, co.stack.frames[i]? = some f → co.stack.frames[i + 1]? = some p →
    f.position ∈ co.stack.document.children p.position ∧ p.next = .selectChild ∧
    ∃ context, p.context = some context ∧ context.state.kind = p.kind ∧
      context.rest = Document.after f.position (co.stack.document.children p.position) ∧
      context.rest.head? = co.stack.document.nextSibling? f.position
  innermost : ∃ f, co.stack.top? = some f ∧ (f.next = .afterPushed ∧ f.context = none ∨
    (f.next = .rerun ∧ f.kind = .sleep ∨ f.next = .custom 1 ∧ f.kind = .request ∨
      f.next = .selectChild ∨ f.next = .onPopping) ∧
    ∃ context, f.context = some context ∧ context.state.kind = f.kind)
  content : ∀ f ∈ co.stack.frames, (f.context = none → f.content = none) ∧
    ∀ context, f.context = some context → ∃ passed,
      co.stack.document.children f.position = passed ++ context.rest ∧
      f.content = contentOf (co.stack.document.texts passed)
  depth : 1 ≤ co.stack.depth ∧ co.stack.depth ≤ limit

theorem Live.innermost (live : co.Live) (consistent : co.stack.Consistent) :
    ∃ f, co.stack.top? = some f ∧ (f.next = .afterPushed ∧ f.context = none ∨
      (f.next = .rerun ∧ f.kind = .sleep ∨ f.next = .custom 1 ∧ f.kind = .request ∨
        f.next = .selectChild ∨ f.next = .onPopping) ∧
      ∃ context, f.context = some context ∧ context.state.kind = f.kind) := by
  obtain ⟨f, outer, frames, _, standing⟩ := live.standing
  have own := (consistent f (by simp [frames])).kind
  refine ⟨f, by simp [Stack.top?, frames], ?_⟩
  have waits {w : Wait} (awaits : f.Awaits w) :
      (f.next = .rerun ∧ f.kind = .sleep ∨ f.next = .custom 1 ∧ f.kind = .request ∨
        f.next = .selectChild ∨ f.next = .onPopping) ∧
      ∃ context, f.context = some context ∧ context.state.kind = f.kind := by
    cases awaits with
    | sleep kind next context => exact ⟨.inl ⟨next, kind⟩, _, context, own _ context⟩
    | request kind next context => exact ⟨.inr (.inl ⟨next, kind⟩), _, context, own _ context⟩
  cases standing with
  | entering next context => exact .inl ⟨next, context⟩
  | suspended awaits | answered awaits => exact .inr (waits awaits)
  | visiting next context =>
    exact .inr ⟨.inr (.inr (.inl next)), _, context, own _ context⟩
  | leaving next context =>
    exact .inr ⟨.inr (.inr (.inr next)), _, context, own _ context⟩

theorem Live.shaped (live : co.Live) (consistent : co.stack.Consistent) :
    co.Shaped co.stack.limit := by
  obtain ⟨f, outer, frames, stacked, standing⟩ := live.standing
  have path : Stacked co.stack.document co.stack.frames := frames ▸ stacked
  refine ⟨path.exists_outermost, fun g mem => ?_, fun i g p inner around => ?_,
    live.innermost consistent, fun g mem => ?_, ?_, live.depth⟩
  · have fits := path.fits_of_mem mem
    exact ⟨fits.scope, fits.element⟩
  · have encloses := path.encloses_of_getElem? inner around
    obtain ⟨context, seen, own, children⟩ := encloses.context
    have mem : p ∈ co.stack.frames := List.mem_of_getElem? around
    obtain ⟨after, sibling⟩ := live.built.after_child children
    exact ⟨by simp [children], encloses.next, context, own, (consistent p mem).kind _ own,
      after.symm, sibling.symm⟩
  · exact ⟨(consistent g mem).bare, (consistent g mem).content⟩
  · simp [Stack.depth, frames]

end Coroutine
end MarkupMachine
