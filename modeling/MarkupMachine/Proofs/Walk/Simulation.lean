import MarkupMachine.Proofs.Tree.Shape
import MarkupMachine.Proofs.Walk.Course

/-! The recursion follows the coroutine through a whole program: by induction on the tree, with the
rest of the run as what the coroutine goes on to. -/

namespace MarkupMachine

namespace Coroutine

variable {env : Environment} {co : Coroutine} {f : Frame} {outer : List Frame}

def pass (co : Coroutine) (f : Frame) (outer : List Frame) (content : Option String)
    (context : Context) : Coroutine :=
  co.onStack fun s => { s with frames := { f with content, context := some context } :: outer }

theorem step_pass {id : NodeId} {beyond : List NodeId} {state : ContextState}
    {gathered : Option String} (due : co.Due .selectChild f outer ⟨id :: beyond, state⟩)
    (same : co.stack.document.select co.stack.exception.isSome (id :: beyond) f.content =
      co.stack.document.select co.stack.exception.isSome beyond gathered) :
    co.step env = (co.pass f outer gathered ⟨beyond, state⟩).step env := by
  simp [step, Stack.top?, due.frames, operate, due.next, selectChild, due.context, same, onStack,
    pass]

theorem commitment_eq (co : Coroutine) {context : Context} (h : f.context = some context) :
    co.commitment f =
      if co.stack.exception.isSome then none else Walk.commits f.kind context.state := by
  obtain ⟨rest, state⟩ := context
  simp only [commitment, h, Walk.commits]
  cases f.kind <;> cases co.stack.exception <;> try rfl
  · rcases state with _ | _ | _ | ⟨bindAs, _ | value⟩ <;> rfl
  · rcases state with _ | _ | _ | ⟨bindAs, _ | value⟩ <;> rfl

end Coroutine

namespace Walk

section Visit

variable {env : Environment} {goal : Run} {waits : List Wait} {co next : Coroutine} {w : World}
  {doc : Document} {run later : Run} {f : Frame} {outer : List Frame} {el : Element} {id : Nat}
  {beyond : List NodeId} {state : ContextState}

theorem Mirrors.pass {gathered : Option String} (h : Mirrors w doc run waits co)
    (due : co.Due .selectChild f outer ⟨id :: beyond, state⟩)
    (same : doc.select co.stack.exception.isSome (id :: beyond) f.content =
      doc.select co.stack.exception.isSome beyond gathered)
    (pictures : later.Pictures (co.pass f outer gathered ⟨beyond, state⟩).stack)
    (asked : later.waits = run.waits) (fault : later.fault = run.fault)
    (then_ : ∀ next g, Mirrors w doc later waits next →
      next.Due .selectChild g outer ⟨beyond, state⟩ → g.kind = f.kind →
      Ends env w.policy goal waits next) : Ends env w.policy goal waits co := by
  have free := h.live.free due.frames (.inr (.inl due.next))
  have fits := h.live.fits due.frames
  obtain ⟨seen, children⟩ := fits.rest _ due.context
  have live : (co.pass f outer gathered ⟨beyond, state⟩).Live :=
    h.live.replace due.frames rfl rfl rfl h.live.state rfl
      ⟨fits.scope, fits.element, fun _ own => by cases own; exact ⟨seen ++ [id], by simp [children]⟩⟩
      rfl (.visiting due.next rfl ⟨free.waits, free.pending, free.resume, free.state⟩)
  rw [← h.document] at same
  have mirrors : Mirrors w doc later waits (co.pass f outer gathered ⟨beyond, state⟩) :=
    ⟨live, h.running, h.asked, h.document, h.limit, pictures, asked.trans h.waits,
      fault.trans h.fault⟩
  exact .of_step_eq h.running h.asked mirrors.running (Coroutine.step_pass due same)
    (then_ _ _ mirrors ⟨rfl, due.next, rfl⟩ rfl)

theorem Mirrors.abort {fault : Fault} (h : Mirrors w doc run waits co) (fails : co.Fails fault next)
    (journal : next.stack.journal = co.stack.journal) (aborted : run.abort fault = goal) :
    Ends env w.policy goal waits co := by
  subst aborted
  refine ⟨1, .fail h.running h.asked (Coroutine.step_of_fails env fails)
    ⟨?_, rfl, ?_, h.waits.symm⟩⟩
  · exact (Coroutine.ended_terminate _ _).state
  · rw [(Coroutine.unwound_terminate _ next).entered, Stack.entered, journal]
    exact h.pictures.entered

theorem Mirrors.exhaust (h : Mirrors w doc run waits co)
    (due : co.Due .selectChild f outer ⟨[], state⟩)
    (then_ : ∀ next g, Mirrors w doc run waits next →
      next.Due .onPopping g outer ⟨[], state⟩ → g.kind = f.kind →
      Ends env w.policy goal waits next) : Ends env w.policy goal waits co := by
  have kept := h.pictures.keep (g := { f with context := some ⟨[], state⟩, next := .onPopping })
    due.frames rfl rfl rfl
  exact h.advance (.exhausts due rfl) h.running h.asked kept rfl rfl fun mirrors =>
    then_ _ _ mirrors ⟨rfl, rfl, rfl⟩ rfl

theorem Mirrors.enter (h : Mirrors w doc run waits co)
    (due : co.Due .selectChild f outer ⟨id :: beyond, state⟩)
    (admits : doc.Admits co.stack.exception.isSome id el) (room : run.levels.length < w.limit)
    (then_ : ∀ next, Mirrors w doc (run.enter id) waits next →
      next.Entering (ElementKind.ofTag el.tag) (Frame.enter (ElementKind.ofTag el.tag) id)
        ({ f with context := some ⟨beyond, state⟩ } :: outer) el →
      Ends env w.policy goal waits next) : Ends env w.policy goal waits co := by
  have selected := admits.select beyond f.content
  rw [← h.document] at selected
  have shallow : co.stack.depth < co.stack.limit := by
    rw [h.limit, Stack.depth, ← h.pictures.levels.length_eq]
    exact room
  have child : id ∈ doc.children f.position := by
    obtain ⟨seen, children⟩ := (h.live.fits due.frames).rest _ due.context
    rw [← h.document]
    simp [children]
  have built : doc.Built := h.document ▸ h.live.built
  have last : f.scope < id := by
    rw [(h.live.fits due.frames).scope]
    exact (built.of_mem_children child).1
  have stacked := (h.live.at due.frames).1
  have fresh : ∀ g ∈ { f with context := some ⟨beyond, state⟩ } :: outer, g.scope ≠ id := by
    intro g mem
    rcases List.mem_cons.mp mem with rfl | mem
    · exact Nat.ne_of_lt last
    · have less := stacked.scope_lt h.live.built g mem
      exact Nat.ne_of_lt (Nat.lt_trans less last)
  have kept := h.pictures.keep (g := { f with context := some ⟨beyond, state⟩ }) due.frames
    rfl rfl rfl
  have pictures := kept.enter (ElementKind.ofTag el.tag) id fresh
  have asked : (run.enter id).waits = run.waits := rfl
  refine h.advance (.enters due selected shallow) h.running h.asked ?_ asked rfl fun mirrors =>
    then_ _ mirrors ⟨rfl, rfl, rfl, rfl, ?_⟩
  · exact pictures.congr (fun _ _ => rfl) rfl rfl rfl rfl
  · have document : co.stack.document.element? id = some el := by
      rw [h.document]
      exact admits.element?_eq
    exact document

theorem Mirrors.leave {p : Frame} {context own : Context} (h : Mirrors w doc run waits co)
    (due : co.Due .onPopping f (p :: outer) context) (visiting : p.next = .selectChild)
    (around : p.context = some own)
    (then_ : ∀ next g, Mirrors w doc (run.leave f.kind (commits f.kind context.state)) waits next →
      next.Due .selectChild g outer own → g.kind = p.kind → Ends env w.policy goal waits next) :
    Ends env w.policy goal waits co := by
  have stacked := (h.live.at due.frames).1
  have apart : ∀ g ∈ p :: outer, g.scope ≠ f.scope :=
    fun g mem => Nat.ne_of_lt (stacked.scope_lt h.live.built g mem)
  have further : ∀ g ∈ outer, g.scope ≠ p.scope :=
    fun g mem => Nat.ne_of_lt (stacked.tail.scope_lt h.live.built g mem)
  have committed := co.commitment_eq due.context
  rw [h.pictures.flight] at committed
  have pictures := h.pictures.leave due.frames apart further f.kind committed
  exact h.advance (.leaves due) h.running h.asked pictures (Run.waits_leave ..)
    (Run.fault_leave ..) fun mirrors => then_ _ (co.receive f p) mirrors
      ⟨rfl, (Coroutine.next_receive p).trans visiting, (Coroutine.context_receive p).trans around⟩
      (Coroutine.kind_receive p)

theorem Mirrors.complete {context : Context} (h : Mirrors w doc run waits co)
    (due : co.Due .onPopping f [] context)
    (left : run.leave f.kind (commits f.kind context.state) = goal) :
    Ends env w.policy goal waits co := by
  subst left
  obtain ⟨level, _, inner, first, rest⟩ := h.pictures.exists_level due.frames
  cases rest
  have flight := h.pictures.flight
  have committed := co.commitment_eq due.context
  let last := co.onStack fun _ => { co.left f [] [] with result := co.resultAfter f }
  have ended : last.complete.Ended := Coroutine.ended_complete rfl
  refine h.ends (.completes due) ⟨0, .done ⟨ended.state, ?_, ?_, ?_⟩⟩
  · cases flying : run.flight with
    | some e =>
      have outcome : last.complete.outcome = some (.thrown e) := by
        simp [Coroutine.complete, last, Coroutine.onStack, Coroutine.left, flight, flying,
          Coroutine.finish]
      rw [outcome]
      simp only [Run.leave, inner, Run.outcome, h.fault, flying]
    | none =>
      have outcome : last.complete.outcome = some (.returned (co.resultAfter f)) := by
        simp [Coroutine.complete, last, Coroutine.onStack, Coroutine.left, flight, flying,
          Coroutine.finish]
      rw [outcome, Coroutine.resultAfter, committed, flight, h.pictures.result]
      generalize commits f.kind context.state = handed
      cases f.kind <;> cases handed <;>
        simp [Run.leave, inner, Run.outcome, h.fault, first.symbols, flying]
  · have entered := (Coroutine.unwound_of_left co f [] [] (co.resultAfter f)).entered
    rw [Stack.entered, Coroutine.journal_complete]
    refine entered.trans (h.pictures.entered.trans ?_)
    simp only [Run.leave, inner]
  · rw [Run.waits_leave]
    exact h.waits.symm

end Visit

def within (w : World) (id : NodeId) (el : Element) (children : List Tree) (run : Run) : Run :=
  let opened := setUp w el run
  if opened.visits then visitAll w (ElementKind.ofTag el.tag) (id + 1) children opened.run
  else opened.run

theorem visit_element (w : World) (parent : ElementKind) (id : NodeId) (el : Element)
    (children : List Tree) (run : Run) : visit w parent id (.element el children) run =
      if run.flight.isSome && !(ElementKind.ofTag el.tag).catches then run
      else if w.limit < run.levels.length + 1 then run.abort (.stackOverflow w.limit)
      else
        let inner := within w id el children (run.enter id)
        if inner.fault.isSome then inner
        else inner.leave (ElementKind.ofTag el.tag) (setUp w el (run.enter id)).commits := by
  rw [visit]
  rfl

section Tree

variable (env : Environment) (w : World) (doc : Document) (goal : Run)

/-- A coroutine that is due for a child goes on as the visit to the child leaves it. -/
def Follows (t : Tree) : Prop :=
  ∀ ⦃parent : Option NodeId⦄ ⦃id : Nat⦄ ⦃beyond : List NodeId⦄ ⦃run : Run⦄ ⦃waits : List Wait⦄
    ⦃co : Coroutine⦄ ⦃f : Frame⦄ ⦃outer : List Frame⦄ ⦃state : ContextState⦄,
    doc.Holds parent id t → Mirrors w doc run waits co →
    co.Due .selectChild f outer ⟨id :: beyond, state⟩ →
    ((visit w f.kind id t run).fault.isSome → visit w f.kind id t run = goal) →
    (∀ waits next g, Mirrors w doc (visit w f.kind id t run) waits next →
      next.Due .selectChild g outer ⟨beyond, state⟩ → g.kind = f.kind →
      Ends env w.policy goal waits next) → Ends env w.policy goal waits co

def FollowsAll (ts : List Tree) : Prop :=
  ∀ ⦃parent : Option NodeId⦄ ⦃id : Nat⦄ ⦃run : Run⦄ ⦃waits : List Wait⦄ ⦃co : Coroutine⦄
    ⦃f : Frame⦄ ⦃outer : List Frame⦄ ⦃state : ContextState⦄,
    doc.HoldsAll parent id ts → Mirrors w doc run waits co →
    co.Due .selectChild f outer ⟨Document.numbers id ts, state⟩ →
    ((visitAll w f.kind id ts run).fault.isSome → visitAll w f.kind id ts run = goal) →
    (∀ waits next g, Mirrors w doc (visitAll w f.kind id ts run) waits next →
      next.Due .selectChild g outer ⟨[], state⟩ → g.kind = f.kind →
      Ends env w.policy goal waits next) → Ends env w.policy goal waits co

variable {env w doc goal}

theorem FollowsAll.nil : FollowsAll env w doc goal [] := by
  intro _ _ _ _ _ _ _ _ _ mirrors due _ then_
  exact then_ _ _ _ mirrors due rfl

theorem FollowsAll.cons {t : Tree} {rest : List Tree} (first : Follows env w doc goal t)
    (later : FollowsAll env w doc goal rest) : FollowsAll env w doc goal (t :: rest) := by
  intro parent id run waits co f outer state held mirrors due faulty then_
  simp only [visitAll] at faulty then_
  refine first held.1 mirrors due (fun failed => ?_) fun waits next g mirrors due kind => ?_
  · simp only [failed, if_true] at faulty
    exact faulty trivial
  · simp only [mirrors.fault, Option.isSome_none, Bool.false_eq_true, if_false] at faulty then_
    refine later held.2 mirrors due (fun failed => ?_) fun waits next g' mirrors due same => ?_
    · rw [kind] at failed ⊢
      exact faulty failed
    · rw [kind] at mirrors
      exact then_ waits next g' mirrors due (same.trans kind)

theorem follows_content (text : String) : Follows env w doc goal (.content text) := by
  intro parent id beyond run waits co f outer state held mirrors due _ then_
  have selected : doc.select co.stack.exception.isSome (id :: beyond) f.content =
      doc.select co.stack.exception.isSome beyond (gather f.content text) := by
    simp [Document.select, held.kind?_eq, Tree.kind]
  have pictures := mirrors.pictures.gather (g := { f with
    content := gather f.content text, context := some ⟨beyond, state⟩ }) due.frames text rfl rfl rfl
  exact mirrors.pass due selected pictures (Run.waits_modify ..) (Run.fault_modify ..) (then_ waits)

theorem follows_comment (text : String) : Follows env w doc goal (.comment text) := by
  intro parent id beyond run waits co f outer state held mirrors due _ then_
  have selected : doc.select co.stack.exception.isSome (id :: beyond) f.content =
      doc.select co.stack.exception.isSome beyond f.content := by
    simp [Document.select, held.kind?_eq, Tree.kind]
  have pictures := mirrors.pictures.keep (g := { f with context := some ⟨beyond, state⟩ })
    due.frames rfl rfl rfl
  exact mirrors.pass due selected pictures rfl rfl (then_ waits)

theorem follows_document (children : List Tree) : Follows env w doc goal (.document children) := by
  intro parent id beyond run waits co f outer state held mirrors due faulty _
  have blocks : doc.Blocks id := .inl held.kind?_eq
  have selected : doc.select co.stack.exception.isSome (id :: beyond) f.content =
      ⟨f.content, beyond, .misplaced⟩ := blocks.select beyond f.content
  rw [← mirrors.document] at selected
  exact mirrors.abort (.misplaced due selected) rfl (faulty rfl)

theorem FollowsAll.within {parent : Option NodeId} {run : Run} {waits : List Wait} {co : Coroutine}
    {f : Frame} {outer : List Frame} {el : Element} {children : List Tree}
    (follows : FollowsAll env w doc goal children) (suits : w.Suits env doc)
    (held : doc.Holds parent f.position (.element el children)) (mirrors : Mirrors w doc run waits co)
    (entering : co.Entering (ElementKind.ofTag el.tag) f outer el)
    (faulty : (within w f.position el children run).fault.isSome →
      within w f.position el children run = goal)
    (then_ : ∀ waits next g context, Mirrors w doc (within w f.position el children run) waits next →
      next.Due .onPopping g outer context → g.kind = ElementKind.ofTag el.tag →
      commits g.kind context.state = (setUp w el run).commits →
      Ends env w.policy goal waits next) : Ends env w.policy goal waits co := by
  refine mirrors.setUp suits entering fun waits next opening => ?_
  obtain ⟨mirrors, g, state, due, kind, committed⟩ := opening
  have same : g.kind = ElementKind.ofTag el.tag := kind.trans entering.kind
  rw [← kind] at committed
  simp only [Walk.within] at faulty then_
  cases visits : (setUp w el run).visits with
  | false =>
    simp only [visits, Bool.false_eq_true, if_false] at due then_
    exact then_ waits next g _ mirrors due same committed
  | true =>
    simp only [visits, if_true] at due faulty then_
    rw [held.children_eq] at due
    refine follows held.below mirrors due (by rwa [same]) fun waits next g' mirrors due last => ?_
    rw [same] at mirrors last
    -- One step more is taken here than in the walk: the one that finds no child left.
    refine mirrors.exhaust due fun next g'' mirrors due last' => ?_
    refine then_ waits next g'' _ mirrors due (last'.trans last) ?_
    rw [last', last, ← same]
    exact committed

theorem FollowsAll.element {el : Element} {children : List Tree}
    (follows : FollowsAll env w doc goal children) (suits : w.Suits env doc) :
    Follows env w doc goal (.element el children) := by
  intro parent id beyond run waits co f outer state held mirrors due faulty then_
  rw [visit_element] at faulty then_
  have visiting : f.next = .selectChild := due.next
  have flight := mirrors.pictures.flight
  have kind : doc.kind? id = some (.element el) := held.kind?_eq
  -- Both sides ask the same three questions: whether the element is skipped, whether there is room
  -- for its frame, and whether its set-up or its children abort.
  cases skipped : run.flight.isSome && !(ElementKind.ofTag el.tag).catches with
  | true =>
    simp only [skipped, if_true] at then_
    have selected : doc.select co.stack.exception.isSome (id :: beyond) f.content =
        doc.select co.stack.exception.isSome beyond f.content := by
      simp only [Document.select, kind, flight, skipped, if_true]
    have pictures := mirrors.pictures.keep (g := { f with context := some ⟨beyond, state⟩ })
      due.frames rfl rfl rfl
    exact mirrors.pass due selected pictures rfl rfl (then_ waits)
  | false =>
    simp only [skipped, Bool.false_eq_true, if_false] at faulty then_
    have admits : doc.Admits co.stack.exception.isSome id el := by
      refine ⟨kind, fun flying => ?_⟩
      rw [flight] at flying
      simpa [flying, ElementKind.catches] using skipped
    by_cases full : w.limit < run.levels.length + 1
    · simp only [full, if_true] at faulty
      have selected := admits.select beyond f.content
      rw [← mirrors.document] at selected
      have deep : co.stack.limit ≤ co.stack.depth := by
        rw [mirrors.limit, Stack.depth, ← mirrors.pictures.levels.length_eq]
        omega
      refine mirrors.abort (.overflow due selected deep) rfl ?_
      rw [mirrors.limit]
      exact faulty rfl
    · simp only [full, if_false] at faulty then_
      refine mirrors.enter due admits (by omega) fun next mirrors entering => ?_
      refine follows.within suits held mirrors entering (fun failed => ?_)
        fun waits next g context mirrors due same committed => ?_
      · have failed : (Walk.within w id el children (run.enter id)).fault.isSome = true := failed
        simp only [failed, if_true] at faulty
        exact faulty trivial
      · have going := mirrors.fault
        simp only [Frame.enter] at going mirrors
        simp only [going, Option.isSome_none, Bool.false_eq_true, if_false] at then_
        rw [← same, ← committed] at then_
        exact mirrors.leave due visiting rfl (then_ waits)

-- Along the tree. What is left to do after a child is the hypothesis of its `Follows`, so that the
-- walk over siblings only has to chain them.
mutual

theorem follows (suits : w.Suits env doc) : (t : Tree) → Follows env w doc goal t
  | .content text => follows_content text
  | .comment text => follows_comment text
  | .document children => follows_document children
  | .element _ children => FollowsAll.element (followsAll suits children) suits

theorem followsAll (suits : w.Suits env doc) : (ts : List Tree) → FollowsAll env w doc goal ts
  | [] => FollowsAll.nil
  | t :: rest => FollowsAll.cons (follows suits t) (followsAll suits rest)

end

end Tree

section Program

variable {env : Environment} {w : World} {doc : Document}

theorem exists_rootAt {parent : Option NodeId} {id root : Nat} {ts : List Tree}
    (held : doc.HoldsAll parent id ts)
    (first : (Document.numbers id ts).find? (fun id => (doc.element? id).isSome) = some root) :
    ∃ t, rootAt? id ts = some (root, t) ∧ doc.Holds parent root t := by
  induction ts generalizing id with
  | nil => cases first
  | cons t rest ih =>
    simp only [Document.numbers, List.find?_cons, held.1.isElement_eq] at first
    cases t with
    | element el children =>
      cases first
      exact ⟨_, rfl, held.1⟩
    | document | content | comment => exact ih held.2 first

theorem ends_start {number : Nat} {tree : Tree} (suits : w.Suits env doc) (room : 0 < w.limit)
    (made : Document.ofTree? number tree = some doc) (id : Nat) :
    ∃ run root el, walk w tree = some run ∧ doc.rootElement? = some root ∧
      doc.element? root = some el ∧
      Ends env w.policy run []
        { Coroutine.start w.limit id doc root (ElementKind.ofTag el.tag) with state := .running } := by
  have built : doc.Built := ⟨number, tree, made⟩
  obtain ⟨root, el, rooted, element⟩ := built.exists_root
  have held := Document.holds_of_ofTree? made
  have found := rooted
  rw [Document.rootElement?, held.children_eq] at found
  obtain ⟨t, first, below⟩ := exists_rootAt held.below found
  have shape := below.eq_element element
  generalize t.children = children at shape
  subst shape
  refine ⟨visit w .structural root (.element el children) {}, root, el, ?_, rooted, element, ?_⟩
  · simp only [walk, Document.root] at first ⊢
    rw [first]
    rfl
  · let started : Coroutine :=
      { Coroutine.start w.limit id doc root (ElementKind.ofTag el.tag) with state := .running }
    have live : started.Live :=
      (Coroutine.Live.start room built rooted element).of_state (by simp [Coroutine.start]) (by simp)
    have pictures : (Run.enter root {}).Pictures started.stack :=
      ⟨.cons ⟨rfl, fun _ => rfl, rfl⟩ .nil, fun _ _ bound => absurd rfl bound, rfl, rfl, rfl⟩
    have mirrors : Mirrors w doc (Run.enter root {}) [] started :=
      ⟨live, rfl, rfl, rfl, rfl, pictures, rfl, rfl⟩
    have entering : started.Entering (ElementKind.ofTag el.tag)
        (Frame.enter (ElementKind.ofTag el.tag) root) [] el := ⟨rfl, rfl, rfl, rfl, element⟩
    have shallow : ¬ w.limit < ([] : List Level).length + 1 := by
      simp only [List.length_nil]
      omega
    have whole := visit_element w .structural root el children {}
    simp only [Option.isSome_none, Bool.false_and, Bool.false_eq_true, if_false, shallow] at whole
    refine (followsAll suits children).within suits below mirrors entering (fun failed => ?_)
      fun waits next g context mirrors due same committed => ?_
    · have failed : (within w root el children (Run.enter root {})).fault.isSome = true := failed
      rw [whole, failed]
      rfl
    · have going := mirrors.fault
      simp only [Frame.enter] at going mirrors
      rw [going] at whole
      refine mirrors.complete due ?_
      rw [committed, same, whole]
      rfl

end Program

end Walk
end MarkupMachine
