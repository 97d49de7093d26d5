import MarkupMachine.Proofs.Machine.Driven
import MarkupMachine.Proofs.Tree.Order

/-! How far a coroutine has come in its document. It enters ever later elements, suspends in each of
them once at most, and has a number of steps ahead of it that every step makes smaller. -/

namespace MarkupMachine

def Event.entered? : Event → Option NodeId
  | .entered _ id _ => some id
  | _ => none

def Event.suspended? : Event → Option (Option NodeId)
  | .suspended position _ => some position
  | _ => none

def Stack.entered (s : Stack) : List NodeId := s.journal.filterMap Event.entered?

def Stack.suspended (s : Stack) : List (Option NodeId) := s.journal.filterMap Event.suspended?

theorem filterMap_exits {events : List Event} (exits : ∀ event ∈ events, event.Exits) :
    events.filterMap Event.entered? = [] := by
  refine List.filterMap_eq_nil_iff.mpr fun event mem => ?_
  cases exits event mem <;> rfl

theorem Coroutine.Unwound.entered {co next : Coroutine} (h : Unwound co next) :
    next.stack.entered = co.stack.entered := by
  obtain ⟨exits, journal, all⟩ := h.journal
  rw [Stack.entered, journal, List.filterMap_append, filterMap_exits all]
  rfl

theorem Coroutine.Unwound.suspended {co next : Coroutine} (h : Unwound co next) :
    next.stack.suspended = co.stack.suspended := by
  obtain ⟨exits, journal, all⟩ := h.journal
  have silent : exits.filterMap Event.suspended? = [] := by
    refine List.filterMap_eq_nil_iff.mpr fun event mem => ?_
    cases all event mem <;> rfl
  rw [Stack.suspended, journal, List.filterMap_append, silent]
  rfl

/-- How many steps a frame can still take by itself. -/
def NextStep.due : NextStep → Nat
  | .afterPushed => 4
  | .rerun | .custom _ => 3
  | .selectChild => 2
  | .onPopping => 1

def Frame.todo (doc : Document) (f : Frame) : List NodeId :=
  match f.context with
  | some context => context.rest
  | none => doc.children f.position

namespace Stack

def todo (s : Stack) : List NodeId := s.frames.flatMap (·.todo s.document)

def due (s : Stack) : Nat := s.frames.foldr (fun f steps => f.next.due + steps) 0

/-- What a stack has done so far was done once, and in document order. -/
structure Forward (s : Stack) : Prop where
  increasing : s.entered.Pairwise (· > ·)
  suspended : s.suspended.Sublist (s.entered.map some)
  pushed : s.stats.framesPushed = s.entered.length

/-- What a stack has still to do lies beyond the element that it entered last, and takes so many
steps at most. An element that is still to be entered takes five, one of which is its parent's. -/
structure Ahead (s : Stack) (m : Nat) : Prop extends Forward s where
  fresh : ∀ f, s.top? = some f → f.next = .afterPushed →
    ∃ earlier, s.entered = f.position :: earlier ∧ s.suspended.Sublist (earlier.map some)
  ahead : ∃ latest earlier hi n, s.entered = latest :: earlier ∧
    s.document.InOrder (latest + 1) s.todo hi n ∧ s.due + 5 * n ≤ m

variable {s t : Stack} {f g : Frame} {outer : List Frame} {m : Nat}

theorem todo_eq (frames : s.frames = f :: outer) :
    s.todo = f.todo s.document ++ outer.flatMap (·.todo s.document) := by
  simp [todo, frames]

theorem due_eq (frames : s.frames = f :: outer) :
    s.due = f.next.due + outer.foldr (fun f steps => f.next.due + steps) 0 := by
  simp [due, frames]

theorem Forward.congr (h : s.Forward) (entered : t.entered = s.entered)
    (suspended : t.suspended.Sublist (s.entered.map some))
    (pushed : t.stats.framesPushed = s.stats.framesPushed) : t.Forward where
  increasing := entered ▸ h.increasing
  suspended := entered ▸ suspended
  pushed := by rw [pushed, entered, h.pushed]

theorem Ahead.weaken {n : Nat} (h : s.Ahead m) (le : m ≤ n) : s.Ahead n := by
  obtain ⟨latest, earlier, hi, k, entered, order, bound⟩ := h.ahead
  exact { h with ahead := ⟨latest, earlier, hi, k, entered, order, Nat.le_trans bound le⟩ }

theorem Ahead.pos (h : s.Ahead m) (frames : s.frames = f :: outer) : 0 < m := by
  obtain ⟨_, _, _, _, _, _, bound⟩ := h.ahead
  have some_step : 0 < f.next.due := by cases f.next <;> simp [NextStep.due]
  rw [due_eq frames] at bound
  omega

theorem Ahead.shrink (h : s.Ahead m) (document : t.document = s.document)
    (entered : t.entered = s.entered) (suspended : t.suspended.Sublist (s.entered.map some))
    (pushed : t.stats.framesPushed = s.stats.framesPushed)
    (top : ∀ g, t.top? = some g → g.next ≠ .afterPushed) (rest : ∃ seen, s.todo = seen ++ t.todo)
    (less : t.due < s.due) : ∃ k, k < m ∧ t.Ahead k := by
  obtain ⟨latest, earlier, hi, n, last, order, bound⟩ := h.ahead
  obtain ⟨seen, split⟩ := rest
  rw [split] at order
  obtain ⟨fewer, le, order⟩ := order.drop
  refine ⟨t.due + 5 * fewer, by omega,
    { toForward := h.toForward.congr entered suspended pushed, fresh := ?_, ahead := ?_ }⟩
  · exact fun g found next => absurd next (top g found)
  · exact ⟨latest, earlier, hi, fewer, entered.trans last, document ▸ order, Nat.le_refl _⟩

theorem Ahead.advance (h : s.Ahead m) (frames : s.frames = f :: outer)
    (changed : t.frames = g :: outer) (document : t.document = s.document)
    (entered : t.entered = s.entered) (suspended : t.suspended.Sublist (s.entered.map some))
    (pushed : t.stats.framesPushed = s.stats.framesPushed)
    (rest : ∃ seen, f.todo s.document = seen ++ g.todo s.document)
    (less : g.next.due < f.next.due) : ∃ k, k < m ∧ t.Ahead k := by
  refine h.shrink document entered suspended pushed (fun first found => ?_) ?_ ?_
  · obtain rfl : g = first := by simpa [top?, changed] using found
    intro next
    rw [next] at less
    cases due : f.next <;> simp [due, NextStep.due] at less
  · obtain ⟨seen, split⟩ := rest
    exact ⟨seen, by rw [todo_eq frames, todo_eq changed, document, split, List.append_assoc]⟩
  · rw [due_eq frames, due_eq changed]
    omega

theorem Ahead.enter {raising : Bool} {rest beyond : List NodeId} {id : NodeId} {el : Element}
    (h : s.Ahead m) (frames : s.frames = f :: outer) (own : f.todo s.document = rest)
    (reached : s.document.Reaches raising rest id beyond)
    (admits : s.document.Admits raising id el)
    (changed : t.frames = Frame.enter (ElementKind.ofTag el.tag) id :: g :: outer)
    (outside : g.todo s.document = beyond) (same : g.next = f.next)
    (document : t.document = s.document)
    (entered : t.entered = id :: s.entered) (suspended : t.suspended = s.suspended)
    (pushed : t.stats.framesPushed = s.stats.framesPushed + 1) : ∃ k, k < m ∧ t.Ahead k := by
  obtain ⟨latest, earlier, hi, n, last, order, bound⟩ := h.ahead
  obtain ⟨skipped, rfl, _⟩ := reached
  rw [todo_eq frames, own, List.append_assoc, List.cons_append] at order
  obtain ⟨fewer, le, order⟩ := order.drop
  have increasing := h.increasing
  cases order with
  | @cons _ _ _ k _ parent u above held later =>
    obtain ⟨children, rfl⟩ : ∃ children, u = .element el children :=
      ⟨_, held.eq_element admits.element?_eq⟩
    have inside := held.inOrder_children.append later
    have sum : s.due = f.next.due + outer.foldr (fun f steps => f.next.due + steps) 0 :=
      due_eq frames
    have grown : t.due = 4 + s.due := by
      rw [due_eq changed, sum, List.foldr_cons, same]
      rfl
    refine ⟨t.due + 5 * (Tree.elementsOf children + k), ?_, {
      increasing := ?_, suspended := ?_, pushed := ?_, fresh := ?_, ahead := ?_ }⟩
    · simp only [Tree.elements] at le
      omega
    · rw [entered]
      refine List.pairwise_cons.mpr ⟨fun other mem => ?_, increasing⟩
      rw [last] at increasing mem
      rcases List.mem_cons.mp mem with rfl | mem
      · exact above
      · exact Nat.lt_trans ((List.pairwise_cons.mp increasing).1 other mem) above
    · rw [entered, suspended]
      exact h.suspended.trans (List.sublist_cons_self _ _)
    · rw [pushed, entered, h.pushed, List.length_cons]
    · intro first found _
      obtain rfl : Frame.enter (ElementKind.ofTag el.tag) id = first := by
        simpa [top?, changed] using found
      exact ⟨s.entered, entered, suspended ▸ h.suspended⟩
    · refine ⟨id, s.entered, hi, _, entered, ?_, Nat.le_refl _⟩
      rw [todo_eq changed, List.flatMap_cons, document, outside]
      exact inside

end Stack

namespace Coroutine

variable {env : Environment} {co next : Coroutine} {f : Frame} {outer : List Frame} {m : Nat}

theorem Entering.todo_eq {kind : ElementKind} {el : Element}
    (entering : Entering co kind f outer el) :
    f.todo co.stack.document = co.stack.document.children f.position := by
  simp [Frame.todo, entering.context]

theorem Due.todo_eq {due : NextStep} {context : Context} (h : Due co due f outer context)
    (doc : Document) : f.todo doc = context.rest := by
  simp [Frame.todo, h.context]

theorem framesPushed_complete (co : Coroutine) :
    co.complete.stack.stats.framesPushed = co.stack.stats.framesPushed := by
  unfold complete
  split <;> rfl

theorem suspended_complete (co : Coroutine) : co.complete.stack.suspended = co.stack.suspended := by
  rw [Stack.suspended, journal_complete]
  rfl

theorem entered_complete (co : Coroutine) : co.complete.stack.entered = co.stack.entered := by
  rw [Stack.entered, journal_complete]
  rfl

theorem Live.ahead_of_transition (live : co.Live) (h : co.stack.Ahead m)
    (rule : Transition env co next) :
    (∃ k, k < m ∧ next.stack.Ahead k) ∨ 0 < m ∧ next.Ended ∧ next.stack.Forward := by
  cases rule with
  | opens entering | fails entering | catches entering =>
    refine .inl (h.advance entering.frames rfl rfl rfl h.suspended rfl ⟨[], entering.todo_eq⟩ ?_)
    simp [entering.next, NextStep.due]
  | idles entering | misses entering | fumbles entering =>
    refine .inl (h.advance entering.frames rfl rfl rfl h.suspended rfl ⟨[], entering.todo_eq⟩ ?_)
    simp [entering.next, NextStep.due]
  | asks entering asks =>
    refine .inl (h.advance entering.frames rfl rfl rfl ?_ rfl ⟨[], entering.todo_eq⟩ ?_)
    · obtain ⟨earlier, last, before⟩ := h.fresh _ (by simp [Stack.top?, entering.frames]) entering.next
      rw [last]
      exact before.cons_cons _
    · cases asks <;> simp [entering.next, NextStep.due, Requester.awaiting]
  | wakes due =>
    refine .inl (h.advance due.frames rfl rfl rfl h.suspended rfl ⟨[], rfl⟩ ?_)
    simp [due.next, NextStep.due]
  | responds due =>
    refine .inl (h.advance due.frames rfl rfl rfl h.suspended rfl ⟨[], due.todo_eq _⟩ ?_)
    simp [due.next, NextStep.due]
  | breaks due kind element resume broken =>
    refine .inl (h.advance due.frames rfl rfl rfl h.suspended rfl ⟨[], rfl⟩ ?_)
    rcases broken.due with rfl | ⟨_, rfl⟩ <;> simp [due.next, NextStep.due]
  | @exhausts f outer rest state content due selected =>
    refine .inl (h.advance due.frames rfl rfl rfl h.suspended rfl
      ⟨rest, (due.todo_eq _).trans (List.append_nil _).symm⟩ ?_)
    simp [due.next, NextStep.due]
  | enters due selected room =>
    obtain ⟨el, reached, admits, rfl⟩ := Document.exists_reaches_of_select_element selected
    exact .inl (h.enter due.frames (due.todo_eq _) reached admits rfl rfl rfl rfl rfl rfl rfl)
  | @leaves f p outer context due =>
    have unwound := unwound_of_left co f (p :: outer) (co.receive f p :: outer) co.stack.result
    have frames : (co.left f (p :: outer) (co.receive f p :: outer)).frames =
        co.receive f p :: outer := rfl
    refine .inl (h.shrink rfl unwound.entered (unwound.suspended ▸ h.suspended) rfl ?_ ?_ ?_)
    · intro g found
      obtain rfl : co.receive f p = g := by simpa [Stack.top?, frames, onStack] using found
      rw [next_receive, (live.at due.frames).1.parent.next]
      simp
    · refine ⟨f.todo co.stack.document, ?_⟩
      simp [Stack.todo, due.frames, onStack, left, Frame.todo]
    · simp [Stack.due, due.frames, onStack, left, due.next, NextStep.due]
  | @completes f context due =>
    have unwound := unwound_of_left co f [] [] (co.resultAfter f)
    refine .inr ⟨h.pos due.frames, ended_complete rfl, h.toForward.congr ?_ ?_ ?_⟩
    · rw [entered_complete]
      exact unwound.entered
    · rw [suspended_complete]
      exact unwound.suspended ▸ h.suspended
    · rw [framesPushed_complete]
      rfl

theorem forward_of_fails {fault : Fault} (h : co.stack.Forward) (rule : co.Fails fault next) :
    next.stack.Forward := by
  cases rule <;> exact h.congr rfl h.suspended rfl

theorem framesPushed_unwind (count : Nat) (co : Coroutine) :
    (co.unwind count).stack.stats.framesPushed = co.stack.stats.framesPushed := by
  induction count generalizing co with
  | zero => rfl
  | succ count ih =>
    cases frames : co.stack.frames with
    | nil => simp [unwind, Stack.top?, frames]
    | cons f outer =>
      simp only [unwind, Stack.top?, frames, List.head?_cons, ih, onPopping_pop frames]
      rfl

theorem forward_terminate (outcome : Outcome) (h : co.stack.Forward) :
    (co.terminate outcome).stack.Forward := by
  have unwound := unwound_terminate outcome co
  exact h.congr unwound.entered (unwound.suspended ▸ h.suspended) (framesPushed_unwind _ co)

theorem ahead_start {doc : Document} {parent : Option NodeId} {root : NodeId} {el : Element}
    {t : Tree} (limit id : Nat) (kind : ElementKind) (held : doc.Holds parent root t)
    (element : doc.element? root = some el) :
    (start limit id doc root kind).stack.Ahead (5 * t.elements - 1) := by
  obtain ⟨children, rfl⟩ : ∃ children, t = .element el children := ⟨_, held.eq_element element⟩
  refine ⟨⟨List.pairwise_singleton _ _, List.nil_sublist _, rfl⟩, fun f found _ => ?_, ?_⟩
  · obtain rfl : Frame.enter kind root = f := by simpa [start, Stack.top?] using found
    exact ⟨[], rfl, .refl _⟩
  · have todo : (start limit id doc root kind).stack.todo = doc.children root := by
      simp [start, Stack.todo, Frame.todo, Frame.enter]
    have due : (start limit id doc root kind).stack.due = 4 := rfl
    refine ⟨root, [], _, _, rfl, todo ▸ held.inOrder_children, ?_⟩
    rw [due, Tree.elements]
    omega

theorem ahead_resumeWith (h : co.stack.Ahead m) (c : Completion) :
    (co.resumeWith c).stack.Ahead m :=
  ⟨⟨h.increasing, h.suspended, h.pushed⟩, h.fresh, h.ahead⟩

namespace Driven

variable {admits : Coroutine → Completion → Prop}

/-- What a coroutine has done was done in order, and what is ahead of it is bounded by the size of
its document. -/
theorem forward_ahead (driven : Driven admits co) : co.stack.Forward ∧
    (co.outcome = none → co.stack.Ahead (5 * co.stack.document.size)) := by
  refine driven.keeps (P := fun _ stack outcome => stack.Forward ∧
    (outcome = none → stack.Ahead (5 * stack.document.size))) ?_ ?_ ?_ ?_ ?_
  · intro limit id doc root el _ built rooted element
    obtain ⟨number, tree, made⟩ := built
    obtain ⟨parent, t, first, held⟩ := Document.exists_holds_of_rootElement? made rooted
    have ahead := ahead_start limit id (ElementKind.ofTag el.tag) held element
    have size : t.elements ≤ doc.size := Document.elements_le_size made first
    exact ⟨ahead.toForward, fun _ => ahead.weaken (Nat.le_trans (Nat.sub_le _ _)
      (Nat.mul_le_mul_left 5 size))⟩
  · intro env co next live running kept rule
    obtain ⟨forward, ahead⟩ := kept
    rcases live.ahead_of_transition (ahead rfl) rule with ⟨k, less, ahead⟩ | ⟨_, ended, forward⟩
    · rw [(kin_of_transition rule).document]
      exact ⟨ahead.toForward, fun _ => ahead.weaken (Nat.le_of_lt less)⟩
    · exact ⟨forward, fun none => absurd none ended.outcome⟩
  · exact fun _ _ kept rule =>
      ⟨forward_terminate _ (forward_of_fails kept.1 rule), fun none => (nomatch none)⟩
  · exact fun _ _ _ kept =>
      ⟨(ahead_resumeWith (kept.2 rfl) _).toForward, fun _ => ahead_resumeWith (kept.2 rfl) _⟩
  · exact fun _ kept => ⟨forward_terminate _ kept.1, fun none => (nomatch none)⟩

theorem forward (driven : Driven admits co) : co.stack.Forward := driven.forward_ahead.1

theorem once (driven : Driven admits co) : co.stack.entered.Nodup :=
  driven.forward.increasing.imp fun less => Nat.ne_of_gt less

end Driven

end Coroutine
end MarkupMachine
