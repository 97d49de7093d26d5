import MarkupMachine.Proofs.Machine.Frames
import MarkupMachine.Proofs.Machine.Once

/-! The variables of elements against the journal. What an element has bound to a name is what the
last of its requests with that name left behind since the element was entered; and only elements
that have a frame have variables. -/

namespace MarkupMachine

namespace Event

def binds? (doc : Document) (position : NodeId) (name : String) : Event → Option Value
  | .committed id (some other) value =>
    if doc.parent? id = some position ∧ other = name then some value else none
  | _ => none

def exited? : Event → Option NodeId
  | .left id => some id
  | .committed id _ _ => some id
  | _ => none

/-- An entry about no element that comes or goes. -/
structure Quiet (event : Event) : Prop where
  entered : event.entered? = none
  exited : event.exited? = none

theorem Quiet.alone {event : Event} (quiet : event.Quiet) : ∀ other ∈ [event], other.Quiet :=
  List.forall_mem_singleton.mpr quiet

theorem Quiet.both {first second : Event} (quiet : first.Quiet) (quiet' : second.Quiet) :
    ∀ other ∈ [first, second], other.Quiet :=
  List.forall_mem_cons.mpr ⟨quiet, quiet'.alone⟩

theorem Quiet.binds?_eq {event : Event} (quiet : event.Quiet) (doc : Document)
    (position : NodeId) (name : String) : event.binds? doc position name = none := by
  cases event with
  | committed => cases quiet.exited
  | _ => rfl

end Event

def Stack.exited (s : Stack) : List NodeId := s.journal.filterMap Event.exited?

/-- The last value that requests left behind under a name for the element at a position, since it
was entered. The journal has its latest entry first. -/
def Document.latest? (doc : Document) (position : NodeId) (name : String) (journal : List Event) :
    Option Value :=
  (journal.takeWhile fun event => event.entered? != some position).findSome?
    (·.binds? doc position name)

def Stack.latest? (s : Stack) (position : NodeId) (name : String) : Option Value :=
  s.document.latest? position name s.journal

namespace Document

variable {doc : Document} {position : NodeId} {name : String} {event : Event}
  {later earlier : List Event}

theorem latest?_cons (event : Event) (earlier : List Event) :
    doc.latest? position name (event :: earlier) =
      if event.entered? = some position then none
      else (event.binds? doc position name).or (doc.latest? position name earlier) := by
  by_cases entered : event.entered? = some position
  · simp [latest?, entered]
  · cases binds : event.binds? doc position name <;>
      simp [latest?, entered, binds]

theorem latest?_append (binds : ∀ event ∈ later, event.binds? doc position name = none)
    (enters : position ∉ later.filterMap Event.entered?) :
    doc.latest? position name (later ++ earlier) = doc.latest? position name earlier := by
  induction later with
  | nil => rfl
  | cons event later ih =>
    have other : event.entered? ≠ some position := fun entered => by
      simp [entered] at enters
    have rest : position ∉ later.filterMap Event.entered? := fun mem =>
      enters (List.filterMap_cons .. ▸ by cases event.entered? <;> simp [mem])
    rw [List.cons_append, latest?_cons, if_neg other, binds event (by simp),
      ih (fun event mem => binds event (by simp [mem])) rest]
    rfl

end Document

def Frame.place (f : Frame) : NodeId × NodeId := (f.scope, f.position)

theorem exists_of_places {frames others : List Frame} {g : Frame}
    (same : others.map Frame.place = frames.map Frame.place) (mem : g ∈ others) :
    ∃ f ∈ frames, f.scope = g.scope ∧ f.position = g.position := by
  have within : g.place ∈ frames.map Frame.place := same ▸ List.mem_map_of_mem mem
  obtain ⟨f, mem, place⟩ := List.mem_map.mp within
  exact ⟨f, mem, (Prod.mk.inj place).1, (Prod.mk.inj place).2⟩

/-- No element comes or goes between two stacks, and no variable changes. -/
structure Stack.Rests (s t : Stack) : Prop where
  document : t.document = s.document
  scopes : t.scopes = s.scopes
  places : t.frames.map Frame.place = s.frames.map Frame.place
  journal : ∃ quiet, t.journal = quiet ++ s.journal ∧ ∀ event ∈ quiet, event.Quiet

namespace Coroutine

structure Leaves (co next : Coroutine) (f : Frame) (outer : List Frame) : Prop where
  before : co.stack.frames = f :: outer
  document : next.stack.document = co.stack.document
  frames : next.stack.frames = co.receiving f outer
  scopes : next.stack.scopes = co.scopesAfter f outer
  journal : next.stack.journal = .left f.position :: co.committing f ++ co.stack.journal

structure Enters (co next : Coroutine) (id : NodeId) : Prop where
  document : next.stack.document = co.stack.document
  scopes : next.stack.scopes = co.stack.scopes
  places : next.stack.frames.map Frame.place = (id, id) :: co.stack.frames.map Frame.place
  journal : ∃ kind raising, next.stack.journal = .entered kind id raising :: co.stack.journal

/-- What a step is to the variables. -/
inductive Moves (co next : Coroutine) : Prop
  | rests : co.stack.Rests next.stack → Moves co next
  | enters {id} : Enters co next id → Moves co next
  | leaves {f outer} : Leaves co next f outer → Moves co next

variable {env : Environment} {co next : Coroutine} {f g p : Frame} {outer : List Frame}

theorem rests_of_entries (events : List Event) {t : Stack} (frames : co.stack.frames = f :: outer)
    (changed : t.frames = g :: outer) (place : g.place = f.place)
    (document : t.document = co.stack.document) (scopes : t.scopes = co.stack.scopes)
    (journal : t.journal = events ++ co.stack.journal) (quiet : ∀ event ∈ events, event.Quiet) :
    co.stack.Rests t :=
  ⟨document, scopes, by simp [frames, changed, place], events, journal, quiet⟩

theorem scopes_complete (co : Coroutine) : co.complete.stack.scopes = co.stack.scopes := by
  unfold complete
  split <;> rfl

theorem Leaves.complete (h : Leaves co next f []) : Leaves co next.complete f [] where
  before := h.before
  document := (kin_complete next).document.trans h.document
  frames := (ended_complete h.frames).frames
  scopes := (scopes_complete next).trans h.scopes
  journal := (journal_complete next).trans h.journal

theorem moves_of_transition (rule : Transition env co next) : Moves co next := by
  cases rule with
  | opens entering | idles entering =>
    exact .rests (rests_of_entries [] entering.frames rfl rfl rfl rfl rfl (by simp))
  | fails entering | asks entering | catches entering | misses entering | fumbles entering =>
    refine .rests (rests_of_entries [_] entering.frames rfl rfl rfl rfl rfl fun _ mem => ?_)
    rw [List.mem_singleton.mp mem]
    exact ⟨rfl, rfl⟩
  | wakes due | responds due =>
    refine .rests (rests_of_entries [_] due.frames rfl rfl rfl rfl rfl fun _ mem => ?_)
    rw [List.mem_singleton.mp mem]
    exact ⟨rfl, rfl⟩
  | breaks due =>
    refine .rests (rests_of_entries [_, _] due.frames rfl rfl rfl rfl rfl fun _ mem => ?_)
    rcases List.mem_cons.mp mem with rfl | mem
    · exact ⟨rfl, rfl⟩
    · rw [List.mem_singleton.mp mem]
      exact ⟨rfl, rfl⟩
  | exhausts due =>
    exact .rests (rests_of_entries [] due.frames rfl rfl rfl rfl rfl (by simp))
  | enters due =>
    exact .enters ⟨rfl, rfl, by simp [onStack, due.frames, Frame.place, Frame.enter], _, _, rfl⟩
  | leaves due => exact .leaves ⟨due.frames, rfl, rfl, rfl, rfl⟩
  | completes due => exact .leaves (Leaves.complete ⟨due.frames, rfl, rfl, rfl, rfl⟩)

theorem rests_of_fails {fault : Fault} (rule : co.Fails fault next) :
    co.stack.Rests next.stack := by
  cases rule with
  | overflow due | misplaced due =>
    exact rests_of_entries [] due.frames rfl rfl rfl rfl rfl (by simp)
  | displayed due | timed due =>
    refine rests_of_entries [_] due.frames due.frames rfl rfl rfl rfl fun _ mem => ?_
    rw [List.mem_singleton.mp mem]
    exact ⟨rfl, rfl⟩

theorem rests_resumeWith (co : Coroutine) (c : Completion) :
    co.stack.Rests (co.resumeWith c).stack :=
  ⟨rfl, rfl, rfl, [_], rfl, fun _ mem => List.mem_singleton.mp mem ▸ ⟨rfl, rfl⟩⟩

theorem unwind_keeps {P : Stack → Prop}
    (keeps : ∀ {co next : Coroutine} {f outer}, Leaves co next f outer → P co.stack → P next.stack)
    (count : Nat) (co : Coroutine) (h : P co.stack) : P (co.unwind count).stack := by
  induction count generalizing co with
  | zero => exact h
  | succ count ih =>
    cases frames : co.stack.frames with
    | nil => simpa [Coroutine.unwind, Stack.top?, frames] using h
    | cons f outer =>
      simp only [Coroutine.unwind, Stack.top?, frames, List.head?_cons]
      rw [onPopping_pop frames]
      exact ih _ (keeps ⟨frames, rfl, rfl, rfl, rfl⟩ h)

theorem terminate_keeps {P : Stack → Prop}
    (keeps : ∀ {co next : Coroutine} {f outer}, Leaves co next f outer → P co.stack → P next.stack)
    (outcome : Outcome) (h : P co.stack) : P (co.terminate outcome).stack :=
  unwind_keeps keeps co.stack.depth co h

end Coroutine

section Owned

namespace ScopeVars

theorem hasScope_bind (scope other : NodeId) (name : String) (value : Value) (vars : ScopeVars) :
    (vars.bind scope name value).hasScope other = true ↔
      other = scope ∨ vars.hasScope other = true := by
  by_cases same : other = scope <;>
    simp [hasScope, Table.contains, bind, Table.get?_insert, same]

theorem hasScope_drop (scope other : NodeId) (vars : ScopeVars) :
    (vars.drop scope).hasScope other = true ↔ other ≠ scope ∧ vars.hasScope other = true := by
  by_cases same : other = scope <;>
    simp [hasScope, Table.contains, drop, Table.get?_erase, same]

theorem get?_of_not_hasScope {scope : NodeId} {vars : ScopeVars} (h : ¬ vars.hasScope scope = true)
    (name : String) : vars.get? scope name = none := by
  simp only [hasScope, Table.contains, Bool.not_eq_true, Option.isSome_eq_false_iff,
    Option.isNone_iff_eq_none] at h
  simp only [get?, h]

theorem scopes_eq_nil {vars : ScopeVars} (none : ∀ scope, ¬ vars.hasScope scope = true) :
    vars.scopes = [] := by
  cases entries : vars.scopes with
  | nil => rfl
  | cons entry rest =>
    refine absurd ?_ (none entry.1)
    simp [hasScope, Table.contains, entries, Table.get?]

end ScopeVars

/-- Only elements with a frame have variables. -/
def Stack.Owned (s : Stack) : Prop :=
  ∀ scope, s.scopes.hasScope scope = true → ∃ f ∈ s.frames, f.scope = scope

namespace Coroutine

variable {co next : Coroutine} {f : Frame} {outer : List Frame}

theorem owned_rests {s t : Stack} (same : s.Rests t) (h : s.Owned) : t.Owned := by
  intro scope has
  rw [same.scopes] at has
  obtain ⟨f, mem, own⟩ := h scope has
  obtain ⟨g, mem, place, _⟩ := exists_of_places same.places.symm mem
  exact ⟨g, mem, place.trans own⟩

theorem Enters.owned {id : NodeId} (enters : Enters co next id) (h : co.stack.Owned) :
    next.stack.Owned := by
  intro scope has
  rw [enters.scopes] at has
  obtain ⟨f, mem, rfl⟩ := h scope has
  have within : f.place ∈ next.stack.frames.map Frame.place := by
    rw [enters.places]
    exact List.mem_cons_of_mem _ (List.mem_map_of_mem mem)
  obtain ⟨g, mem, place⟩ := List.mem_map.mp within
  exact ⟨g, mem, (Prod.mk.inj place).1⟩

theorem owner_of_bound {scope : NodeId} (frames : co.stack.frames = f :: outer)
    (h : co.stack.Owned) (has : (co.bound f outer).hasScope scope = true) :
    scope = f.scope ∨ ∃ g ∈ outer, g.scope = scope := by
  have before (has : co.stack.scopes.hasScope scope = true) :
      scope = f.scope ∨ ∃ g ∈ outer, g.scope = scope := by
    obtain ⟨owner, mem, rfl⟩ := h scope has
    rw [frames] at mem
    rcases List.mem_cons.mp mem with rfl | mem
    · exact .inl rfl
    · exact .inr ⟨owner, mem, rfl⟩
  unfold bound at has
  split at has
  · rcases (ScopeVars.hasScope_bind ..).mp has with rfl | has
    · exact .inr ⟨_, by simp, rfl⟩
    · exact before has
  · exact before has

theorem Leaves.owned (leaves : Leaves co next f outer) (h : co.stack.Owned) :
    next.stack.Owned := by
  intro scope has
  have around : outer.any (·.scope == scope) = true := by
    rw [leaves.scopes, scopesAfter] at has
    split at has
    · rename_i shared
      rcases owner_of_bound leaves.before h has with rfl | ⟨g, mem, rfl⟩
      · exact shared
      · exact List.any_eq_true.mpr ⟨g, mem, by simp⟩
    · obtain ⟨other, has⟩ := (ScopeVars.hasScope_drop ..).mp has
      obtain ⟨g, mem, rfl⟩ := (owner_of_bound leaves.before h has).resolve_left other
      exact List.any_eq_true.mpr ⟨g, mem, by simp⟩
  have kept : (co.receiving f outer).any (·.scope == scope) = true :=
    (any_scope_receiving scope).trans around
  obtain ⟨g, mem, own⟩ := List.any_eq_true.mp kept
  rw [leaves.frames]
  exact ⟨g, mem, by simpa using own⟩

end Coroutine

end Owned

section Backed

def Document.Sent (doc : Document) (journal : List Event) (id : NodeId)
    (bindAs : Option String) : Prop :=
  ∃ (env : Environment) (stack : Stack) (el : Element) (uuid : Uuid) (request : Request)
    (names noted : List String), stack.document = doc ∧ doc.element? id = some el ∧
    ElementKind.ofTag el.tag = .request ∧
    (Requester.setup (env.valueOf stack) uuid env.target el).run.run names =
      (.ok (request, bindAs), noted) ∧
    .suspended (some id) (.renderer request) ∈ journal

def Heard (journal : List Event) (id : NodeId) (value : Value) : Prop :=
  ∃ response : Response, response.isOk = true ∧ value = response.payload.toValue ∧
    .consumed (some id) (.renderer response) ∈ journal

structure Frame.Backed (doc : Document) (journal : List Event) (f : Frame) : Prop where
  sent : ∀ rest bindAs value, f.context = some ⟨rest, .request bindAs value⟩ →
    (value.isSome = true ∨ ∃ state, f.next = .custom state) → doc.Sent journal f.position bindAs
  heard : ∀ rest bindAs value, f.context = some ⟨rest, .request bindAs (some value)⟩ →
    Heard journal f.position value

/-- What is committed was sent and heard, and the request that commits it leaves. -/
structure Stack.Backed (s : Stack) : Prop where
  frames : ∀ f ∈ s.frames, f.Backed s.document s.journal
  committed : ∀ id bindAs value earlier, .committed id bindAs value :: earlier <:+ s.journal →
    s.document.Sent earlier id bindAs ∧ Heard earlier id value ∧
    .left id :: .committed id bindAs value :: earlier <:+ s.journal

variable {doc : Document} {journal earlier : List Event} {f g : Frame}

theorem Document.Sent.mono {id : NodeId} {bindAs : Option String}
    (h : doc.Sent earlier id bindAs) (before : earlier <:+ journal) :
    doc.Sent journal id bindAs := by
  obtain ⟨env, stack, el, uuid, request, names, noted, own, element, kind, eval, mem⟩ := h
  exact ⟨env, stack, el, uuid, request, names, noted, own, element, kind, eval, before.subset mem⟩

theorem Heard.mono {id : NodeId} {value : Value} (h : Heard earlier id value)
    (before : earlier <:+ journal) : Heard journal id value := by
  obtain ⟨response, ok, same, mem⟩ := h
  exact ⟨response, ok, same, before.subset mem⟩

namespace Frame.Backed

theorem mono (h : f.Backed doc earlier) (before : earlier <:+ journal) : f.Backed doc journal :=
  ⟨fun rest bindAs value context due => (h.sent rest bindAs value context due).mono before,
    fun rest bindAs value context => (h.heard rest bindAs value context).mono before⟩

theorem congr (h : f.Backed doc journal) (position : g.position = f.position)
    (context : g.context = f.context) (next : g.next = f.next) : g.Backed doc journal := by
  constructor
  · rw [position, context, next]
    exact h.sent
  · rw [position, context]
    exact h.heard

theorem keep {rest beyond : List NodeId} {state : ContextState} (h : f.Backed doc journal)
    (own : f.context = some ⟨rest, state⟩) (context : g.context = some ⟨beyond, state⟩)
    (position : g.position = f.position) (still : ∀ state, g.next ≠ .custom state) :
    g.Backed doc journal := by
  constructor
  · intro after bindAs value found due
    obtain ⟨_, rfl⟩ := Context.mk.inj (Option.some.inj (context.symm.trans found))
    rw [position]
    exact h.sent _ _ _ own (.inl (due.resolve_right fun ⟨state, next⟩ => still state next))
  · intro after bindAs value found
    obtain ⟨_, rfl⟩ := Context.mk.inj (Option.some.inj (context.symm.trans found))
    rw [position]
    exact h.heard _ _ _ own

theorem blank {rest : List NodeId} (kind : ElementKind) (context : f.context = some ⟨rest, kind.blank⟩)
    (still : ∀ state, f.next ≠ .custom state) : f.Backed doc journal := by
  constructor
  · rintro after bindAs value found (some_ | ⟨state, next⟩)
    · rw [context] at found
      cases kind <;> cases found
      cases some_
    · exact absurd next (still state)
  · intro after bindAs value found
    rw [context] at found
    cases kind <;> cases found

theorem bare (context : ∀ rest bindAs value, f.context ≠ some ⟨rest, .request bindAs value⟩) :
    f.Backed doc journal :=
  ⟨fun _ _ _ found => absurd found (context _ _ _), fun _ _ _ found => absurd found (context _ _ _)⟩

end Frame.Backed

theorem suffix_of_committed (events : List Event) {id : NodeId} {bindAs : Option String}
    {value : Value} (silent : ∀ event ∈ events, event.exited? = none)
    (h : .committed id bindAs value :: earlier <:+ events ++ journal) :
    .committed id bindAs value :: earlier <:+ journal := by
  induction events with
  | nil => exact h
  | cons event events ih =>
    rcases List.suffix_cons_iff.mp h with same | h
    · have silent := silent event (by simp)
      rw [← (List.cons.inj same).1] at silent
      cases silent
    · exact ih (fun other mem => silent other (by simp [mem])) h

theorem Stack.Backed.extend {s t : Stack} (h : s.Backed) (events : List Event)
    (document : t.document = s.document) (journal : t.journal = events ++ s.journal)
    (silent : ∀ event ∈ events, event.exited? = none) (frames : t.frames = s.frames) :
    t.Backed := by
  have later : s.journal <:+ t.journal := journal ▸ List.suffix_append _ _
  constructor
  · rw [frames, document]
    exact fun f mem => (h.frames f mem).mono later
  · intro id bindAs value earlier committed
    rw [journal] at committed
    obtain ⟨sent, heard, left⟩ :=
      h.committed id bindAs value earlier (suffix_of_committed _ silent committed)
    exact ⟨document ▸ sent, heard, left.trans later⟩

theorem Stack.Backed.change {s t : Stack} {outer : List Frame} (h : s.Backed)
    (frames : s.frames = f :: outer) (events : List Event) (inner : List Frame)
    (document : t.document = s.document) (journal : t.journal = events ++ s.journal)
    (silent : ∀ event ∈ events, event.exited? = none) (changed : t.frames = inner ++ g :: outer)
    (entered : ∀ f ∈ inner, f.context = none)
    (first : f.Backed s.document t.journal → g.Backed s.document t.journal) : t.Backed := by
  have extended : Stack.Backed { s with journal := t.journal } := h.extend _ rfl journal silent rfl
  have kept : ∀ f ∈ s.frames, f.Backed s.document t.journal := extended.frames
  refine ⟨fun other mem => ?_, document ▸ extended.committed⟩
  rw [changed, List.mem_append, List.mem_cons] at mem
  rw [document]
  rcases mem with mem | rfl | mem
  · exact .bare (by simp [entered other mem])
  · exact first (kept f (by simp [frames]))
  · exact kept other (by simp [frames, mem])

namespace Coroutine

variable {env : Environment} {co next : Coroutine} {outer : List Frame}

theorem committing_cases (co : Coroutine) (f : Frame) : co.committing f = [] ∨
    ∃ rest bindAs value, f.context = some ⟨rest, .request bindAs (some value)⟩ ∧
      co.stack.exception = none ∧ co.committing f = [.committed f.position bindAs value] := by
  unfold committing commitment
  split
  · rename_i found
    split at found
    · rename_i context calm
      cases found
      exact .inr ⟨_, _, _, context, calm, rfl⟩
    · cases found
  · exact .inl rfl

theorem Leaves.backed (leaves : Leaves co next f outer) (h : co.stack.Backed) :
    next.stack.Backed := by
  have later : co.stack.journal <:+ next.stack.journal := by
    rw [leaves.journal]
    exact (List.suffix_append _ _).trans (List.suffix_cons _ _)
  constructor
  · intro g mem
    rw [leaves.frames] at mem
    rw [leaves.document]
    have kept : ∀ g ∈ outer, g.Backed co.stack.document next.stack.journal := fun g mem =>
      (h.frames g (by simp [leaves.before, mem])).mono later
    cases outer with
    | nil => cases mem
    | cons p outer =>
      rcases List.mem_cons.mp mem with rfl | mem
      · exact (kept p (by simp)).congr (position_receive _) (context_receive _) (next_receive _)
      · exact kept g (by simp [mem])
  · intro id bindAs value earlier committed
    rw [leaves.document]
    have before (committed : .committed id bindAs value :: earlier <:+ co.stack.journal) :
        co.stack.document.Sent earlier id bindAs ∧ Heard earlier id value ∧
          .left id :: .committed id bindAs value :: earlier <:+ next.stack.journal := by
      obtain ⟨sent, heard, left⟩ := h.committed id bindAs value earlier committed
      exact ⟨sent, heard, left.trans later⟩
    have own := h.frames f (by simp [leaves.before])
    rw [leaves.journal, List.cons_append] at committed
    rcases List.suffix_cons_iff.mp committed with same | committed
    · cases (List.cons.inj same).1
    · rcases committing_cases co f with none | ⟨rest, name, payload, context, _, committing⟩
      · rw [none] at committed
        exact before committed
      · rw [committing, List.singleton_append] at committed
        rcases List.suffix_cons_iff.mp committed with same | committed
        · cases same
          refine ⟨own.sent _ _ _ context (.inl rfl), own.heard _ _ _ context, ?_⟩
          rw [leaves.journal, committing]
          exact List.suffix_refl _
        · exact before committed

theorem Live.backed_of_transition (live : co.Live) (rule : Transition env co next)
    (h : co.stack.Backed) : next.stack.Backed := by
  have none : ∀ event ∈ ([] : List Event), event.exited? = .none := by simp
  have one {event : Event} (silent : event.exited? = .none) :
      ∀ other ∈ [event], other.exited? = .none := fun _ mem => List.mem_singleton.mp mem ▸ silent
  cases rule with
  | opens entering =>
    exact h.change entering.frames [] [] rfl rfl none rfl (by simp)
      fun _ => .blank .structural rfl (by simp)
  | @fails kind _ _ _ _ _ entering =>
    exact h.change entering.frames [_] [] rfl rfl (one rfl) rfl (by simp)
      fun _ => .blank kind rfl (by simp)
  | asks entering asks =>
    refine h.change entering.frames [_] [] rfl rfl (one rfl) rfl (by simp)
      fun _ => ?_
    cases asks with
    | sleep => exact .bare fun _ _ _ found => by cases found
    | @request request bindAs asked eval =>
      refine ⟨fun rest name value found _ => ?_, fun rest name value found => by cases found⟩
      cases found
      obtain ⟨own, element, kind⟩ := (live.fits entering.frames).element
      exact ⟨env, co.stack, own, _, request, _, _, rfl, element, kind.symm.trans entering.kind,
        (Option.some.inj (entering.element.symm.trans element)) ▸ eval, List.mem_cons_self⟩
  | idles entering =>
    exact h.change entering.frames [] [] rfl rfl none rfl (by simp)
      fun _ => .blank .catcher rfl (by simp)
  | catches entering | misses entering | fumbles entering =>
    exact h.change entering.frames [_] [] rfl rfl (one rfl) rfl (by simp)
      fun _ => .bare fun _ _ _ found => by cases found
  | wakes due =>
    exact h.change due.frames [_] [] rfl rfl (one rfl) rfl (by simp)
      fun first => first.keep due.context due.context rfl (by simp)
  | @responds f outer rest bindAs response state due kind resume ok =>
    refine h.change due.frames [_] [] rfl rfl (one rfl) rfl (by simp)
      fun first => ⟨fun after name value found _ => ?_, fun after name value found => ?_⟩
    · cases found
      exact first.sent _ _ _ due.context (.inr ⟨_, due.next⟩)
    · cases found
      exact ⟨response, ok, rfl, List.mem_cons_self⟩
  | breaks due =>
    exact h.change due.frames [_, _] [] rfl rfl (by simp [Event.exited?]) rfl
      (by simp) fun first => first.keep due.context due.context rfl (by simp)
  | exhausts due =>
    exact h.change due.frames [] [] rfl rfl none rfl (by simp)
      fun first => first.keep due.context rfl rfl (by simp)
  | enters due =>
    exact h.change due.frames [_] [_] rfl rfl (one rfl) rfl
      (by simp [Frame.enter]) fun first => first.keep due.context rfl rfl (by simp [due.next])
  | leaves due => exact Leaves.backed ⟨due.frames, rfl, rfl, rfl, rfl⟩ h
  | completes due => exact Leaves.backed (Leaves.complete ⟨due.frames, rfl, rfl, rfl, rfl⟩) h

theorem backed_of_fails {fault : Fault} (rule : co.Fails fault next) (h : co.stack.Backed) :
    next.stack.Backed := by
  cases rule with
  | overflow due | misplaced due =>
    exact h.change due.frames [] [] rfl rfl (by simp) rfl (by simp)
      fun first => first.keep due.context rfl rfl (by simp [due.next])
  | displayed | timed => exact h.extend [_] rfl rfl (by simp [Event.exited?]) rfl

end Coroutine

end Backed

section Current

theorem Stacked.parent?_eq {doc : Document} {f p : Frame} {outer : List Frame}
    (built : doc.Built) (h : Stacked doc (f :: p :: outer)) :
    doc.parent? f.position = some p.position := by
  obtain ⟨context, seen, _, children⟩ := h.parent.context
  exact built.parent?_of_mem_children (by simp [children])

/-- The variables of frames are what the journal tells of them. Elements are left after they were
entered, and what they commit is for an element entered earlier. -/
structure Stack.Current (s : Stack) : Prop where
  values : ∀ f ∈ s.frames, ∀ name, s.scopes.get? f.scope name = s.latest? f.position name
  entered : ∀ f ∈ s.frames, f.position ∈ s.entered
  exited : ∀ id ∈ s.exited, id ∈ s.entered
  apart : ∀ f ∈ s.frames, f.position ∉ s.exited
  around : ∀ id bindAs value earlier p, .committed id bindAs value :: earlier <:+ s.journal →
    s.document.parent? id = some p → p ∈ earlier.filterMap Event.entered?

namespace Stack

variable {s t : Stack}

theorem Rests.entered (same : s.Rests t) : t.entered = s.entered := by
  obtain ⟨quiet, journal, silent⟩ := same.journal
  rw [Stack.entered, journal, List.filterMap_append,
    List.filterMap_eq_nil_iff.mpr fun event mem => (silent event mem).entered]
  rfl

theorem Rests.exited (same : s.Rests t) : t.exited = s.exited := by
  obtain ⟨quiet, journal, silent⟩ := same.journal
  rw [Stack.exited, journal, List.filterMap_append,
    List.filterMap_eq_nil_iff.mpr fun event mem => (silent event mem).exited]
  rfl

theorem Rests.latest? (same : s.Rests t) (position : NodeId) (name : String) :
    t.latest? position name = s.latest? position name := by
  obtain ⟨quiet, journal, silent⟩ := same.journal
  rw [Stack.latest?, journal, same.document]
  refine Document.latest?_append (fun event mem => (silent event mem).binds?_eq ..) ?_
  rw [List.filterMap_eq_nil_iff.mpr fun event mem => (silent event mem).entered]
  simp

theorem Current.of_rests (h : s.Current) (same : s.Rests t) : t.Current where
  values g mem name := by
    obtain ⟨f, mem, scope, position⟩ := exists_of_places same.places mem
    rw [same.scopes, same.latest?, ← scope, ← position]
    exact h.values f mem name
  entered g mem := by
    obtain ⟨f, mem, _, position⟩ := exists_of_places same.places mem
    rw [same.entered, ← position]
    exact h.entered f mem
  exited := by
    rw [same.exited, same.entered]
    exact h.exited
  apart g mem := by
    obtain ⟨f, mem, _, position⟩ := exists_of_places same.places mem
    rw [same.exited, ← position]
    exact h.apart f mem
  around id bindAs value earlier p committed parent := by
    obtain ⟨quiet, journal, silent⟩ := same.journal
    rw [journal] at committed
    rw [same.document] at parent
    exact h.around id bindAs value earlier p
      (suffix_of_committed _ (fun event mem => (silent event mem).exited) committed) parent

end Stack

namespace Coroutine

variable {env : Environment} {co next : Coroutine} {f g p : Frame} {outer : List Frame}
  {id : NodeId}

theorem Enters.entered (enters : Enters co next id) :
    next.stack.entered = id :: co.stack.entered := by
  obtain ⟨kind, raising, journal⟩ := enters.journal
  rw [Stack.entered, journal]
  rfl

theorem Enters.exited (enters : Enters co next id) : next.stack.exited = co.stack.exited := by
  obtain ⟨kind, raising, journal⟩ := enters.journal
  rw [Stack.exited, journal]
  rfl

theorem Enters.latest? (enters : Enters co next id) (position : NodeId) (name : String) :
    next.stack.latest? position name =
      if position = id then none else co.stack.latest? position name := by
  obtain ⟨kind, raising, journal⟩ := enters.journal
  rw [Stack.latest?, journal, enters.document, Document.latest?_cons]
  by_cases same : position = id
  · simp [Event.entered?, same]
  · simp [Event.entered?, Event.binds?, same, Ne.symm same, Stack.latest?]

theorem Enters.current (enters : Enters co next id) (h : co.stack.Current)
    (owned : co.stack.Owned) (scopes : ∀ f ∈ co.stack.frames, f.scope = f.position)
    (fresh : id ∉ co.stack.entered) : next.stack.Current := by
  have split {g : Frame} (mem : g ∈ next.stack.frames) : (g.scope = id ∧ g.position = id) ∨
      ∃ f ∈ co.stack.frames, f.scope = g.scope ∧ f.position = g.position := by
    have within := List.mem_map_of_mem (f := Frame.place) mem
    rw [enters.places] at within
    rcases List.mem_cons.mp within with place | within
    · exact .inl ⟨(Prod.mk.inj place).1, (Prod.mk.inj place).2⟩
    · obtain ⟨f, mem, place⟩ := List.mem_map.mp within
      exact .inr ⟨f, mem, (Prod.mk.inj place).1, (Prod.mk.inj place).2⟩
  have other : ∀ f ∈ co.stack.frames, f.position ≠ id :=
    fun f mem same => fresh (same ▸ h.entered f mem)
  constructor
  · intro g mem name
    rw [enters.latest?, enters.scopes]
    rcases split mem with ⟨scope, position⟩ | ⟨f, mem, scope, position⟩
    · rw [if_pos position, scope]
      refine ScopeVars.get?_of_not_hasScope (fun has => ?_) name
      obtain ⟨f, mem, own⟩ := owned id has
      exact other f mem ((scopes f mem).symm.trans own)
    · rw [← position, ← scope, if_neg (other f mem)]
      exact h.values f mem name
  · intro g mem
    rw [enters.entered]
    rcases split mem with ⟨_, position⟩ | ⟨f, mem, _, position⟩
    · simp [position]
    · exact List.mem_cons_of_mem _ (position ▸ h.entered f mem)
  · intro left mem
    rw [enters.exited] at mem
    rw [enters.entered]
    exact List.mem_cons_of_mem _ (h.exited left mem)
  · intro g mem
    rw [enters.exited]
    rcases split mem with ⟨_, position⟩ | ⟨f, mem, _, position⟩
    · exact fun left => fresh (h.exited id (position ▸ left))
    · exact position ▸ h.apart f mem
  · intro left bindAs value earlier around committed parent
    obtain ⟨kind, raising, journal⟩ := enters.journal
    rw [journal] at committed
    rw [enters.document] at parent
    rcases List.suffix_cons_iff.mp committed with same | committed
    · cases (List.cons.inj same).1
    · exact h.around left bindAs value earlier around committed parent

theorem Leaves.entered (leaves : Leaves co next f outer) :
    next.stack.entered = co.stack.entered := by
  have exits : ∀ event ∈ .left f.position :: co.committing f, event.Exits := by
    intro event mem
    rcases List.mem_cons.mp mem with rfl | mem
    · exact .left
    · exact exits_of_mem_committing mem
  rw [Stack.entered, leaves.journal, List.filterMap_append, filterMap_exits exits]
  rfl

theorem Leaves.mem_exited (leaves : Leaves co next f outer) :
    id ∈ next.stack.exited ↔ id = f.position ∨ id ∈ co.stack.exited := by
  rw [Stack.exited, leaves.journal]
  rcases committing_cases co f with none | ⟨_, _, _, _, _, committing⟩
  · simp [none, Event.exited?, Stack.exited]
  · simp [committing, Event.exited?, Stack.exited]

theorem get?_bound {doc : Document} {name : String} (parent : doc.parent? f.position = some p.position)
    (same : g.scope = p.scope ↔ g.position = p.position)
    (value : co.stack.scopes.get? g.scope name = doc.latest? g.position name co.stack.journal) :
    (co.bound f (p :: outer)).get? g.scope name =
      doc.latest? g.position name (.left f.position :: co.committing f ++ co.stack.journal) := by
  have passed : doc.latest? g.position name
      (.left f.position :: co.committing f ++ co.stack.journal) =
      doc.latest? g.position name (co.committing f ++ co.stack.journal) := by
    simp [Document.latest?_cons, Event.entered?, Event.binds?]
  rw [passed]
  rcases commitment : co.commitment f with _ | ⟨_ | other, payload⟩
  · simpa [bound, committing, commitment] using value
  · simpa [bound, committing, commitment, Document.latest?_cons, Event.entered?, Event.binds?]
      using value
  · by_cases here : p.position = g.position ∧ other = name
    · obtain ⟨position, rfl⟩ := here
      simp [bound, committing, commitment, Document.latest?_cons, Event.entered?, Event.binds?,
        parent, ScopeVars.get?_bind, position, same.mpr position.symm]
    · have apart : ¬ (g.scope = p.scope ∧ name = other) :=
        fun both => here ⟨(same.mp both.1).symm, both.2.symm⟩
      simp [bound, committing, commitment, Document.latest?_cons, Event.entered?, Event.binds?,
        parent, ScopeVars.get?_bind, here, apart, value]

theorem places_receiving (co : Coroutine) (f : Frame) (outer : List Frame) :
    (co.receiving f outer).map Frame.place = outer.map Frame.place := by
  cases outer <;> simp [receiving, Frame.place]

theorem Leaves.current (live : co.Live) (leaves : Leaves co next f (p :: outer))
    (h : co.stack.Current) : next.stack.Current := by
  have stacked := (live.at leaves.before).1
  have places : next.stack.frames.map Frame.place = (p :: outer).map Frame.place := by
    rw [leaves.frames, places_receiving]
  have around : ∀ g ∈ p :: outer,
      g ∈ co.stack.frames ∧ g.scope = g.position ∧ g.position < f.position := by
    intro g mem
    have within : g ∈ f :: p :: outer := List.mem_cons_of_mem _ mem
    have own := (stacked.fits_of_mem within).scope
    have less := stacked.scope_lt live.built g mem
    rw [own, stacked.fits.scope] at less
    exact ⟨leaves.before ▸ within, own, less⟩
  have before {g : Frame} (mem : g ∈ next.stack.frames) :
      ∃ f ∈ p :: outer, f.scope = g.scope ∧ f.position = g.position := exists_of_places places mem
  constructor
  · intro g mem name
    obtain ⟨g', mem, scope, position⟩ := before mem
    obtain ⟨live_, own, less⟩ := around g' mem
    obtain ⟨_, around_, _⟩ := around p (by simp)
    have others : (p :: outer).any (·.scope == f.scope) = false := by
      refine List.any_eq_false.mpr fun other mem => ?_
      simpa using Nat.ne_of_lt (stacked.scope_lt live.built other mem)
    have kept : g'.scope ≠ f.scope := Nat.ne_of_lt (stacked.scope_lt live.built g' mem)
    rw [← scope, ← position, leaves.scopes, scopesAfter, others, if_neg (by simp),
      ScopeVars.get?_drop, if_neg kept, Stack.latest?, leaves.document, leaves.journal]
    exact get?_bound (stacked.parent?_eq live.built) (by rw [own, around_]) (h.values g' live_ name)
  · intro g mem
    obtain ⟨g', mem, _, position⟩ := before mem
    rw [leaves.entered, ← position]
    exact h.entered g' (around g' mem).1
  · intro left mem
    rw [leaves.entered]
    rcases leaves.mem_exited.mp mem with rfl | mem
    · exact h.entered f (by simp [leaves.before])
    · exact h.exited left mem
  · intro g mem left
    obtain ⟨g', mem, _, position⟩ := before mem
    obtain ⟨live_, _, less⟩ := around g' mem
    rw [← position] at left
    rcases leaves.mem_exited.mp left with same | left
    · exact Nat.ne_of_lt less same
    · exact h.apart g' live_ left
  · intro id bindAs value earlier parent committed found
    rw [leaves.document] at found
    rw [leaves.journal, List.cons_append] at committed
    rcases List.suffix_cons_iff.mp committed with same | committed
    · cases (List.cons.inj same).1
    · rcases committing_cases co f with none | ⟨_, _, _, _, _, committing⟩
      · rw [none] at committed
        exact h.around id bindAs value earlier parent committed found
      · rw [committing, List.singleton_append] at committed
        rcases List.suffix_cons_iff.mp committed with same | committed
        · cases same
          rw [stacked.parent?_eq live.built] at found
          cases found
          exact h.entered p (by simp [leaves.before])
        · exact h.around id bindAs value earlier parent committed found

end Coroutine

theorem Stack.Current.inFrames?_eq {s : Stack} (h : s.Current) (name : String) :
    Scope.inFrames? s.scopes name s.frames =
      s.frames.findSome? fun f => s.latest? f.position name := by
  have within (frames : List Frame) (sub : ∀ f ∈ frames, f ∈ s.frames) :
      Scope.inFrames? s.scopes name frames =
        frames.findSome? fun f => s.latest? f.position name := by
    induction frames with
    | nil => rfl
    | cons f outer ih =>
      have own := h.values f (sub f (by simp)) name
      have around := ih fun g mem => sub g (List.mem_cons_of_mem _ mem)
      cases found : s.latest? f.position name <;>
        simp [Scope.inFrames?, own, found, around]
  exact within s.frames fun _ mem => mem

end Current

namespace Coroutine

variable {env : Environment} {co next : Coroutine}

theorem Live.current_of_transition (live : co.Live) (running : co.state = .running)
    (rule : Transition env co next) (owned : co.stack.Owned)
    (h : co.stack.entered.Nodup → co.stack.Current) (alive : next.outcome = none)
    (once : next.stack.entered.Nodup) : next.stack.Current := by
  cases moves_of_transition rule with
  | rests same => exact (h (same.entered ▸ once)).of_rests same
  | enters enters =>
    rw [enters.entered] at once
    obtain ⟨fresh, once⟩ := List.nodup_cons.mp once
    obtain ⟨f, outer, frames, stacked, _⟩ := live.standing
    exact enters.current (h once) owned
      (fun g mem => (stacked.fits_of_mem (frames ▸ mem)).scope) fresh
  | @leaves f outer leaves =>
    rw [leaves.entered] at once
    cases outer with
    | cons p outer => exact leaves.current live (h once)
    | nil =>
      rcases live.after_transition running rule with ⟨live, _⟩ | ended
      · obtain ⟨g, outer, frames, _⟩ := live.standing
        rw [leaves.frames] at frames
        cases frames
      · exact absurd alive ended.outcome

theorem owned_of_transition (rule : Transition env co next) (h : co.stack.Owned) :
    next.stack.Owned := by
  cases moves_of_transition rule with
  | rests same => exact owned_rests same h
  | enters enters => exact enters.owned h
  | leaves leaves => exact leaves.owned h

theorem not_committed_at_start {limit id root left : Nat} {doc : Document} {kind : ElementKind}
    {bindAs : Option String} {value : Value} {earlier : List Event} :
    ¬ .committed left bindAs value :: earlier <:+ (start limit id doc root kind).stack.journal :=
  fun committed => by
    cases List.suffix_nil.mp (suffix_of_committed [_] (by simp [Event.exited?]) committed)

theorem current_start (limit id : Nat) (doc : Document) (root : NodeId) (kind : ElementKind) :
    (start limit id doc root kind).stack.Current := by
  have exited : (start limit id doc root kind).stack.exited = [] := rfl
  constructor
  · intro f mem name
    obtain rfl : f = Frame.enter kind root := List.mem_singleton.mp mem
    exact ((Document.latest?_cons _ []).trans (if_pos rfl)).symm
  · intro f mem
    obtain rfl : f = Frame.enter kind root := List.mem_singleton.mp mem
    exact List.mem_singleton.mpr rfl
  · simp [exited]
  · simp [exited]
  · exact fun _ _ _ _ _ committed => absurd committed not_committed_at_start

theorem backed_start (limit id : Nat) (doc : Document) (root : NodeId) (kind : ElementKind) :
    (start limit id doc root kind).stack.Backed := by
  refine ⟨fun f mem => ?_, fun _ _ _ _ committed => absurd committed not_committed_at_start⟩
  obtain rfl : f = Frame.enter kind root := List.mem_singleton.mp mem
  exact .bare (by simp [Frame.enter])

theorem Driven.bindings {admits : Coroutine → Completion → Prop} (driven : Driven admits co) :
    co.stack.Owned ∧ co.stack.Backed ∧
      (co.outcome = none → co.stack.entered.Nodup → co.stack.Current) := by
  refine driven.keeps (P := fun _ stack outcome => stack.Owned ∧ stack.Backed ∧
    (outcome = none → stack.entered.Nodup → stack.Current)) ?_ ?_ ?_ ?_ ?_
  · intro limit id doc root el _ _ _ _
    exact ⟨fun _ has => (Bool.false_ne_true has).elim, backed_start .., fun _ _ => current_start ..⟩
  · exact fun live running kept rule => ⟨owned_of_transition rule kept.1,
      live.backed_of_transition rule kept.2.1,
      live.current_of_transition running rule kept.1 (kept.2.2 rfl)⟩
  · exact fun _ _ kept rule =>
      ⟨terminate_keeps Leaves.owned _ (owned_rests (rests_of_fails rule) kept.1),
        terminate_keeps Leaves.backed _ (backed_of_fails rule kept.2.1), fun none => by cases none⟩
  · exact fun {co c} _ _ _ kept =>
      ⟨owned_rests (rests_resumeWith co c) kept.1,
        kept.2.1.extend [_] rfl rfl (by simp [Event.exited?]) rfl,
        fun none once => (kept.2.2 none once).of_rests (rests_resumeWith co c)⟩
  · exact fun _ kept => ⟨terminate_keeps Leaves.owned _ kept.1,
      terminate_keeps Leaves.backed _ kept.2.1, fun none => by cases none⟩

end Coroutine
end MarkupMachine
