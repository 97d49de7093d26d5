import MarkupMachine.Proofs.Machine.Bindings

/-! The way of an answer: from the response that a request takes into its frame, and on its way out
into the `?` of the frame around it or, from the root, into the result. What a frame holds in its
`?` is told by the journal. -/

namespace MarkupMachine

def Event.answers? (doc : Document) (position : NodeId) : Event → Option Value
  | .committed id _ value => if doc.parent? id = some position then some value else none
  | _ => none

theorem Event.Quiet.answers?_eq {event : Event} (quiet : event.Quiet) (doc : Document)
    (position : NodeId) : event.answers? doc position = none := by
  cases event with
  | committed => cases quiet.exited
  | _ => rfl

/-- The last value that requests right inside the element at a position have committed, since it was
entered. The journal has its latest entry first. -/
def Document.answer? (doc : Document) (position : NodeId) (journal : List Event) : Option Value :=
  (journal.takeWhile fun event => event.entered? != some position).findSome?
    (·.answers? doc position)

namespace Document

variable {doc : Document} {position : NodeId} {event : Event} {later earlier : List Event}

theorem answer?_cons (event : Event) (earlier : List Event) :
    doc.answer? position (event :: earlier) =
      if event.entered? = some position then none
      else (event.answers? doc position).or (doc.answer? position earlier) := by
  by_cases entered : event.entered? = some position
  · simp [answer?, entered]
  · cases answers : event.answers? doc position <;> simp [answer?, entered, answers]

theorem answer?_append (quiet : ∀ event ∈ later, event.Quiet) :
    doc.answer? position (later ++ earlier) = doc.answer? position earlier := by
  induction later with
  | nil => rfl
  | cons event later ih =>
    have silent := quiet event (by simp)
    rw [List.cons_append, answer?_cons, silent.entered, if_neg (by simp), silent.answers?_eq,
      ih fun event mem => quiet event (by simp [mem])]
    rfl

end Document

/-- What an element puts in its `?` itself: an exception that it caught, or an answer it got. -/
def Frame.voice (f : Frame) : Value :=
  match f.kind, f.context.map Context.state with
  | .catcher, some (.catcher (some e)) => e.toValue
  | .request, some (.request _ (some value)) => value
  | _, _ => .null

/-- A frame shows what was committed to it last, or else what it has put in its `?` itself. That
comes first: nothing is committed to an element before it comes to its children. -/
structure Frame.Voiced (doc : Document) (journal : List Event) (f : Frame) : Prop where
  question : f.symbols .question = (doc.answer? f.position journal).getD f.voice
  fresh : f.next ≠ .selectChild → f.next ≠ .onPopping → doc.answer? f.position journal = none

structure Stack.Hears (s : Stack) : Prop where
  kept : ∀ f ∈ s.frames, f.kind = .request → ∀ value, Heard s.journal f.position value →
    ∃ rest bindAs, f.context = some ⟨rest, .request bindAs (some value)⟩
  within : ∀ f ∈ s.frames, f.position ∈ s.entered
  consumers : ∀ id c, .consumed (some id) c ∈ s.journal → id ∈ s.entered

structure Stack.Tells (s : Stack) : Prop where
  backed : s.Backed
  hears : s.Hears
  voiced : ∀ f ∈ s.frames, f.Voiced s.document s.journal
  result : s.result = .null

/-- What a coroutine that returned a value has to show for it. -/
structure Stack.Returns (s : Stack) (value : Value) (root : NodeId) (kind : ElementKind) :
    Prop where
  structural : kind = .structural → value = (s.document.answer? root s.journal).getD .null
  request : kind = .request → ∀ payload, Heard s.journal root payload → value = payload
  unheard : kind = .request → (∀ payload, ¬ Heard s.journal root payload) → value = .null
  other : kind = .sleep ∨ kind = .catcher → value = .null

def Stack.Closes (s : Stack) (outcome : Option Outcome) : Prop :=
  ∀ value, outcome = some (.returned value) → ∃ root el, s.document.rootElement? = some root ∧
    s.document.element? root = some el ∧ s.Returns value root (ElementKind.ofTag el.tag)

section Voiced

variable {doc : Document} {journal : List Event} {f g : Frame}

theorem voice_congr (kind : g.kind = f.kind)
    (state : g.context.map Context.state = f.context.map Context.state) : g.voice = f.voice := by
  simp only [Frame.voice, kind, state]

namespace Frame.Voiced

theorem congr (h : f.Voiced doc journal) (position : g.position = f.position)
    (question : g.symbols .question = f.symbols .question) (voice : g.voice = f.voice)
    (next : g.next = .selectChild ∨ g.next = .onPopping) : g.Voiced doc journal := by
  constructor
  · rw [question, position, voice]
    exact h.question
  · intro notSelect notPopping
    exact absurd next (by simp [notSelect, notPopping])

theorem renew (h : f.Voiced doc journal) (early : f.next ≠ .selectChild ∧ f.next ≠ .onPopping)
    (position : g.position = f.position)
    (own : f.symbols .question = f.voice → g.symbols .question = g.voice) :
    g.Voiced doc journal := by
  have none := h.fresh early.1 early.2
  constructor
  · rw [position, none]
    exact own (by rw [h.question, none]; rfl)
  · intro _ _
    rw [position, none]

theorem mono {later : List Event} (h : f.Voiced doc journal)
    (same : doc.answer? f.position later = doc.answer? f.position journal) :
    f.Voiced doc later :=
  ⟨by rw [same]; exact h.question, by rw [same]; exact h.fresh⟩

end Frame.Voiced
end Voiced

section Change

variable {s t : Stack} {f g : Frame} {outer : List Frame}

theorem heard_append {events journal : List Event} {id : NodeId} {value : Value}
    (other : ∀ c, .consumed (some id) c ∉ events) :
    Heard (events ++ journal) id value ↔ Heard journal id value := by
  refine ⟨fun ⟨response, ok, same, mem⟩ => ⟨response, ok, same, ?_⟩,
    fun heard => heard.mono (List.suffix_append _ _)⟩
  exact (List.mem_append.mp mem).resolve_left (other _)

theorem Stack.Tells.change (h : s.Tells) (frames : s.frames = f :: outer)
    (apart : ∀ g ∈ outer, g.position ≠ f.position) (events : List Event)
    (changed : t.frames = g :: outer) (document : t.document = s.document)
    (journal : t.journal = events ++ s.journal) (result : t.result = s.result)
    (quiet : ∀ event ∈ events, event.Quiet) (position : g.position = f.position)
    (kind : g.kind = f.kind) (takes : ∀ id c, .consumed (some id) c ∈ events → id = f.position)
    (backed : t.Backed) (voiced : f.Voiced s.document t.journal → g.Voiced s.document t.journal)
    (kept : f.kind = .request → ∀ value, Heard t.journal f.position value →
      ∃ rest bindAs, g.context = some ⟨rest, .request bindAs (some value)⟩) : t.Tells := by
  have entered : t.entered = s.entered := by
    rw [Stack.entered, journal, List.filterMap_append,
      List.filterMap_eq_nil_iff.mpr fun event mem => (quiet event mem).entered]
    rfl
  have spoken : ∀ g ∈ s.frames, g.Voiced s.document t.journal := fun g mem =>
    (h.voiced g mem).mono (by rw [journal, Document.answer?_append quiet])
  refine ⟨backed,
    ⟨fun other mem request value heard => ?_, fun other mem => ?_, fun id c mem => ?_⟩,
    fun other mem => ?_, result.trans h.result⟩
  · rw [changed] at mem
    rcases List.mem_cons.mp mem with rfl | mem
    · exact kept (kind ▸ request) value (position ▸ heard)
    · rw [journal, heard_append fun c mem' => apart other mem (takes _ c mem')] at heard
      exact h.hears.kept other (by simp [frames, mem]) request value heard
  · rw [entered]
    rw [changed] at mem
    rcases List.mem_cons.mp mem with rfl | mem
    · exact position ▸ h.hears.within f (by simp [frames])
    · exact h.hears.within other (by simp [frames, mem])
  · rw [entered]
    rw [journal] at mem
    rcases List.mem_append.mp mem with mem | mem
    · exact takes id c mem ▸ h.hears.within f (by simp [frames])
    · exact h.hears.consumers id c mem
  · rw [changed] at mem
    rw [document]
    rcases List.mem_cons.mp mem with rfl | mem
    · exact voiced (spoken f (by simp [frames]))
    · exact spoken other (by simp [frames, mem])

end Change

namespace Coroutine

variable {env : Environment} {co next : Coroutine} {f g p : Frame} {outer : List Frame}

theorem Live.apart (live : co.Live) (frames : co.stack.frames = f :: outer) :
    ∀ g ∈ outer, g.position ≠ f.position := by
  intro g mem
  have stacked := (live.at frames).1
  have less := stacked.scope_lt live.built g mem
  rw [(stacked.fits_of_mem (List.mem_cons_of_mem _ mem)).scope, stacked.fits.scope] at less
  exact Nat.ne_of_lt less

theorem Live.tells_of_entering {kind : ElementKind} {el : Element} {t : Stack} (live : co.Live)
    (h : co.stack.Tells) (entering : Entering co kind f outer el) (events : List Event)
    (changed : t.frames = g :: outer) (document : t.document = co.stack.document)
    (journal : t.journal = events ++ co.stack.journal) (result : t.result = co.stack.result)
    (quiet : ∀ event ∈ events, event.Quiet) (silent : ∀ position c, .consumed position c ∉ events)
    (position : g.position = f.position) (same : g.kind = f.kind) (backed : t.Backed)
    (own : f.symbols .question = .null → g.symbols .question = g.voice) : t.Tells := by
  refine h.change entering.frames (live.apart entering.frames) events changed document journal
    result quiet position same (fun id c mem => absurd mem (silent _ c)) backed (fun first => ?_)
    fun request value heard => ?_
  · refine first.renew (by simp [entering.next]) position fun shown => own ?_
    rw [shown]
    simp [Frame.voice, entering.context]
  · rw [journal, heard_append fun c => silent _ c] at heard
    obtain ⟨_, _, context⟩ := h.hears.kept f (by simp [entering.frames]) request value heard
    simp [entering.context] at context

theorem kept_beyond {s : Stack} {rest beyond : List NodeId} {state : ContextState} {value : Value}
    (h : s.Hears) (mem : f ∈ s.frames) (request : f.kind = .request)
    (heard : Heard s.journal f.position value) (context : f.context = some ⟨rest, state⟩) :
    ∃ after bindAs, (some ⟨beyond, state⟩ : Option Context) =
      some ⟨after, .request bindAs (some value)⟩ := by
  obtain ⟨after, bindAs, own⟩ := h.kept f mem request value heard
  obtain ⟨-, rfl⟩ := Context.mk.inj (Option.some.inj (context.symm.trans own))
  exact ⟨beyond, bindAs, rfl⟩

theorem Live.tells_of_enters {rest beyond : List NodeId} {state : ContextState}
    {content : Option String} {kind : ElementKind} {id : NodeId} {raising : Bool} {t : Stack}
    (h : co.stack.Tells) (due : Due co .selectChild f outer ⟨rest, state⟩)
    (frames : t.frames = Frame.enter kind id ::
      { f with content, context := some ⟨beyond, state⟩ } :: outer)
    (document : t.document = co.stack.document)
    (journal : t.journal = .entered kind id raising :: co.stack.journal)
    (result : t.result = co.stack.result) (once : t.entered.Nodup) (backed : t.Backed) :
    t.Tells := by
  have entered : t.entered = id :: co.stack.entered := by
    rw [Stack.entered, journal]
    rfl
  obtain ⟨fresh, -⟩ := List.nodup_cons.mp (entered ▸ once)
  have heard_iff (position : NodeId) (value : Value) :
      Heard t.journal position value ↔ Heard co.stack.journal position value := by
    rw [journal]
    exact @heard_append [_] _ _ _ (by simp)
  have own : f ∈ co.stack.frames := by simp [due.frames]
  have spoken : ∀ g ∈ co.stack.frames, g.Voiced t.document t.journal := by
    intro g mem
    have other : id ≠ g.position := fun same => fresh (same ▸ h.hears.within g mem)
    rw [document]
    refine (h.voiced g mem).mono ?_
    rw [journal, Document.answer?_cons]
    simp [Event.entered?, other, Event.answers?]
  refine ⟨backed, ⟨fun g mem request value heard => ?_, fun g mem => ?_, fun other c mem => ?_⟩,
    fun g mem => ?_, result.trans h.result⟩
  · rw [heard_iff] at heard
    rw [frames] at mem
    rcases List.mem_cons.mp mem with rfl | mem
    · obtain ⟨response, _, _, consumed⟩ := heard
      exact absurd (h.hears.consumers _ _ consumed) fresh
    · rcases List.mem_cons.mp mem with rfl | mem
      · exact kept_beyond h.hears own request heard due.context
      · exact h.hears.kept g (by simp [due.frames, mem]) request value heard
  · rw [entered]
    rw [frames] at mem
    rcases List.mem_cons.mp mem with rfl | mem
    · exact List.mem_cons_self
    · rcases List.mem_cons.mp mem with rfl | mem
      · exact List.mem_cons_of_mem _ (h.hears.within f own)
      · exact List.mem_cons_of_mem _ (h.hears.within g (by simp [due.frames, mem]))
  · rw [entered]
    rw [journal] at mem
    exact List.mem_cons_of_mem _ (h.hears.consumers other c (by simpa using mem))
  · rw [frames] at mem
    rcases List.mem_cons.mp mem with rfl | mem
    · have nothing : t.document.answer? id t.journal = none := by
        rw [journal, Document.answer?_cons]
        exact if_pos rfl
      refine ⟨?_, fun _ _ => nothing⟩
      simp only [Frame.enter, nothing]
      cases kind <;> rfl
    · rcases List.mem_cons.mp mem with rfl | mem
      · refine (spoken f own).congr rfl rfl (voice_congr rfl ?_) (.inl due.next)
        simp [due.context]
      · exact spoken g (by simp [due.frames, mem])

theorem exists_of_mem_receiving (mem : g ∈ co.receiving f outer) : ∃ before ∈ outer,
    g.position = before.position ∧ g.kind = before.kind ∧ g.context = before.context := by
  cases outer with
  | nil => cases mem
  | cons p outer =>
    rcases List.mem_cons.mp mem with rfl | mem
    · exact ⟨p, List.mem_cons_self, position_receive p, kind_receive p, context_receive p⟩
    · exact ⟨g, List.mem_cons_of_mem _ mem, rfl, rfl, rfl⟩

theorem Leaves.not_consumed (leaves : Leaves co next f outer) {position : Option NodeId}
    {c : Completion} : .consumed position c ∈ next.stack.journal ↔
      .consumed position c ∈ co.stack.journal := by
  have other : .consumed position c ∉ co.committing f := fun mem => by
    cases exits_of_mem_committing mem
  simp [leaves.journal, other]

theorem Leaves.heard_iff (leaves : Leaves co next f outer) {id : NodeId} {value : Value} :
    Heard next.stack.journal id value ↔ Heard co.stack.journal id value := by
  simp only [Heard, leaves.not_consumed]

theorem Leaves.hears (leaves : Leaves co next f outer) (h : co.stack.Hears) : next.stack.Hears := by
  have before : ∀ g ∈ outer, g ∈ co.stack.frames := fun g mem => by simp [leaves.before, mem]
  constructor
  · intro g mem request value heard
    rw [leaves.frames] at mem
    obtain ⟨g', mem, position, kind, context⟩ := exists_of_mem_receiving mem
    rw [context]
    rw [leaves.heard_iff, position] at heard
    exact h.kept g' (before g' mem) (kind ▸ request) value heard
  · intro g mem
    rw [leaves.frames] at mem
    obtain ⟨g', mem, position, _, _⟩ := exists_of_mem_receiving mem
    rw [leaves.entered, position]
    exact h.within g' (before g' mem)
  · intro id c mem
    rw [leaves.entered]
    exact h.consumers id c (leaves.not_consumed.mp mem)

theorem Leaves.answer?_eq (leaves : Leaves co next f outer) (position : NodeId) :
    co.stack.document.answer? position next.stack.journal =
      ((co.commitment f).bind fun c =>
        if co.stack.document.parent? f.position = some position then some c.2 else none).or
        (co.stack.document.answer? position co.stack.journal) := by
  rw [leaves.journal, List.cons_append, Document.answer?_cons]
  cases commitment : co.commitment f <;>
    simp [committing, commitment, Event.entered?, Event.answers?, Document.answer?_cons]

theorem Leaves.voiced (leaves : Leaves co next f (p :: outer)) (built : co.stack.document.Built)
    (stacked : Stacked co.stack.document (f :: p :: outer))
    (h : ∀ g ∈ co.stack.frames, g.Voiced co.stack.document co.stack.journal) :
    ∀ g ∈ next.stack.frames, g.Voiced next.stack.document next.stack.journal := by
  have parent := stacked.parent?_eq built
  intro g mem
  rw [leaves.frames] at mem
  rw [leaves.document]
  rcases List.mem_cons.mp mem with rfl | mem
  · have before := h p (by simp [leaves.before])
    refine ⟨?_, fun other => absurd ((next_receive p).trans stacked.parent.next) other⟩
    rw [position_receive, leaves.answer?_eq, voice_congr (kind_receive p) (by rw [context_receive]),
      parent]
    cases commitment : co.commitment f <;> simp [receive, commitment, before.question]
  · refine (h g (by simp [leaves.before, mem])).mono ?_
    have other : ¬ p.position = g.position := by
      have less := stacked.tail.scope_lt built g mem
      rw [(stacked.tail.fits_of_mem (List.mem_cons_of_mem _ mem)).scope,
        stacked.tail.fits.scope] at less
      exact Nat.ne_of_gt less
    rw [leaves.answer?_eq, parent]
    simp [other]

theorem Leaves.tells (live : co.Live) (leaves : Leaves co next f (p :: outer))
    (h : co.stack.Tells) (result : next.stack.result = co.stack.result) : next.stack.Tells :=
  ⟨leaves.backed h.backed, leaves.hears h.hears,
    leaves.voiced live.built (live.at leaves.before).1 h.voiced, result.trans h.result⟩

theorem Live.tells_of_transition (live : co.Live) (rule : Transition env co next)
    (h : co.stack.Tells) (once : next.stack.entered.Nodup) (alive : next.outcome = none) :
    next.stack.Tells := by
  have backed := live.backed_of_transition rule h.backed
  cases rule with
  | opens entering | idles entering =>
    refine live.tells_of_entering h entering [] rfl rfl rfl rfl (by simp) (by simp) rfl rfl backed
      fun null => ?_
    simpa [Frame.voice, covering, entering.kind] using null
  | @fails kind _ _ _ _ _ entering =>
    refine live.tells_of_entering h entering [_] rfl rfl rfl rfl (.alone ⟨rfl, rfl⟩) (by simp) rfl rfl
      backed fun null => ?_
    cases kind <;> simpa [Frame.voice, covering, ElementKind.blank, entering.kind] using null
  | asks entering asks =>
    refine live.tells_of_entering h entering [_] rfl rfl rfl rfl (.alone ⟨rfl, rfl⟩) (by simp) rfl rfl
      backed fun null => ?_
    cases asks <;> simpa [Frame.voice, covering, entering.kind] using null
  | catches entering =>
    refine live.tells_of_entering h entering [_] rfl rfl rfl rfl (.alone ⟨rfl, rfl⟩) (by simp) rfl rfl
      backed fun _ => ?_
    simp [Frame.voice, covering, entering.kind]
  | misses entering | fumbles entering =>
    refine live.tells_of_entering h entering [_] rfl rfl rfl rfl (.alone ⟨rfl, rfl⟩) (by simp) rfl rfl
      backed fun null => ?_
    simpa [Frame.voice, covering, entering.kind] using null
  | wakes due kind =>
    refine h.change due.frames (live.apart due.frames) [_] rfl rfl rfl rfl (.alone ⟨rfl, rfl⟩) rfl rfl
      (fun id c mem => ?_) backed
      (fun first => first.congr rfl rfl (voice_congr rfl rfl) (.inl rfl))
      (fun request => by simp [kind] at request)
    cases List.mem_singleton.mp mem
    rfl
  | @responds f _ _ _ _ _ due kind resume ok =>
    refine h.change due.frames (live.apart due.frames) [_] rfl rfl rfl rfl (.alone ⟨rfl, rfl⟩) rfl rfl
      (fun id c mem => ?_) backed (fun first => ?_) (fun request value heard => ?_)
    · cases List.mem_singleton.mp mem
      rfl
    · exact first.renew (by simp [due.next]) rfl fun _ => by simp [Frame.voice, kind]
    -- An answer that was heard before would stand in the context, which has none yet.
    · obtain ⟨other, ok, rfl, mem⟩ := heard
      rcases List.mem_cons.mp mem with same | mem
      · cases same
        exact ⟨_, _, rfl⟩
      · obtain ⟨_, _, context⟩ :=
          h.hears.kept f (by simp [due.frames]) request _ ⟨other, ok, rfl, mem⟩
        simp [due.context] at context
  | @breaks kind _ f _ context _ c e due same _ _ broken =>
    refine h.change due.frames (live.apart due.frames) [_, _] rfl rfl rfl rfl
      (.both ⟨rfl, rfl⟩ ⟨rfl, rfl⟩) rfl rfl (fun id c' mem => ?_) backed
      (fun first => first.congr rfl rfl (voice_congr rfl rfl) (.inl rfl))
      (fun request value heard => ?_)
    · exact (show id = f.position ∧ c' = c by simpa using mem).1
    -- What a wait breaks with is no answer, so that all that was heard was heard before.
    · have before : Heard co.stack.journal f.position value := by
        obtain ⟨response, ok, rfl, mem⟩ := heard
        rcases List.mem_cons.mp mem with same | mem
        · cases same
        · rcases List.mem_cons.mp mem with taken | mem
          · cases taken
            cases broken with
            | refused refused => simp [ok] at refused
          · exact ⟨response, ok, rfl, mem⟩
      exact h.hears.kept f (by simp [due.frames]) request value before
  | exhausts due =>
    refine h.change due.frames (live.apart due.frames) [] rfl rfl rfl rfl (by simp) rfl rfl
      (by simp) backed
      (fun first => first.congr rfl rfl (voice_congr rfl (by simp [due.context])) (.inr rfl))
      fun request value heard => ?_
    exact kept_beyond h.hears (by simp [due.frames]) request heard due.context
  | enters due selected =>
    exact Live.tells_of_enters h due rfl rfl rfl rfl once backed
  | leaves due => exact Leaves.tells live ⟨due.frames, rfl, rfl, rfl, rfl⟩ h rfl
  | completes due => exact absurd alive (ended_complete rfl).outcome

theorem commitment_of_context {rest : List NodeId} {bindAs : Option String} {value : Value}
    (request : f.kind = .request)
    (context : f.context = some ⟨rest, .request bindAs (some value)⟩)
    (calm : co.stack.exception = none) : co.commitment f = some (bindAs, value) := by
  simp [commitment, request, context, calm]

theorem exists_of_commitment {bindAs : Option String} {value : Value}
    (commits : co.commitment f = some (bindAs, value)) : co.stack.exception = none ∧
      ∃ rest, f.context = some ⟨rest, .request bindAs (some value)⟩ := by
  unfold commitment at commits
  split at commits
  · rename_i context calm
    cases commits
    exact ⟨calm, _, context⟩
  · cases commits

/-- A request commits the answer that it heard, unless an exception is in flight. -/
theorem commits_iff_heard {value : Value} (hears : co.stack.Hears)
    (backed : co.stack.Backed) (mem : f ∈ co.stack.frames) (request : f.kind = .request) :
    (∃ bindAs, co.commitment f = some (bindAs, value)) ↔
      co.stack.exception = none ∧ Heard co.stack.journal f.position value := by
  constructor
  · rintro ⟨bindAs, commits⟩
    obtain ⟨calm, rest, context⟩ := exists_of_commitment commits
    exact ⟨calm, (backed.frames f mem).heard rest bindAs value context⟩
  · rintro ⟨calm, heard⟩
    obtain ⟨rest, bindAs, context⟩ := hears.kept f mem request value heard
    exact ⟨bindAs, commitment_of_context request context calm⟩

theorem commitment_eq_none_iff (hears : co.stack.Hears) (backed : co.stack.Backed)
    (mem : f ∈ co.stack.frames) (request : f.kind = .request) : co.commitment f = none ↔
      (co.stack.exception ≠ none ∨ ∀ value, ¬ Heard co.stack.journal f.position value) := by
  constructor
  · intro none
    by_cases calm : co.stack.exception = .none
    · refine .inr fun value heard => ?_
      obtain ⟨bindAs, commits⟩ := (commits_iff_heard hears backed mem request).mpr ⟨calm, heard⟩
      simp [none] at commits
    · exact .inl calm
  · intro without
    cases commits : co.commitment f with
    | none => rfl
    | some c =>
      obtain ⟨calm, heard⟩ := (commits_iff_heard hears backed mem request).mp ⟨c.1, commits⟩
      exact absurd heard (without.resolve_left (by simp [calm]) c.2)

theorem complete_returned {value : Value}
    (returned : co.complete.outcome = some (.returned value)) :
    co.stack.exception = none ∧ co.stack.result = value := by
  unfold complete at returned
  split at returned
  · cases returned
  · rename_i calm
    cases returned
    exact ⟨calm, rfl⟩

theorem Live.closes_of_transition (live : co.Live) (rule : Transition env co next)
    (h : co.stack.Tells) : next.stack.Closes next.outcome := by
  intro value returned
  cases rule with
  | @completes f context due =>
    have popped : Leaves co (co.onStack fun _ => { co.left f [] [] with
      result := co.resultAfter f }) f [] := ⟨due.frames, rfl, rfl, rfl, rfl⟩
    have leaves := popped.complete
    obtain ⟨calm, result⟩ := complete_returned returned
    have own : f ∈ co.stack.frames := by simp [due.frames]
    have stacked := (live.at due.frames).1
    have rooted : co.stack.document.rootElement? = some f.position := by
      cases stacked with
      | root _ rooted => exact rooted
    obtain ⟨el, element, kind⟩ := stacked.fits.element
    refine ⟨f.position, el, leaves.document ▸ rooted, leaves.document ▸ element, ?_⟩
    rw [← kind]
    have withheld (other : co.commitment f = none) (kind : f.kind ≠ .structural) :
        value = .null := by
      rw [← result, ← h.result]
      simp only [onStack, resultAfter, other]
    constructor
    · intro structural
      have question := (h.voiced f own).question
      rw [leaves.document, leaves.answer?_eq, commitment_eq_none co (by simp [structural])]
      rw [← result]
      simpa [onStack, resultAfter, structural, Frame.voice] using question
    · intro request payload heard
      rw [leaves.heard_iff] at heard
      obtain ⟨bindAs, commits⟩ := (commits_iff_heard h.hears h.backed own request).mpr ⟨calm, heard⟩
      rw [← result]
      simp only [onStack, resultAfter, request, commits]
    · intro request none
      simp only [leaves.heard_iff] at none
      exact withheld ((commitment_eq_none_iff h.hears h.backed own request).mpr (.inr none))
        (by simp [request])
    · intro other
      have kind : f.kind ≠ .request := by rcases other with other | other <;> simp [other]
      exact withheld (commitment_eq_none co kind)
        (by rcases other with other | other <;> simp [other])
  | _ => cases live.outcome.symm.trans returned

theorem Live.tells_resumeWith (live : co.Live) (c : Completion) (h : co.stack.Tells) :
    (co.resumeWith c).stack.Tells := by
  obtain ⟨f, outer, frames, -⟩ := live.standing
  refine h.change frames (live.apart frames) [.resumed c] frames rfl rfl rfl
    (.alone ⟨rfl, rfl⟩) rfl rfl (by simp)
    (h.backed.extend [_] rfl rfl (by simp [Event.exited?]) rfl) (fun first => first)
    fun request value heard => ?_
  have heard := (@heard_append [.resumed c] _ _ _ (by simp)).mp heard
  exact h.hears.kept f (by simp [frames]) request value heard

theorem Live.tells_of_fails {fault : Fault} (live : co.Live) (rule : co.Fails fault next)
    (h : co.stack.Tells) : next.stack.Tells := by
  have backed := backed_of_fails rule h.backed
  cases rule with
  | overflow due | misplaced due =>
    refine h.change due.frames (live.apart due.frames) [] rfl rfl rfl rfl (by simp) rfl rfl
      (by simp) backed (fun first => first.congr rfl rfl (voice_congr rfl (by simp [due.context]))
        (.inl due.next)) fun request value heard => ?_
    exact kept_beyond h.hears (by simp [due.frames]) request heard due.context
  | displayed due kind =>
    refine h.change due.frames (live.apart due.frames) [_] due.frames rfl rfl rfl
      (.alone ⟨rfl, rfl⟩) rfl rfl (fun id c mem => ?_) backed (fun first => first)
      (fun request => by simp [kind] at request)
    cases List.mem_singleton.mp mem
    rfl
  | timed due kind =>
    refine h.change due.frames (live.apart due.frames) [_] due.frames rfl rfl rfl
      (.alone ⟨rfl, rfl⟩) rfl rfl (fun id c mem => ?_) backed (fun first => first)
      (fun request value heard => ?_)
    · cases List.mem_singleton.mp mem
      rfl
    · obtain ⟨response, ok, rfl, mem⟩ := heard
      have mem := (List.mem_cons.mp mem).resolve_left (by simp)
      exact h.hears.kept _ (by simp [due.frames]) request _ ⟨response, ok, rfl, mem⟩

theorem nodup_of_transition (rule : Transition env co next) (once : next.stack.entered.Nodup) :
    co.stack.entered.Nodup := by
  cases moves_of_transition rule with
  | rests same => exact same.entered ▸ once
  | enters enters => exact (List.nodup_cons.mp (enters.entered ▸ once)).2
  | leaves leaves => exact leaves.entered ▸ once

theorem tells_start (limit id : Nat) (doc : Document) (root : NodeId) (kind : ElementKind) :
    (start limit id doc root kind).stack.Tells where
  backed := backed_start limit id doc root kind
  hears := by
    constructor
    · rintro f - - value ⟨_, _, _, consumed⟩
      simp [start] at consumed
    · intro f mem
      obtain rfl : f = Frame.enter kind root := List.mem_singleton.mp mem
      exact List.mem_singleton.mpr rfl
    · intro id c consumed
      simp [start] at consumed
  voiced f mem := by
    obtain rfl : f = Frame.enter kind root := List.mem_singleton.mp mem
    have nothing : doc.answer? root [.entered kind root false] = none := by
      rw [Document.answer?_cons]
      exact if_pos rfl
    refine ⟨?_, fun _ _ => nothing⟩
    simp only [start, Frame.enter, nothing]
    cases kind <;> rfl
  result := rfl

theorem Driven.tells_and_closes {admits : Coroutine → Completion → Prop}
    (driven : Driven admits co) :
    (co.outcome = none → co.stack.entered.Nodup → co.stack.Tells) ∧
      (co.stack.entered.Nodup → co.stack.Closes co.outcome) := by
  refine driven.keeps (P := fun _ stack outcome =>
    (outcome = none → stack.entered.Nodup → stack.Tells) ∧
      (stack.entered.Nodup → stack.Closes outcome)) ?_ ?_ ?_ ?_ ?_
  · intro limit id doc root el _ _ _ _
    exact ⟨fun _ _ => tells_start .., fun _ _ returned => by cases returned⟩
  · intro env co next live running kept rule
    have before (once : next.stack.entered.Nodup) : co.stack.Tells :=
      kept.1 rfl (nodup_of_transition rule once)
    exact ⟨fun alive once => live.tells_of_transition rule (before once) once alive,
      fun once => live.closes_of_transition rule (before once)⟩
  · exact fun _ _ _ _ => ⟨nofun, fun _ _ returned => by cases returned⟩
  · intro co c live waiting _ kept
    exact ⟨fun _ once => live.tells_resumeWith c (kept.1 rfl once),
      fun _ _ returned => by cases returned⟩
  · exact fun _ _ => ⟨nofun, fun _ _ returned => by cases returned⟩

def popped (co : Coroutine) (f : Frame) : Coroutine := (co.onPopping f.kind).onStack Stack.pop

end Coroutine

/-- The payload of an answer goes from a request to the element around it, under its name if it has
one, or becomes the result. -/
structure Coroutine.Hands (co : Coroutine) (f : Frame) (outer : List Frame)
    (bindAs : Option String) (value : Value) : Prop where
  around : ∀ p rest, outer = p :: rest →
    (co.popped f).stack.frames = p.setSymbol .question value :: rest ∧
    (co.popped f).stack.result = co.stack.result
  root : outer = [] → (co.popped f).stack.frames = [] ∧ (co.popped f).stack.result = value
  bindings : ∀ g ∈ outer, ∀ name, (co.popped f).stack.scopes.get? g.scope name =
    if outer.head?.map (·.scope) = some g.scope ∧ bindAs = some name then some value
    else co.stack.scopes.get? g.scope name
  journal : (co.popped f).stack.journal =
    .left f.position :: .committed f.position bindAs value :: co.stack.journal

structure Coroutine.Withholds (co : Coroutine) (f : Frame) (outer : List Frame) : Prop where
  frames : (co.popped f).stack.frames = outer
  result : (co.popped f).stack.result = co.stack.result
  bindings : ∀ g ∈ outer, ∀ name,
    (co.popped f).stack.scopes.get? g.scope name = co.stack.scopes.get? g.scope name
  journal : (co.popped f).stack.journal = .left f.position :: co.stack.journal

/-- How a request leaves: with its answer if it got one with success and no exception is in flight,
and else without. -/
structure Coroutine.Pops (co : Coroutine) (f : Frame) (outer : List Frame) : Prop where
  hands : ∀ value, Heard co.stack.journal f.position value → co.stack.exception = none →
    ∃ bindAs, co.stack.document.Sent co.stack.journal f.position bindAs ∧
      co.Hands f outer bindAs value
  withholds : (co.stack.exception ≠ none ∨ ∀ value, ¬ Heard co.stack.journal f.position value) →
    co.Withholds f outer

structure Stack.Poised (s : Stack) : Prop where
  hears : s.Hears
  backed : s.Backed
  scopes : (s.frames.map (·.scope)).Pairwise (· > ·)

namespace Coroutine

variable {co next : Coroutine} {f : Frame} {outer : List Frame}

theorem popped_eq (frames : co.stack.frames = f :: outer) : co.popped f = co.onStack fun _ =>
    { co.left f outer (co.receiving f outer) with
      result := if outer.isEmpty then co.resultAfter f else co.stack.result } :=
  onPopping_pop frames

theorem Leaves.poised (leaves : Leaves co next f outer) (h : co.stack.Poised) :
    next.stack.Poised := by
  refine ⟨leaves.hears h.hears, leaves.backed h.backed, ?_⟩
  have scopes : next.stack.frames.map (·.scope) = outer.map (·.scope) := by
    rw [leaves.frames]
    cases outer <;> simp [receiving]
  have before := h.scopes
  rw [leaves.before] at before
  rw [scopes]
  exact (List.pairwise_cons.mp before).2

theorem scopes_decreasing {doc : Document} {frames : List Frame} (built : doc.Built)
    (stacked : Stacked doc frames) : (frames.map (·.scope)).Pairwise (· > ·) := by
  induction stacked with
  | root => simp
  | inside fits encloses stacked ih =>
    rw [List.map_cons]
    refine List.pairwise_cons.mpr ⟨fun scope mem => ?_, ih⟩
    obtain ⟨g, within, rfl⟩ := List.mem_map.mp mem
    exact (Stacked.inside fits encloses stacked).scope_lt built g within

theorem Live.poised (live : co.Live) (h : co.stack.Tells) : co.stack.Poised := by
  obtain ⟨f, outer, frames, stacked, _⟩ := live.standing
  exact ⟨h.hears, h.backed, frames ▸ scopes_decreasing live.built stacked⟩

theorem get?_popped {g : Frame} (h : co.stack.Poised) (frames : co.stack.frames = f :: outer)
    (mem : g ∈ outer) (name : String) :
    (co.popped f).stack.scopes.get? g.scope name = (co.bound f outer).get? g.scope name := by
  have less : ∀ g ∈ outer, g.scope < f.scope := by
    have scopes := h.scopes
    rw [frames, List.map_cons] at scopes
    exact fun g mem => (List.pairwise_cons.mp scopes).1 _ (List.mem_map_of_mem mem)
  have alone : outer.any (·.scope == f.scope) = false :=
    List.any_eq_false.mpr fun g mem => by simpa using Nat.ne_of_lt (less g mem)
  rw [popped_eq frames]
  simp [onStack, left, scopesAfter, alone, ScopeVars.get?_drop, Nat.ne_of_lt (less g mem)]

theorem pops_of_poised (h : co.stack.Poised) (frames : co.stack.frames = f :: outer)
    (request : f.kind = .request) : co.Pops f outer := by
  have own : f ∈ co.stack.frames := by simp [frames]
  constructor
  · intro value heard calm
    obtain ⟨bindAs, commits⟩ := (commits_iff_heard h.hears h.backed own request).mpr ⟨calm, heard⟩
    obtain ⟨-, rest, context⟩ := exists_of_commitment commits
    refine ⟨bindAs, (h.backed.frames f own).sent rest bindAs _ context (.inl rfl), ?_⟩
    constructor
    · rintro p around rfl
      simp [popped_eq frames, onStack, left, receiving, receive, commits]
    · rintro rfl
      simp [popped_eq frames, onStack, left, receiving, resultAfter, request, commits]
    · intro g mem name
      rw [get?_popped h frames mem]
      cases outer with
      | nil => cases mem
      | cons p around =>
        cases bindAs with
        | none => simp [bound, commits]
        | some other => simp [bound, commits, ScopeVars.get?_bind, eq_comm]
    · simp [popped_eq frames, onStack, left, committing, commits]
  · intro without
    have nothing := (commitment_eq_none_iff h.hears h.backed own request).mpr without
    constructor
    · cases outer <;> simp [popped_eq frames, onStack, left, receiving, receive, nothing]
    · cases outer <;> simp [popped_eq frames, onStack, left, resultAfter, request, nothing]
    · intro g mem name
      rw [get?_popped h frames mem]
      simp [bound, nothing]
    · simp [popped_eq frames, onStack, left, committing, nothing]

theorem step_popped (env : Environment) (frames : co.stack.frames = f :: outer)
    (due : f.next = .onPopping) : co.step env =
      (if outer.isEmpty then (co.popped f).complete else co.popped f, none) := by
  have around : (co.popped f).stack.frames.isEmpty = outer.isEmpty := by
    cases outer <;> simp [popped_eq frames, onStack, left, receiving]
  have op : co.operate env f = (co.popped f, none) := by
    simp only [operate, due]
    rfl
  simp only [step, Stack.top?, frames, List.head?_cons, op, around]

/-- Where the way out of a coroutine begins: where it is when it is cancelled, or where a step left
it that failed. -/
inductive Unwinds (co : Coroutine) : Coroutine → Prop
  | cancelled : Unwinds co co
  | failed {env : Environment} {at_ : Coroutine} {fault : Fault} : co.state = .running →
    co.step env = (at_, some fault) → Unwinds co at_

namespace Driven

variable {admits : Coroutine → Completion → Prop} {at_ : Coroutine}

theorem tells (driven : Driven admits co) (alive : co.state ≠ .terminated) : co.stack.Tells :=
  driven.tells_and_closes.1 (driven.live alive).outcome driven.once

theorem closes (driven : Driven admits co) : co.stack.Closes co.outcome :=
  driven.tells_and_closes.2 driven.once

theorem poised (driven : Driven admits co) (from_ : Unwinds co at_) (count : Nat)
    (frames : (at_.unwind count).stack.frames ≠ []) : (at_.unwind count).stack.Poised := by
  refine unwind_keeps Leaves.poised count at_ ?_
  cases from_ with
  | cancelled =>
    rcases driven.live_or_ended with live | ended
    · exact live.poised (driven.tells live.state)
    · simp [ended.unwind_eq count, ended.frames] at frames
  | failed running step =>
    have live := driven.live (by simp [running])
    have rule := live.fails_of_step running step
    have tells := live.tells_of_fails rule (driven.tells live.state)
    obtain ⟨f, outer, before, stacked, _⟩ := live.standing
    refine ⟨tells.hears, tells.backed, ?_⟩
    have same : at_.stack.frames.map (·.scope) = co.stack.frames.map (·.scope) := by
      simpa [Function.comp_def, Frame.place] using
        congrArg (List.map Prod.fst) (rests_of_fails rule).places
    rw [same, before]
    exact scopes_decreasing live.built stacked

end Driven

end Coroutine
end MarkupMachine
