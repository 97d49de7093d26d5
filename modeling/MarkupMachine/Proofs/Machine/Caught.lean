import MarkupMachine.Proofs.Machine.Answers

/-! What a catch has caught, by the journal. A catch judges the exception in flight as soon as it is
entered, so that the entry of a match stands right on that of the catch. -/

namespace MarkupMachine

def Caught (journal : List Event) (id : NodeId) (e : Exception) : Prop :=
  ∃ raising earlier, .caught e :: .entered .catcher id raising :: earlier <:+ journal

def Frame.Keeps (f : Frame) (e : Exception) : Prop :=
  ∃ rest, f.context = some ⟨rest, .catcher (some e)⟩

/-- An element that is to be set up was the last to be entered, and a catch keeps what it caught. -/
structure Stack.Catches (s : Stack) : Prop where
  arrives : ∀ f outer, s.frames = f :: outer → f.next = .afterPushed →
    ∃ raising earlier, s.journal = .entered f.kind f.position raising :: earlier
  keeps_iff : ∀ f ∈ s.frames, f.kind = .catcher →
    ∀ e, f.Keeps e ↔ Caught s.journal f.position e

section Journals

variable {events journal : List Event} {id : NodeId} {e : Exception}

theorem caught_append (silent : ∀ e, .caught e ∉ events) :
    Caught (events ++ journal) id e ↔ Caught journal id e := by
  induction events with
  | nil => rfl
  | cons event events ih =>
    rw [← ih fun e mem => silent e (List.mem_cons_of_mem _ mem), List.cons_append]
    refine exists₂_congr fun raising earlier => List.suffix_cons_iff.trans (or_iff_right ?_)
    intro same
    exact silent e (List.mem_cons.mpr (.inl (List.cons.inj same).1))

theorem Caught.mem_entered {s : Stack} (caught : Caught s.journal id e) : id ∈ s.entered := by
  obtain ⟨raising, earlier, before⟩ := caught
  exact List.mem_filterMap.mpr ⟨.entered .catcher id raising, before.subset (by simp), rfl⟩

theorem caught_cons_caught {other : Exception} {kind : ElementKind} {position : NodeId}
    {raising : Bool} {earlier : List Event}
    (arrived : journal = .entered kind position raising :: earlier) :
    Caught (.caught other :: journal) id e ↔
      e = other ∧ kind = .catcher ∧ id = position ∨ Caught journal id e := by
  constructor
  · rintro ⟨before, rest, caught⟩
    rcases List.suffix_cons_iff.mp caught with same | caught
    · rw [arrived] at same
      cases same
      exact .inl ⟨rfl, rfl, rfl⟩
    · exact .inr ⟨before, rest, caught⟩
  · rintro (⟨rfl, rfl, rfl⟩ | ⟨before, rest, caught⟩)
    · exact ⟨raising, earlier, arrived ▸ List.suffix_refl _⟩
    · exact ⟨before, rest, caught.trans (List.suffix_cons _ _)⟩

end Journals

theorem Frame.Keeps.congr {f g : Frame}
    (state : g.context.map Context.state = f.context.map Context.state) (e : Exception) :
    g.Keeps e ↔ f.Keeps e := by
  have keeps_iff (f : Frame) : f.Keeps e ↔
      f.context.map Context.state = some (.catcher (some e)) := by
    constructor
    · rintro ⟨rest, context⟩
      rw [context]
      rfl
    · intro own
      obtain ⟨⟨rest, _⟩, context, rfl⟩ := Option.map_eq_some_iff.mp own
      exact ⟨rest, context⟩
  rw [keeps_iff, keeps_iff, state]

namespace Stack.Catches

variable {s t : Stack} {f g : Frame} {outer : List Frame}

theorem change (h : s.Catches) (frames : s.frames = f :: outer) (events : List Event)
    (changed : t.frames = g :: outer) (journal : t.journal = events ++ s.journal)
    (silent : ∀ e, .caught e ∉ events) (position : g.position = f.position)
    (kind : g.kind = f.kind) (due : g.next ≠ .afterPushed)
    (keeps : ∀ e, g.Keeps e ↔ f.Keeps e) : t.Catches := by
  constructor
  · intro other around same next
    rw [changed] at same
    obtain ⟨rfl, -⟩ := List.cons.inj same
    exact absurd next due
  · intro other mem catcher e
    rw [journal, caught_append silent]
    rw [changed] at mem
    rcases List.mem_cons.mp mem with rfl | mem
    · rw [keeps, position]
      exact h.keeps_iff f (by simp [frames]) (kind ▸ catcher) e
    · exact h.keeps_iff other (by simp [frames, mem]) catcher e

end Stack.Catches

namespace Coroutine

variable {env : Environment} {co next : Coroutine} {f g p : Frame} {outer : List Frame}

theorem keeps_of_entering {kind : ElementKind} {el : Element} {rest : List NodeId}
    {state : ContextState} (entering : Entering co kind f outer el)
    (context : g.context = some ⟨rest, state⟩) (none : ∀ e, state ≠ .catcher (some e))
    (e : Exception) : g.Keeps e ↔ f.Keeps e := by
  constructor
  · rintro ⟨after, own⟩
    rw [context] at own
    cases own
    exact absurd rfl (none e)
  · rintro ⟨after, own⟩
    cases entering.context.symm.trans own

theorem blank_ne_catcher (kind : ElementKind) (e : Exception) : kind.blank ≠ .catcher (some e) := by
  cases kind <;> exact nofun

theorem SetUpAsks.state_ne_catcher {el : Element} {kind : ElementKind} {state : ContextState}
    {due : NextStep} {wait : Wait} {asked : List String}
    (asks : SetUpAsks env co el kind state due wait asked) (e : Exception) :
    state ≠ .catcher (some e) ∧ due ≠ .afterPushed := by
  cases asks <;> exact ⟨nofun, nofun⟩

theorem Leaves.catches (leaves : Leaves co next f outer) (h : co.stack.Catches)
    (stacked : Stacked co.stack.document (f :: outer)) : next.stack.Catches := by
  have silent : ∀ e, .caught e ∉ .left f.position :: co.committing f := by
    intro e mem
    rcases List.mem_cons.mp mem with same | mem
    · cases same
    · cases exits_of_mem_committing mem
  constructor
  · intro g around frames due
    rw [leaves.frames] at frames
    cases outer with
    | nil => cases frames
    | cons p outer =>
      obtain ⟨rfl, -⟩ := List.cons.inj frames
      rw [next_receive, stacked.parent.next] at due
      cases due
  · intro g mem catcher e
    rw [leaves.frames] at mem
    obtain ⟨before, mem, position, kind, context⟩ := exists_of_mem_receiving mem
    rw [leaves.journal, caught_append silent, position,
      ← h.keeps_iff before (by simp [leaves.before, mem]) (kind ▸ catcher)]
    exact Frame.Keeps.congr (by rw [context]) e

theorem Live.catches_of_enters {rest beyond : List NodeId} {state : ContextState}
    {content : Option String} {kind : ElementKind} {id : NodeId} {raising : Bool} {t : Stack}
    (h : co.stack.Catches) (due : Due co .selectChild f outer ⟨rest, state⟩)
    (frames : t.frames = Frame.enter kind id ::
      { f with content, context := some ⟨beyond, state⟩ } :: outer)
    (journal : t.journal = .entered kind id raising :: co.stack.journal)
    (once : t.entered.Nodup) : t.Catches := by
  have entered : t.entered = id :: co.stack.entered := by
    rw [Stack.entered, journal]
    rfl
  obtain ⟨fresh, -⟩ := List.nodup_cons.mp (entered ▸ once)
  constructor
  · intro g around same next
    rw [frames] at same
    obtain ⟨rfl, -⟩ := List.cons.inj same
    exact ⟨raising, _, journal⟩
  · intro g mem catcher e
    rw [journal, ← List.singleton_append, caught_append (by simp)]
    rw [frames] at mem
    rcases List.mem_cons.mp mem with rfl | mem
    · refine iff_of_false (fun keeps => ?_) fun caught => fresh caught.mem_entered
      obtain ⟨_, context⟩ := keeps
      cases context
    · rcases List.mem_cons.mp mem with rfl | mem
      · rw [← h.keeps_iff f (by simp [due.frames]) catcher]
        exact Frame.Keeps.congr (by simp [due.context]) e
      · exact h.keeps_iff g (by simp [due.frames, mem]) catcher e

theorem Live.catches_of_catches {el : Element} {e : Exception} {t : Stack} {rest : List NodeId}
    (live : co.Live) (h : co.stack.Catches) (entering : Entering co .catcher f outer el)
    (changed : t.frames = g :: outer) (journal : t.journal = .caught e :: co.stack.journal)
    (position : g.position = f.position) (due : g.next ≠ .afterPushed)
    (context : g.context = some ⟨rest, .catcher (some e)⟩) : t.Catches := by
  obtain ⟨raising, earlier, arrived⟩ := h.arrives f outer entering.frames entering.next
  have before (g : Frame) (mem : g ∈ co.stack.frames) (catcher : g.kind = .catcher) :=
    h.keeps_iff g mem catcher
  constructor
  · intro other around same next
    rw [changed] at same
    obtain ⟨rfl, -⟩ := List.cons.inj same
    exact absurd next due
  · intro other mem catcher found
    rw [journal, caught_cons_caught arrived]
    rw [changed] at mem
    rcases List.mem_cons.mp mem with rfl | mem
    · rw [position, ← before f (by simp [entering.frames]) entering.kind]
      have none : ¬ f.Keeps found := fun ⟨_, own⟩ => nomatch entering.context.symm.trans own
      constructor
      · rintro ⟨_, own⟩
        cases context.symm.trans own
        exact .inl ⟨rfl, entering.kind, rfl⟩
      · rintro (⟨rfl, -⟩ | keeps)
        · exact ⟨_, context⟩
        · exact absurd keeps none
    · rw [before other (by simp [entering.frames, mem]) catcher]
      refine (or_iff_right ?_).symm
      rintro ⟨-, -, same⟩
      exact live.apart entering.frames other mem same

theorem Live.catches_of_transition (live : co.Live) (rule : Transition env co next)
    (h : co.stack.Catches) (once : next.stack.entered.Nodup) : next.stack.Catches := by
  cases rule with
  | opens entering | idles entering =>
    exact h.change entering.frames [] rfl rfl (by simp) rfl rfl nofun
      (keeps_of_entering entering rfl nofun)
  | fails entering =>
    exact h.change entering.frames [_] rfl rfl (by simp) rfl rfl nofun
      (keeps_of_entering entering rfl (blank_ne_catcher _))
  | asks entering asks =>
    exact h.change entering.frames [_] rfl rfl (by simp) rfl rfl
      (asks.state_ne_catcher default).2
      (keeps_of_entering entering rfl fun e => (asks.state_ne_catcher e).1)
  | catches entering =>
    exact live.catches_of_catches h entering rfl rfl rfl nofun rfl
  | misses entering | fumbles entering =>
    exact h.change entering.frames [_] rfl rfl (by simp) rfl rfl nofun
      (keeps_of_entering entering rfl nofun)
  | wakes due =>
    exact h.change due.frames [_] rfl rfl (by simp) rfl rfl nofun fun _ => Iff.rfl
  | responds due =>
    refine h.change due.frames [_] rfl rfl (by simp) rfl rfl nofun fun e => ?_
    simp [Frame.Keeps, due.context]
  | breaks due =>
    exact h.change due.frames [_, _] rfl rfl (by simp) rfl rfl nofun fun _ => Iff.rfl
  | exhausts due =>
    exact h.change due.frames [] rfl rfl (by simp) rfl rfl nofun
      (Frame.Keeps.congr (by simp [due.context]))
  | enters due => exact Live.catches_of_enters h due rfl rfl once
  | leaves due =>
    exact Leaves.catches ⟨due.frames, rfl, rfl, rfl, rfl⟩ h (live.at due.frames).1
  | completes due =>
    exact Leaves.catches (Leaves.complete ⟨due.frames, rfl, rfl, rfl, rfl⟩) h (live.at due.frames).1

theorem catches_of_fails {fault : Fault} (rule : co.Fails fault next) (h : co.stack.Catches) :
    next.stack.Catches := by
  cases rule with
  | overflow due | misplaced due =>
    exact h.change due.frames [] rfl rfl (by simp) rfl rfl (by simp [due.next])
      (Frame.Keeps.congr (by simp [due.context]))
  | displayed due | timed due =>
    exact h.change due.frames [_] due.frames rfl (by simp) rfl rfl (by simp [due.next])
      fun _ => Iff.rfl

theorem Live.catches_resumeWith (live : co.Live) (waiting : co.state = .waiting) (c : Completion)
    (h : co.stack.Catches) : (co.resumeWith c).stack.Catches := by
  obtain ⟨f, outer, w, frames, awaits, -⟩ := live.exists_suspended waiting
  have due : f.next ≠ .afterPushed := by
    cases awaits with
    | sleep _ due | request _ due => simp [due, Requester.awaiting]
  exact h.change frames [_] frames rfl (by simp) rfl rfl due fun _ => Iff.rfl

theorem catches_start (limit id : Nat) (doc : Document) (root : NodeId) (kind : ElementKind) :
    (start limit id doc root kind).stack.Catches := by
  constructor
  · rintro f outer same -
    obtain ⟨rfl, -⟩ := List.cons.inj same
    exact ⟨false, [], rfl⟩
  · intro f mem _ e
    obtain rfl : f = Frame.enter kind root := List.mem_singleton.mp mem
    refine iff_of_false (fun ⟨_, context⟩ => nomatch context) fun ⟨_, _, before⟩ => ?_
    have shorter := before.length_le
    simp [start] at shorter

theorem Driven.catches {admits : Coroutine → Completion → Prop} (driven : Driven admits co)
    (alive : co.state ≠ .terminated) : co.stack.Catches := by
  refine driven.keeps (P := fun _ stack outcome =>
    outcome = none → stack.entered.Nodup → stack.Catches) ?_ ?_ ?_ ?_ ?_ (driven.live alive).outcome
    driven.once
  · intro limit id doc root el _ _ _ _ _ _
    exact catches_start ..
  · intro env co next live running kept rule _ once
    exact live.catches_of_transition rule (kept rfl (nodup_of_transition rule once)) once
  · exact fun _ _ _ _ => nofun
  · exact fun live waiting _ kept _ once => live.catches_resumeWith waiting _ (kept rfl once)
  · exact fun _ _ => nofun

end Coroutine
end MarkupMachine
