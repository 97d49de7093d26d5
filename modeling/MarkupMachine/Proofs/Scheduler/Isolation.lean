import MarkupMachine.Proofs.Exception.Names
import MarkupMachine.Proofs.Scheduler.Courses
import MarkupMachine.Proofs.Scheduler.Drive
import MarkupMachine.Report

/-! Coroutines do not meddle with each other. Whatever else a scheduler runs, and however long its
slices are, a coroutine comes to what it comes to on its own, with the same completions. -/

namespace MarkupMachine

open Session (waitsOf)

namespace Scheduler

variable {s t : Scheduler} {id : Nat} {co k : Coroutine} {env : Environment}
  {cs : List Completion} {ws : List Wait}

theorem outbox_step (s : Scheduler) :
    (s.after .step).outbox = s.outbox ++ s.postedBy .step := by
  have grows : ∃ more, (s.after .step).outbox = s.outbox ++ more := by
    rcases s.step_cases with ⟨_, eq⟩ | ⟨id, queue, co, _, eq⟩
    · exact ⟨[], by simp [after, eq]⟩
    · rw [after, eq, outbox_file]
      split
      · exact ⟨_, rfl⟩
      · exact ⟨[], (List.append_nil _).symm⟩
  obtain ⟨more, eq⟩ := grows
  rw [postedBy, eq, List.drop_left]

theorem Settles.course {count : Nat} (settles : s.Settles count t) (hosts : Hosts env s)
    (standard : env.evaluator = .standard) (onward : k.Onward)
    (stored : s.coroutine? id = some k.rest) :
    ∃ ws last, Coroutine.Course env [] ws k last ∧ last.state ≠ .running ∧ Hosts env t ∧
      t.coroutine? id = some last.rest ∧
      waitsOf id t.outbox = waitsOf id s.outbox ++ ws := by
  induction settles generalizing k with
  | @rests s rest =>
    have nobody := nobody_of_turn rest
    have idle := not_ready_of_nobody hosts.tidy nobody stored
    have stays : (s.after .step).coroutine? id = some k.rest := by
      rw [after_step_of_nobody nobody]
      exact stored
    have silent : (s.after .step).outbox = s.outbox := by rw [after_step_of_nobody nobody]
    have next : Hosts env (s.after .step) := hosts.after rfl
    refine ⟨[], k, .here, fun running => idle ?_, next, stays, ?_⟩
    · simp [Coroutine.rest, running]
    · rw [List.append_nil, ← silent]
      rfl
  | @turns s t _ _ ran settles ih =>
    obtain ⟨next, way, stands⟩ := hosts.sound.course_step onward stored
    have after : Hosts env (s.after .step) := hosts.after rfl
    rw [hosts.environment] at way
    obtain ⟨ws, last, rest, stopped, hosts, stored, outbox⟩ :=
      ih after (way.onward standard onward) stands
    refine ⟨_, last, way.trans rest, stopped, hosts, stored, ?_⟩
    have before : s.step.2.outbox = s.outbox ++ s.postedBy .step := outbox_step s
    rw [outbox, before, Session.waitsOf_append, List.append_assoc]

/-- Runs a scheduler until nothing is ready, first of all and after each of some completions that a
coroutine is handed. -/
def replay (id : Nat) (s : Scheduler) : List Completion → Except Fault Scheduler
  | [] => .ok s.runUntilIdle.2
  | c :: rest => do (← s.runUntilIdle.2.deliver id c).replay id rest

theorem Hosts.replays {goal : Coroutine} (hosts : Hosts env s)
    (standard : env.evaluator = .standard) (onward : k.Onward)
    (stored : s.coroutine? id = some k.rest) (course : Coroutine.Course env cs ws k goal) :
    ∃ t vs last, s.replay id cs = .ok t ∧ Coroutine.Course env cs vs k last ∧
      last.state ≠ .running ∧ t.coroutine? id = some last.rest ∧
      waitsOf id t.outbox = waitsOf id s.outbox ++ vs := by
  induction cs generalizing s k ws with
  | nil =>
    obtain ⟨vs, last, way, stopped, _, stored, outbox⟩ :=
      (settles_runUntilIdle hosts.sound hosts.slice).course hosts standard onward stored
    exact ⟨_, vs, last, rfl, way, stopped, stored, outbox⟩
  | cons c cs ih =>
    obtain ⟨first, mid, way, stopped, hosts, stored, outbox⟩ :=
      (settles_runUntilIdle hosts.sound hosts.slice).course hosts standard onward stored
    obtain ⟨last, _, later, again, waiting, rest, _⟩ := course.exists_waiting
    -- Both have stopped before the first completion, so they have stopped in one state.
    obtain rfl : mid = last := by
      rcases way.compare again with ⟨_, onto, _⟩ | ⟨_, onto, _⟩
      · exact (onto.stopped stopped).2.symm
      · exact (onto.stopped (by simp [waiting])).2
    have onward := way.onward standard onward
    obtain ⟨delivered, next, same⟩ := hosts.sound.deliver_waiting onward stored waiting c
    obtain ⟨t, vs, last, replayed, course, stopped, stored, after⟩ :=
      ih (hosts.after rfl) (onward.answered waiting c) next rest
    refine ⟨t, first ++ vs, last, ?_, way.trans (.answer waiting course), stopped, stored, ?_⟩
    · simp only [replay, delivered]
      exact replayed
    · rw [after, same, outbox, List.append_assoc]

/-- Two coroutines, each with the waits that it asked for, show the same as far as both have come. A
coroutine that is not ready has come as far as its completions let it. -/
structure Concur (ws : List Wait) (co : Coroutine) (vs : List Wait) (twin : Coroutine) : Prop where
  either : ws.map (·.anonymous) <+: vs.map (·.anonymous) ∨
    vs.map (·.anonymous) <+: ws.map (·.anonymous)
  ahead : twin.state ≠ .ready → ws.map (·.anonymous) <+: vs.map (·.anonymous)
  behind : co.state ≠ .ready → vs.map (·.anonymous) <+: ws.map (·.anonymous)
  same : co.state ≠ .ready → twin.state ≠ .ready →
    vs.map (·.anonymous) = ws.map (·.anonymous) ∧ twin.state = co.state ∧
    twin.outcome = co.outcome ∧ twin.stack.stats = co.stack.stats

theorem not_running_of_rest (idle : k.rest.state ≠ .ready) : k.state ≠ .running := by
  intro running
  exact idle (by simp [Coroutine.rest, running])

theorem Concur.of_akin {vs : List Wait} {l : Coroutine} (akin : k.Akin l)
    (waits : vs.map (·.anonymous) = ws.map (·.anonymous)) : Concur ws k.rest vs l.rest := by
  have same : ws.map (·.anonymous) <+: vs.map (·.anonymous) := waits ▸ List.prefix_rfl
  have back : vs.map (·.anonymous) <+: ws.map (·.anonymous) := waits ▸ List.prefix_rfl
  refine ⟨.inl same, fun _ => same, fun _ => back, fun _ _ => ⟨waits, ?_, akin.outcome, akin.stats⟩⟩
  simp only [Coroutine.rest, akin.state]

theorem Concur.of_courses {other : Environment} {ds : List Completion} {vs : List Wait}
    {a b l : Coroutine} (onward : a.Onward) (akin : a.Akin b)
    (alike : env.Alike other a.stack.document.number b.stack.document.number)
    (answers : ds.map (·.anonymous) = cs.map (·.anonymous))
    (first : Coroutine.Course env cs ws a k) (second : Coroutine.Course other ds vs b l) :
    Concur ws k.rest vs l.rest := by
  obtain ⟨us, mate, way, met, waits⟩ := first.akin onward.driven akin alike answers
  rcases way.compare second with ⟨more, onto, eq⟩ | ⟨more, onto, eq⟩
  · have further : ws.map (·.anonymous) <+: vs.map (·.anonymous) :=
      ⟨more.map (·.anonymous), by rw [eq, List.map_append, waits]⟩
    have level (idle : k.rest.state ≠ .ready) : Concur ws k.rest vs l.rest := by
      obtain ⟨rfl, rfl⟩ := onto.stopped (met.state ▸ not_running_of_rest idle)
      exact .of_akin met (by rw [eq, List.append_nil, waits])
    exact ⟨.inl further, fun _ => further, fun idle => (level idle).behind idle,
      fun idle => (level idle).same idle⟩
  · have further : vs.map (·.anonymous) <+: ws.map (·.anonymous) :=
      ⟨more.map (·.anonymous), by rw [← waits, eq, List.map_append]⟩
    have level (idle : l.rest.state ≠ .ready) : Concur ws k.rest vs l.rest := by
      obtain ⟨rfl, rfl⟩ := onto.stopped (not_running_of_rest idle)
      exact .of_akin met (by rw [← waits, eq, List.append_nil])
    exact ⟨.inr further, fun idle => (level idle).ahead idle, fun _ => further,
      fun busy idle => (level idle).same busy idle⟩

theorem akin_begun (limit id mate number : Nat) (doc : Document) (root : NodeId) (el : Element) :
    (Coroutine.begun limit id doc root el).Akin
      (.begun limit mate { doc with number } root el) := ⟨rfl, rfl, rfl⟩

theorem spawn_begun {tree : Tree} {doc : Document} {number : Nat} {root : NodeId} {el : Element}
    (room : 0 < s.maxFrames) (made : Document.ofTree? number tree = some doc)
    (rooted : doc.rootElement? = some root) (element : doc.element? root = some el) :
    (s.after (.spawn number tree)).coroutine? s.nextId =
      some (Coroutine.begun s.maxFrames s.nextId doc root el).rest ∧
    (s.after (.spawn number tree)).outbox = s.outbox := by
  have spawned := spawn_eq s rooted element
  rw [if_neg (Nat.ne_of_gt room)] at spawned
  simp only [Scheduler.after, made, spawned]
  exact ⟨(coroutine?_put s _ s.nextId).trans (if_pos rfl), rfl⟩

theorem Stems.exists_course {limit : Nat} {calls : List Call}
    (mine : Stems env limit calls id cs ws co) :
    ∃ tree root el k, .spawn co.stack.document.number tree ∈ calls ∧
      Document.ofTree? co.stack.document.number tree = some co.stack.document ∧
      co.stack.document.rootElement? = some root ∧ co.stack.document.element? root = some el ∧
      0 < limit ∧ Coroutine.Course env cs ws (.begun limit id co.stack.document root el) k ∧
      co = k.rest := by
  obtain @⟨number, tree, doc, root, el, k, mem, made, rooted, element, room, way⟩ := mine
  have onward := Coroutine.onward_begun id room ⟨number, tree, made⟩ rooted element
  have own : k.rest.stack.document = doc := way.document onward.driven
  rw [own]
  obtain rfl := Document.number_of_ofTree? made
  exact ⟨tree, root, el, k, mem, made, rooted, element, room, way, rfl⟩

section Programs

variable {limit number mate : Nat} {calls others : List Call} {other : Environment}
  {ds : List Completion} {vs : List Wait} {twin : Coroutine} {tree : Tree}

theorem Stems.concur (mine : Stems env limit calls id cs ws co)
    (theirs : Stems other limit others mate ds vs twin)
    (program : Document.ofTree? co.stack.document.number tree = some co.stack.document)
    (again : Document.ofTree? twin.stack.document.number tree = some twin.stack.document)
    (alike : env.Alike other co.stack.document.number twin.stack.document.number)
    (answers : ds.map (·.anonymous) = cs.map (·.anonymous)) : Concur ws co vs twin := by
  obtain ⟨_, root, el, k, _, made, rooted, element, room, way, rfl⟩ := mine.exists_course
  obtain ⟨_, top, head, l, _, _, begins, first, _, course, rfl⟩ := theirs.exists_course
  have onward := Coroutine.onward_begun id room ⟨_, _, made⟩ rooted element
  generalize k.rest.stack.document = doc at *
  generalize l.rest.stack.document = copy at *
  obtain ⟨n, rfl⟩ : ∃ n, copy = { doc with number := n } :=
    ⟨_, Option.some.inj (again.symm.trans (Document.ofTree?_renumber program _))⟩
  obtain rfl : root = top := Option.some.inj (rooted.symm.trans begins)
  obtain rfl : el = head := Option.some.inj (element.symm.trans first)
  exact .of_courses onward (akin_begun limit id mate n doc root el) alike answers way course

/-- A coroutine can be led the same way in another scheduler, as far as the completions go that it
has taken. -/
theorem Stems.replays (mine : Stems env limit calls id cs ws co) (host : Hosts other s)
    (frames : s.maxFrames = limit) (silent : waitsOf s.nextId s.outbox = [])
    (program : Document.ofTree? co.stack.document.number tree = some co.stack.document)
    (alike : env.Alike other co.stack.document.number number)
    (answers : ds.map (·.anonymous) = cs.map (·.anonymous)) :
    ∃ solo twin, (s.after (.spawn number tree)).replay s.nextId ds = .ok solo ∧
      solo.coroutine? s.nextId = some twin ∧ twin.state ≠ .ready ∧
      Concur ws co (waitsOf s.nextId solo.outbox) twin := by
  obtain ⟨_, root, el, k, _, made, rooted, element, room, way, rfl⟩ := mine.exists_course
  have onward := Coroutine.onward_begun id room ⟨_, _, made⟩ rooted element
  generalize k.rest.stack.document = doc at *
  subst frames
  have again := Document.ofTree?_renumber program number
  have begins := Coroutine.onward_begun s.nextId room ⟨_, _, again⟩ rooted element
  have akin := akin_begun s.maxFrames id s.nextId number doc root el
  obtain ⟨_, _, course, _⟩ := way.akin onward.driven akin alike answers
  obtain ⟨first, same⟩ := spawn_begun room again rooted element
  obtain ⟨solo, vs, last, replayed, course, stopped, stored, outbox⟩ :=
    (host.after rfl).replays alike.same begins first course
  refine ⟨solo, last.rest, replayed, stored, ?_, ?_⟩
  · have awake := (course.onward alike.same begins).awake
    simpa [Coroutine.rest, stopped] using awake
  · rw [outbox, same, silent]
    exact .of_courses onward akin alike answers way course

end Programs

def afresh (start : Scheduler) (sliceSteps : Nat) (globals : List (Nat × Bindings)) : Scheduler :=
  Walk.hosting start.maxFrames sliceSteps globals start.environment.target

/-- A coroutine that ran among others, and the program that it ran: it concurs with one that runs
alone, and with any that runs among others still. -/
structure Isolated (start : Scheduler) (calls : List Call) (id : Nat) (co : Coroutine)
    (tree : Tree) : Prop where
  spawned : .spawn co.stack.document.number tree ∈ calls
  program : Document.ofTree? co.stack.document.number tree = some co.stack.document
  alone : ∀ sliceSteps globals number cs,
    Table.get? number globals = Table.get? co.stack.document.number start.environment.globals →
    cs.map (·.anonymous) = (start.accepted id calls).map (·.anonymous) →
    ∃ solo twin, ((start.afresh sliceSteps globals).after (.spawn number tree)).replay 1 cs =
        .ok solo ∧ solo.coroutine? 1 = some twin ∧ twin.state ≠ .ready ∧
      Concur (start.posted id calls) co (waitsOf 1 solo.outbox) twin
  among : ∀ sliceSteps globals others mate twin, (∀ call ∈ others, call.rebinds = false) →
    ((start.afresh sliceSteps globals).afterAll others).coroutine? mate = some twin →
    twin.outcome ≠ some .cancelled →
    Document.ofTree? twin.stack.document.number tree = some twin.stack.document →
    Table.get? twin.stack.document.number globals =
      Table.get? co.stack.document.number start.environment.globals →
    ((start.afresh sliceSteps globals).accepted mate others).map (·.anonymous) =
      (start.accepted id calls).map (·.anonymous) →
    Concur (start.posted id calls) co ((start.afresh sliceSteps globals).posted mate others) twin
  returned : ∀ f ∈ (start.afterAll calls).reap.1, f.id = id →
    co.outcome = some f.outcome ∧ f.stats = co.stack.stats

theorem hosts_hosting (maxFrames sliceSteps : Nat) (globals : List (Nat × Bindings))
    (target : UInt64) :
    Hosts { globals, target } (Walk.hosting maxFrames sliceSteps globals target) where
  sound := Walk.hosting_sound maxFrames sliceSteps globals target
  tidy := ⟨fun stored => (nomatch stored), fun mem => (nomatch mem)⟩
  slice := Nat.lt_of_lt_of_le Nat.zero_lt_one (Nat.le_max_left 1 sliceSteps)
  environment := rfl

/-- A coroutine that is not cancelled comes to what it comes to on its own, and names have nothing
to do with it. -/
theorem isolated (maxFrames sliceSteps : Nat) (globals : List (Nat × Bindings)) (target : UInt64)
    {calls : List Call} {id : Nat} {co : Coroutine}
    (fixed : ∀ call ∈ calls, call.rebinds = false)
    (stored : ((Walk.hosting maxFrames sliceSteps globals target).afterAll calls).coroutine? id =
      some co) (kept : co.outcome ≠ some .cancelled) :
    (∃ tree, Isolated (Walk.hosting maxFrames sliceSteps globals target) calls id co tree) ∧
    ∀ (earlier later : List String) (category : String) (filter : Option String),
      ((((NameTable.internAll {} earlier).intern category).1.internAll later).accepts filter
        ((NameTable.internAll {} earlier).intern category).2 = filterAccepts filter category) ∧
      (((NameTable.internAll {} earlier).intern category).1.internAll later).name
        ((NameTable.internAll {} earlier).intern category).2 = category := by
  refine ⟨?_, fun earlier later category filter =>
    NameTable.accepts_internAll (NameTable.internAll {} earlier) category later filter⟩
  obtain ⟨hosts, _, _, stems⟩ := (hosts_hosting maxFrames sliceSteps globals target).stems rfl
    (fun _ => rfl) fixed
  have mine := stems id co stored kept
  obtain ⟨tree, _, _, _, mem, program, _⟩ := mine.exists_course
  refine ⟨tree, mem, program, ?_, ?_, ?_⟩
  · intro slice others number cs same answers
    exact mine.replays (hosts_hosting maxFrames slice others target) rfl rfl program
      ⟨rfl, rfl, rfl, same⟩ answers
  · intro slice others after mate twin still held alive again same answers
    obtain ⟨_, _, _, stems⟩ := (hosts_hosting maxFrames slice others target).stems rfl
      (fun _ => rfl) still
    exact mine.concur (stems mate twin held alive) program again ⟨rfl, rfl, rfl, same⟩ answers
  · intro f mem same
    obtain ⟨other, found, ended, eq⟩ := (mem_reap_iff hosts.sound f).mp mem
    rw [same] at found
    cases stored.symm.trans found
    have state : co.state = .terminated := by simpa [Coroutine.isTerminated] using ended
    obtain ⟨o, outcome⟩ := Option.isSome_iff_exists.mp
      ((hosts.sound.terminated_iff stored).1.mp state)
    rw [eq]
    simp [finished, outcome]

def nest : Tree :=
  .element { tag := "a" } [.element { tag := "b" } [.element { tag := "c" } [
    .element { tag := "d" } []]]]

/-- The second of four coroutines ends well. The first is cancelled, the third raises what nothing
catches, and the fourth has too many elements open. -/
def troubled : List Call :=
  [.spawn 0 ping, .spawn 7 Walk.alarm, .spawn 1 (.element { tag := "request" } []),
    .spawn 2 nest] ++ List.replicate 8 .step ++
  [.cancel 1, .deliver 2 (.failed (.raised .timeout "no clock"))] ++ List.replicate 8 .step ++
  [.takeOutbox, .deliver 2 (.renderer { id := Uuid.ofNat 0, status := 200 })] ++
  List.replicate 8 .step

theorem isolated_troubled : ∃ co tree, (∀ call ∈ troubled, call.rebinds = false) ∧
    ((Walk.hosting 3 2 [] 0).afterAll troubled).coroutine? 2 = some co ∧
    co.outcome ≠ some .cancelled ∧
    ((Walk.hosting 3 2 [] 0).afterAll troubled).coroutines.map (·.2.outcome.map (·.status)) =
      [some "cancelled", some "return", some "throw", some "fatal"] ∧
    ((Walk.hosting 3 2 [] 0).accepted 2 troubled).length = 2 ∧
    Isolated (Walk.hosting 3 2 [] 0) troubled 2 co tree := by
  have fixed : ∀ call ∈ troubled, call.rebinds = false := by decide +kernel
  have ended : ((Walk.hosting 3 2 [] 0).afterAll troubled).coroutines.map
      (·.2.outcome.map (·.status)) =
      [some "cancelled", some "return", some "throw", some "fatal"] := by decide +kernel
  have taken : ((Walk.hosting 3 2 [] 0).accepted 2 troubled).length = 2 := by decide +kernel
  have returned : ((Walk.hosting 3 2 [] 0).afterAll troubled).coroutine? 2 |>.any
      (·.outcome.any (·.isReturn)) := by decide +kernel
  obtain ⟨co, stored, well⟩ := (Option.any_eq_true _ _).mp returned
  have kept : co.outcome ≠ some .cancelled := by
    intro cancelled
    simp [cancelled, Outcome.isReturn] at well
  obtain ⟨⟨tree, apart⟩, _⟩ := isolated 3 2 [] 0 fixed stored kept
  exact ⟨co, tree, fixed, stored, kept, ended, taken, apart⟩

end Scheduler
end MarkupMachine
