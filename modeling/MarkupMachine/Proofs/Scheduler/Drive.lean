import MarkupMachine.Proofs.Scheduler.Calls
import MarkupMachine.Proofs.Walk.Simulation

/-! A host that drives one document: it lets the scheduler take turns and answers waits by a policy,
in any order. What comes of it is what the recursion over the tree comes to. -/

namespace MarkupMachine

namespace Walk

section Slices

variable {env : Environment} {policy : Policy} {goal : Run} {waits : List Wait} {n : Nat}
  {co : Coroutine}

theorem EndsIn.mono (ends : EndsIn env policy goal n waits co) {m : Nat} (le : n ≤ m) :
    EndsIn env policy goal m waits co := by
  induction ends generalizing m with
  | done agrees => exact .done agrees
  | step running asked step _ ih =>
    cases m with
    | zero => exact absurd le (Nat.not_succ_le_zero _)
    | succ m => exact .step running asked step (ih (Nat.le_of_succ_le_succ le))
  | fail running asked step agrees =>
    cases m with
    | zero => exact absurd le (Nat.not_succ_le_zero _)
    | succ m => exact .fail running asked step agrees
  | wait waiting pending _ ih =>
    cases m with
    | zero => exact absurd le (Nat.not_succ_le_zero _)
    | succ m => exact .wait waiting pending (ih (Nat.le_of_succ_le_succ le))

theorem EndsIn.pos (ends : EndsIn env policy goal n waits co) (running : co.state = .running) :
    0 < n := by
  cases ends with
  | done agrees =>
    have ended := agrees.state
    simp [running] at ended
  | step | fail | wait => exact Nat.succ_pos _

theorem EndsIn.runSteps (ends : EndsIn env policy goal n waits co) (count : Nat) :
    (∃ last number, co.runSteps env count = (last, .ok number) ∧
      EndsIn env policy goal n waits last) ∨
    ∃ next fault, co.runSteps env count = (next, .error fault) ∧
      Agrees goal waits (next.terminate (.fatal fault.message)) := by
  induction count generalizing n co with
  | zero => exact .inl ⟨co, 0, rfl, ends⟩
  | succ count ih =>
    by_cases running : co.state = .running
    · cases ends with
      | done agrees =>
        have ended := agrees.state
        simp [running] at ended
      | wait waiting => simp [running] at waiting
      | fail _ _ step agrees =>
        exact .inr ⟨_, _, by simp [Coroutine.runSteps, running, step], agrees⟩
      | step _ _ step ends =>
        rcases ih ends with ⟨last, number, eq, ends⟩ | ⟨next, fault, eq, agrees⟩
        · exact .inl ⟨last, number + 1, by simp [Coroutine.runSteps, running, step, eq, Except.map],
            ends.mono (Nat.le_succ _)⟩
        · exact .inr ⟨next, fault, by simp [Coroutine.runSteps, running, step, eq, Except.map],
            agrees⟩
    · exact .inl ⟨co, 0, by simp [Coroutine.runSteps, running], ends⟩

inductive Sliced (env : Environment) (policy : Policy) (goal : Run) (n : Nat) (waits : List Wait)
    (co : Coroutine) : Prop
  | paused : co.state = .ready → co.asked = [] →
    EndsIn env policy goal n waits { co with state := .running } → Sliced env policy goal n waits co
  | stopped {w} : co.state = .waiting → co.pending = [w] →
    EndsIn env policy goal n (waits ++ [w.anonymous]) (policy.resume waits w co) →
    Sliced env policy goal n waits co
  | ended : Agrees goal waits co → Sliced env policy goal n waits co

theorem slice_of_ok {steps number : Nat} {last : Coroutine}
    (h : Coroutine.runSteps env steps { co with state := .running } = (last, .ok number)) :
    co.slice env steps = if last.state = .running then { last with state := .ready } else last := by
  simp [Coroutine.slice, Coroutine.run, h]

theorem slice_of_error {steps : Nat} {next : Coroutine} {fault : Fault}
    (h : Coroutine.runSteps env steps { co with state := .running } = (next, .error fault)) :
    co.slice env steps = next.terminate (.fatal fault.message) := by
  simp [Coroutine.slice, Coroutine.run, h]

theorem EndsIn.sliced {last : Coroutine} (ends : EndsIn env policy goal n waits last) :
    Sliced env policy goal n waits
      (if last.state = .running then { last with state := .ready } else last) := by
  cases ends with
  | done agrees =>
    have ended := agrees.state
    rw [if_neg (by simp [ended])]
    exact .ended agrees
  | step running asked step ends =>
    rw [if_pos running]
    refine .paused rfl asked ?_
    rw [← running]
    exact .step running asked step ends
  | fail running asked step agrees =>
    rw [if_pos running]
    refine .paused rfl asked ?_
    rw [← running]
    exact .fail running asked step agrees
  | wait waiting pending ends =>
    rw [if_neg (by simp [waiting])]
    exact .stopped waiting pending (ends.mono (Nat.le_succ _))

theorem EndsIn.slice {steps : Nat}
    (ends : EndsIn env policy goal (n + 1) waits { co with state := .running }) :
    Sliced env policy goal n waits (co.slice env (steps + 1)) := by
  let running : Coroutine := { co with state := .running }
  cases ends with
  | done agrees => exact absurd agrees.state (by simp)
  | wait waiting => exact absurd waiting (by simp)
  | @fail _ _ _ next fault _ _ step agrees =>
    have ran : running.runSteps env (steps + 1) = (next, .error fault) := by
      simp [Coroutine.runSteps, running, step]
    rw [slice_of_error ran]
    exact .ended agrees
  | step _ _ step ends =>
    rcases ends.runSteps steps with ⟨last, number, eq, ends⟩ | ⟨next, fault, eq, agrees⟩
    · have ran : running.runSteps env (steps + 1) = (last, .ok (number + 1)) := by
        simp [Coroutine.runSteps, running, step, eq, Except.map]
      rw [slice_of_ok ran]
      exact ends.sliced
    · have ran : running.runSteps env (steps + 1) = (next, .error fault) := by
        simp [Coroutine.runSteps, running, step, eq, Except.map]
      rw [slice_of_error ran]
      exact .ended agrees

end Slices

structure Drive where
  scheduler : Scheduler
  waits : List Wait := []

/-- What a host does: it lets the scheduler take a turn, or answers what is in the outbox. -/
inductive Move where
  | step
  | answer

namespace Drive

def deliver (policy : Policy) (d : Drive) (entry : Nat × Wait) : Drive :=
  match d.scheduler.deliver entry.1 (policy.answer d.waits entry.2.anonymous) with
  | .ok s => ⟨s, d.waits ++ [entry.2.anonymous]⟩
  | .error _ => d

def after (policy : Policy) (d : Drive) : Move → Drive
  | .step => { d with scheduler := d.scheduler.step.2 }
  | .answer =>
    let (entries, s) := d.scheduler.takeOutbox
    entries.foldl (deliver policy) { d with scheduler := s }

def afterAll (policy : Policy) (d : Drive) (moves : List Move) : Drive :=
  moves.foldl (after policy) d

end Drive

def rounds : (answered : Bool) → List Move → Nat
  | _, [] => 0
  | _, .answer :: moves => rounds true moves
  | true, .step :: moves => rounds false moves + 1
  | false, .step :: moves => rounds false moves

structure Alone (env : Environment) (id : Nat) (co : Coroutine) (s : Scheduler) : Prop where
  sound : s.Sound fun _ _ => True
  environment : s.environment = env
  slice : 0 < s.sliceSteps
  coroutine : s.coroutine? id = some co

/-- How far a drive is from its end, by the number of slices and answers to come at most. Right
after an answer nothing waits. -/
inductive Stage (env : Environment) (policy : Policy) (goal : Run) (id : Nat) :
    Bool → Nat → Drive → Prop
  | ready {answered n s waits co} : Alone env id co s → co.state = .ready → s.queue = [id] →
    s.outbox = [] → EndsIn env policy goal n waits { co with state := .running } →
    Stage env policy goal id answered n ⟨s, waits⟩
  | waiting {n s waits co} {w : Wait} : Alone env id co s → co.state = .waiting → s.queue = [] →
    s.outbox = [(id, w)] → EndsIn env policy goal n (waits ++ [w.anonymous])
      { co.resumeWith (policy.answer waits w.anonymous) with state := .running } →
    Stage env policy goal id false n ⟨s, waits⟩
  | ended {answered n s waits co} : Alone env id co s → s.queue = [] → s.outbox = [] →
    Agrees goal waits co → Stage env policy goal id answered n ⟨s, waits⟩

section Stages

variable {env : Environment} {policy : Policy} {goal : Run} {id n : Nat} {answered : Bool}
  {d : Drive} {s : Scheduler} {co : Coroutine}

theorem Alone.takes (alone : Alone env id co s) (ready : co.state = .ready) (queue : s.queue = [id]) :
    s.Takes id [] co := by
  refine ⟨?_, alone.coroutine, ready⟩
  simp [queue, Scheduler.isReady, alone.coroutine, ready]

theorem Alone.step (alone : Alone env id co s) (ready : co.state = .ready) (queue : s.queue = [id]) :
    Alone env id (co.slice env s.sliceSteps).filed s.step.2 ∧
      s.step.2.queue = (if (co.slice env s.sliceSteps).state = .ready then [id] else []) ∧
      s.step.2.outbox = (if (co.slice env s.sliceSteps).state = .waiting then
        s.outbox ++ (co.slice env s.sliceSteps).pending.map fun wait => (id, wait)
        else s.outbox) := by
  have takes := alone.takes ready queue
  have kin := (alone.sound.driven alone.coroutine).kin_slice ready s.environment s.sliceSteps
  have own := kin.id.trans (alone.sound.own alone.coroutine)
  rw [alone.environment] at own
  have turn : s.step.2 = { s with queue := [] }.file (co.slice env s.sliceSteps) := by
    simp only [Scheduler.step, takes.queue, alone.coroutine, alone.environment]
  have sound : (s.after .step).Sound fun _ _ => True := alone.sound.after trivial
  simp only [Scheduler.after, turn] at sound
  rw [turn]
  rw [Scheduler.file_eq] at sound ⊢
  refine ⟨⟨sound, alone.environment, alone.slice, ?_⟩, ?_, ?_⟩
  · have mine : id = (co.slice env s.sliceSteps).filed.id := own.symm
    have stored := Scheduler.coroutine?_put s (co.slice env s.sliceSteps).filed id
    rw [if_pos mine] at stored
    exact stored
  · simp [own]
  · simp only [own]

theorem filed_eq (awake : co.state ≠ .waiting) (asked : co.asked = []) : co.filed = co := by
  cases co
  simp_all [Coroutine.filed]

theorem step_of_idle (queue : s.queue = []) : s.step.2 = s := by
  cases s
  simp_all [Scheduler.step]

theorem Stage.step (stage : Stage env policy goal id answered n d) :
    Stage env policy goal id false (if answered then n - 1 else n) (d.after policy .step) := by
  cases stage with
  | @ready _ _ s waits co alone ready queue outbox ends =>
    obtain ⟨next, turns, posts⟩ := alone.step ready queue
    obtain ⟨steps, enough⟩ := Nat.exists_eq_succ_of_ne_zero (Nat.ne_of_gt alone.slice)
    -- A coroutine that runs has an end ahead of it, so the slice has a step to spend.
    obtain ⟨m, rfl⟩ := Nat.exists_eq_succ_of_ne_zero (Nat.ne_of_gt (ends.pos rfl))
    have sliced : Sliced env policy goal m waits (co.slice env (steps + 1)) := ends.slice
    rw [enough] at next turns posts
    have le : m ≤ if answered then m.succ - 1 else m.succ := by
      split
      · exact Nat.le_refl m
      · exact Nat.le_succ m
    cases sliced with
    | paused again asked ends =>
      simp only [again, outbox, if_true] at turns posts
      rw [filed_eq (by simp [again]) asked] at next
      exact .ready next again turns posts (ends.mono le)
    | stopped waiting pending ends =>
      simp only [waiting, pending, outbox] at turns posts
      exact .waiting next waiting turns posts (ends.mono le)
    | ended agrees =>
      have ended := agrees.state
      simp only [ended, outbox] at turns posts
      exact .ended next turns posts ⟨ended, agrees.outcome, agrees.entered, agrees.waits⟩
  | waiting alone waiting queue outbox ends =>
    simp only [Drive.after, step_of_idle queue, Bool.false_eq_true, if_false]
    exact .waiting alone waiting queue outbox ends
  | ended alone queue outbox agrees =>
    simp only [Drive.after, step_of_idle queue]
    exact .ended alone queue outbox agrees

theorem Stage.answer (stage : Stage env policy goal id answered n d) :
    Stage env policy goal id true n (d.after policy .answer) := by
  cases stage with
  | @ready _ _ s waits co alone ready queue outbox ends =>
    have same : { s with outbox := [] } = s := by rw [← outbox]
    simp only [Drive.after, Scheduler.takeOutbox, outbox, List.foldl_nil, same]
    exact .ready alone ready queue outbox ends
  | @waiting _ s waits co w alone waiting queue outbox ends =>
    let taken : Scheduler := { s with outbox := [] }
    let c := policy.answer waits w.anonymous
    have found : taken.coroutine? id = some co := alone.coroutine
    have once := Scheduler.waits_of_waiting alone.sound alone.coroutine waiting
    have ready : (co.resumeWith c).state = .ready := by simp [Coroutine.resumeWith, once]
    have delivered : taken.deliver id c =
        .ok { taken.put (co.resumeWith c) with queue := taken.queue ++ [id] } :=
      Scheduler.deliver_eq found waiting once c
    have after : (Drive.mk s waits).after policy .answer =
        ⟨{ taken.put (co.resumeWith c) with queue := [id] }, waits ++ [w.anonymous]⟩ := by
      simp only [Drive.after, Scheduler.takeOutbox, outbox, List.foldl_cons, List.foldl_nil,
        Drive.deliver]
      rw [delivered]
      simp only [taken, queue, List.nil_append]
    have sound : (taken.after (.deliver id c)).Sound fun _ _ => True :=
      (alone.sound.after trivial : (s.after .takeOutbox).Sound _).after fun _ _ _ => trivial
    simp only [Scheduler.after, delivered] at sound
    have mine : id = (co.resumeWith c).id := (alone.sound.own alone.coroutine).symm
    have stored := Scheduler.coroutine?_put taken (co.resumeWith c) id
    rw [if_pos mine] at stored
    rw [after]
    simp only [taken, queue, List.nil_append] at sound
    exact .ready ⟨sound, alone.environment, alone.slice, stored⟩ ready rfl rfl ends
  | @ended _ _ s waits co alone queue outbox agrees =>
    have same : { s with outbox := [] } = s := by rw [← outbox]
    simp only [Drive.after, Scheduler.takeOutbox, outbox, List.foldl_nil, same]
    exact .ended alone queue outbox agrees

theorem Stage.ended_of_rounds {moves : List Move} (stage : Stage env policy goal id answered n d)
    (enough : n ≤ rounds answered moves) :
    ∃ co, (d.afterAll policy moves).scheduler.coroutine? id = some co ∧
      Agrees goal (d.afterAll policy moves).waits co := by
  induction moves generalizing answered n d with
  | nil =>
    obtain rfl := Nat.le_zero.mp enough
    cases stage with
    | ready _ _ _ _ ends => exact absurd (ends.pos rfl) (Nat.lt_irrefl 0)
    | waiting _ _ _ _ ends => exact absurd (ends.pos rfl) (Nat.lt_irrefl 0)
    | ended alone _ _ agrees => exact ⟨_, alone.coroutine, agrees⟩
  | cons move moves ih =>
    cases move with
    | answer => exact ih stage.answer (by cases answered <;> exact enough)
    | step =>
      refine ih stage.step ?_
      cases answered with
      | false => exact enough
      | true => exact Nat.sub_le_of_le_add enough

theorem Stage.afterAll (stage : Stage env policy goal id answered n d) (moves : List Move) :
    ∃ answered n, Stage env policy goal id answered n (d.afterAll policy moves) := by
  induction moves generalizing answered n d with
  | nil => exact ⟨_, _, stage⟩
  | cons move moves ih =>
    cases move with
    | step => exact ih stage.step
    | answer => exact ih stage.answer

theorem Stage.agrees (stage : Stage env policy goal id answered n d)
    (stored : d.scheduler.coroutine? id = some co) (ended : co.state = .terminated) :
    Agrees goal d.waits co := by
  cases stage with
  | ready alone ready =>
    cases stored.symm.trans alone.coroutine
    simp [ready] at ended
  | waiting alone waiting =>
    cases stored.symm.trans alone.coroutine
    simp [waiting] at ended
  | ended alone _ _ agrees =>
    cases stored.symm.trans alone.coroutine
    exact agrees

end Stages

def hosting (maxFrames sliceSteps : Nat) (globals : List (Nat × Bindings)) (target : UInt64) :
    Scheduler :=
  { Scheduler.empty maxFrames sliceSteps with environment := { globals, target } }

/-- Every drive of a coroutine that ends does so as a run did, and it ends if the host only answers
and lets the scheduler take turns often enough. -/
structure Refines (policy : Policy) (start : Scheduler) (id : Nat) (run : Run) : Prop where
  agrees : ∀ moves co,
    ((Drive.mk start []).afterAll policy moves).scheduler.coroutine? id = some co →
    co.state = .terminated → Agrees run ((Drive.mk start []).afterAll policy moves).waits co
  ends : ∃ n, ∀ moves, n ≤ rounds false moves → ∃ co,
    ((Drive.mk start []).afterAll policy moves).scheduler.coroutine? id = some co ∧
      co.state = .terminated

theorem hosting_sound (maxFrames sliceSteps : Nat) (globals : List (Nat × Bindings))
    (target : UInt64) : (hosting maxFrames sliceSteps globals target).Sound fun _ _ => True := by
  have sound := Scheduler.Sound.empty (fun _ _ => True) maxFrames sliceSteps .standard
  exact sound.congr rfl rfl rfl

/-- A document that is spawned and driven in any order comes to what the recursion over its tree
comes to: the same outcome, the same elements entered, and the same waits asked for. -/
theorem document_refines_walk (maxFrames sliceSteps number : Nat)
    (globals : List (Nat × Bindings)) (target : UInt64) (policy : Policy) {tree : Tree}
    {doc : Document} (room : 0 < maxFrames) (made : Document.ofTree? number tree = some doc) :
    ∃ run start, walk ⟨maxFrames, Table.get? number globals, target, policy⟩ tree = some run ∧
      (hosting maxFrames sliceSteps globals target).spawn doc = .ok (1, start) ∧
      Refines policy start 1 run := by
  let env : Environment := { globals, target }
  let w : World := ⟨maxFrames, Table.get? number globals, target, policy⟩
  have suits : w.Suits env doc := ⟨rfl, by rw [Document.number_of_ofTree? made], rfl⟩
  obtain ⟨run, root, el, walked, rooted, element, n, ends⟩ := ends_start suits room made 1
  let host := hosting maxFrames sliceSteps globals target
  let started := Coroutine.start maxFrames 1 doc root (ElementKind.ofTag el.tag)
  let start : Scheduler := { host.put started with queue := [1], nextId := 2 }
  have some_room : ¬ host.maxFrames = 0 := Nat.ne_of_gt room
  have spawned : host.spawn doc = .ok (1, start) := by
    rw [Scheduler.spawn_eq host rooted element, if_neg some_room]
    rfl
  have sound : (host.after (.spawn number tree)).Sound fun _ _ => True :=
    (hosting_sound maxFrames sliceSteps globals target).after trivial
  simp only [Scheduler.after, made, spawned] at sound
  have stored : start.coroutine? 1 = some started :=
    (Scheduler.coroutine?_put host started 1).trans rfl
  have slice : 0 < start.sliceSteps := Nat.le_max_left 1 sliceSteps
  have stage : Stage env policy run 1 false n ⟨start, []⟩ :=
    .ready ⟨sound, rfl, slice, stored⟩ rfl rfl rfl ends
  refine ⟨run, start, walked, spawned, fun moves co stored ended => ?_, n, fun moves enough => ?_⟩
  · obtain ⟨_, _, later⟩ := stage.afterAll moves
    exact later.agrees stored ended
  · obtain ⟨co, stored, agrees⟩ := stage.ended_of_rounds enough
    exact ⟨co, stored, agrees.state⟩

/-- A sleep that fails, and a catch that sends a request. -/
def alarm : Tree :=
  .element { tag := "main" } [
    .element { tag := "sleep", attributes := [{
      name := "for", value := some (.literal (.text "5ms")) }] } [],
    .element { tag := "catch" } [
      .element { tag := "request", attributes := [{
        name := "to", value := some (.literal (.text "ring")) }] } []]]

def broken : Policy where
  timer _ _ := .error (.raised .timeout "no clock")
  renderer _ request := .ok (.ok request .void)

theorem document_refines_walk_alarm : ∃ doc run start, 0 < 3 ∧
    Document.ofTree? 7 alarm = some doc ∧ run.entered = [4, 3, 2, 1] ∧ run.waits.length = 2 ∧
    (hosting 3 2 [] 0).spawn doc = .ok (1, start) ∧ Refines broken start 1 run := by
  have exists_doc : (Document.ofTree? 7 alarm).isSome = true := by decide +kernel
  have known : (walk ⟨3, none, 0, broken⟩ alarm).any
      (fun run => run.entered == [4, 3, 2, 1] && run.waits.length == 2) = true := by decide +kernel
  obtain ⟨doc, made⟩ := Option.isSome_iff_exists.mp exists_doc
  obtain ⟨run, start, walked, spawned, refines⟩ :=
    document_refines_walk 3 2 7 [] 0 broken (by decide) made
  have same : walk ⟨3, none, 0, broken⟩ alarm = some run := walked
  rw [same] at known
  have course : run.entered = [4, 3, 2, 1] ∧ run.waits.length = 2 := by simpa using known
  exact ⟨doc, run, start, by decide, made, course.1, course.2, spawned, refines⟩

end Walk
end MarkupMachine
