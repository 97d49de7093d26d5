import Mathlib.Algebra.Order.BigOperators.Group.List
import Mathlib.Algebra.Order.Ring.Nat
import MarkupMachine.Proofs.Machine.Once
import MarkupMachine.Proofs.Scheduler.Waits

/-! The length of runs. A coroutine makes five steps at most for each element of its program, in
however many slices; so a scheduler that only takes turns comes to rest. -/

namespace MarkupMachine

theorem Table.keys_insert {β : Type} {key : Nat} {value previous : β} {entries : List (Nat × β)}
    (ordered : Table.Ordered entries) (found : Table.get? key entries = some previous) :
    (Table.insert key value entries).map (·.1) = entries.map (·.1) := by
  induction entries with
  | nil => cases found
  | cons first rest ih =>
    obtain ⟨head, old⟩ := first
    obtain ⟨least, tail⟩ := List.pairwise_cons.mp ordered
    by_cases same : key = head
    · simp [Table.insert, same]
    · simp only [Table.get?, same, if_false] at found
      have later := least _ (Table.mem_of_get? found)
      have beyond : ¬ key < head := by simp only at later; omega
      simp [Table.insert, same, beyond, ih tail found]

namespace Coroutine

variable {admits : Coroutine → Completion → Prop} {env : Environment} {count m : Nat}
  {co last : Coroutine}

def stepsIn (env : Environment) : Nat → Coroutine → Nat
  | 0, _ => 0
  | count + 1, co =>
    if co.state ≠ .running then 0
    else if (co.step env).2.isSome then 1
    else stepsIn env count (co.step env).1 + 1

section Running

variable {next : Coroutine} (running : co.state = .running)
include running

theorem stepsIn_pos (room : 0 < count) : 0 < co.stepsIn env count := by
  cases count with
  | zero => exact absurd room (Nat.lt_irrefl 0)
  | succ count =>
    simp only [stepsIn, running, ne_eq, not_true_eq_false, if_false]
    split <;> omega

theorem stepsIn_of_step (step : co.step env = (next, none)) :
    co.stepsIn env (count + 1) = next.stepsIn env count + 1 := by
  simp [stepsIn, running, step]

theorem runSteps_of_step (step : co.step env = (next, none)) : runSteps env (count + 1) co =
    ((runSteps env count next).1, (runSteps env count next).2.map (· + 1)) := by
  simp [runSteps, running, step]

end Running

theorem Driven.step_ahead {next : Coroutine} (driven : Driven admits co)
    (running : co.state = .running) (ahead : co.outcome = none → co.stack.Ahead m)
    (step : co.step env = (next, none)) :
    ∃ k, k < m ∧ (next.outcome = none → next.stack.Ahead k) := by
  have live := driven.live (by simp [running])
  have rule := live.transition_of_step running step
  rcases live.ahead_of_transition (ahead live.outcome) rule with ⟨k, less, kept⟩ | ⟨pos, ended, _⟩
  · exact ⟨k, less, fun _ => kept⟩
  · exact ⟨0, pos, fun none => absurd none ended.outcome⟩

theorem Driven.runSteps_ahead (driven : Driven admits co) (env : Environment) (count : Nat)
    (ahead : co.outcome = none → co.stack.Ahead m) :
    co.stepsIn env count ≤ m ∧ ∀ number, (runSteps env count co).2 = .ok number →
      (runSteps env count co).1.outcome = none →
      (runSteps env count co).1.stack.Ahead (m - co.stepsIn env count) := by
  induction count generalizing co m with
  | zero => exact ⟨Nat.zero_le m, fun _ _ => ahead⟩
  | succ count ih =>
    by_cases running : co.state = .running
    · rcases step : co.step env with ⟨next, _ | fault⟩
      · obtain ⟨k, less, kept⟩ := driven.step_ahead running ahead step
        obtain ⟨below, later⟩ := ih (.stepped driven running step) kept
        rw [stepsIn_of_step running step, runSteps_of_step running step]
        refine ⟨by omega, fun number ok alive => ?_⟩
        cases rest : (runSteps env count next).2 with
        | error fault => simp [rest, Except.map] at ok
        | ok more => exact (later more rest alive).weaken (by omega)
      · have live := driven.live (by simp [running])
        obtain ⟨f, outer, frames, _, _⟩ := live.standing
        have pos := (ahead live.outcome).pos frames
        have one : co.stepsIn env (count + 1) = 1 := by simp [stepsIn, running, step]
        refine ⟨by omega, fun number ok => ?_⟩
        simp [runSteps, running, step] at ok
    · have none : co.stepsIn env (count + 1) = 0 := by simp [stepsIn, running]
      have stays : runSteps env (count + 1) co = (co, .ok 0) := by simp [runSteps, running]
      rw [none, stays]
      exact ⟨Nat.zero_le m, fun _ _ => ahead⟩

theorem Driven.slice_ahead (driven : Driven admits co) (ready : co.state = .ready)
    (env : Environment) (count : Nat) (ahead : co.outcome = none → co.stack.Ahead m) :
    { co with state := .running : Coroutine }.stepsIn env count ≤ m ∧
      ((co.slice env count).outcome = none → (co.slice env count).stack.Ahead
        (m - { co with state := .running : Coroutine }.stepsIn env count)) := by
  obtain ⟨below, later⟩ := (Driven.started driven ready).runSteps_ahead env count ahead
  refine ⟨below, fun alive => ?_⟩
  rcases ran : runSteps env count { co with state := .running } with ⟨last, fault | number⟩
  · simp [Coroutine.slice, run, ran, terminate, finish] at alive
  · rw [ran] at later
    have kept := later number rfl
    by_cases running : last.state = .running
    · simp only [Coroutine.slice, run, ran, running, if_true] at alive ⊢
      exact kept alive
    · simp only [Coroutine.slice, run, ran, running, if_false] at alive ⊢
      exact kept alive

end Coroutine

namespace Scheduler

variable {admits : Coroutine → Completion → Prop} {s : Scheduler} {id m : Nat} {co : Coroutine}

def stepsOf (id : Nat) (s : Scheduler) : Call → Nat
  | .step =>
    if s.step.1 = .ran id then
      (s.coroutine? id).elim 0 fun co =>
        { co with state := .running : Coroutine }.stepsIn s.environment s.sliceSteps
    else 0
  | _ => 0

def stepsOver (id : Nat) (s : Scheduler) : List Call → Nat
  | [] => 0
  | call :: rest => s.stepsOf id call + (s.after call).stepsOver id rest

theorem stepsOf_eq {queue : List Nat} (takes : s.Takes id queue co) : s.stepsOf id .step =
    { co with state := .running : Coroutine }.stepsIn s.environment s.sliceSteps := by
  simp [stepsOf, takes.turn, takes.coroutine]

theorem stepsOf_other (h : s.step.1 ≠ .ran id) : s.stepsOf id .step = 0 := if_neg h

/-- A coroutine that has so many steps ahead of it at most, unless it has ended. -/
def Allots (s : Scheduler) (id m : Nat) : Prop :=
  ∀ co, s.coroutine? id = some co → co.outcome = none → co.stack.Ahead m

theorem Allots.of_put {t : Scheduler} (coroutines : t.coroutines = (s.put co).coroutines)
    (kept : co.id ≠ id → s.Allots id m)
    (ahead : co.id = id → co.outcome = none → co.stack.Ahead m) : t.Allots id m := by
  intro other stored
  rw [coroutine?_of_put coroutines] at stored
  by_cases same : id = co.id
  · rw [if_pos same] at stored
    cases stored
    exact ahead same.symm
  · rw [if_neg same] at stored
    exact kept (Ne.symm same) other stored

/-- The steps that a coroutine makes come off those that it had ahead. -/
theorem Allots.after (h : s.Allots id m) (sound : s.Sound admits) (given : id < s.nextId)
    (call : Call) : s.stepsOf id call ≤ m ∧ (s.after call).Allots id (m - s.stepsOf id call) := by
  have done := sound.does_after call
  generalize s.after call = next at done
  cases done with
  | unable | refuses | spares | takes | binds | unbinds | aims => exact ⟨Nat.zero_le m, h⟩
  | spawns =>
    exact ⟨Nat.zero_le m, .of_put rfl (fun _ => h) fun same =>
      absurd given (same ▸ Nat.lt_irrefl _)⟩
  | @runs ran queue co takes =>
    have driven := sound.driven takes.coroutine
    have own := sound.id_slice takes
    rw [file_eq]
    by_cases same : id = ran
    · subst same
      obtain ⟨below, ahead⟩ := driven.slice_ahead takes.ready s.environment s.sliceSteps
        (h _ takes.coroutine)
      rw [stepsOf_eq takes]
      exact ⟨below, .of_put rfl (absurd own) fun _ => ahead⟩
    · have other : s.step.1 ≠ .ran id := by
        rw [takes.turn]
        exact fun ran => same (Turn.ran.inj ran).symm
      rw [stepsOf_other other]
      exact ⟨Nat.zero_le m, .of_put rfl (fun _ => h) fun mine =>
        absurd (mine.symm.trans own) same⟩
  | idles nobody =>
    have other : s.step.1 ≠ .ran id := by
      rw [turn_of_nobody nobody]
      split <;> simp
    rw [stepsOf_other other]
    exact ⟨Nat.zero_le m, h⟩
  | @delivers other c co stored waiting =>
    refine ⟨Nat.zero_le m, .of_put rfl (fun _ => h) fun same alive => ?_⟩
    obtain rfl : other = id := (sound.own stored).symm.trans same
    exact Coroutine.ahead_resumeWith (h co stored alive) c
  | cancels => exact ⟨Nat.zero_le m, .of_put rfl (fun _ => h) fun _ none => nomatch none⟩
  | reaps =>
    exact ⟨Nat.zero_le m, fun co stored => h co (coroutine?_reap sound.ordered stored).1⟩

theorem Allots.stepsOver_le (h : s.Allots id m) (sound : s.Sound fun _ _ => True)
    (given : id < s.nextId) (calls : List Call) : s.stepsOver id calls ≤ m := by
  induction calls generalizing s m with
  | nil => exact Nat.zero_le m
  | cons call rest ih =>
    obtain ⟨below, kept⟩ := h.after sound given call
    have later := ih kept (sound.after (grantsAll_true s [call]).1)
      (Nat.lt_of_lt_of_le given (sound.nextId_le call))
    simp only [stepsOver]
    omega

theorem stepsOver_append (id : Nat) (s : Scheduler) (first later : List Call) :
    s.stepsOver id (first ++ later) =
      s.stepsOver id first + (s.afterAll first).stepsOver id later := by
  induction first generalizing s with
  | nil => exact (Nat.zero_add _).symm
  | cons call first ih =>
    simp only [List.cons_append, stepsOver, ih, Nat.add_assoc]
    rfl

theorem stepsOver_fresh (sound : s.Sound fun _ _ => True) (calls : List Call)
    (fresh : (s.afterAll calls).nextId ≤ id) : s.stepsOver id calls = 0 := by
  induction calls generalizing s with
  | nil => rfl
  | cons call rest ih =>
    have next := sound.after (grantsAll_true s [call]).1
    have later := next.nextId_le_afterAll (grantsAll_true _ rest)
    have given : s.nextId ≤ id :=
      Nat.le_trans (sound.nextId_le call) (Nat.le_trans later fresh)
    have nobody : s.stepsOf id call = 0 := by
      cases call with
      | step =>
        refine stepsOf_other fun ran => ?_
        obtain ⟨queue, co, takes⟩ := takes_of_ran ran
        exact absurd (sound.below takes.coroutine) (Nat.not_lt.mpr given)
      | _ => rfl
    rw [stepsOver, nobody, ih next fresh]

theorem allots_of_spawn {number : Nat} {tree root : Tree} {doc : Document} {next : Scheduler}
    (made : Document.ofTree? number tree = some doc) (first : tree.rootElement? = some root)
    (spawned : s.spawn doc = .ok (id, next)) :
    id = s.nextId ∧ s.after (.spawn number tree) = next ∧ next.nextId = id + 1 ∧
      next.Allots id (5 * root.elements - 1) := by
  obtain ⟨top, el, rooted, element⟩ := Document.Built.exists_root ⟨number, tree, made⟩
  obtain ⟨parent, t, found, held⟩ := Document.exists_holds_of_rootElement? made rooted
  obtain rfl : root = t := Option.some.inj (first.symm.trans found)
  have same : s.after (.spawn number tree) = next := by simp only [after, made, spawned]
  rw [spawn_eq s rooted element] at spawned
  split at spawned
  · cases spawned
  · cases spawned
    exact ⟨rfl, same, rfl, .of_put rfl (fun other => absurd rfl other) fun _ _ =>
      Coroutine.ahead_start _ _ _ held element⟩

/-- The loop that takes turns as long as a coroutine runs in them: how many did, and what it comes
to. -/
inductive Settles : Scheduler → Nat → Scheduler → Prop
  | rests {s : Scheduler} : (∀ id, s.step.1 ≠ .ran id) → Settles s 0 s.step.2
  | turns {s t : Scheduler} {id count} : s.step.1 = .ran id → Settles s.step.2 count t →
    Settles s (count + 1) t

def aheadOf (f : Nat → Nat) (s : Scheduler) : Nat := ((s.coroutines.map (·.1)).map f).sum

theorem aheadOf_step {f : Nat → Nat} (sound : s.Sound admits) (room : 0 < s.sliceSteps)
    (allots : ∀ id, id < s.nextId → s.Allots id (f id)) (ran : s.step.1 = .ran id) :
    aheadOf (fun id => f id - s.stepsOf id .step) s.step.2 < aheadOf f s := by
  obtain ⟨queue, co, takes⟩ := takes_of_ran ran
  have own := sound.id_slice takes
  have keys : s.step.2.coroutines.map (·.1) = s.coroutines.map (·.1) := by
    rcases s.step_cases with ⟨nobody, _⟩ | ⟨other, _, _, again, eq⟩
    · rw [turn_of_nobody nobody] at ran
      split at ran <;> cases ran
    · cases again.queue.symm.trans takes.queue
      cases again.coroutine.symm.trans takes.coroutine
      rw [eq, file_eq]
      exact Table.keys_insert sound.ordered (own ▸ takes.coroutine)
  rw [aheadOf, aheadOf, keys]
  refine List.sum_lt_sum _ _ (fun _ _ => Nat.sub_le _ _) ⟨id, ?_, Nat.sub_lt_self ?_ ?_⟩
  · exact List.mem_map.mpr ⟨_, Table.mem_of_get? takes.coroutine, rfl⟩
  · rw [stepsOf_eq takes]
    exact Coroutine.stepsIn_pos rfl room
  · exact ((allots id (sound.below takes.coroutine)).after sound
      (sound.below takes.coroutine) .step).1

theorem runTurns_of_ran (ran : s.step.1 = .ran id) (turns : Nat) : runTurns (turns + 1) s =
    ((runTurns turns s.step.2).1 + 1, (runTurns turns s.step.2).2) := by
  rcases step : s.step with ⟨turn, next⟩
  obtain rfl : turn = .ran id := by rw [← ran, step]
  simp [runTurns, step]

theorem runTurns_of_rest (rest : ∀ id, s.step.1 ≠ .ran id) (turns : Nat) :
    runTurns (turns + 1) s = (0, s.step.2) := by
  rcases step : s.step with ⟨turn, next⟩
  rw [step] at rest
  cases turn with
  | ran id => exact absurd rfl (rest id)
  | idle | done => simp [runTurns, step]

theorem settles_runTurns {f : Nat → Nat} (turns : Nat) (sound : s.Sound fun _ _ => True)
    (room : 0 < s.sliceSteps) (allots : ∀ id, id < s.nextId → s.Allots id (f id))
    (enough : aheadOf f s < turns) : s.Settles (runTurns turns s).1 (runTurns turns s).2 := by
  induction turns generalizing s f with
  | zero => exact absurd enough (Nat.not_lt_zero _)
  | succ turns ih =>
    have sound_next := sound.after (grantsAll_true s [.step]).1
    have same : s.step.2.sliceSteps = s.sliceSteps ∧ s.step.2.nextId = s.nextId := by
      rcases s.step_cases with ⟨_, eq⟩ | ⟨_, _, _, _, eq⟩
      · rw [eq]
        exact ⟨rfl, rfl⟩
      · rw [eq, file_eq]
        exact ⟨rfl, rfl⟩
    by_cases ran : ∃ id, s.step.1 = .ran id
    · obtain ⟨id, ran⟩ := ran
      have less := aheadOf_step sound room allots ran
      have rest := ih (f := fun id => f id - s.stepsOf id .step) sound_next (same.1 ▸ room)
        (fun id given => ((allots id (same.2 ▸ given)).after sound (same.2 ▸ given) .step).2)
        (Nat.lt_of_lt_of_le less (Nat.le_of_lt_succ enough))
      rw [runTurns_of_ran ran]
      exact .turns ran rest
    · have rest : ∀ id, s.step.1 ≠ .ran id := fun id h => ran ⟨id, h⟩
      rw [runTurns_of_rest rest]
      exact .rests rest

theorem Sound.exists_aheadOf_lt (sound : s.Sound admits) : ∃ f : Nat → Nat,
    (∀ id, id < s.nextId → s.Allots id (f id)) ∧ aheadOf f s < s.turnBound := by
  refine ⟨fun id => (s.coroutine? id).elim 0 fun co => 5 * co.stack.document.size,
    fun id _ co stored alive => ?_, ?_⟩
  · simp only [stored]
    exact (sound.driven stored).forward_ahead.2 alive
  have sizes : aheadOf (fun id => (s.coroutine? id).elim 0 fun co => 5 * co.stack.document.size) s =
      (s.coroutines.map fun entry => 5 * entry.2.stack.document.size).sum := by
    rw [aheadOf, List.map_map]
    refine congrArg List.sum (List.map_congr_left fun entry mem => ?_)
    have stored : s.coroutine? entry.1 = some entry.2 := Table.get?_of_mem sound.ordered mem
    simp [stored]
  rw [sizes, turnBound]
  induction s.coroutines with
  | nil => exact Nat.zero_lt_one
  | cons entry rest ih =>
    simp only [List.map_cons, List.sum_cons, List.foldr_cons]
    omega

theorem settles_runUntilIdle (sound : s.Sound fun _ _ => True) (room : 0 < s.sliceSteps) :
    s.Settles s.runUntilIdle.1 s.runUntilIdle.2 := by
  obtain ⟨_, allots, enough⟩ := sound.exists_aheadOf_lt
  exact settles_runTurns s.turnBound sound room allots enough

theorem Sound.sliceSteps_after (sound : s.Sound admits) (call : Call) :
    (s.after call).sliceSteps = s.sliceSteps := by
  have done := sound.does_after call
  generalize s.after call = next at done
  cases done with
  | runs => rw [file_eq]; rfl
  | _ => rfl

theorem Sound.sliceSteps_afterAll (sound : s.Sound admits) {calls : List Call}
    (grants : s.GrantsAll admits calls) : (s.afterAll calls).sliceSteps = s.sliceSteps := by
  induction calls generalizing s with
  | nil => rfl
  | cons call rest ih =>
    rw [← sound.sliceSteps_after call]
    exact ih (sound.after grants.1) grants.2

/-- What is to know about the length of runs. Journals list what came last first. -/
structure RunsEnd (start : Scheduler) (calls : List Call) : Prop where
  increasing : ∀ co, (start.afterAll calls).Shows co →
    co.stack.entered.reverse.Pairwise (· < ·)
  counted : ∀ co, (start.afterAll calls).Shows co →
    co.stack.stats.framesPushed = co.stack.entered.length
  suspended : ∀ co, (start.afterAll calls).Shows co → none ∉ co.stack.suspended ∧
    ∀ id, co.stack.suspended.count (some id) ≤ 1
  steps : ∀ before number tree doc root id next later,
    calls = before ++ .spawn number tree :: later → Document.ofTree? number tree = some doc →
    tree.rootElement? = some root → (start.afterAll before).spawn doc = .ok (id, next) →
    start.stepsOver id calls ≤ 5 * root.elements
  idle : (start.afterAll calls).Settles (start.afterAll calls).runUntilIdle.1
    (start.afterAll calls).runUntilIdle.2

theorem runs_end (maxFrames sliceSteps : Nat) (evaluator : Evaluator) (calls : List Call) :
    RunsEnd (empty maxFrames sliceSteps evaluator) calls := by
  have grants := grantsAll_true (empty maxFrames sliceSteps evaluator)
  have begun := Sound.empty (fun _ _ => True) maxFrames sliceSteps evaluator
  have sound := begun.afterAll (grants calls)
  have forward {co : Coroutine} (shows_ : _) : co.stack.Forward :=
    (sound.driven_of_shows shows_).forward
  refine ⟨fun co shows_ => ?_, fun co shows_ => (forward shows_).pushed, fun co shows_ => ?_,
    ?_, ?_⟩
  · exact List.pairwise_reverse.mpr (forward shows_).increasing
  · have once : (co.stack.entered.map some).Nodup :=
      List.pairwise_map.mpr ((forward shows_).increasing.imp fun less same =>
        Nat.ne_of_gt less (Option.some.inj same))
    have sub := (forward shows_).suspended
    exact ⟨fun mem => by simpa using sub.subset mem,
      fun id => List.nodup_iff_count.mp (once.sublist sub) (some id)⟩
  · rintro before number tree doc root id next later rfl made first spawned
    have started := begun.afterAll (grants before)
    obtain ⟨own, same, given, allots⟩ := allots_of_spawn made first spawned
    have sound := started.after (grantsAll_true _ [.spawn number tree]).1
    have fresh := stepsOver_fresh begun before (Nat.le_of_eq own.symm)
    have none : (((empty maxFrames sliceSteps evaluator).afterAll before).stepsOf id
      (.spawn number tree)) = 0 := rfl
    rw [same] at sound
    have rest := allots.stepsOver_le sound (given ▸ Nat.lt_succ_self id) later
    rw [stepsOver_append, fresh, stepsOver, none, same]
    omega
  · have room : 0 < (empty maxFrames sliceSteps evaluator).sliceSteps :=
      Nat.lt_of_lt_of_le Nat.zero_lt_one (Nat.le_max_left 1 sliceSteps)
    exact settles_runUntilIdle sound (begun.sliceSteps_afterAll (grants calls) ▸ room)

/-- An only element has no parent to take its fifth step. -/
example : (empty 1 8).stepsOver 1 [.spawn 0 ping, .step,
    .deliver 1 (.renderer { id := Uuid.ofNat 0, status := 200 }), .step] = 4 := by
  decide +kernel

end Scheduler
end MarkupMachine
