import MarkupMachine.Proofs.Scheduler.Idle
import MarkupMachine.Proofs.Scheduler.Line
import MarkupMachine.Proofs.Scheduler.Refusals

/-! Turns of coroutines, whatever the calls: each takes its turns in the order in which it became
ready for them, and a slice makes some steps of one coroutine and leaves the others alone. -/

namespace MarkupMachine.Scheduler

variable {admits : Coroutine → Completion → Prop} {s : Scheduler} {id : Nat} {co : Coroutine}
  {log : List Happening} {start : List Nat}

def line (s : Scheduler) : List Nat := s.queue.filter s.isReady

/-- What a call does to the line. A coroutine becomes ready when it is spawned, when it is handed
its completion, and when it has more to do after its slice. -/
def happenings (s : Scheduler) (call : Call) : List Happening :=
  let next := s.after call
  match call with
  | .spawn _ _ => if next.isReady s.nextId then [.readied s.nextId] else []
  | .step =>
    match s.step.1 with
    | .ran id => if next.isReady id then [.readied id, .ran id] else [.ran id]
    | .idle | .done => []
  | .deliver id _ => if !s.isReady id && next.isReady id then [.readied id] else []
  | .cancel id => if s.isReady id then [.withdrawn id] else []
  | _ => []

def turnHappenings : Nat → Scheduler → List Happening
  | 0, _ => []
  | turns + 1, s =>
    match s.step.1 with
    | .ran _ => turnHappenings turns s.step.2 ++ s.happenings .step
    | .idle | .done => []

inductive Recorded (start : Scheduler) : List Happening → Scheduler → Prop
  | start : Recorded start [] start
  | call {log : List Happening} {s : Scheduler} (call : Call) : Recorded start log s →
    Recorded start (s.happenings call ++ log) (s.after call)
  | runUntilIdle {log : List Happening} {s : Scheduler} : Recorded start log s →
    Recorded start (s.turnHappenings s.turnBound ++ log) s.runUntilIdle.2

theorem isReady_of_put {t : Scheduler} (coroutines : t.coroutines = (s.put co).coroutines)
    (id : Nat) : t.isReady id = if id = co.id then co.state == .ready else s.isReady id := by
  simp only [isReady, coroutine?_of_put coroutines]
  by_cases own : id = co.id <;> simp [own]

theorem isReady_of_absent (absent : s.coroutine? id = none) : s.isReady id = false := by
  simp [isReady, absent]

theorem isReady_of_state {state : RunState} (stored : s.coroutine? id = some co)
    (same : co.state = state) : s.isReady id = (state == .ready) := by
  simp [isReady, stored, same]

theorem mem_line_iff (tidy : s.Tidy) : id ∈ s.line ↔ s.isReady id = true := by
  rw [line, List.mem_filter]
  refine ⟨fun h => h.2, fun ready => ⟨?_, ready⟩⟩
  obtain ⟨co, stored, ready⟩ := exists_of_isReady ready
  exact tidy.ready stored ready

theorem nodup_line (queued : s.Queued) : s.line.Nodup := queued.nodup.filter _

theorem line_eq (s : Scheduler) :
    s.line = (s.queue.dropWhile fun id => !s.isReady id).filter s.isReady := by
  have passed : (s.queue.takeWhile fun id => !s.isReady id).filter s.isReady = [] := by
    rw [List.filter_eq_nil_iff]
    intro id mem
    simpa using List.all_eq_true.mp List.all_takeWhile id mem
  have parts := List.takeWhile_append_dropWhile (p := fun id => !s.isReady id) (l := s.queue)
  rw [line, ← parts, List.filter_append, passed, List.nil_append, parts]

theorem Takes.line_eq {queue : List Nat} (takes : s.Takes id queue co) :
    s.line = id :: queue.filter s.isReady := by
  rw [Scheduler.line_eq, takes.queue, List.filter_cons,
    if_pos (isReady_of_ready takes.coroutine takes.ready)]

theorem step_eq_ran_iff : s.step.1 = .ran id ↔ s.line.head? = some id := by
  rcases s.step_cases with ⟨nobody, _⟩ | ⟨other, queue, co, takes, _⟩
  · rw [turn_of_nobody nobody, line_eq, nobody]
    split <;> simp
  · rw [takes.turn, takes.line_eq]
    simp

theorem filter_isReady_of_put {t : Scheduler} {queue : List Nat}
    (coroutines : t.coroutines = (s.put co).coroutines) (absent : co.id ∉ queue) :
    queue.filter t.isReady = queue.filter s.isReady := by
  refine List.filter_congr fun id mem => ?_
  have other : id ≠ co.id := by
    rintro rfl
    exact absent mem
  rw [isReady_of_put coroutines, if_neg other]

theorem line_congr {t : Scheduler} (queue : t.queue = s.queue)
    (same : ∀ id, t.isReady id = s.isReady id) : t.line = s.line := by
  rw [line, line, queue, funext same]

/-- The record of a line, and the line. Who was taken out of it does not come back. -/
structure Keeps (start : List Nat) (log : List Happening) (s : Scheduler) : Prop where
  replays : Replays start log s.line
  gone : ∀ {id}, .withdrawn id ∈ log →
    id < s.nextId ∧ ∀ co, s.coroutine? id = some co → co.state = .terminated

theorem Sound.gone_after (sound : s.Sound admits) (below : id < s.nextId)
    (gone : ∀ co, s.coroutine? id = some co → co.state = .terminated) (call : Call) :
    ∀ co, (s.after call).coroutine? id = some co → co.state = .terminated := by
  intro later stored
  cases before : s.coroutine? id with
  | none => rw [sound.absent_after below before] at stored; cases stored
  | some co =>
    have state := gone co before
    have ended : co.isTerminated = true := by simp [Coroutine.isTerminated, state]
    by_cases reap : call = .reap
    · subst reap
      have kept := (coroutine?_reap sound.ordered stored).1
      exact gone later kept
    · have stays := sound.stays before (by simp [state]) (fun _ _ => by simp [state])
        (fun _ => ended) fun same => absurd same reap
      cases stays.symm.trans stored
      exact state

theorem Keeps.withdrawn_not_mem (keeps : s.Keeps start log) (fresh : s.nextId ≤ id) :
    .withdrawn id ∉ log :=
  fun mem => absurd (keeps.gone mem).1 (Nat.not_lt.mpr fresh)

theorem Keeps.withdrawn_not_mem_of_stored (keeps : s.Keeps start log)
    (stored : s.coroutine? id = some co) (alive : co.state ≠ .terminated) : .withdrawn id ∉ log :=
  fun mem => alive ((keeps.gone mem).2 co stored)

theorem not_mem_line (absent : id ∉ s.queue) : id ∉ s.line :=
  fun mem => absent (List.mem_filter.mp mem).1

theorem Keeps.readied {t : Scheduler} (keeps : s.Keeps start log)
    (coroutines : t.coroutines = (s.put co).coroutines) (queue : t.queue = s.queue ++ [co.id])
    (ready : co.state = .ready) (absent : co.id ∉ s.queue) (fresh : .withdrawn co.id ∉ log) :
    t.isReady co.id = true ∧ Replays start (.readied co.id :: log) t.line := by
  have own : t.isReady co.id = true := by simp [isReady_of_put coroutines, ready]
  have joined : t.line = s.line ++ [co.id] := by
    rw [line, queue, List.filter_append, filter_isReady_of_put coroutines absent,
      List.filter_cons_of_pos own]
    rfl
  exact ⟨own, joined ▸ .readied keeps.replays (not_mem_line absent) fresh⟩

theorem Keeps.ran {queue : List Nat} {last : Coroutine} (keeps : s.Keeps start log)
    (takes : s.Takes last.id queue co) (queued : s.Queued) :
    Replays start (if ({ s with queue }.file last).isReady last.id then
      [.readied last.id, .ran last.id] ++ log else .ran last.id :: log)
      ({ s with queue }.file last).line := by
  have absent := takes.not_mem queued
  have ran : Replays start (.ran last.id :: log) (queue.filter s.isReady) :=
    .ran (takes.line_eq ▸ keeps.replays)
  have others : queue.filter ({ s with queue }.file last).isReady = queue.filter s.isReady :=
    filter_isReady_of_put (coroutines_file _ last) absent
  have own : ({ s with queue }.file last).isReady last.id = (last.state == .ready) := by
    rw [isReady_of_put (coroutines_file _ last)]
    exact if_pos rfl
  rw [own, line, queue_file]
  by_cases more : last.state = .ready
  · have fresh := keeps.withdrawn_not_mem_of_stored takes.coroutine (by simp [takes.ready])
    have again := own.trans (beq_iff_eq.mpr more)
    rw [if_pos more, List.filter_append, others, List.filter_cons_of_pos again]
    simp only [more, beq_self_eq_true, if_true, List.cons_append, List.nil_append]
    exact .readied ran (fun mem => absent (List.mem_filter.mp mem).1) (by simpa using fresh)
  · rw [if_neg more, others]
    simpa [more] using ran

theorem Keeps.withdrawn {t : Scheduler} (keeps : s.Keeps start log)
    (coroutines : t.coroutines = (s.put co).coroutines) (queue : t.queue = s.queue)
    (ended : co.state = .terminated) (tidy : s.Tidy) (queued : s.Queued) :
    Replays start (if s.isReady co.id then .withdrawn co.id :: log else log) t.line := by
  have left : t.line = s.line.erase co.id := by
    rw [(nodup_line queued).erase_eq_filter, line, line, List.filter_filter, queue]
    refine List.filter_congr fun id _ => ?_
    rw [isReady_of_put coroutines]
    by_cases own : id = co.id <;> simp [own, ended]
  by_cases ready : s.isReady co.id = true
  · rw [if_pos ready, left]
    exact .withdrawn keeps.replays ((mem_line_iff tidy).mpr ready)
  · rw [if_neg ready, left, List.erase_of_not_mem (mt (mem_line_iff tidy).mp ready)]
    exact keeps.replays

theorem Keeps.replays_after (keeps : s.Keeps start log) (sound : s.Sound admits)
    (queued : s.Queued) (tidy : s.Tidy) (call : Call) :
    Replays start (s.happenings call ++ log) (s.after call).line := by
  have replays := keeps.replays
  obtain ⟨next, eq, done⟩ : ∃ next, s.after call = next ∧ s.Does call next :=
    ⟨_, rfl, sound.does_after call⟩
  have coroutines := congrArg Scheduler.coroutines eq
  have queue := congrArg Scheduler.queue eq
  cases done with
  | unable =>
    simpa [happenings, eq, isReady_of_absent sound.coroutine?_nextId] using replays
  | spawns =>
    have absent : s.nextId ∉ s.queue := fun mem => Nat.lt_irrefl _ (queued.below mem)
    obtain ⟨ready, joined⟩ := keeps.readied coroutines queue rfl absent
      (keeps.withdrawn_not_mem (Nat.le_refl _))
    have ready : (s.after _).isReady s.nextId = true := ready
    simp only [happenings, ready, if_true]
    exact joined
  | @runs id queue co takes =>
    have own := sound.id_slice takes
    rw [eq]
    simp only [happenings, takes.turn, eq]
    generalize co.slice s.environment s.sliceSteps = last at own
    obtain rfl : last.id = id := own
    have ran := keeps.ran takes queued
    split at ran <;> simp_all
  | idles nobody =>
    have nothing : s.happenings .step = [] := by
      simp only [happenings, turn_of_nobody nobody]
      cases s.hasWaiting <;> rfl
    have same : (s.after .step).line = s.line := by
      rw [eq, line_eq s, nobody]
      rfl
    rw [nothing, same]
    exact replays
  | refuses => simpa [happenings, eq] using replays
  | @delivers id c co stored waiting =>
    obtain rfl := sound.own stored
    have awake := state_resumeWith (waits_of_waiting sound stored waiting) c
    obtain ⟨ready, joined⟩ := keeps.readied coroutines queue awake
      (queued.waiting stored waiting) (keeps.withdrawn_not_mem_of_stored stored (by simp [waiting]))
    have before : s.isReady co.id = false := isReady_of_state stored waiting
    have ready : (s.after (.deliver co.id c)).isReady co.id = true := ready
    simp only [happenings, before, ready, Bool.not_false, Bool.and_self, if_true]
    exact joined
  | @spares id ended =>
    have before : s.isReady id = false := by
      cases stored : s.coroutine? id with
      | none => exact isReady_of_absent stored
      | some co =>
        have state : co.state = .terminated := by
          simpa [Coroutine.isTerminated] using ended co stored
        exact isReady_of_state stored state
    simpa [happenings, before, eq] using replays
  | @cancels id co stored alive =>
    have own : (co.terminate .cancelled).id = id :=
      (Coroutine.unwound_terminate .cancelled co).id.trans (sound.own stored)
    have left := keeps.withdrawn coroutines queue (Coroutine.ended_terminate .cancelled co).state
      tidy queued
    rw [own] at left
    simp only [happenings]
    split at left <;> simp_all
  | takes | binds | unbinds | aims =>
    rw [line_congr queue fun id => by rw [isReady, isReady, coroutine?, coroutine?, coroutines]]
    exact replays
  | reaps =>
    have same : (s.after .reap).line = s.line := by
      refine line_congr queue fun id => ?_
      simp only [eq, isReady, reap_eq sound.ordered]
      cases stored : s.coroutine? id with
      | none => rfl
      | some co => cases state : co.state <;> simp [Option.filter, Coroutine.isTerminated, state]
    rw [same]
    exact replays

theorem Sound.gone_of_happenings (sound : s.Sound admits) {call : Call}
    (mem : .withdrawn id ∈ s.happenings call) :
    id < (s.after call).nextId ∧
      ∀ co, (s.after call).coroutine? id = some co → co.state = .terminated := by
  cases call with
  | cancel other =>
    by_cases ready : s.isReady other = true
    · obtain rfl : id = other := by simpa [happenings, ready] using mem
      obtain ⟨co, stored, ready⟩ := exists_of_isReady ready
      have alive : co.isTerminated = false := by simp [Coroutine.isTerminated, ready]
      obtain ⟨next, done, cancels⟩ := sound.cancels stored alive
      have same : s.after (.cancel id) = next := by simp only [Scheduler.after, done]
      refine ⟨Nat.lt_of_lt_of_le (sound.below stored) (sound.nextId_le _), fun co stored => ?_⟩
      rw [same, cancels.stored] at stored
      cases stored
      exact cancels.ended.1
    · simp [happenings, ready] at mem
  | spawn => simp only [happenings] at mem; split at mem <;> simp at mem
  | step =>
    simp only [happenings] at mem
    split at mem
    · split at mem <;> simp at mem
    · cases mem
    · cases mem
  | deliver => simp only [happenings] at mem; split at mem <;> simp at mem
  | _ => cases mem

theorem Keeps.after (keeps : s.Keeps start log) (sound : s.Sound admits) (queued : s.Queued)
    (tidy : s.Tidy) (call : Call) : (s.after call).Keeps start (s.happenings call ++ log) where
  replays := keeps.replays_after sound queued tidy call
  gone mem := by
    rcases List.mem_append.mp mem with mem | mem
    · exact sound.gone_of_happenings mem
    · obtain ⟨below, gone⟩ := keeps.gone mem
      exact ⟨Nat.lt_of_lt_of_le below (sound.nextId_le call), sound.gone_after below gone call⟩

structure Lined (start : List Nat) (log : List Happening) (s : Scheduler) : Prop where
  sound : s.Sound fun _ _ => True
  queued : s.Queued
  tidy : s.Tidy
  keeps : s.Keeps start log

theorem Lined.after (lined : s.Lined start log) (call : Call) :
    (s.after call).Lined start (s.happenings call ++ log) where
  sound := lined.sound.after (grantsAll_true s [call]).1
  queued := lined.queued.after lined.sound call
  tidy := lined.tidy.after lined.sound call
  keeps := lined.keeps.after lined.sound lined.queued lined.tidy call

theorem Lined.turns (lined : s.Lined start log) (turns : Nat) :
    (runTurns turns s).2.Lined start (turnHappenings turns s ++ log) := by
  induction turns generalizing s log with
  | zero => exact lined
  | succ turns ih =>
    have next := lined.after .step
    by_cases ran : ∃ id, s.step.1 = .ran id
    · obtain ⟨id, ran⟩ := ran
      have later := ih next
      simp only [turnHappenings, runTurns_of_ran ran, ran, List.append_assoc]
      exact later
    · have rest : ∀ id, s.step.1 ≠ .ran id := fun id h => ran ⟨id, h⟩
      have nothing : turnHappenings (turns + 1) s = [] ∧ s.happenings .step = [] := by
        cases turn : s.step.1 with
        | ran id => exact absurd turn (rest id)
        | idle | done => simp [turnHappenings, happenings, turn]
      rw [nothing.2] at next
      rw [nothing.1, runTurns_of_rest rest]
      exact next

theorem Recorded.lined {first s : Scheduler} (recorded : Recorded first log s)
    (begun : first.Lined start []) : s.Lined start log := by
  induction recorded with
  | start => exact begun
  | call call _ ih => exact ih.after call
  | @runUntilIdle _ s _ ih => exact ih.turns s.turnBound

theorem Lined.begin (lined : s.Lined start log) : s.Lined s.line [] where
  sound := lined.sound
  queued := lined.queued
  tidy := lined.tidy
  keeps := ⟨.start, fun mem => nomatch mem⟩

theorem Lined.empty (maxFrames sliceSteps : Nat) (evaluator : Evaluator) :
    (empty maxFrames sliceSteps evaluator).Lined [] [] := by
  have orderly := Orderly.empty maxFrames sliceSteps evaluator
  exact ⟨orderly.sound, orderly.queued, orderly.tidy, .start, fun mem => nomatch mem⟩

theorem Lined.turn_iff (lined : s.Lined [] log) (a : Nat) : s.step.1 = .ran a ↔
    s.isReady a = true ∧ ∀ b, s.isReady b = true → b ≠ a → Precedes log a b := by
  have ordered := lined.keeps.replays.ordered
  rw [step_eq_ran_iff]
  constructor
  · intro first
    obtain ⟨behind, split⟩ := List.head?_eq_some_iff.mp first
    refine ⟨(mem_line_iff lined.tidy).mp (List.mem_of_mem_head? first), fun b ready other => ?_⟩
    have mem := (mem_line_iff lined.tidy).mpr ready
    rw [split] at ordered mem
    exact (List.pairwise_cons.mp ordered).1 b ((List.mem_cons.mp mem).resolve_left other)
  · rintro ⟨ready, before⟩
    have mem := (mem_line_iff lined.tidy).mpr ready
    cases line : s.line with
    | nil => rw [line] at mem; cases mem
    | cons first behind =>
      by_cases same : first = a
      · rw [List.head?_cons, same]
      · rw [line] at mem ordered
        have ahead := (List.pairwise_cons.mp ordered).1 a
          ((List.mem_cons.mp mem).resolve_left (Ne.symm same))
        have ready : s.isReady first = true :=
          (mem_line_iff lined.tidy).mp (line ▸ List.mem_cons_self)
        exact absurd (before first ready same) ahead.asymm

theorem Lined.line_after {a : Nat} (lined : s.Lined [] log) (ran : s.step.1 = .ran a)
    (more : (s.after .step).isReady a = true) :
    ∃ before, (s.after .step).line = before ++ [a] := by
  have replays := (lined.after .step).keeps.replays
  have happened : s.happenings .step = [.readied a, .ran a] := by
    simp only [happenings, ran, more, if_true]
  rw [happened] at replays
  generalize (s.after .step).line = line at replays
  cases replays with
  | readied => exact ⟨_, rfl⟩

theorem Lined.served {a b : Nat} {later newer between : List Happening} {next : Scheduler}
    (lined : s.Lined [] log) (ran : s.step.1 = .ran a)
    (more : (s.after .step).isReady a = true) (recorded : Recorded (s.after .step) later next)
    (split : later = newer ++ .ran a :: between) (first : .ran a ∉ between) (other : b ≠ a)
    (ready : (s.after .step).isReady b = true) : Served between b := by
  have begun := lined.after .step
  obtain ⟨before, line⟩ := lined.line_after ran more
  have once := nodup_line begun.queued
  have mem := (mem_line_iff begun.tidy).mpr ready
  obtain ⟨rest, replays⟩ := (split ▸ (recorded.lined begun.begin).keeps.replays).earlier
  rw [line] at once mem replays
  have ahead : b ∈ before := (List.mem_append.mp mem).resolve_right (by simpa using other)
  exact replays.served once ahead first

theorem Sound.slice_of_ran {a : Nat} (sound : s.Sound admits) (room : 0 < s.sliceSteps)
    (ran : s.step.1 = .ran a) : ∃ co number last, s.coroutine? a = some co ∧
      co.Sliced s.environment s.sliceSteps number last ∧ 1 ≤ number ∧ number ≤ s.sliceSteps ∧
      (s.after .step).coroutine? a = some last.filed ∧
      ∀ other, other ≠ a → (s.after .step).coroutine? other = s.coroutine? other := by
  rcases s.step_cases with ⟨nobody, _⟩ | ⟨id, queue, co, takes, eq⟩
  · rw [turn_of_nobody nobody] at ran
    split at ran <;> cases ran
  · obtain rfl : id = a := Turn.ran.inj (takes.turn.symm.trans ran)
    have own := sound.id_slice takes
    obtain ⟨number, sliced⟩ := Coroutine.exists_sliced s.environment s.sliceSteps co
    have found (other : Nat) : (s.after .step).coroutine? other =
        if other = id then some (co.slice s.environment s.sliceSteps).filed
        else s.coroutine? other := by
      rw [Scheduler.after, eq, coroutine?_of_put (coroutines_file _ _), Coroutine.filed, own]
      rfl
    refine ⟨co, number, _, takes.coroutine, sliced, sliced.pos room, sliced.le, ?_, ?_⟩
    · rw [found, if_pos rfl]
    · exact fun other apart => by rw [found, if_neg apart]

structure RoundRobin (most : Nat) (log : List Happening) (s : Scheduler) : Prop where
  replays : Replays [] log s.line
  line : s.line.Nodup ∧ ∀ id, id ∈ s.line ↔ s.isReady id = true
  first : ∀ a, s.step.1 = .ran a ↔ s.line.head? = some a
  turn : ∀ a, s.step.1 = .ran a ↔
    s.isReady a = true ∧ ∀ b, s.isReady b = true → b ≠ a → Precedes log a b
  round : ∀ a, s.step.1 = .ran a → (s.after .step).isReady a = true →
    ∀ later next, Recorded (s.after .step) later next →
    ∀ newer between, later = newer ++ .ran a :: between → .ran a ∉ between →
    ∀ b, b ≠ a → (s.after .step).isReady b = true → Served between b
  slice : ∀ a, s.step.1 = .ran a → ∃ co number last, s.coroutine? a = some co ∧
    co.Sliced s.environment most number last ∧ 1 ≤ number ∧ number ≤ most ∧
    (s.after .step).coroutine? a = some last.filed ∧
    ∀ other, other ≠ a → (s.after .step).coroutine? other = s.coroutine? other

theorem Recorded.history {first : Scheduler} (recorded : Recorded first log s) :
    ∃ issued returned, History first issued returned s := by
  induction recorded with
  | start => exact ⟨_, _, .start⟩
  | call call _ ih =>
    obtain ⟨_, _, history⟩ := ih
    exact ⟨_, _, history.call call⟩
  | runUntilIdle _ ih =>
    obtain ⟨_, _, history⟩ := ih
    exact ⟨_, _, history.runUntilIdle⟩

theorem round_robin (maxFrames sliceSteps : Nat) (evaluator : Evaluator)
    (recorded : Recorded (empty maxFrames sliceSteps evaluator) log s) :
    RoundRobin (max 1 sliceSteps) log s := by
  have lined := recorded.lined (.empty maxFrames sliceSteps evaluator)
  obtain ⟨_, _, history⟩ := recorded.history
  have most : s.sliceSteps = max 1 sliceSteps := history.keeps
    (P := fun s => s.sliceSteps = max 1 sliceSteps) rfl
    fun s call sound same => (sound.sliceSteps_after call).trans same
  have room : 0 < s.sliceSteps := most ▸ Nat.lt_of_lt_of_le Nat.zero_lt_one (Nat.le_max_left 1 _)
  exact {
    replays := lined.keeps.replays
    line := ⟨nodup_line lined.queued, fun _ => mem_line_iff lined.tidy⟩
    first := fun _ => step_eq_ran_iff
    turn := lined.turn_iff
    round := fun a ran more later next recorded newer between split first b other ready =>
      lined.served ran more recorded split first other ready
    slice := fun a ran => most ▸ lined.sound.slice_of_ran room ran }

def wrapped : Tree := .element { tag := "main" } [ping]

/-- Of three coroutines two have had a turn of one step, and the third is cancelled ahead of its
own. -/
def shortened : Scheduler :=
  (((((empty 2 1).after (.spawn 0 wrapped)).after (.spawn 1 wrapped)).after
    (.spawn 2 wrapped)).after .step).after .step |>.after (.cancel 3)

theorem round_robin_shortened : ∃ log, Recorded (empty 2 1) log shortened ∧
    log = [.withdrawn 3, .readied 2, .ran 2, .readied 1, .ran 1, .readied 3, .readied 2,
      .readied 1] ∧
    shortened.line = [1, 2] ∧ RoundRobin 1 log shortened := by
  have recorded : Recorded (empty 2 1) _ shortened :=
    .call (.cancel 3) (.call .step (.call .step (.call (.spawn 2 wrapped) (.call (.spawn 1 wrapped)
      (.call (.spawn 0 wrapped) .start)))))
  exact ⟨_, recorded, by decide +kernel, by decide +kernel, round_robin 2 1 .standard recorded⟩

end MarkupMachine.Scheduler
