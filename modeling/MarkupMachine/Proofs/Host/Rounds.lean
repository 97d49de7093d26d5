import MarkupMachine.Proofs.Host.Phases
import MarkupMachine.Proofs.Scheduler.Idle

/-! The loop of a host comes to its end, in whatever order timers report: a coroutine has a turn in
each round but the first, and no call of a host adds to the steps that are ahead. -/

namespace MarkupMachine

namespace Scheduler

variable {admits : Coroutine → Completion → Prop} {s : Scheduler} {n : Nat}

/-- The coroutines in the table have so many steps ahead of them at most, and a slice has one. -/
structure Remains (s : Scheduler) (n : Nat) : Prop where
  room : 0 < s.sliceSteps
  ahead : ∃ f : Nat → Nat, (∀ id, id < s.nextId → s.Allots id (f id)) ∧ aheadOf f s ≤ n

theorem aheadOf_mono {t : Scheduler} {f g : Nat → Nat} (less : ∀ id, f id ≤ g id)
    (keys : (t.coroutines.map (·.1)).Sublist (s.coroutines.map (·.1))) :
    aheadOf f t ≤ aheadOf g s :=
  Nat.le_trans (List.sum_le_sum fun id _ => less id)
    ((keys.map g).sum_le_sum fun _ _ => Nat.zero_le _)

theorem Sound.keys_after (sound : s.Sound admits) (call : Call)
    (spawn : ∀ document tree, call ≠ .spawn document tree) :
    (s.after call).nextId = s.nextId ∧
      ((s.after call).coroutines.map (·.1)).Sublist (s.coroutines.map (·.1)) := by
  have done := sound.does_after call
  generalize s.after call = next at done
  have kept {co last : Coroutine} {t : Scheduler} (stored : s.coroutine? last.id = some co)
      (coroutines : t.coroutines = (s.put last).coroutines) :
      (t.coroutines.map (·.1)).Sublist (s.coroutines.map (·.1)) := by
    rw [coroutines, put, Table.keys_insert sound.ordered stored]
  cases done with
  | unable | spawns => exact absurd rfl (spawn _ _)
  | refuses | spares | idles | takes | binds | unbinds | aims => exact ⟨rfl, .refl _⟩
  | runs takes =>
    have own := sound.id_slice takes
    exact ⟨nextId_file _ _, kept (own ▸ takes.coroutine) (coroutines_file _ _)⟩
  | delivers stored => exact ⟨rfl, kept ((sound.own stored).symm ▸ stored) rfl⟩
  | cancels stored =>
    have own := (Coroutine.unwound_terminate .cancelled _).id.trans (sound.own stored)
    exact ⟨rfl, kept (own ▸ stored) rfl⟩
  | reaps => exact ⟨rfl, List.filter_sublist.map _⟩

theorem Remains.after (remains : s.Remains n) (sound : s.Sound admits) (call : Call)
    (spawn : ∀ document tree, call ≠ .spawn document tree) : (s.after call).Remains n := by
  obtain ⟨room, f, allots, ahead⟩ := remains
  obtain ⟨next, keys⟩ := sound.keys_after call spawn
  refine ⟨sound.sliceSteps_after call ▸ room, fun id => f id - s.stepsOf id call,
    fun id given => ?_, ?_⟩
  · rw [next] at given
    exact ((allots id given).after sound given call).2
  · exact Nat.le_trans (aheadOf_mono (fun id => Nat.sub_le _ _) keys) ahead

theorem Remains.step_lt (remains : s.Remains n) (sound : s.Sound admits) {id : Nat}
    (ran : s.step.1 = .ran id) : ∃ m, m < n ∧ (s.after .step).Remains m := by
  obtain ⟨room, f, allots, ahead⟩ := remains
  obtain ⟨next, _⟩ := sound.keys_after .step fun _ _ same => nomatch same
  have less := aheadOf_step sound room allots ran
  refine ⟨_, Nat.lt_of_lt_of_le less ahead, sound.sliceSteps_after .step ▸ room, _,
    fun id given => ?_, Nat.le_refl _⟩
  rw [next] at given
  exact ((allots id given).after sound given .step).2

theorem Remains.runTurns (remains : s.Remains n) (sound : s.Sound fun _ _ => True)
    (turns : Nat) : (runTurns turns s).2.Remains n :=
  sound.runTurns_keeps (P := fun s => s.Remains n) (fun _ sound remains =>
    remains.after sound .step fun _ _ same => nomatch same) turns remains

theorem exists_ran (ready : s.hasReady = true) : ∃ id, s.step.1 = .ran id := by
  rcases s.step_cases with ⟨nobody, _⟩ | ⟨id, _, _, takes, _⟩
  · obtain ⟨id, mem, isReady⟩ := List.any_eq_true.mp ready
    obtain ⟨co, stored, ready⟩ := exists_of_isReady isReady
    have mem := mem_dropWhile_of_ready mem stored ready
    rw [nobody] at mem
    cases mem
  · exact ⟨id, takes.turn⟩

theorem Remains.runUntilIdle_lt (remains : s.Remains n) (sound : s.Sound fun _ _ => True)
    (ready : s.hasReady = true) : ∃ m, m < n ∧ s.runUntilIdle.2.Remains m := by
  obtain ⟨id, ran⟩ := exists_ran ready
  obtain ⟨m, less, later⟩ := remains.step_lt sound ran
  obtain ⟨_, _, enough⟩ := sound.exists_aheadOf_lt
  obtain ⟨turns, bound⟩ := Nat.exists_eq_succ_of_ne_zero (Nat.ne_zero_of_lt enough)
  refine ⟨m, less, ?_⟩
  rw [runUntilIdle, bound, runTurns_of_ran ran]
  exact later.runTurns (sound.after (grantsAll_true s [.step]).1) turns

theorem History.sliceSteps_pos {maxFrames sliceSteps : Nat} {evaluator : Evaluator}
    {issued : List Nat} {returned : List Finished}
    (history : History (empty maxFrames sliceSteps evaluator) issued returned s) :
    0 < s.sliceSteps :=
  history.keeps (P := fun s => 0 < s.sliceSteps)
    (Nat.lt_of_lt_of_le Nat.zero_lt_one (Nat.le_max_left 1 sliceSteps))
    fun _ call sound room => sound.sliceSteps_after call ▸ room

theorem History.remains {maxFrames sliceSteps : Nat} {evaluator : Evaluator}
    {issued : List Nat} {returned : List Finished}
    (history : History (empty maxFrames sliceSteps evaluator) issued returned s) :
    ∃ n, s.Remains n ∧ n < s.turnBound := by
  obtain ⟨f, allots, enough⟩ := history.orderly.sound.exists_aheadOf_lt
  exact ⟨_, ⟨history.sliceSteps_pos, f, allots, Nat.le_refl _⟩, enough⟩

end Scheduler

namespace Host

variable {σ : Type} {bridge : Bridge σ} {h : Host σ} {n : Nat} {issued : List Nat}
  {returned : List Finished}

variable {p q : Phase σ}

theorem Phase.Kept.remains (kept : p.Kept issued returned) (remains : p.host.scheduler.Remains n)
    (moves : Moves bridge p q) : q.host.scheduler.Remains n := by
  have sound := kept.tends.orderly.sound
  cases moves with
  | @turn h =>
    have rested := remains.runTurns sound h.scheduler.turnBound
    exact ⟨rested.room, rested.ahead⟩
  | @serve h wait outbox =>
    obtain ⟨id, after | request⟩ := wait
    · exact remains
    · simp only [Phase.host, serve_renderer] at remains sound ⊢
      exact remains.after sound _ fun _ _ same => nomatch same
  | again | finish | listen => exact remains.after sound .reap fun _ _ same => nomatch same
  | hear | drain =>
    simp only [Phase.host, scheduler_receive] at remains sound ⊢
    exact remains.after sound _ fun _ _ same => nomatch same
  | resume => exact remains

theorem Phase.Kept.remains_reaches (kept : p.Kept issued returned)
    (remains : p.host.scheduler.Remains n) (reaches : Reaches bridge p q) :
    q.host.scheduler.Remains n := by
  induction reaches with
  | refl => exact remains
  | tail before moves ih => exact (kept.reaches before).remains ih moves

theorem Tends.turn_lt (tends : h.Tends issued returned []) (remains : h.scheduler.Remains n)
    (ready : h.scheduler.hasReady = true) : ∃ m, m < n ∧ h.turn.2.scheduler.Remains m := by
  obtain ⟨m, less, rested⟩ := remains.runUntilIdle_lt tends.orderly.sound ready
  exact ⟨m, less, rested.room, rested.ahead⟩

/-- There is no way to move on for ever. -/
def Halts (bridge : Bridge σ) : Phase σ → Prop := Acc fun q p => Moves bridge p q

section Halting

structure Begins (issued : List Nat) (returned : List Finished) (n : Nat) (h : Host σ) : Prop where
  tends : h.Tends issued returned []
  ready : h.scheduler.hasReady = true
  remains : h.scheduler.Remains n

variable (later : ∀ h : Host σ, h.Begins issued returned n → Halts bridge (.turning h))
include later

theorem halts_draining (kept : (Phase.draining h).Kept issued returned)
    (remains : h.scheduler.Remains n) : Halts bridge (.draining h) := by
  generalize count : h.timers.length = left
  induction left generalizing h with
  | zero =>
    refine .intro _ fun q moves => ?_
    cases moves with
    | drain mem => simp [List.length_eq_zero_iff.mp count] at mem
    | resume => exact later h ⟨kept.1, kept.2.2, remains⟩
  | succ left ih =>
    refine .intro _ fun q moves => ?_
    have kept_next := kept.moves moves
    have remains_next := kept.remains remains moves
    cases moves with
    | drain mem =>
      refine ih kept_next remains_next ?_
      rw [timers_receive, List.length_erase_of_mem mem, count]
      rfl
    | resume => exact later h ⟨kept.1, kept.2.2, remains⟩

theorem halts_serving {outbox : List (Nat × Wait)}
    (kept : (Phase.serving outbox h).Kept issued returned) (remains : h.scheduler.Remains n) :
    Halts bridge (.serving outbox h) := by
  induction outbox generalizing h with
  | cons wait outbox ih =>
    refine .intro _ fun q moves => ?_
    have kept_next := kept.moves moves
    have remains_next := kept.remains remains moves
    cases moves with
    | serve => exact ih kept_next remains_next
  | nil =>
    refine .intro _ fun q moves => ?_
    have kept_next := kept.moves moves
    have remains_next := kept.remains remains moves
    cases moves with
    | again ready => exact later _ ⟨kept_next, ready, remains_next⟩
    | finish => exact .intro _ fun _ moves => nomatch moves
    | listen =>
      refine .intro _ fun q moves => ?_
      have kept_last := kept_next.moves moves
      have remains_last := kept_next.remains remains_next moves
      cases moves with
      | hear => exact halts_draining later kept_last remains_last

end Halting

theorem Begins.halts (begins : h.Begins issued returned n) : Halts bridge (.turning h) := by
  induction n using Nat.strong_induction_on generalizing h with
  | h n ih =>
    obtain ⟨m, less, remains⟩ := begins.tends.turn_lt begins.remains begins.ready
    refine .intro _ fun q moves => ?_
    have kept := Phase.Kept.moves (p := .turning h) begins.tends moves
    cases moves with
    | turn => exact halts_serving (fun _ => ih m less) kept remains

theorem Tends.halts (tends : h.Tends issued returned []) (remains : h.scheduler.Remains n)
    (bridge : Bridge σ) : Halts bridge (.turning h) := by
  refine .intro _ fun q moves => ?_
  have kept := Phase.Kept.moves (p := .turning h) tends moves
  have rested := Phase.Kept.remains (p := .turning h) tends remains moves
  cases moves with
  | turn => exact halts_serving (fun _ begins => begins.halts) kept rested

theorem reaches_served (bridge : Bridge σ) (outbox : List (Nat × Wait)) (h : Host σ) :
    Reaches bridge (.serving outbox h) (.serving [] (outbox.foldl (serve bridge) h)) := by
  induction outbox generalizing h with
  | nil => exact .refl
  | cons wait outbox ih => exact .head .serve (ih (h.serve bridge wait))

theorem reaches_drained {reported : List Timer} (some : reported.Subperm h.timers) :
    Reaches bridge (.draining h) (.draining (reported.foldl receive h)) := by
  induction reported generalizing h with
  | nil => exact .refl
  | cons t reported ih =>
    have rest := some.erase t
    rw [List.erase_cons_head] at rest
    refine .head (.drain (some.subset List.mem_cons_self)) (ih ?_)
    rwa [timers_receive]

theorem reaches_wake (clock : Clock) (some : h.inFlight ≠ 0)
    (tends : h.Tends issued returned []) :
    Reaches bridge (.listening h) (.draining (h.wake clock)) := by
  have timers : h.timers ≠ [] := fun none => some (by rw [tends.inFlight, none]; rfl)
  have reported : (clock.reports h.timers).1.Subperm h.timers :=
    (List.sublist_append_left _ _).subperm.trans (clock.keeps h.timers).subperm
  rw [wake]
  cases first : (clock.reports h.timers).1 with
  | nil => exact absurd first (clock.advances h.timers timers)
  | cons t rest =>
    rw [first] at reported
    have left := reported.erase t
    rw [List.erase_cons_head] at left
    refine .head (.hear (reported.subset List.mem_cons_self)) (reaches_drained ?_)
    rwa [timers_receive]

theorem reaches_runRounds (bridge : Bridge σ) (clock : Clock) {rounds : Nat}
    (tends : h.Tends issued returned []) (remains : h.scheduler.Remains n)
    (enough : h.scheduler.hasReady = true ∧ n < rounds ∨ n + 1 < rounds) :
    Reaches bridge (.turning h) (.returned (runRounds bridge clock rounds h)) := by
  induction rounds generalizing h n with
  | zero => omega
  | succ rounds ih =>
    let served := h.turn.1.foldl (serve bridge) h.turn.2
    have begun : (Phase.turning h).Kept issued returned := tends
    have turned : Moves bridge (.turning h) (.serving h.turn.1 h.turn.2) := .turn
    have serving : Reaches bridge (.serving h.turn.1 h.turn.2) (.serving [] served) :=
      reaches_served bridge h.turn.1 h.turn.2
    have kept : (Phase.serving [] served).Kept issued returned :=
      (begun.moves turned).reaches serving
    obtain ⟨m, less, left⟩ : ∃ m, m < rounds ∧ served.scheduler.Remains m := by
      rcases enough with ⟨ready, enough⟩ | enough
      · obtain ⟨m, less, left⟩ := tends.turn_lt remains ready
        exact ⟨m, by omega, (begun.moves turned).remains_reaches left serving⟩
      · have left := begun.remains remains turned
        exact ⟨n, by omega, (begun.moves turned).remains_reaches left serving⟩
    refine .head turned (serving.trans ?_)
    have same : h.round bridge = served.reap := rfl
    rw [runRounds, same]
    cases ready : served.reap.scheduler.hasReady with
    | true =>
      have again : Moves bridge (.serving [] served) (.turning served.reap) := .again ready
      exact .head again (ih kept.1.reap (kept.remains left again) (.inl ⟨ready, less⟩))
    | false =>
      simp only [Bool.false_eq_true, if_false]
      by_cases none : served.inFlight = 0
      · rw [if_pos (show served.reap.inFlight = 0 from none)]
        exact .single (.finish ready none)
      · rw [if_neg (show served.reap.inFlight ≠ 0 from none)]
        have listen : Moves bridge (.serving [] served) (.listening served.reap) :=
          .listen ready none
        have woken : Reaches bridge (.listening served.reap) (.draining (served.reap.wake clock)) :=
          reaches_wake clock none kept.1.reap
        have awake := (kept.moves listen).reaches woken
        have later := (kept.moves listen).remains_reaches (kept.remains left listen) woken
        exact .head listen (woken.trans (.head .resume (ih awake.1 later (.inl ⟨awake.2.2, less⟩))))

theorem reaches_run (bridge : Bridge σ) (clock : Clock) (tends : h.Tends issued returned [])
    (remains : h.scheduler.Remains n) (enough : n < h.scheduler.turnBound) :
    Reaches bridge (.turning h) (.returned (h.run bridge clock)) :=
  reaches_runRounds bridge clock tends remains (.inr (Nat.succ_lt_succ enough))

end Host

end MarkupMachine
