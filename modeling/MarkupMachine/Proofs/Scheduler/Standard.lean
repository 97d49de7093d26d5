import MarkupMachine.Proofs.Scheduler.Calls

/-! What the rules keep under one evaluator holds of every coroutine of a scheduler with that
evaluator: no call exchanges it. -/

namespace MarkupMachine

theorem Environment.evaluator_unbind (document : Nat) (name : String) (env : Environment) :
    (env.unbind document name).evaluator = env.evaluator := by
  unfold unbind
  split <;> rfl

structure Coroutine.KeptUnder (evaluator : Evaluator) (P : Stack → Prop) : Prop where
  spawned : ∀ limit id doc root kind, P (Coroutine.start limit id doc root kind).stack
  stepped : ∀ {env : Environment} {co next : Coroutine}, env.evaluator = evaluator → co.Live →
    Transition env co next → P co.stack → P next.stack
  failed : ∀ {co next : Coroutine} {fault : Fault}, co.Fails fault next → P co.stack → P next.stack
  resumed : ∀ {co : Coroutine} (c : Completion), co.Live → P co.stack → P (co.resumeWith c).stack
  terminated : ∀ {co : Coroutine} (outcome : Outcome), P co.stack → P (co.terminate outcome).stack

namespace Coroutine.KeptUnder

variable {evaluator : Evaluator} {P : Stack → Prop} {admits : Coroutine → Completion → Prop}
  {env : Environment} {count : Nat} {co last : Coroutine}

theorem passes (kept : KeptUnder evaluator P) (same : env.evaluator = evaluator)
    (passes : Passes env count co last) (driven : Driven admits co) (h : P co.stack) :
    P last.stack := by
  induction passes with
  | here => exact h
  | later running step _ ih =>
    have live := driven.live (by simp [running])
    exact ih (.stepped driven running step)
      (kept.stepped same live (live.transition_of_step running step) h)

theorem slice (kept : KeptUnder evaluator P) (same : env.evaluator = evaluator)
    (driven : Driven admits co) (ready : co.state = .ready) (h : P co.stack) :
    P (co.slice env count).stack := by
  have started := Driven.started driven ready
  obtain ⟨last, passes, eq | ⟨next, fault, still, failed, eq⟩⟩ := slice_cases env count co
  · have holds := kept.passes same passes started h
    rw [eq]
    split <;> exact holds
  · have live := (passes.driven started).live (by simp [still])
    rw [eq]
    exact kept.terminated _ (kept.failed (live.fails_of_step still failed)
      (kept.passes same passes started h))

end Coroutine.KeptUnder

namespace Scheduler

variable {evaluator : Evaluator} {P : Stack → Prop} {s : Scheduler}

structure Under (evaluator : Evaluator) (P : Stack → Prop) (s : Scheduler) : Prop where
  sound : s.Sound fun _ _ => True
  same : s.environment.evaluator = evaluator
  holds : ∀ {id co}, s.coroutine? id = some co → P co.stack

theorem Under.of_put {t : Scheduler} {co : Coroutine} (under : s.Under evaluator P)
    (sound : t.Sound fun _ _ => True) (same : t.environment = s.environment)
    (coroutines : t.coroutines = (s.put co).coroutines) (h : P co.stack) : t.Under evaluator P where
  sound := sound
  same := by rw [same, under.same]
  holds {id other} stored := by
    rw [coroutine?_of_put coroutines] at stored
    split at stored
    · cases stored
      exact h
    · exact under.holds stored

theorem Under.congr {t : Scheduler} (under : s.Under evaluator P) (sound : t.Sound fun _ _ => True)
    (same : t.environment.evaluator = s.environment.evaluator)
    (coroutines : t.coroutines = s.coroutines) : t.Under evaluator P where
  sound := sound
  same := by rw [same, under.same]
  holds stored := by
    rw [coroutine?, coroutines] at stored
    exact under.holds stored

theorem Under.after (kept : Coroutine.KeptUnder evaluator P) (under : s.Under evaluator P)
    (call : Call) : (s.after call).Under evaluator P := by
  have sound : (s.after call).Sound fun _ _ => True :=
    under.sound.after (grantsAll_true s [call]).1
  have done := under.sound.does_after call
  generalize s.after call = next at done sound
  cases done with
  | unable | refuses | spares => exact under
  | spawns => exact under.of_put sound rfl rfl (kept.spawned ..)
  | @runs _ _ co takes =>
    have ran : P (co.slice s.environment s.sliceSteps).filed.stack := kept.slice under.same
      (under.sound.driven takes.coroutine) takes.ready (under.holds takes.coroutine)
    rw [file_eq] at sound ⊢
    exact under.of_put sound rfl rfl ran
  | idles | takes | binds | aims => exact under.congr sound rfl rfl
  | unbinds => exact under.congr sound (Environment.evaluator_unbind ..) rfl
  | @delivers _ c _ stored waiting =>
    have live := (under.sound.driven stored).live (by simp [waiting])
    exact under.of_put sound rfl rfl (kept.resumed c live (under.holds stored))
  | cancels stored => exact under.of_put sound rfl rfl (kept.terminated _ (under.holds stored))
  | reaps =>
    exact ⟨sound, under.same, fun stored =>
      under.holds (coroutine?_reap under.sound.ordered stored).1⟩

theorem Under.afterAll (kept : Coroutine.KeptUnder evaluator P) (under : s.Under evaluator P)
    (calls : List Call) : (s.afterAll calls).Under evaluator P := by
  induction calls generalizing s with
  | nil => exact under
  | cons call rest ih => exact ih (under.after kept call)

theorem Under.empty (P : Stack → Prop) (maxFrames sliceSteps : Nat) (evaluator : Evaluator) :
    (empty maxFrames sliceSteps evaluator).Under evaluator P where
  sound := .empty _ maxFrames sliceSteps evaluator
  same := rfl
  holds stored := by cases stored

theorem Under.of_shows (kept : Coroutine.KeptUnder evaluator P) (under : s.Under evaluator P)
    {co : Coroutine} (shows_ : s.Shows co) : P co.stack := by
  cases shows_ with
  | stored stored => exact under.holds stored
  | passing takes passes =>
    have holds := under.holds takes.coroutine
    exact kept.passes under.same passes
      (.started (under.sound.driven takes.coroutine) takes.ready) holds

end Scheduler
end MarkupMachine
