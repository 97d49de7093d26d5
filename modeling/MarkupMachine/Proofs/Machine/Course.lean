import MarkupMachine.Proofs.Machine.Guise

/-! What a coroutine does when nothing but its own steps and its completions are looked at: where
the slices end and what else runs is left out. From one state and with the same completions there is
one course to take, and coroutines in disguise take the same one. -/

namespace MarkupMachine.Coroutine

def asking (co : Coroutine) : List Wait := if co.state = .waiting then co.pending else []

/-- A coroutine comes to a state by its steps, with completions for its waits, which it asks for on
the way. A fault ends it. -/
inductive Course (env : Environment) :
    List Completion → List Wait → Coroutine → Coroutine → Prop
  | here {co} : Course env [] [] co co
  | step {cs ws} {co next last : Coroutine} : co.state = .running → co.step env = (next, none) →
    Course env cs ws next last → Course env cs (next.asking ++ ws) co last
  | fail {co next : Coroutine} {fault : Fault} : co.state = .running →
    co.step env = (next, some fault) →
    Course env [] [] co (next.terminate (.fatal fault.message))
  | answer {c cs ws} {co last : Coroutine} : co.state = .waiting →
    Course env cs ws (co.answered c) last → Course env (c :: cs) ws co last

variable {admits : Coroutine → Completion → Prop} {env other : Environment}
  {cs ds : List Completion} {ws vs : List Wait} {co mid last end_ twin : Coroutine}

theorem asking_of_ne {co : Coroutine} (h : co.state ≠ .waiting) : co.asking = [] := if_neg h

/-- A coroutine that is under way: it is in its turn, or has stopped. -/
structure Onward (co : Coroutine) : Prop where
  driven : Driven (fun _ _ => True) co
  awake : co.state ≠ .ready
  asked : co.state = .running → co.asked = []

theorem state_of_transition (running : co.state = .running) (rule : Transition env co last) :
    last.state ≠ .ready := by
  cases rule with
  | completes =>
    rw [(ended_complete rfl).state]
    simp
  | asks => exact fun h => nomatch h
  | _ => exact fun h => nomatch running.symm.trans h

theorem driven_answered (driven : Driven (fun _ _ => True) co) (waiting : co.state = .waiting)
    (c : Completion) : Driven (fun _ _ => True) (co.answered c) := by
  obtain ⟨_, _, _, _, _, suspended⟩ :=
    (driven.live (by simp [waiting])).exists_suspended waiting
  have still : co.filed.state = .waiting := waiting
  have handed : co.filed.pending = [] := by simp [filed, waiting]
  have once : co.filed.waits = 1 := suspended.waits
  exact .started (.resumed driven.filed still handed trivial) (by
    simp [resumeWith, once])

theorem Onward.answered (onward : co.Onward) (waiting : co.state = .waiting) (c : Completion) :
    (co.answered c).Onward :=
  ⟨driven_answered onward.driven waiting c, by simp [Coroutine.answered], fun _ => rfl⟩

namespace Course

theorem stopped (course : Course env [] ws co last) (stopped : co.state ≠ .running) :
    ws = [] ∧ last = co := by
  cases course with
  | here => exact ⟨rfl, rfl⟩
  | step running => exact absurd running stopped
  | fail running => exact absurd running stopped

theorem trans (first : Course env cs ws co mid) (second : Course env ds vs mid last) :
    Course env (cs ++ ds) (ws ++ vs) co last := by
  induction first with
  | here => exact second
  | step running step _ ih =>
    rw [List.append_assoc]
    exact .step running step (ih second)
  | @fail _ next fault running failed =>
    -- A coroutine that has failed has no way to go on.
    have ended := (ended_terminate (.fatal fault.message) next).state
    cases second with
    | here => exact .fail running failed
    | step running | fail running => exact absurd (running.symm.trans ended) (by simp)
    | answer waiting => exact absurd (waiting.symm.trans ended) (by simp)
  | answer waiting _ ih => exact .answer waiting (ih second)

/-- Of two ways with the same completions one goes on where the other ends. -/
theorem compare (first : Course env cs ws co last) (second : Course env cs vs co end_) :
    (∃ more, Course env [] more last end_ ∧ vs = ws ++ more) ∨
      ∃ more, Course env [] more end_ last ∧ ws = vs ++ more := by
  induction first generalizing vs with
  | here => exact .inl ⟨vs, second, rfl⟩
  | step running step later ih =>
    cases second with
    | here => exact .inr ⟨_, .step running step later, rfl⟩
    | step _ again rest =>
      cases step.symm.trans again
      rcases ih rest with ⟨more, way, eq⟩ | ⟨more, way, eq⟩
      · exact .inl ⟨more, way, by rw [eq, List.append_assoc]⟩
      · exact .inr ⟨more, way, by rw [eq, List.append_assoc]⟩
    | fail _ failed => cases step.symm.trans failed
    | answer waiting => exact absurd (running.symm.trans waiting) (by simp)
  | fail running failed =>
    cases second with
    | here => exact .inr ⟨[], .fail running failed, rfl⟩
    | step _ step => cases failed.symm.trans step
    | fail _ again =>
      cases failed.symm.trans again
      exact .inl ⟨[], .here, rfl⟩
  | answer waiting _ ih =>
    cases second with
    | step running => exact absurd (running.symm.trans waiting) (by simp)
    | answer _ rest => exact ih rest

theorem exists_waiting {c : Completion} (course : Course env (c :: cs) ws co last) :
    ∃ mid first later, Course env [] first co mid ∧ mid.state = .waiting ∧
      Course env cs later (mid.answered c) last ∧ ws = first ++ later := by
  generalize all : c :: cs = ds at course
  induction course with
  | here => cases all
  | step running step _ ih =>
    obtain ⟨mid, first, later, way, waiting, rest, eq⟩ := ih all
    exact ⟨mid, _, later, .step running step way, waiting, rest, by rw [eq, List.append_assoc]⟩
  | fail => cases all
  | answer waiting rest =>
    cases all
    exact ⟨_, [], _, .here, waiting, rest, rfl⟩

theorem onward (course : Course env cs ws co last) (standard : env.evaluator = .standard)
    (onward : co.Onward) : last.Onward := by
  induction course with
  | here => exact onward
  | step running step _ ih =>
    have driven := onward.driven
    obtain ⟨_, _, _, asked, _⟩ := (Akin.refl _).step driven running (.refl standard _) step
    have rule := (driven.live (by simp [running])).transition_of_step running step
    exact ih ⟨.stepped driven running step, state_of_transition running rule,
      fun _ => asked.trans (onward.asked running)⟩
  | @fail _ next fault running failed =>
    have ended := (ended_terminate (.fatal fault.message) next).state
    exact ⟨.failed onward.driven running failed, by simp [ended], by simp [ended]⟩
  | answer waiting _ ih => exact ih (onward.answered waiting _)

theorem document (course : Course env cs ws co last) (driven : Driven (fun _ _ => True) co) :
    last.stack.document = co.stack.document := by
  induction course with
  | here => rfl
  | step running step _ ih =>
    have rule := (driven.live (by simp [running])).transition_of_step running step
    exact (ih (.stepped driven running step)).trans (kin_of_transition rule).document
  | fail running failed =>
    have rule := (driven.live (by simp [running])).fails_of_step running failed
    exact (unwound_terminate _ _).document.trans (kin_of_fails rule).document
  | answer waiting _ ih => exact ih (driven_answered driven waiting _)

theorem akin (course : Course env cs ws co last) (driven : Driven (fun _ _ => True) co)
    (akin : co.Akin twin)
    (alike : env.Alike other co.stack.document.number twin.stack.document.number)
    (same : ds.map (·.anonymous) = cs.map (·.anonymous)) :
    ∃ vs after, Course other ds vs twin after ∧ last.Akin after ∧
      vs.map (·.anonymous) = ws.map (·.anonymous) := by
  induction course generalizing twin ds with
  | here =>
    obtain rfl := List.map_eq_nil_iff.mp same
    exact ⟨[], twin, .here, akin, rfl⟩
  | step running step _ ih =>
    obtain ⟨next, again, near, _, own, number⟩ := akin.step driven running alike step
    obtain ⟨vs, after, way, met, waits⟩ := ih (.stepped driven running step) near
      (by rw [own, number]; exact alike) same
    refine ⟨next.asking ++ vs, after, .step (akin.state.trans running) again way, met, ?_⟩
    rw [List.map_append, List.map_append, waits, asking, asking, near.state]
    split
    · rw [near.pending]
    · rfl
  | fail running failed =>
    obtain rfl := List.map_eq_nil_iff.mp same
    obtain ⟨next, again, near, _⟩ := akin.step driven running alike failed
    exact ⟨[], _, .fail (akin.state.trans running) again, near.terminate _, rfl⟩
  | answer waiting _ ih =>
    obtain ⟨d, rest, rfl, first, others⟩ := List.map_eq_cons_iff.mp same
    obtain ⟨vs, after, way, met, waits⟩ := ih (driven_answered driven waiting _)
      (akin.answered waiting first) alike others
    exact ⟨vs, after, .answer (akin.state.trans waiting) way, met, waits⟩

end Course

end MarkupMachine.Coroutine
