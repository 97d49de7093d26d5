import MarkupMachine.Proofs.Scheduler.Lifecycle

/-! What a call leaves alone. One that is refused leaves everything as it is; a coroutine that is
cancelled takes its own waits with it, and nothing meant for it later comes through to anyone. -/

namespace MarkupMachine

theorem Document.exists_of_rootElement? {doc : Document} {root : NodeId}
    (rooted : doc.rootElement? = some root) : ∃ el, doc.element? root = some el := by
  have element := List.find?_some rooted
  exact Option.isSome_iff_exists.mp element

namespace Scheduler

inductive Refuses (s : Scheduler) : Call → Fault → Prop where
  | spawn {document tree doc fault} : Document.ofTree? document tree = some doc →
    s.spawn doc = .error fault → s.Refuses (.spawn document tree) fault
  | deliver {id c fault} : s.deliver id c = .error fault → s.Refuses (.deliver id c) fault
  | cancel {id fault} : s.cancel id = .error fault → s.Refuses (.cancel id) fault

variable {s : Scheduler} {id : Nat} {co : Coroutine} {call : Call} {fault : Fault}

theorem Refuses.after_eq (refuses : s.Refuses call fault) : s.after call = s := by
  cases refuses with
  | spawn made refused => simp only [after, made, refused]
  | deliver refused | cancel refused => simp only [after, refused]

theorem spawn_eq_error_iff (s : Scheduler) (doc : Document) (fault : Fault) :
    s.spawn doc = .error fault ↔ doc.rootElement? = none ∧ fault = .noRootElement ∨
      doc.rootElement? ≠ none ∧ s.maxFrames = 0 ∧ fault = .stackOverflow 0 := by
  cases rooted : doc.rootElement? with
  | none => simp [spawn, rooted, eq_comm]
  | some root =>
    obtain ⟨el, element⟩ := Document.exists_of_rootElement? rooted
    rw [spawn_eq s rooted element]
    by_cases none : s.maxFrames = 0 <;> simp [none, eq_comm]

theorem deliver_eq_error_iff (s : Scheduler) (id : Nat) (c : Completion) (fault : Fault) :
    s.deliver id c = .error fault ↔ s.coroutine? id = none ∧ fault = .unknownCoroutine id ∨
      ∃ co, s.coroutine? id = some co ∧ co.state ≠ .waiting ∧ fault = .notWaiting id := by
  cases stored : s.coroutine? id with
  | none => simp [deliver, stored, eq_comm]
  | some co =>
    by_cases waiting : co.state = .waiting
    · simp [deliver, stored, waiting]
    · simp only [deliver, stored, ne_eq, waiting, not_false_eq_true, if_true, Except.error.injEq,
        Option.some.injEq, exists_eq_left', true_and, reduceCtorEq, false_and, false_or]
      exact eq_comm

theorem cancel_eq_error_iff (s : Scheduler) (id : Nat) (fault : Fault) :
    s.cancel id = .error fault ↔ s.coroutine? id = none ∧ fault = .unknownCoroutine id := by
  cases stored : s.coroutine? id with
  | none => simp [cancel, stored, eq_comm]
  | some co => cases ended : co.isTerminated <;> simp [cancel, stored, ended]

structure Cancels (s : Scheduler) (id : Nat) (next : Scheduler) (co : Coroutine) : Prop where
  stored : next.coroutine? id = some co
  outcome : co.outcome = some .cancelled
  frames : co.stack.frames = []
  ended : co.state = .terminated ∧ co.waits = 0 ∧ co.pending = []
  outbox : next.outbox = s.outbox.filter fun entry => entry.1 != id
  others : ∀ other, other ≠ id → next.coroutine? other = s.coroutine? other
  rest : { next with coroutines := s.coroutines, outbox := s.outbox } = s

theorem Sound.cancels {admits : Coroutine → Completion → Prop} (sound : s.Sound admits)
    (stored : s.coroutine? id = some co) (alive : co.isTerminated = false) :
    ∃ next, s.cancel id = .ok next ∧ s.Cancels id next (co.terminate .cancelled) := by
  have own : (co.terminate .cancelled).id = id :=
    (Coroutine.unwound_terminate .cancelled co).id.trans (sound.own stored)
  have ended := Coroutine.ended_terminate .cancelled co
  refine ⟨_, cancel_eq stored alive, ?_, rfl, ended.frames,
    ⟨ended.state, ended.waits, ended.pending⟩, rfl, fun other apart => ?_, rfl⟩
  · exact (coroutine?_put _ _ _).trans (if_pos own.symm)
  · exact (coroutine?_put _ _ _).trans (if_neg (own ▸ apart))

/-- What calls keep of a number whose coroutine has ended: it is in the table, or was handed back by
one of them, and none of them gave the number out again. -/
structure Spent (co : Coroutine) (id : Nat) (issued : List Nat) (returned : List Finished)
    (s : Scheduler) : Prop where
  sound : s.Sound fun _ _ => True
  below : id < s.nextId
  kept : id ∉ returned.map (·.id) → s.coroutine? id = some co
  gone : id ∈ returned.map (·.id) → s.coroutine? id = none
  fresh : id ∉ issued

variable {issued : List Nat} {returned : List Finished}

theorem not_mem_issuedBy (below : id < s.nextId) (call : Call) : id ∉ s.issuedBy call := by
  cases call with
  | spawn document tree =>
    rcases s.spawn_cases document tree with ⟨nobody, _⟩ | ⟨_, _, one, _⟩
    · simp [nobody]
    · simp [one, Nat.ne_of_lt below]
  | _ => simp [issuedBy]

theorem Sound.absent_after {admits : Coroutine → Completion → Prop} (sound : s.Sound admits)
    (below : id < s.nextId) (absent : s.coroutine? id = none) (call : Call) :
    (s.after call).coroutine? id = none := by
  by_cases spawn : ∃ document tree, call = .spawn document tree
  · obtain ⟨document, tree, rfl⟩ := spawn
    rcases s.spawn_cases document tree with ⟨_, same⟩ | ⟨co, own, _, coroutines, _⟩
    · rw [same, absent]
    · rw [coroutine?_of_put coroutines, own, if_neg (Nat.ne_of_lt below), absent]
  · by_cases reap : call = .reap
    · rw [reap, Scheduler.after, reap_eq sound.ordered, absent]
      rfl
    · have silent := sound.coroutine?_after_eq_none
        (fun document tree same => spawn ⟨document, tree, same⟩) reap
      exact (silent.2 id).mpr absent

theorem Spent.after (spent : Spent co id issued returned s) (ended : co.isTerminated = true)
    (call : Call) :
    Spent co id (issued ++ s.issuedBy call) (returned ++ s.returnedBy call) (s.after call) := by
  have sound := spent.sound
  have state : co.state = .terminated := by simpa [Coroutine.isTerminated] using ended
  have reaped (stored : s.coroutine? id = some co) : id ∈ s.reap.1.map (·.id) := by
    have own : (finished co).id = id := sound.own stored
    exact List.mem_map.mpr ⟨_, (mem_reap_iff sound _).mpr ⟨co, own ▸ stored, ended, rfl⟩, own⟩
  refine ⟨sound.after (grantsAll_true s [call]).1,
    Nat.lt_of_lt_of_le spent.below (sound.nextId_le call), fun unreturned => ?_, fun mem => ?_,
    fun mem => ?_⟩
  · rw [List.map_append, List.mem_append, not_or] at unreturned
    have stored := spent.kept unreturned.1
    refine sound.stays stored (by simp [state]) (fun _ _ => by simp [state]) (fun _ => ended) ?_
    rintro rfl
    exact absurd (reaped stored) unreturned.2
  · by_cases before : id ∈ returned.map (·.id)
    · exact sound.absent_after spent.below (spent.gone before) call
    · rw [List.map_append, List.mem_append] at mem
      have now := mem.resolve_left before
      cases call with
      | reap =>
        simp [Scheduler.after, reap_eq sound.ordered, spent.kept before, ended, Option.filter]
      | _ => simp [returnedBy] at now
  · rcases List.mem_append.mp mem with mem | mem
    · exact spent.fresh mem
    · exact not_mem_issuedBy spent.below call mem

theorem Spent.runUntilIdle (spent : Spent co id issued returned s)
    (ended : co.isTerminated = true) : Spent co id issued returned s.runUntilIdle.2 := by
  refine runTurns_keeps (fun s spent => ?_) s.turnBound spent
  have next := spent.after ended .step
  simpa only [issuedBy, returnedBy, List.append_nil] using next

/-- Whatever comes after the end of a coroutine. -/
theorem Spent.of_history {start : Scheduler} (sound : start.Sound fun _ _ => True)
    (stored : start.coroutine? id = some co) (ended : co.isTerminated = true)
    (history : History start issued returned s) : Spent co id issued returned s := by
  induction history with
  | start => exact ⟨sound, sound.below stored, fun _ => stored, fun mem => (nomatch mem),
      fun mem => (nomatch mem)⟩
  | call call _ ih => exact ih.after ended call
  | runUntilIdle _ ih => exact ih.runUntilIdle ended

/-- A completion for a coroutine that has ended comes too late. The coroutine keeps what it ended
with until it is handed back, and no other gets its number; so nobody is there to take it. -/
structure TooLate (co : Coroutine) (id : Nat) (issued : List Nat) (returned : List Finished)
    (s : Scheduler) : Prop where
  kept : id ∉ returned.map (·.id) → s.coroutine? id = some co
  gone : id ∈ returned.map (·.id) → s.coroutine? id = none
  fresh : id ∉ issued
  refused : ∀ c, s.deliver id c =
    .error (if id ∈ returned.map (·.id) then .unknownCoroutine id else .notWaiting id)
  unchanged : ∀ c, s.after (.deliver id c) = s

theorem Spent.tooLate (spent : Spent co id issued returned s) (ended : co.isTerminated = true) :
    TooLate co id issued returned s := by
  have refused (c : Completion) : s.deliver id c =
      .error (if id ∈ returned.map (·.id) then .unknownCoroutine id else .notWaiting id) := by
    rw [deliver_eq_error_iff]
    by_cases mem : id ∈ returned.map (·.id)
    · exact .inl ⟨spent.gone mem, if_pos mem⟩
    · have state : co.state = .terminated := by simpa [Coroutine.isTerminated] using ended
      exact .inr ⟨co, spent.kept mem, by simp [state], if_neg mem⟩
  exact ⟨spent.kept, spent.gone, spent.fresh, refused,
    fun c => (Refuses.deliver (refused c)).after_eq⟩

structure TouchesOnly (s : Scheduler) : Prop where
  spawn : ∀ doc fault, s.spawn doc = .error fault ↔
    doc.rootElement? = none ∧ fault = .noRootElement ∨
      doc.rootElement? ≠ none ∧ s.maxFrames = 0 ∧ fault = .stackOverflow 0
  deliver : ∀ id c fault, s.deliver id c = .error fault ↔
    s.coroutine? id = none ∧ fault = .unknownCoroutine id ∨
      ∃ co, s.coroutine? id = some co ∧ co.state ≠ .waiting ∧ fault = .notWaiting id
  cancel : ∀ id fault, s.cancel id = .error fault ↔
    s.coroutine? id = none ∧ fault = .unknownCoroutine id
  refused : ∀ call fault, s.Refuses call fault → s.after call = s
  ended : ∀ id co, s.coroutine? id = some co → co.isTerminated = true → s.cancel id = .ok s
  cancelled : ∀ id co, s.coroutine? id = some co → co.isTerminated = false →
    ∃ next co', s.cancel id = .ok next ∧ s.Cancels id next co' ∧
      ∀ issued returned later, History next issued returned later →
        TooLate co' id issued returned later

/-- Whatever a scheduler has been through, a call that fails changes nothing, and a cancellation
changes what it names. -/
theorem calls_touch_only {maxFrames sliceSteps : Nat} {evaluator : Evaluator}
    (history : History (empty maxFrames sliceSteps evaluator) issued returned s) :
    TouchesOnly s := by
  have sound := history.orderly.sound
  refine ⟨s.spawn_eq_error_iff, s.deliver_eq_error_iff, s.cancel_eq_error_iff,
    fun _ _ refuses => refuses.after_eq, fun _ _ => cancel_ended, fun id co stored alive => ?_⟩
  obtain ⟨next, done, cancels⟩ := sound.cancels stored alive
  have ended : (co.terminate .cancelled).isTerminated = true := by
    simp [Coroutine.isTerminated, cancels.ended]
  have same : s.after (.cancel id) = next := by simp only [after, done]
  have begun : next.Sound fun _ _ => True := same ▸ sound.after (grantsAll_true s [.cancel id]).1
  refine ⟨next, _, done, cancels, fun issued returned later history => ?_⟩
  exact (Spent.of_history begun cancels.stored ended history).tooLate ended

/-- Two coroutines wait for an answer each. -/
def expecting : Scheduler :=
  (((empty 1 8).after (.spawn 0 ping)).after (.spawn 1 ping)).runUntilIdle.2

theorem calls_touch_only_expecting :
    History (empty 1 8) [1, 2] [] expecting ∧ TouchesOnly expecting := by
  have first : (empty 1 8).issuedBy (.spawn 0 ping) = [1] := by decide +kernel
  have second : ((empty 1 8).after (.spawn 0 ping)).issuedBy (.spawn 1 ping) = [2] := by
    decide +kernel
  have history : History (empty 1 8) _ _ expecting :=
    .runUntilIdle (.call (.spawn 1 ping) (.call (.spawn 0 ping) .start))
  rw [first, second] at history
  exact ⟨history, calls_touch_only history⟩

/-- The wait of the first goes with it, and that of the second stays. -/
example : expecting.outbox.map (·.1) = [1, 2] ∧
    (expecting.after (.cancel 1)).outbox.map (·.1) = [2] := by decide +kernel

end Scheduler
end MarkupMachine
