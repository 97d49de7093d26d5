import MarkupMachine.Proofs.Host.Rounds

/-! A host that starts with one wait in the outbox for each coroutine that waits, and no timer in
flight: whatever the renderer answers and in whatever order timers report, each completion comes to
the coroutine that waits for it, and each coroutine is handed back once. -/

namespace MarkupMachine

variable {σ : Type}

/-- The answers of a renderer to some requests, one call for each in their order, and its state
after them. -/
def Bridge.answers (bridge : Bridge σ) (limit : Duration) :
    List Request → σ → List (Except Refusal Response) × σ
  | [], state => ([], state)
  | request :: rest, state =>
    let (answer, state) := bridge.answer limit request state
    let (answers, state) := bridge.answers limit rest state
    (answer :: answers, state)

namespace Host

variable {bridge : Bridge σ} {h : Host σ} {issued : List Nat} {returned : List Finished}
  {outbox : List (Nat × Wait)}

def requestsOf : List (Nat × Wait) → List (Nat × Request)
  | [] => []
  | (id, .renderer request) :: rest => (id, request) :: requestsOf rest
  | (_, .timer _) :: rest => requestsOf rest

/-- A coroutine that waited for the answer to a request has got it. -/
def Answered (before after : Scheduler) (asked : Nat × Request)
    (answer : Except Refusal Response) : Prop :=
  ∃ co, before.coroutine? asked.1 = some co ∧ co.state = .waiting ∧
    co.awaited? = some (.renderer asked.2) ∧
    after.coroutine? asked.1 = some (co.resumeWith (.ofAnswer answer)) ∧
    (co.resumeWith (.ofAnswer answer)).state = .ready

theorem Tends.serves_others (tends : h.Tends issued returned outbox) (bridge : Bridge σ) {id : Nat}
    {co : Coroutine} (stored : h.scheduler.coroutine? id = some co) (awake : co.state ≠ .waiting) :
    (outbox.foldl (Host.serve bridge) h).scheduler.coroutine? id = some co := by
  induction outbox generalizing h with
  | nil => exact stored
  | cons wait outbox ih =>
    obtain ⟨other, after | request⟩ := wait
    · exact ih (tends.serve bridge) stored
    · obtain ⟨waiter, next, arrives⟩ :=
        tends.arrives (.ofAnswer (bridge.answer h.limit request h.renderer).1)
      refine ih (tends.serve bridge) ?_
      rw [serve_renderer]
      refine (congrArg (·.coroutine? id) arrives.after_eq).trans ?_
      refine (arrives.others id fun same => ?_).trans stored
      subst same
      cases stored.symm.trans arrives.stored
      exact awake arrives.waiting

theorem Tends.answers (tends : h.Tends issued returned outbox) (bridge : Bridge σ) :
    (outbox.foldl (Host.serve bridge) h).renderer =
      (bridge.answers h.limit ((requestsOf outbox).map (·.2)) h.renderer).2 ∧
    List.Forall₂ (Answered h.scheduler (outbox.foldl (Host.serve bridge) h).scheduler)
      (requestsOf outbox)
      (bridge.answers h.limit ((requestsOf outbox).map (·.2)) h.renderer).1 := by
  induction outbox generalizing h with
  | nil => exact ⟨rfl, .nil⟩
  | cons wait outbox ih =>
    obtain ⟨id, after | request⟩ := wait
    · exact ih (tends.serve bridge)
    · obtain ⟨co, next, arrives⟩ :=
        tends.arrives (.ofAnswer (bridge.answer h.limit request h.renderer).1)
      let served := h.serve bridge (id, .renderer request)
      have later : served.Tends issued returned outbox := tends.serve bridge
      have scheduler : served.scheduler = next := by
        simp only [served, serve_renderer]
        exact arrives.after_eq
      have kept : served.limit = h.limit ∧
          served.renderer = (bridge.answer h.limit request h.renderer).2 := by
        simp only [served, serve_renderer, and_self]
      obtain ⟨renderer, answered⟩ := ih later
      have resumed := later.serves_others bridge (scheduler ▸ arrives.resumed)
        (by simp [arrives.ready])
      rw [kept.1, kept.2] at renderer answered
      rw [scheduler] at answered
      refine ⟨renderer, .cons ?_ (answered.imp fun asked answer => ?_)⟩
      · exact ⟨co, arrives.stored, arrives.waiting, arrives.awaited, resumed, arrives.ready⟩
      -- whoever waits after the first answer is another one
      · rintro ⟨other, stored, waiting, rest⟩
        refine ⟨other, (arrives.others asked.1 fun same => ?_) ▸ stored, waiting, rest⟩
        rw [same, arrives.resumed] at stored
        cases stored
        simp [arrives.ready] at waiting

/-- What is to know about the loop of a host that starts somewhere: what it counts, who gets the
answers of the renderer and the reports of timers, and that it comes to an end, with everybody who
was there handed back once. -/
structure FinishesAll (bridge : Bridge σ) (start : Host σ) : Prop where
  inFlight : ∀ p, Reaches bridge (.turning start) p → p.host.inFlight = p.host.timers.length
  pending : ∀ p id, Reaches bridge (.turning start) p →
    (p.host.timers.map (·.coroutine)).count id + (p.left.map (·.1)).count id +
      (p.host.scheduler.outbox.map (·.1)).count id =
    if (p.host.scheduler.coroutine? id).any (·.state == .waiting) then 1 else 0
  served : ∀ h id, Reaches bridge (.turning start) (.serving [] h) →
    (h.timers.map (·.coroutine)).count id =
      if (h.scheduler.coroutine? id).any (·.state == .waiting) then 1 else 0
  answers : ∀ id request outbox h,
    Reaches bridge (.turning start) (.serving ((id, .renderer request) :: outbox) h) →
    ∃ co next, Arrives h.scheduler id (.renderer request)
      (.ofAnswer (bridge.answer h.limit request h.renderer).1) co next
  reports : ∀ h t, Reaches bridge (.turning start) (.listening h) ∨
      Reaches bridge (.turning start) (.draining h) → t ∈ h.timers →
    ∃ d co next, Arrives h.scheduler t.coroutine (.timer d) .timer co next
  responses : ∀ id request outbox h response,
    Reaches bridge (.turning start) (.serving ((id, .renderer request) :: outbox) h) →
    (bridge.answer h.limit request h.renderer).1 = .ok response →
    ∃ co next, Arrives h.scheduler id (.renderer request) (.renderer response) co next
  refusals : ∀ refusal : Refusal, ∃ category,
    Completion.ofAnswer (.error refusal) = .failed (.raised category refusal.message) ∧
    (category = .timeout ∧ (∃ limit, refusal = .timeout limit) ∨
      category = .serverRefused ∧ ∀ limit, refusal ≠ .timeout limit)
  calls : ∀ h, Reaches bridge (.turning start) (.turning h) →
    Reaches bridge (.turning h) (.serving [] (h.turn.1.foldl (Host.serve bridge) h.turn.2)) ∧
    (h.turn.1.foldl (Host.serve bridge) h.turn.2).renderer =
      (bridge.answers h.limit ((requestsOf h.turn.1).map (·.2)) h.renderer).2 ∧
    List.Forall₂
      (Answered h.turn.2.scheduler (h.turn.1.foldl (Host.serve bridge) h.turn.2).scheduler)
      (requestsOf h.turn.1)
      (bridge.answers h.limit ((requestsOf h.turn.1).map (·.2)) h.renderer).1
  goes_on : ∀ p, Reaches bridge (.turning start) p →
    (∃ h, p = .returned h) ∨ ∃ q, Moves bridge p q
  halts : Halts bridge (.turning start)
  returns : ∀ h, Reaches bridge (.turning start) (.returned h) →
    h.inFlight = 0 ∧ h.scheduler.coroutines = [] ∧
    ∀ id, (h.finished.map (·.id)).count id = if (start.scheduler.coroutine? id).isSome then 1 else 0
  run : ∀ clock, Reaches bridge (.turning start) (.returned (start.run bridge clock))

theorem exists_category (refusal : Refusal) : ∃ category,
    Completion.ofAnswer (.error refusal) = .failed (.raised category refusal.message) ∧
    (category = .timeout ∧ (∃ limit, refusal = .timeout limit) ∨
      category = .serverRefused ∧ ∀ limit, refusal ≠ .timeout limit) := by
  refine ⟨refusal.category, rfl, ?_⟩
  cases refusal with
  | timeout limit => exact .inl ⟨rfl, limit, rfl⟩
  | disconnected | refused => exact .inr ⟨rfl, fun _ => by simp⟩

theorem Phase.Kept.count_timers (kept : (Phase.serving [] h).Kept issued returned) (id : Nat) :
    (h.timers.map (·.coroutine)).count id =
      if (h.scheduler.coroutine? id).any (·.state == .waiting) then 1 else 0 := by
  rw [← kept.1.count_eq id, kept.2]
  rfl

theorem Tends.count_finished {start : Scheduler} (tends : h.Tends issued returned [])
    (begun : Scheduler.Orderly issued returned start) (none : h.scheduler.coroutines = [])
    (id : Nat) :
    (h.finished.map (·.id)).count id = if (start.coroutine? id).isSome then 1 else 0 := by
  have nobody : h.scheduler.coroutine? id = .none := by rw [Scheduler.coroutine?, none]; rfl
  have before := begun.accounted.once id
  have after := tends.orderly.accounted.once id
  rw [List.map_append, List.count_append, before, nobody] at after
  cases stored : start.coroutine? id with
  | none => simpa [stored] using after
  | some co =>
    have given := begun.accounted.given stored
    simpa [stored, given] using after

def nap : Tree :=
  .element { tag := "sleep", attributes := [{
    name := "for", value := some (.literal (.text "5ms")) }] } []

/-- One coroutine sleeps, and another one waits for a renderer. -/
def drowsy : Host (List Request) where
  scheduler :=
    (((Scheduler.empty 2 8).after (.spawn 0 nap)).after (.spawn 1 Scheduler.ping)).runUntilIdle.2
  renderer := []
  limit := .ofMilliseconds 1000
  present := 0

theorem drowsy_posted : drowsy.scheduler.Posted := by
  obtain ⟨a, b, coroutines, first, second⟩ : ∃ a b,
      drowsy.scheduler.coroutines = [(1, a), (2, b)] ∧ a.state = .waiting ∧ b.state = .waiting :=
    ⟨_, _, rfl, rfl, rfl⟩
  have outbox : drowsy.scheduler.outbox.map (·.1) = [1, 2] := by decide +kernel
  intro id
  rw [outbox, Scheduler.coroutine?, coroutines]
  by_cases one : id = 1
  · simp [one, Table.get?, first]
  · by_cases two : id = 2
    · simp [two, Table.get?, second]
    · simp [one, two, Table.get?, Ne.symm one, Ne.symm two]

end Host
end MarkupMachine
