import MarkupMachine.Renderer.Bridge
import MarkupMachine.Scheduler

/-! The host of a scheduler: it runs what is ready, starts timers and calls the renderer for the
waits in the outbox, and goes on until no timer is in flight that could wake anything up. -/

namespace MarkupMachine

structure Timer where
  coroutine : Nat
  due : Nat
  deriving DecidableEq, Repr

/-- Which of the timers report next; of some timers at least one does. -/
structure Clock where
  reports : List Timer → List Timer × List Timer
  keeps : ∀ ts, ((reports ts).1 ++ (reports ts).2).Perm ts
  advances : ∀ ts, ts ≠ [] → (reports ts).1 ≠ []

def splitBy {α : Type} (p : α → Bool) : List α → List α × List α
  | [] => ([], [])
  | a :: rest =>
    let (yes, no) := splitBy p rest
    if p a then (a :: yes, no) else (yes, a :: no)

theorem splitBy_perm {α : Type} (p : α → Bool) (xs : List α) :
    ((splitBy p xs).1 ++ (splitBy p xs).2).Perm xs := by
  induction xs with
  | nil => exact .nil
  | cons a rest ih =>
    by_cases h : p a
    · simpa [splitBy, h] using ih
    · simpa [splitBy, h] using (List.perm_middle.trans (ih.cons a))

theorem mem_splitBy {α : Type} (p : α → Bool) {xs : List α} {a : α} (mem : a ∈ xs)
    (h : p a = true) : a ∈ (splitBy p xs).1 := by
  induction xs with
  | nil => cases mem
  | cons b rest ih =>
    rcases List.mem_cons.mp mem with rfl | mem
    · simp [splitBy, h]
    · by_cases hb : p b <;> simp [splitBy, hb, ih mem]

def earliest : List Timer → Nat
  | [] => 0
  | [t] => t.due
  | t :: rest => min t.due (earliest rest)

theorem exists_due_earliest {ts : List Timer} (h : ts ≠ []) : ∃ t ∈ ts, t.due = earliest ts := by
  induction ts with
  | nil => exact absurd rfl h
  | cons t rest ih =>
    cases rest with
    | nil => exact ⟨t, by simp, rfl⟩
    | cons u rest =>
      obtain ⟨v, mem, due⟩ := ih (by simp)
      by_cases le : t.due ≤ earliest (u :: rest)
      · exact ⟨t, by simp, by simp [earliest, Nat.min_eq_left le]⟩
      · refine ⟨v, List.mem_cons_of_mem _ mem, ?_⟩
        have lt : earliest (u :: rest) ≤ t.due := by omega
        simp [earliest, due, Nat.min_eq_right lt]

def Clock.jumping : Clock where
  reports ts := splitBy (fun t => t.due == earliest ts) ts
  keeps ts := splitBy_perm _ ts
  advances ts h := by
    obtain ⟨t, mem, due⟩ := exists_due_earliest h
    exact List.ne_nil_of_mem (mem_splitBy _ mem (by simp [due]))

/-- The last moment of the calendar, in milliseconds from its beginning in 1970. -/
def calendarEnd : Nat := 8210266876799999

def Duration.withinCalendar (present : Nat) (d : Duration) : Bool :=
  d.nanoseconds / 1000000 < UInt64.size / 2 &&
    d.nanoseconds ≤ (calendarEnd + 1 - present) * 1000000 - 1

/-- How many milliseconds a timer takes. A part of one counts in full, and a timer that is not due
within the calendar takes what is left of it. -/
def Duration.ticks (present : Nat) (d : Duration) : Nat :=
  if d.withinCalendar present then (d.nanoseconds + 999999) / 1000000 else calendarEnd + 1 - present

def Completion.ofAnswer : Except Refusal Response → Completion
  | .ok response => .renderer response
  | .error refusal => .failed refusal.toException

/-- `present` is the moment of the calendar at which the run starts; `now` counts the milliseconds
of its timers since then, which take no time of the calendar. `inFlight` counts the timers that have
not reported yet. -/
structure Host (σ : Type) where
  scheduler : Scheduler
  renderer : σ
  limit : Duration
  present : Nat
  timers : List Timer := []
  inFlight : Nat := 0
  now : Nat := 0
  finished : List Finished := []

namespace Host

variable {σ : Type}

/-- Delivers a completion; nobody waits for one that fails to arrive. -/
def complete (id : Nat) (completion : Completion) (h : Host σ) : Host σ :=
  match h.scheduler.deliver id completion with
  | .ok scheduler => { h with scheduler }
  | .error _ => h

def serve (bridge : Bridge σ) (h : Host σ) (wait : Nat × Wait) : Host σ :=
  match wait with
  | (id, .timer after) =>
    { h with
      timers := h.timers ++ [⟨id, h.now + after.ticks h.present⟩], inFlight := h.inFlight + 1 }
  | (id, .renderer request) =>
    let (answer, renderer) := bridge.answer h.limit request h.renderer
    { h with renderer }.complete id (.ofAnswer answer)

def turn (h : Host σ) : List (Nat × Wait) × Host σ :=
  let (_, scheduler) := h.scheduler.runUntilIdle
  let (outbox, scheduler) := scheduler.takeOutbox
  (outbox, { h with scheduler })

def reap (h : Host σ) : Host σ :=
  let (ended, scheduler) := h.scheduler.reap
  { h with scheduler, finished := h.finished ++ ended }

def round (bridge : Bridge σ) (h : Host σ) : Host σ :=
  let (outbox, h) := h.turn
  (outbox.foldl (serve bridge) h).reap

def receive (h : Host σ) (t : Timer) : Host σ :=
  { h with
    timers := h.timers.erase t
    inFlight := h.inFlight - 1
    now := max h.now t.due }.complete t.coroutine .timer

def wake (clock : Clock) (h : Host σ) : Host σ := (clock.reports h.timers).1.foldl receive h

def runRounds (bridge : Bridge σ) (clock : Clock) : Nat → Host σ → Host σ
  | 0, h => h
  | rounds + 1, h =>
    let h := h.round bridge
    if h.scheduler.hasReady then runRounds bridge clock rounds h
    else if h.inFlight = 0 then h
    else runRounds bridge clock rounds (h.wake clock)

/-- More rounds than there can be: a coroutine has a turn in each but the first. -/
def roundBound (h : Host σ) : Nat := h.scheduler.turnBound + 1

def run (bridge : Bridge σ) (clock : Clock) (h : Host σ) : Host σ :=
  runRounds bridge clock h.roundBound h

end Host
end MarkupMachine
