import MarkupMachine.Machine.Step

/-! A cooperative scheduler: ready coroutines run one at a time, a slice each, in the order in
which they became ready. Waits collect in an outbox for the host, and completions come back from
it. -/

namespace MarkupMachine

structure Finished where
  id : Nat
  document : Nat
  outcome : Outcome
  stats : Stats
  deriving Inhabited

inductive Turn where
  | ran (id : Nat)
  | idle
  | done
  deriving DecidableEq, Repr

/-- The queue may hold coroutines that have ended since they entered it. -/
structure Scheduler where
  environment : Environment := {}
  maxFrames : Nat
  sliceSteps : Nat
  coroutines : List (Nat × Coroutine) := []
  queue : List Nat := []
  outbox : List (Nat × Wait) := []
  nextId : Nat := 1
  asked : List String := []
  deriving Inhabited

namespace Scheduler

def empty (maxFrames sliceSteps : Nat) (evaluator : Evaluator := .standard) : Scheduler :=
  { environment := { evaluator }, maxFrames, sliceSteps := max 1 sliceSteps }

def coroutine? (id : Nat) (s : Scheduler) : Option Coroutine := Table.get? id s.coroutines

def put (co : Coroutine) (s : Scheduler) : Scheduler :=
  { s with coroutines := Table.insert co.id co s.coroutines }

def isReady (s : Scheduler) (id : Nat) : Bool :=
  match s.coroutine? id with
  | some co => co.state == .ready
  | none => false

def hasReady (s : Scheduler) : Bool := s.queue.any s.isReady

def hasWaiting (s : Scheduler) : Bool := s.coroutines.any fun entry => entry.2.state == .waiting

def outcome? (id : Nat) (s : Scheduler) : Option Outcome := (s.coroutine? id).bind (·.outcome)

def spawn (doc : Document) (s : Scheduler) : Except Fault (Nat × Scheduler) :=
  match doc.rootElement? with
  | none => .error .noRootElement
  | some root => do
    let kind := match doc.element? root with
      | some e => ElementKind.ofTag e.tag
      | none => .structural
    let stack ← ({ document := doc, limit := s.maxFrames : Stack }).push kind root
    let id := s.nextId
    let started := s.put { id, stack }
    return (id, { started with queue := s.queue ++ [id], nextId := id + 1 })

/-- Files a coroutine after its slice: to the end of the queue, or its waits to the outbox. -/
def file (co : Coroutine) (s : Scheduler) : Scheduler :=
  let s := { s with asked := s.asked ++ co.asked }
  let co := { co with asked := [] }
  match co.state with
  | .ready => { s.put co with queue := s.queue ++ [co.id] }
  | .waiting =>
    { s.put { co with pending := [] } with
      outbox := s.outbox ++ co.pending.map fun wait => (co.id, wait) }
  | .running | .terminated => s.put co

def step (s : Scheduler) : Turn × Scheduler :=
  match s.queue.dropWhile (fun id => !s.isReady id) with
  | [] => (if s.hasWaiting then .idle else .done, { s with queue := [] })
  | id :: queue =>
    match s.coroutine? id with
    | none => (.idle, { s with queue })
    | some co => (.ran id, { s with queue }.file (co.slice s.environment s.sliceSteps))

def runTurns : Nat → Scheduler → Nat × Scheduler
  | 0, s => (0, s)
  | turns + 1, s =>
    match s.step with
    | (.ran _, s) =>
      let (count, s) := runTurns turns s
      (count + 1, s)
    | (_, s) => (0, s)

/-- More turns than the coroutines can take: an element makes five steps at most, and the last
turn finds nothing ready. -/
def turnBound (s : Scheduler) : Nat :=
  s.coroutines.foldr (fun entry turns => 5 * entry.2.stack.document.size + 1 + turns) 1

def runUntilIdle (s : Scheduler) : Nat × Scheduler := runTurns s.turnBound s

def deliver (id : Nat) (completion : Completion) (s : Scheduler) : Except Fault Scheduler :=
  match s.coroutine? id with
  | none => .error (.unknownCoroutine id)
  | some co =>
    if co.state ≠ .waiting then .error (.notWaiting id)
    else
      let co := co.resumeWith completion
      let resumed := s.put co
      .ok (if co.state = .ready then { resumed with queue := s.queue ++ [id] } else resumed)

/-- Ends a coroutine and withdraws its waits; one that has ended stays as it is. -/
def cancel (id : Nat) (s : Scheduler) : Except Fault Scheduler :=
  match s.coroutine? id with
  | none => .error (.unknownCoroutine id)
  | some co =>
    if co.isTerminated then .ok s
    else
      let cancelled := s.put (co.terminate .cancelled)
      .ok { cancelled with outbox := s.outbox.filter fun entry => entry.1 != id }

def takeOutbox (s : Scheduler) : List (Nat × Wait) × Scheduler := (s.outbox, { s with outbox := [] })

def finished (co : Coroutine) : Finished :=
  ⟨co.id, co.stack.document.number, co.outcome.getD .cancelled, co.stack.stats⟩

def reap (s : Scheduler) : List Finished × Scheduler :=
  let ended := s.coroutines.filter fun entry => entry.2.isTerminated
  (ended.map fun entry => finished entry.2,
    { s with coroutines := s.coroutines.filter fun entry => !entry.2.isTerminated })

def bindGlobal (document : Nat) (name : String) (value : Value) (s : Scheduler) : Scheduler :=
  { s with environment := s.environment.bind document name value }

def unbindGlobal (document : Nat) (name : String) (s : Scheduler) : Scheduler :=
  { s with environment := s.environment.unbind document name }

def setTarget (handle : UInt64) (s : Scheduler) : Scheduler :=
  { s with environment := { s.environment with target := handle } }

end Scheduler
end MarkupMachine
