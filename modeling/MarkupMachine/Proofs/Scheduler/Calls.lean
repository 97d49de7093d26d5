import MarkupMachine.Proofs.Machine.Driven
import MarkupMachine.Scheduler

/-! Runs of a scheduler: any calls, in any order. At every moment of a run each coroutine is a
driven one, whichever calls came before. -/

namespace MarkupMachine

inductive Call where
  | spawn (document : Nat) (tree : Tree)
  | step
  | deliver (id : Nat) (completion : Completion)
  | cancel (id : Nat)
  | takeOutbox
  | reap
  | bindGlobal (document : Nat) (name : String) (value : Value)
  | unbindGlobal (document : Nat) (name : String)
  | setTarget (handle : UInt64)

namespace Coroutine

inductive Passes (env : Environment) : Nat → Coroutine → Coroutine → Prop
  | here {count co} : Passes env count co co
  | later {count co next last} : co.state = .running → co.step env = (next, none) →
    Passes env count next last → Passes env (count + 1) co last

inductive Strides (env : Environment) : Nat → Coroutine → Coroutine → Prop
  | here {co} : Strides env 0 co co
  | later {number co next last} : co.state = .running → co.step env = (next, none) →
    Strides env number next last → Strides env (number + 1) co last

theorem Strides.passes {env : Environment} {number count : Nat} {co last : Coroutine}
    (strides : Strides env number co last) (enough : number ≤ count) : Passes env count co last := by
  induction strides generalizing count with
  | here => exact .here
  | later running step _ ih =>
    cases count with
    | zero => exact absurd enough (Nat.not_succ_le_zero _)
    | succ count => exact .later running step (ih (Nat.le_of_succ_le_succ enough))

theorem runSteps_cases (env : Environment) (count : Nat) (co : Coroutine) :
    ∃ number last, Strides env number co last ∧
      (number ≤ count ∧ (last.state = .running → number = count) ∧
        runSteps env count co = (last, .ok number) ∨
      ∃ next fault, number < count ∧ last.state = .running ∧ last.step env = (next, some fault) ∧
        runSteps env count co = (next, .error fault)) := by
  induction count generalizing co with
  | zero => exact ⟨0, co, .here, .inl ⟨Nat.le_refl 0, fun _ => rfl, rfl⟩⟩
  | succ count ih =>
    by_cases running : co.state = .running
    · rcases step : co.step env with ⟨next, _ | fault⟩
      · obtain ⟨number, last, strides, outcome⟩ := ih next
        refine ⟨number + 1, last, .later running step strides, ?_⟩
        rcases outcome with ⟨le, full, eq⟩ | ⟨after, fault, less, still, failed, eq⟩
        · exact .inl ⟨Nat.succ_le_succ le, fun still => congrArg Nat.succ (full still), by
            simp [runSteps, running, step, eq, Except.map]⟩
        · exact .inr ⟨after, fault, Nat.succ_lt_succ less, still, failed, by
            simp [runSteps, running, step, eq, Except.map]⟩
      · exact ⟨0, co, .here, .inr ⟨next, fault, Nat.succ_pos count, running, step, by
          simp [runSteps, running, step]⟩⟩
    · exact ⟨0, co, .here, .inl ⟨Nat.zero_le _, fun still => absurd still running, by
        simp [runSteps, running]⟩⟩

theorem slice_cases (env : Environment) (count : Nat) (co : Coroutine) :
    ∃ last, Passes env count { co with state := .running } last ∧
      (co.slice env count = (if last.state = .running then { last with state := .ready } else last) ∨
      ∃ next fault, last.state = .running ∧ last.step env = (next, some fault) ∧
        co.slice env count = next.terminate (.fatal fault.message)) := by
  obtain ⟨number, last, strides, ⟨le, _, eq⟩ | ⟨next, fault, less, still, failed, eq⟩⟩ :=
    runSteps_cases env count { co with state := .running }
  · exact ⟨last, strides.passes le, .inl (by simp [slice, run, eq])⟩
  · exact ⟨last, strides.passes (Nat.le_of_lt less),
      .inr ⟨next, fault, still, failed, by simp [slice, run, eq]⟩⟩

/-- What a slice makes of a coroutine, and in how many steps: it has had all that it may have and is
ready for more, it has stopped before, or its last step has failed. -/
inductive Sliced (env : Environment) (most : Nat) (co : Coroutine) : Nat → Coroutine → Prop
  | pauses {last} : Strides env most { co with state := .running } last → last.state = .running →
    Sliced env most co most { last with state := .ready }
  | stops {number last} : Strides env number { co with state := .running } last → number ≤ most →
    last.state ≠ .running → Sliced env most co number last
  | fails {number last next fault} : Strides env number { co with state := .running } last →
    number < most → last.state = .running → last.step env = (next, some fault) →
    Sliced env most co (number + 1) (next.terminate (.fatal fault.message))

theorem Sliced.le {env : Environment} {most number : Nat} {co last : Coroutine}
    (sliced : Sliced env most co number last) : number ≤ most := by
  cases sliced with
  | pauses => exact Nat.le_refl most
  | stops _ le => exact le
  | fails _ less => exact less

theorem Sliced.pos {env : Environment} {most number : Nat} {co last : Coroutine}
    (sliced : Sliced env most co number last) (room : 0 < most) : 0 < number := by
  cases sliced with
  | pauses => exact room
  | stops strides _ stopped =>
    cases strides with
    | here => exact absurd rfl stopped
    | later => exact Nat.succ_pos _
  | fails => exact Nat.succ_pos _

theorem exists_sliced (env : Environment) (most : Nat) (co : Coroutine) :
    ∃ number, Sliced env most co number (co.slice env most) := by
  obtain ⟨number, last, strides, ⟨le, full, eq⟩ | ⟨next, fault, less, still, failed, eq⟩⟩ :=
    runSteps_cases env most { co with state := .running }
  · by_cases running : last.state = .running
    · obtain rfl := full running
      have paused : co.slice env number = { last with state := .ready } := by
        simp [slice, run, eq, running]
      exact ⟨number, paused ▸ .pauses strides running⟩
    · have stopped : co.slice env most = last := by simp [slice, run, eq, running]
      exact ⟨number, stopped ▸ .stops strides le running⟩
  · have ended : co.slice env most = next.terminate (.fatal fault.message) := by
      simp [slice, run, eq]
    exact ⟨number + 1, ended ▸ .fails strides less still failed⟩

variable {admits : Coroutine → Completion → Prop} {env : Environment} {count : Nat}
  {co last : Coroutine}

theorem Passes.driven (passes : Passes env count co last) (driven : Driven admits co) :
    Driven admits last := by
  induction passes with
  | here => exact driven
  | later running step _ ih => exact ih (.stepped driven running step)

theorem Passes.kin (passes : Passes env count co last) (driven : Driven admits co) :
    Kin co last := by
  induction passes with
  | here => exact ⟨rfl, rfl, rfl⟩
  | later running step _ ih =>
    have live := driven.live (by simp [running])
    exact (kin_of_transition (live.transition_of_step running step)).trans
      (ih (.stepped driven running step))

theorem Driven.kin_slice (driven : Driven admits co) (ready : co.state = .ready)
    (env : Environment) (count : Nat) : Kin co (co.slice env count) := by
  have started := Driven.started driven ready
  obtain ⟨last, passes, eq | ⟨next, fault, still, failed, eq⟩⟩ := slice_cases env count co
  · have kin := passes.kin started
    rw [eq]
    split
    · exact ⟨kin.id, kin.document, kin.limit⟩
    · exact ⟨kin.id, kin.document, kin.limit⟩
  · have kin : Kin co last := by
      have kin := passes.kin started
      exact ⟨kin.id, kin.document, kin.limit⟩
    have live := (passes.driven started).live (by simp [still])
    rw [eq]
    exact (kin.trans (kin_of_fails (live.fails_of_step still failed))).trans
      (unwound_terminate _ next).toKin

theorem Driven.slice (driven : Driven admits co) (ready : co.state = .ready)
    (env : Environment) (count : Nat) : Driven admits (co.slice env count) := by
  obtain ⟨last, passes, eq | ⟨next, fault, still, failed, eq⟩⟩ := slice_cases env count co
  · have driven := passes.driven (.started driven ready)
    rw [eq]
    split
    · exact .paused driven (by assumption)
    · exact driven
  · rw [eq]
    exact .failed (passes.driven (.started driven ready)) still failed

theorem state_slice (env : Environment) (count : Nat) (co : Coroutine) :
    (co.slice env count).state ≠ .running := by
  obtain ⟨last, _, eq | ⟨next, fault, _, _, eq⟩⟩ := slice_cases env count co
  · rw [eq]
    split
    · simp
    · assumption
  · rw [eq, (ended_terminate _ next).state]
    simp

end Coroutine

namespace Scheduler

/-- The scheduler after a call. One that is refused changes nothing. -/
def after (s : Scheduler) : Call → Scheduler
  | .spawn document tree =>
    match Document.ofTree? document tree with
    | none => s
    | some doc =>
      match s.spawn doc with
      | .ok (_, next) => next
      | .error _ => s
  | .step => s.step.2
  | .deliver id completion =>
    match s.deliver id completion with
    | .ok next => next
    | .error _ => s
  | .cancel id =>
    match s.cancel id with
    | .ok next => next
    | .error _ => s
  | .takeOutbox => s.takeOutbox.2
  | .reap => s.reap.2
  | .bindGlobal document name value => s.bindGlobal document name value
  | .unbindGlobal document name => s.unbindGlobal document name
  | .setTarget handle => s.setTarget handle

def afterAll (s : Scheduler) (calls : List Call) : Scheduler := calls.foldl after s

structure Takes (s : Scheduler) (id : Nat) (queue : List Nat) (co : Coroutine) : Prop where
  queue : s.queue.dropWhile (fun id => !s.isReady id) = id :: queue
  coroutine : s.coroutine? id = some co
  ready : co.state = .ready

/-- A state that some coroutine is in between two calls, or in the turn that comes next. -/
inductive Shows (s : Scheduler) : Coroutine → Prop
  | stored {id co} : s.coroutine? id = some co → s.Shows co
  | passing {id queue co last} : s.Takes id queue co →
    Coroutine.Passes s.environment s.sliceSteps { co with state := .running } last → s.Shows last

variable {s : Scheduler} {id other : Nat} {co : Coroutine}

theorem exists_of_isReady (h : s.isReady id = true) :
    ∃ co, s.coroutine? id = some co ∧ co.state = .ready := by
  unfold isReady at h
  split at h
  · exact ⟨_, by assumption, by simpa using h⟩
  · cases h

theorem step_cases (s : Scheduler) :
    (s.queue.dropWhile (fun id => !s.isReady id) = [] ∧ s.step.2 = { s with queue := [] }) ∨
    ∃ id queue co, s.Takes id queue co ∧
      s.step.2 = { s with queue }.file (co.slice s.environment s.sliceSteps) := by
  cases found : s.queue.dropWhile (fun id => !s.isReady id) with
  | nil => exact .inl ⟨rfl, by simp [step, found]⟩
  | cons id queue =>
    have isReady : s.isReady id = true := by
      have first := List.head?_dropWhile_not (fun id => !s.isReady id) s.queue
      simpa [found] using first
    obtain ⟨co, stored, ready⟩ := exists_of_isReady isReady
    exact .inr ⟨id, queue, co, ⟨found, stored, ready⟩, by simp [step, found, stored]⟩

theorem Takes.turn {queue : List Nat} (takes : s.Takes id queue co) : s.step.1 = .ran id := by
  simp [step, takes.queue, takes.coroutine]

theorem turn_of_nobody (h : s.queue.dropWhile (fun id => !s.isReady id) = []) :
    s.step.1 = if s.hasWaiting then .idle else .done := by
  simp [step, h]

theorem takes_of_ran (ran : s.step.1 = .ran id) : ∃ queue co, s.Takes id queue co := by
  rcases s.step_cases with ⟨nobody, _⟩ | ⟨next, queue, co, takes, _⟩
  · rw [turn_of_nobody nobody] at ran
    split at ran <;> cases ran
  · rw [takes.turn] at ran
    cases ran
    exact ⟨queue, co, takes⟩

theorem coroutine?_put (s : Scheduler) (co : Coroutine) (id : Nat) :
    (s.put co).coroutine? id = if id = co.id then some co else s.coroutine? id :=
  Table.get?_insert ..

theorem coroutine?_of_put {t : Scheduler} (h : t.coroutines = (s.put co).coroutines) (id : Nat) :
    t.coroutine? id = if id = co.id then some co else s.coroutine? id := by
  rw [← coroutine?_put, coroutine?, coroutine?, h]

theorem file_eq (s : Scheduler) (co : Coroutine) : s.file co = { s.put co.filed with
    asked := s.asked ++ co.asked
    queue := if co.state = .ready then s.queue ++ [co.id] else s.queue
    outbox := if co.state = .waiting then s.outbox ++ co.pending.map fun wait => (co.id, wait)
      else s.outbox } := by
  unfold file
  cases state : co.state <;> simp [put, Coroutine.filed, state]

theorem spawn_eq {doc : Document} {root : NodeId} {el : Element} (s : Scheduler)
    (rooted : doc.rootElement? = some root) (element : doc.element? root = some el) :
    s.spawn doc = if s.maxFrames = 0 then .error (.stackOverflow s.maxFrames)
      else .ok (s.nextId, { s.put (.start s.maxFrames s.nextId doc root (ElementKind.ofTag el.tag))
        with queue := s.queue ++ [s.nextId], nextId := s.nextId + 1 }) := by
  by_cases none : s.maxFrames = 0 <;>
    simp [spawn, rooted, element, Stack.push, Stack.depth, none, Coroutine.start, bind, Except.bind,
      pure, Except.pure]

theorem deliver_eq (stored : s.coroutine? id = some co) (waiting : co.state = .waiting)
    (once : co.waits = 1) (c : Completion) : s.deliver id c =
      .ok { s.put (co.resumeWith c) with queue := s.queue ++ [id] } := by
  simp [deliver, stored, waiting, Coroutine.resumeWith, once]

theorem deliver_refused (h : ∀ co, s.coroutine? id = some co → co.state ≠ .waiting)
    (c : Completion) : ∃ fault, s.deliver id c = .error fault := by
  cases stored : s.coroutine? id with
  | none => exact ⟨.unknownCoroutine id, by simp only [deliver, stored]⟩
  | some co => exact ⟨.notWaiting id, by simp [deliver, stored, h co stored]⟩

theorem cancel_eq (stored : s.coroutine? id = some co) (alive : co.isTerminated = false) :
    s.cancel id = .ok { s.put (co.terminate .cancelled) with
      outbox := s.outbox.filter fun entry => entry.1 != id } := by
  simp [cancel, stored, alive]

theorem cancel_ended (stored : s.coroutine? id = some co) (ended : co.isTerminated = true) :
    s.cancel id = .ok s := by
  simp [cancel, stored, ended]

theorem cancel_unknown (stored : s.coroutine? id = none) :
    s.cancel id = .error (.unknownCoroutine id) := by
  simp [cancel, stored]

theorem reap_eq (ordered : Table.Ordered s.coroutines) (id : Nat) :
    s.reap.2.coroutine? id = (s.coroutine? id).filter fun co => !co.isTerminated :=
  Table.get?_filter ordered id

theorem coroutine?_reap (ordered : Table.Ordered s.coroutines)
    (stored : s.reap.2.coroutine? id = some co) :
    s.coroutine? id = some co ∧ co.isTerminated = false := by
  rw [reap_eq ordered, Option.filter_eq_some_iff] at stored
  simpa using stored

inductive Does (s : Scheduler) : Call → Scheduler → Prop
  | unable {document tree} : s.Does (.spawn document tree) s
  | spawns {document tree doc root el} : Document.ofTree? document tree = some doc →
    doc.rootElement? = some root → doc.element? root = some el → 0 < s.maxFrames →
    s.Does (.spawn document tree)
      { s.put (.start s.maxFrames s.nextId doc root (ElementKind.ofTag el.tag)) with
        queue := s.queue ++ [s.nextId], nextId := s.nextId + 1 }
  | runs {id : Nat} {queue} {co : Coroutine} : s.Takes id queue co →
    s.Does .step ({ s with queue }.file (co.slice s.environment s.sliceSteps))
  | idles : s.queue.dropWhile (fun id => !s.isReady id) = [] → s.Does .step { s with queue := [] }
  | refuses {id : Nat} {c} : (∀ co, s.coroutine? id = some co → co.state ≠ .waiting) →
    s.Does (.deliver id c) s
  | delivers {id : Nat} {c} {co : Coroutine} : s.coroutine? id = some co → co.state = .waiting →
    s.Does (.deliver id c) { s.put (co.resumeWith c) with queue := s.queue ++ [id] }
  | spares {id : Nat} : (∀ co, s.coroutine? id = some co → co.isTerminated = true) →
    s.Does (.cancel id) s
  | cancels {id : Nat} {co : Coroutine} : s.coroutine? id = some co → co.isTerminated = false →
    s.Does (.cancel id) { s.put (co.terminate .cancelled) with
      outbox := s.outbox.filter fun entry => entry.1 != id }
  | takes : s.Does .takeOutbox { s with outbox := [] }
  | reaps : s.Does .reap s.reap.2
  | binds {document name value} :
    s.Does (.bindGlobal document name value) (s.bindGlobal document name value)
  | unbinds {document name} : s.Does (.unbindGlobal document name) (s.unbindGlobal document name)
  | aims {handle} : s.Does (.setTarget handle) (s.setTarget handle)

/-- A table of driven coroutines, each under its number, and none of them in its turn. -/
structure Sound (admits : Coroutine → Completion → Prop) (s : Scheduler) : Prop where
  ordered : Table.Ordered s.coroutines
  own : ∀ {id co}, s.coroutine? id = some co → co.id = id
  below : ∀ {id co}, s.coroutine? id = some co → id < s.nextId
  driven : ∀ {id co}, s.coroutine? id = some co → co.Driven admits
  still : ∀ {id co}, s.coroutine? id = some co → co.state ≠ .running
  handed : ∀ {id co}, s.coroutine? id = some co → co.pending = []
  limit : ∀ {id co}, s.coroutine? id = some co → co.stack.limit = s.maxFrames

variable {admits : Coroutine → Completion → Prop}

theorem waits_of_waiting (sound : s.Sound admits) (stored : s.coroutine? id = some co)
    (waiting : co.state = .waiting) : co.waits = 1 := by
  have live := (sound.driven stored).live (by simp [waiting])
  obtain ⟨_, _, _, _, _, suspended⟩ := live.exists_suspended waiting
  exact suspended.waits

theorem Sound.does_after (sound : s.Sound admits) (call : Call) : s.Does call (s.after call) := by
  cases call with
  | spawn document tree =>
    simp only [after]
    cases made : Document.ofTree? document tree with
    | none => exact .unable
    | some doc =>
      obtain ⟨root, el, rooted, element⟩ := Document.Built.exists_root ⟨document, tree, made⟩
      simp only [spawn_eq s rooted element]
      by_cases none : s.maxFrames = 0
      · rw [if_pos none]
        exact .unable
      · rw [if_neg none]
        exact .spawns made rooted element (Nat.pos_of_ne_zero none)
  | step =>
    rcases s.step_cases with ⟨nobody, eq⟩ | ⟨next, queue, co, takes, eq⟩
    · rw [after, eq]
      exact .idles nobody
    · rw [after, eq]
      exact .runs takes
  | deliver id c =>
    simp only [after]
    by_cases waiting : ∃ co, s.coroutine? id = some co ∧ co.state = .waiting
    · obtain ⟨co, stored, waiting⟩ := waiting
      rw [deliver_eq stored waiting (waits_of_waiting sound stored waiting)]
      exact .delivers stored waiting
    · have other : ∀ co, s.coroutine? id = some co → co.state ≠ .waiting :=
        fun co stored h => waiting ⟨co, stored, h⟩
      obtain ⟨fault, eq⟩ := deliver_refused other c
      rw [eq]
      exact .refuses other
  | cancel id =>
    simp only [after]
    cases stored : s.coroutine? id with
    | none =>
      rw [cancel_unknown stored]
      exact .spares fun co found => by simp [stored] at found
    | some co =>
      cases ended : co.isTerminated with
      | true =>
        rw [cancel_ended stored ended]
        exact .spares fun other found => by
          cases stored.symm.trans found
          exact ended
      | false =>
        rw [cancel_eq stored ended]
        exact .cancels stored ended
  | takeOutbox => exact .takes
  | reap => exact .reaps
  | bindGlobal => exact .binds
  | unbindGlobal => exact .unbinds
  | setTarget => exact .aims

/-- The coroutine that a call may hand a completion to takes only admitted ones. -/
def Grants (admits : Coroutine → Completion → Prop) (s : Scheduler) : Call → Prop
  | .deliver id c => ∀ co, s.coroutine? id = some co → co.state = .waiting → admits co c
  | _ => True

theorem Sound.congr {t : Scheduler} (sound : s.Sound admits)
    (coroutines : t.coroutines = s.coroutines) (next : t.nextId = s.nextId)
    (frames : t.maxFrames = s.maxFrames) : t.Sound admits := by
  have lookup (id : Nat) : t.coroutine? id = s.coroutine? id := by
    rw [coroutine?, coroutine?, coroutines]
  exact {
    ordered := coroutines ▸ sound.ordered
    own := fun stored => sound.own ((lookup _).symm.trans stored)
    below := fun stored => next ▸ sound.below ((lookup _).symm.trans stored)
    driven := fun stored => sound.driven ((lookup _).symm.trans stored)
    still := fun stored => sound.still ((lookup _).symm.trans stored)
    handed := fun stored => sound.handed ((lookup _).symm.trans stored)
    limit := fun stored => frames ▸ sound.limit ((lookup _).symm.trans stored) }

theorem Sound.of_put {t : Scheduler} (sound : s.Sound admits) (co : Coroutine)
    (coroutines : t.coroutines = (s.put co).coroutines) (driven : co.Driven admits)
    (next : s.nextId ≤ t.nextId) (below : co.id < t.nextId) (frames : t.maxFrames = s.maxFrames)
    (still : co.state ≠ .running) (handed : co.pending = [])
    (limit : co.stack.limit = s.maxFrames) : t.Sound admits := by
  have lookup := coroutine?_of_put coroutines
  have cases_of {P : Nat → Coroutine → Prop} (new : P co.id co)
      (old : ∀ id other, s.coroutine? id = some other → P id other) {id : Nat} {other : Coroutine}
      (stored : t.coroutine? id = some other) : P id other := by
    rw [lookup] at stored
    by_cases same : id = co.id
    · rw [if_pos same] at stored
      cases stored
      rwa [same]
    · rw [if_neg same] at stored
      exact old id other stored
  exact {
    ordered := by rw [coroutines]; exact Table.ordered_insert sound.ordered
    own := cases_of (P := fun id co => co.id = id) rfl fun _ _ => sound.own
    below := cases_of (P := fun id _ => id < t.nextId) below fun _ _ stored =>
      Nat.lt_of_lt_of_le (sound.below stored) next
    driven := cases_of (P := fun _ co => co.Driven admits) driven fun _ _ => sound.driven
    still := cases_of (P := fun _ co => co.state ≠ .running) still fun _ _ => sound.still
    handed := cases_of (P := fun _ co => co.pending = []) handed fun _ _ => sound.handed
    limit := by
      rw [frames]
      exact cases_of (P := fun _ co => co.stack.limit = s.maxFrames) limit fun _ _ => sound.limit }

theorem Sound.id_slice {queue : List Nat} (sound : s.Sound admits) (takes : s.Takes id queue co) :
    (co.slice s.environment s.sliceSteps).id = id :=
  ((sound.driven takes.coroutine).kin_slice takes.ready _ _).id.trans (sound.own takes.coroutine)

theorem Sound.of_runs {queue : List Nat} (sound : s.Sound admits) (takes : s.Takes id queue co) :
    ({ s with queue }.file (co.slice s.environment s.sliceSteps)).Sound admits := by
  have driven := sound.driven takes.coroutine
  have kin := driven.kin_slice takes.ready s.environment s.sliceSteps
  have ran := driven.slice takes.ready s.environment s.sliceSteps
  have own := sound.own takes.coroutine
  have handed : (co.slice s.environment s.sliceSteps).filed.pending = [] := by
    by_cases waiting : (co.slice s.environment s.sliceSteps).state = .waiting
    · simp [Coroutine.filed, waiting]
    · rcases ran.live_or_ended with live | ended
      · simp [Coroutine.filed, live.pending_of_not_waiting waiting]
      · simp [Coroutine.filed, ended.pending]
  rw [file_eq]
  refine sound.of_put (co.slice s.environment s.sliceSteps).filed rfl ran.filed (Nat.le_refl _) ?_
    rfl (Coroutine.state_slice _ _ _) handed ?_
  · exact (kin.id.trans own).symm ▸ sound.below takes.coroutine
  · exact kin.limit.trans (sound.limit takes.coroutine)

theorem Sound.after (sound : s.Sound admits) {call : Call} (grants : s.Grants admits call) :
    (s.after call).Sound admits := by
  have done := sound.does_after call
  generalize s.after call = next at done
  cases done with
  | unable | refuses | spares => exact sound
  | spawns made rooted element room =>
    exact sound.of_put _ rfl (.spawned room ⟨_, _, made⟩ rooted element) (Nat.le_succ _)
      (Nat.lt_succ_self _) rfl (by simp [Coroutine.start]) rfl rfl
  | runs takes => exact sound.of_runs takes
  | idles => exact sound.congr rfl rfl rfl
  | delivers stored waiting =>
    have once := waits_of_waiting sound stored waiting
    have handed := sound.handed stored
    have limit := sound.limit stored
    exact sound.of_put _ rfl (.resumed (sound.driven stored) waiting handed (grants _ stored waiting))
      (Nat.le_refl _) ((sound.own stored).symm ▸ sound.below stored) rfl
      (by simp [Coroutine.resumeWith, once]) handed limit
  | cancels stored alive =>
    have unwound := Coroutine.unwound_terminate .cancelled
    have ended := Coroutine.ended_terminate .cancelled
    exact sound.of_put _ rfl (.cancelled (sound.driven stored) alive) (Nat.le_refl _)
      (((unwound _).id.trans (sound.own stored)).symm ▸ sound.below stored) rfl
      (by simp [(ended _).state]) (ended _).pending ((unwound _).limit.trans (sound.limit stored))
  | takes => exact sound.congr rfl rfl rfl
  | reaps =>
    have kept {id : Nat} {co : Coroutine} (stored : s.reap.2.coroutine? id = some co) :
        s.coroutine? id = some co := (coroutine?_reap sound.ordered stored).1
    exact {
      ordered := sound.ordered.filter _
      own := fun stored => sound.own (kept stored)
      below := fun stored => sound.below (kept stored)
      driven := fun stored => sound.driven (kept stored)
      still := fun stored => sound.still (kept stored)
      handed := fun stored => sound.handed (kept stored)
      limit := fun stored => sound.limit (kept stored) }
  | binds | unbinds | aims => exact sound.congr rfl rfl rfl

theorem Sound.empty (admits : Coroutine → Completion → Prop) (maxFrames sliceSteps : Nat)
    (evaluator : Evaluator) : (empty maxFrames sliceSteps evaluator).Sound admits where
  ordered := List.Pairwise.nil
  own := fun stored => by cases stored
  below := fun stored => by cases stored
  driven := fun stored => by cases stored
  still := fun stored => by cases stored
  handed := fun stored => by cases stored
  limit := fun stored => by cases stored

def GrantsAll (admits : Coroutine → Completion → Prop) : Scheduler → List Call → Prop
  | _, [] => True
  | s, call :: rest => s.Grants admits call ∧ (s.after call).GrantsAll admits rest

theorem Sound.afterAll (sound : s.Sound admits) {calls : List Call}
    (grants : s.GrantsAll admits calls) : (s.afterAll calls).Sound admits := by
  induction calls generalizing s with
  | nil => exact sound
  | cons call rest ih => exact ih (sound.after grants.1) grants.2

theorem Sound.maxFrames_after (sound : s.Sound admits) (call : Call) :
    (s.after call).maxFrames = s.maxFrames := by
  have done := sound.does_after call
  generalize s.after call = next at done
  cases done with
  | runs => rw [file_eq]; rfl
  | _ => rfl

theorem Sound.maxFrames_afterAll (sound : s.Sound admits) {calls : List Call}
    (grants : s.GrantsAll admits calls) : (s.afterAll calls).maxFrames = s.maxFrames := by
  induction calls generalizing s with
  | nil => rfl
  | cons call rest ih =>
    rw [← sound.maxFrames_after call]
    exact ih (sound.after grants.1) grants.2

theorem grantsAll_true (s : Scheduler) (calls : List Call) :
    s.GrantsAll (fun _ _ => True) calls := by
  induction calls generalizing s with
  | nil => trivial
  | cons call rest ih =>
    refine ⟨?_, ih _⟩
    cases call <;> simp [Grants]

theorem Sound.driven_of_shows (sound : s.Sound admits) (shows_ : s.Shows co) :
    co.Driven admits := by
  cases shows_ with
  | stored stored => exact sound.driven stored
  | passing takes passes => exact passes.driven (.started (sound.driven takes.coroutine) takes.ready)

theorem Sound.limit_of_shows (sound : s.Sound admits) (shows_ : s.Shows co) :
    co.stack.limit = s.maxFrames := by
  cases shows_ with
  | stored stored => exact sound.limit stored
  | passing takes passes =>
    have kin := passes.kin (.started (sound.driven takes.coroutine) takes.ready)
    have limit := sound.limit takes.coroutine
    exact kin.limit.trans limit

def ping : Tree :=
  .element {
    tag := "request"
    attributes := [{ name := "to", value := some (.literal (.text "ping")) }] } []

end Scheduler
end MarkupMachine
