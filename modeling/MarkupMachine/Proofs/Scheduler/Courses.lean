import Mathlib.Data.List.Induction
import MarkupMachine.Proofs.Machine.Course
import MarkupMachine.Proofs.Scheduler.Idle
import MarkupMachine.Proofs.Scheduler.Lifecycle

/-! Courses in a scheduler. Its turns cut the course of a coroutine into slices and its calls hand
in completions; none of what a scheduler does takes a coroutine off its course, except to cancel it.
-/

namespace MarkupMachine

open Session (waitsOf)

namespace Coroutine

variable {env : Environment} {count : Nat} {co last : Coroutine}

def rest (co : Coroutine) : Coroutine :=
  { co.filed with state := if co.state = .running then .ready else co.state }

def begun (limit id : Nat) (doc : Document) (root : NodeId) (el : Element) : Coroutine :=
  { start limit id doc root (ElementKind.ofTag el.tag) with state := .running }

theorem onward_begun (id : Nat) {limit : Nat} {doc : Document} {root : NodeId} {el : Element}
    (room : 0 < limit) (built : doc.Built) (rooted : doc.rootElement? = some root)
    (element : doc.element? root = some el) : (begun limit id doc root el).Onward :=
  ⟨.started (.spawned room built rooted element) rfl, by simp [begun], fun _ => rfl⟩

theorem course_of_passes (passes : Passes env count co last) (running : co.state = .running) :
    Course env [] last.asking co last := by
  induction passes with
  | here =>
    rw [asking_of_ne (by simp [running])]
    exact .here
  | @later _ _ next _ _ step passes ih =>
    by_cases still : next.state = .running
    · have way := Course.step running step (ih still)
      rwa [asking_of_ne (by simp [still])] at way
    · cases passes with
      | here =>
        have way := Course.step running step .here
        rwa [List.append_nil] at way
      | later again => exact absurd again still

theorem exists_course_slice (env : Environment) (count : Nat) (co : Coroutine) :
    ∃ last, Course env [] (co.slice env count).asking { co with state := .running } last ∧
      (co.slice env count).filed = last.rest := by
  obtain ⟨last, passes, eq | ⟨next, fault, still, failed, eq⟩⟩ := slice_cases env count co
  · have way := course_of_passes passes rfl
    refine ⟨last, ?_⟩
    by_cases running : last.state = .running
    · rw [asking_of_ne (by simp [running])] at way
      rw [eq, if_pos running, asking_of_ne (by simp)]
      exact ⟨way, by simp [rest, filed, running]⟩
    · rw [eq, if_neg running]
      exact ⟨way, by simp [rest, filed, running]⟩
  · have way := (course_of_passes passes rfl).trans (.fail still failed)
    have ended := (ended_terminate (.fatal fault.message) next).state
    rw [asking_of_ne (by simp [still])] at way
    rw [eq, asking_of_ne (by simp [ended])]
    exact ⟨_, way, by simp [rest, filed, ended]⟩

theorem Onward.running_of_ready (onward : co.Onward) (ready : co.rest.state = .ready) :
    co.state = .running := by
  by_cases running : co.state = .running
  · exact running
  · simp only [rest, running, if_false] at ready
    exact absurd ready onward.awake

theorem Onward.goes_on (onward : co.Onward) (running : co.state = .running) :
    { co.rest with state := .running } = co := by
  have asked := onward.asked running
  cases co
  simp_all [rest, filed]

theorem rest_of_stopped (stopped : co.state ≠ .running) : co.rest = co.filed := by
  simp [rest, filed, stopped]

theorem Onward.rest_answered (onward : co.Onward) (waiting : co.state = .waiting)
    (c : Completion) : co.rest.resumeWith c = (co.answered c).rest := by
  obtain ⟨_, _, _, _, _, suspended⟩ :=
    (onward.driven.live (by simp [waiting])).exists_suspended waiting
  have once := suspended.waits
  rw [rest_of_stopped (by simp [waiting])]
  simp [rest, Coroutine.answered, resumeWith, filed, waiting, once]

end Coroutine

def Call.rebinds : Call → Bool
  | .bindGlobal .. | .unbindGlobal .. | .setTarget .. => true
  | _ => false

namespace Scheduler

variable {s t : Scheduler} {id : Nat} {co k : Coroutine} {env : Environment}
  {cs : List Completion} {ws : List Wait}

def acceptedBy (id : Nat) (s : Scheduler) : Call → List Completion
  | .deliver other c => if other = id ∧ (s.deliver other c).isOk then [c] else []
  | _ => []

/-- What a call adds to the outbox. -/
def postedBy (s : Scheduler) (call : Call) : List (Nat × Wait) :=
  (s.after call).outbox.drop s.outbox.length

def accepted (id : Nat) (s : Scheduler) : List Call → List Completion
  | [] => []
  | call :: rest => s.acceptedBy id call ++ (s.after call).accepted id rest

def posted (id : Nat) (s : Scheduler) : List Call → List Wait
  | [] => []
  | call :: rest => waitsOf id (s.postedBy call) ++ (s.after call).posted id rest

theorem step_of_takes (id : Nat) (sound : s.Sound fun _ _ => True) {ran : Nat} {queue : List Nat}
    (takes : s.Takes ran queue co) : (s.after .step).coroutine? id =
      (if id = ran then some (co.slice s.environment s.sliceSteps).filed else s.coroutine? id) ∧
    waitsOf id (s.postedBy .step) =
      if id = ran then (co.slice s.environment s.sliceSteps).asking else [] := by
  have own := sound.id_slice takes
  have turn : s.after .step = { s with queue }.file (co.slice s.environment s.sliceSteps) := by
    simp only [after, step, takes.queue, takes.coroutine]
  generalize co.slice s.environment s.sliceSteps = last at *
  have filed : last.filed.id = ran := own
  constructor
  · rw [turn, coroutine?_of_put (coroutines_file _ last), filed]
    rfl
  · have added : s.postedBy .step = last.asking.map fun wait => (ran, wait) := by
      rw [postedBy, turn, outbox_file, Coroutine.asking, own]
      split
      · exact List.drop_left
      · exact List.drop_length
    rw [added]
    split
    · rename_i same
      rw [same, Session.waitsOf_own]
    · rename_i other
      exact Session.waitsOf_other other _

theorem after_step_of_nobody (nobody : s.queue.dropWhile (fun id => !s.isReady id) = []) :
    s.after .step = { s with queue := [] } := by
  simp only [after, step, nobody]

theorem postedBy_eq_nil {call : Call} (h : (s.after call).outbox.length ≤ s.outbox.length) :
    s.postedBy call = [] :=
  List.drop_eq_nil_of_le h

theorem Sound.postedBy_other (sound : s.Sound fun _ _ => True) {call : Call} (other : call ≠ .step) :
    s.postedBy call = [] := by
  have done := sound.does_after call
  apply postedBy_eq_nil
  generalize s.after call = next at done
  cases done with
  | runs | idles => exact absurd rfl other
  | cancels => exact List.length_filter_le ..
  | takes => exact Nat.zero_le _
  | _ => exact Nat.le_refl _

theorem Sound.course_step (sound : s.Sound fun _ _ => True) (onward : k.Onward)
    (stored : s.coroutine? id = some k.rest) :
    ∃ last, Coroutine.Course s.environment [] (waitsOf id (s.postedBy .step)) k last ∧
      (s.after .step).coroutine? id = some last.rest := by
  rcases s.step_cases with ⟨nobody, _⟩ | ⟨ran, queue, co, takes, _⟩
  · have idle := after_step_of_nobody nobody
    have nothing : s.postedBy .step = [] := postedBy_eq_nil (by rw [idle])
    rw [nothing, idle]
    exact ⟨k, .here, stored⟩
  · obtain ⟨next, waits⟩ := step_of_takes id sound takes
    rw [next, waits]
    by_cases mine : id = ran
    · subst mine
      cases stored.symm.trans takes.coroutine
      have running := onward.running_of_ready takes.ready
      obtain ⟨last, way, filed⟩ :=
        Coroutine.exists_course_slice s.environment s.sliceSteps k.rest
      rw [onward.goes_on running] at way
      rw [if_pos rfl, if_pos rfl, filed]
      exact ⟨last, way, rfl⟩
    · rw [if_neg mine, if_neg mine]
      exact ⟨k, .here, stored⟩

theorem Sound.deliver_waiting (sound : s.Sound fun _ _ => True) (onward : k.Onward)
    (stored : s.coroutine? id = some k.rest) (waiting : k.state = .waiting) (c : Completion) :
    s.deliver id c = .ok (s.after (.deliver id c)) ∧
      (s.after (.deliver id c)).coroutine? id = some (k.answered c).rest ∧
      (s.after (.deliver id c)).outbox = s.outbox := by
  have still : k.rest.state = .waiting := by simp [Coroutine.rest, waiting]
  have once := waits_of_waiting sound stored still
  have own := sound.own stored
  have delivered := deliver_eq stored still once c
  have next : s.after (.deliver id c) =
      { s.put (k.rest.resumeWith c) with queue := s.queue ++ [id] } := by
    simp only [Scheduler.after, delivered]
  rw [next, ← onward.rest_answered waiting]
  exact ⟨delivered, (coroutine?_of_put (by rfl) id).trans (if_pos own.symm), rfl⟩

theorem deliver_unheard (deaf : ∀ co, s.coroutine? id = some co → co.state ≠ .waiting)
    (c : Completion) :
    s.acceptedBy id (.deliver id c) = [] ∧ s.after (.deliver id c) = s := by
  obtain ⟨fault, refused⟩ := deliver_refused deaf c
  constructor
  · simp [acceptedBy, refused, Except.isOk, Except.toBool]
  · simp only [after, refused]

theorem Sound.kept_after (sound : s.Sound fun _ _ => True) (stored : s.coroutine? id = some co)
    {call : Call} (other : call ≠ .step) (unanswered : ∀ c, call ≠ .deliver id c)
    {next : Coroutine} (after : (s.after call).coroutine? id = some next) :
    next = co ∨ next.outcome = some .cancelled := by
  have done := sound.does_after call
  generalize s.after call = t at done after
  have apart {last : Coroutine} (coroutines : t.coroutines = (s.put last).coroutines)
      (h : id = last.id → last.outcome = some .cancelled) :
      next = co ∨ next.outcome = some .cancelled := by
    rw [coroutine?_of_put coroutines] at after
    by_cases same : id = last.id
    · rw [if_pos same] at after
      cases after
      exact .inr (h same)
    · rw [if_neg same, stored] at after
      exact .inl (Option.some.inj after).symm
  cases done with
  | runs | idles => exact absurd rfl other
  | spawns => exact apart rfl fun same => absurd (sound.below stored) (same ▸ Nat.lt_irrefl _)
  | @delivers mate c found held waiting =>
    refine apart rfl fun same => ?_
    have own := sound.own held
    obtain rfl : id = mate := same.trans own
    exact absurd rfl (unanswered c)
  | cancels => exact apart rfl fun _ => rfl
  | reaps =>
    have before := (coroutine?_reap sound.ordered after).1
    exact .inl (Option.some.inj (before.symm.trans stored))
  | _ => exact .inl (Option.some.inj (after.symm.trans stored))

theorem Sound.course_after (sound : s.Sound fun _ _ => True) (onward : k.Onward)
    (stored : s.coroutine? id = some k.rest) {call : Call}
    (after : (s.after call).coroutine? id = some co) (kept : co.outcome ≠ some .cancelled) :
    ∃ last, Coroutine.Course s.environment (s.acceptedBy id call) (waitsOf id (s.postedBy call))
      k last ∧ co = last.rest := by
  by_cases turn : call = .step
  · subst turn
    obtain ⟨last, way, next⟩ := sound.course_step onward stored
    exact ⟨last, way, Option.some.inj (after.symm.trans next)⟩
  rw [sound.postedBy_other turn]
  by_cases answer : ∃ c, call = .deliver id c
  · obtain ⟨c, rfl⟩ := answer
    by_cases waiting : k.state = .waiting
    · obtain ⟨delivered, next, _⟩ := sound.deliver_waiting onward stored waiting c
      have taken : s.acceptedBy id (.deliver id c) = [c] := by
        simp [acceptedBy, delivered, Except.isOk, Except.toBool]
      rw [taken]
      exact ⟨_, .answer waiting .here, Option.some.inj (after.symm.trans next)⟩
    · have awake : k.rest.state ≠ .waiting := by
        simp only [Coroutine.rest]
        split <;> simp [waiting]
      have deaf (other : Coroutine) (found : s.coroutine? id = some other) :
          other.state ≠ .waiting := by
        cases stored.symm.trans found
        exact awake
      obtain ⟨nothing, same⟩ := deliver_unheard deaf c
      rw [same] at after
      rw [nothing]
      exact ⟨k, .here, Option.some.inj (after.symm.trans stored)⟩
  · have nothing : s.acceptedBy id call = [] := by
      cases call with
      | deliver other c => exact if_neg fun (h : other = id ∧ _) => answer ⟨c, h.1 ▸ rfl⟩
      | _ => rfl
    have same := sound.kept_after stored turn (fun c h => answer ⟨c, h⟩) after
    rw [nothing]
    exact ⟨k, .here, same.resolve_right kept⟩

theorem accepted_append (id : Nat) (s : Scheduler) (first later : List Call) :
    s.accepted id (first ++ later) = s.accepted id first ++ (s.afterAll first).accepted id later := by
  induction first generalizing s with
  | nil => rfl
  | cons call first ih =>
    simp only [List.cons_append, accepted, ih, List.append_assoc]
    rfl

theorem posted_append (id : Nat) (s : Scheduler) (first later : List Call) :
    s.posted id (first ++ later) = s.posted id first ++ (s.afterAll first).posted id later := by
  induction first generalizing s with
  | nil => rfl
  | cons call first ih =>
    simp only [List.cons_append, posted, ih, List.append_assoc]
    rfl

/-- A scheduler whose coroutines share an environment. -/
structure Hosts (env : Environment) (s : Scheduler) : Prop where
  sound : s.Sound fun _ _ => True
  tidy : s.Tidy
  slice : 0 < s.sliceSteps
  environment : s.environment = env

theorem Hosts.after (hosts : Hosts env s) {call : Call} (fixed : call.rebinds = false) :
    Hosts env (s.after call) := by
  have sound := hosts.sound
  refine ⟨sound.after (grantsAll_true s [call]).1, hosts.tidy.after sound call,
    (sound.sliceSteps_after call).symm ▸ hosts.slice, ?_⟩
  have done := sound.does_after call
  generalize s.after call = next at done
  cases done with
  | runs =>
    rw [file_eq]
    exact hosts.environment
  | binds | unbinds | aims => cases fixed
  | _ => exact hosts.environment

/-- A coroutine that has been on a course from its start, in the slot it was given. -/
inductive Stems (env : Environment) (limit : Nat) (calls : List Call) (id : Nat)
    (cs : List Completion) (ws : List Wait) : Coroutine → Prop
  | of {number tree doc root el k} : .spawn number tree ∈ calls →
    Document.ofTree? number tree = some doc → doc.rootElement? = some root →
    doc.element? root = some el → 0 < limit →
    Coroutine.Course env cs ws (.begun limit id doc root el) k →
    Stems env limit calls id cs ws k.rest

theorem Sound.spawned_of_new (sound : s.Sound fun _ _ => True) (absent : s.coroutine? id = none)
    {call : Call} (stored : (s.after call).coroutine? id = some co) :
    ∃ number tree doc root el, call = .spawn number tree ∧
      Document.ofTree? number tree = some doc ∧ doc.rootElement? = some root ∧
      doc.element? root = some el ∧ 0 < s.maxFrames ∧ s.nextId = id ∧
      co = (Coroutine.begun s.maxFrames id doc root el).rest := by
  by_cases spawn : ∃ number tree, call = .spawn number tree
  · obtain ⟨number, tree, rfl⟩ := spawn
    have done := sound.does_after (.spawn number tree)
    generalize s.after (.spawn number tree) = next at done stored
    cases done with
    | unable => cases absent.symm.trans stored
    | @spawns _ _ doc root el made rooted element room =>
      rw [coroutine?_of_put (by rfl)] at stored
      split at stored
      · rename_i new
        subst new
        exact ⟨number, tree, doc, root, el, rfl, made, rooted, element, room, rfl,
          (Option.some.inj stored).symm⟩
      · cases absent.symm.trans stored
  · by_cases reap : call = .reap
    · subst reap
      cases absent.symm.trans (coroutine?_reap sound.ordered stored).1
    · obtain ⟨_, same⟩ := sound.coroutine?_after_eq_none
        (fun number tree eq => spawn ⟨number, tree, eq⟩) reap
      cases ((same id).mpr absent).symm.trans stored

theorem Sound.cancelled_after (sound : s.Sound fun _ _ => True) {earlier : Coroutine}
    (stored : s.coroutine? id = some earlier) (cancelled : earlier.outcome = some .cancelled)
    {call : Call} (after : (s.after call).coroutine? id = some co) :
    co.outcome = some .cancelled := by
  have ended := sound.isTerminated_of_outcome stored cancelled
  have state : earlier.state = .terminated := by simpa [Coroutine.isTerminated] using ended
  by_cases reap : call = .reap
  · subst reap
    obtain ⟨before, alive⟩ := coroutine?_reap sound.ordered after
    cases stored.symm.trans before
    cases ended.symm.trans alive
  · have stays : (s.after call).coroutine? id = some earlier :=
      sound.stays stored (by simp [state]) (fun _ _ => by simp [state]) (fun _ => ended)
        fun same => absurd same reap
    cases stays.symm.trans after
    exact cancelled

theorem Sound.silent_of_fresh (sound : s.Sound fun _ _ => True) (fresh : s.nextId ≤ id)
    (call : Call) : s.acceptedBy id call = [] ∧ waitsOf id (s.postedBy call) = [] := by
  have absent (co : Coroutine) : s.coroutine? id ≠ some co :=
    fun stored => absurd (sound.below stored) (Nat.not_lt.mpr fresh)
  constructor
  · cases call with
    | deliver other c =>
      by_cases same : other = id
      · subst same
        exact (deliver_unheard (fun co stored => absurd stored (absent co)) c).1
      · exact if_neg fun h => same h.1
    | _ => rfl
  · by_cases turn : call = .step
    · subst turn
      rcases s.step_cases with ⟨nobody, _⟩ | ⟨ran, queue, co, takes, _⟩
      · rw [postedBy_eq_nil (by rw [after_step_of_nobody nobody])]
        rfl
      · rw [(step_of_takes id sound takes).2]
        refine if_neg fun same => absent co ?_
        rw [same]
        exact takes.coroutine
    · rw [sound.postedBy_other turn]
      rfl

theorem Hosts.stems (hosts : Hosts env s) (standard : env.evaluator = .standard)
    (none : ∀ id, s.coroutine? id = none) {calls : List Call}
    (fixed : ∀ call ∈ calls, call.rebinds = false) :
    Hosts env (s.afterAll calls) ∧ (s.afterAll calls).maxFrames = s.maxFrames ∧
    (∀ id, (s.afterAll calls).nextId ≤ id → s.accepted id calls = [] ∧ s.posted id calls = []) ∧
    ∀ id co, (s.afterAll calls).coroutine? id = some co → co.outcome ≠ some .cancelled →
      Stems env s.maxFrames calls id (s.accepted id calls) (s.posted id calls) co := by
  induction calls using List.reverseRecOn with
  | nil =>
    refine ⟨hosts, rfl, fun _ _ => ⟨rfl, rfl⟩, fun id co stored => ?_⟩
    cases (none id).symm.trans stored
  | append_singleton calls call ih =>
    obtain ⟨before, frames, fresh, stems⟩ := ih fun call mem => fixed call (by simp [mem])
    have own := fixed call (by simp)
    have last : s.afterAll (calls ++ [call]) = (s.afterAll calls).after call := by
      simp [afterAll]
    have accepted (id : Nat) : s.accepted id (calls ++ [call]) =
        s.accepted id calls ++ (s.afterAll calls).acceptedBy id call := by
      simp [accepted_append, Scheduler.accepted]
    have posted (id : Nat) : s.posted id (calls ++ [call]) =
        s.posted id calls ++ waitsOf id ((s.afterAll calls).postedBy call) := by
      simp [posted_append, Scheduler.posted]
    have sound := before.sound
    simp only [last, accepted, posted]
    refine ⟨before.after own, (sound.maxFrames_after call).trans frames, fun id later => ?_,
      fun id co stored kept => ?_⟩
    · have early := Nat.le_trans (sound.nextId_le call) later
      obtain ⟨nothing, silent⟩ := sound.silent_of_fresh early call
      rw [nothing, silent, (fresh id early).1, (fresh id early).2]
      exact ⟨rfl, rfl⟩
    · cases before_call : (s.afterAll calls).coroutine? id with
      | none =>
        obtain ⟨number, tree, doc, root, el, rfl, made, rooted, element, room, new, rfl⟩ :=
          sound.spawned_of_new before_call stored
        obtain ⟨nothing, silent⟩ := sound.silent_of_fresh (Nat.le_of_eq new) (.spawn number tree)
        rw [nothing, silent, (fresh id (Nat.le_of_eq new)).1, (fresh id (Nat.le_of_eq new)).2]
        rw [frames] at room ⊢
        exact .of (by simp) made rooted element room .here
      | some earlier =>
        have alive : earlier.outcome ≠ some .cancelled := fun cancelled =>
          kept (sound.cancelled_after before_call cancelled stored)
        obtain @⟨_, _, _, _, _, k, mem, made, rooted, element, room, way⟩ :=
          stems id earlier before_call alive
        have onward := way.onward standard (Coroutine.onward_begun id room ⟨_, _, made⟩
          rooted element)
        obtain ⟨last, next, rfl⟩ := sound.course_after onward before_call stored kept
        rw [before.environment] at next
        exact .of (List.mem_append_left _ mem) made rooted element room (way.trans next)

end Scheduler
end MarkupMachine
