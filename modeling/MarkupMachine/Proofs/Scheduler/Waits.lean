import MarkupMachine.Proofs.Machine.Waits
import MarkupMachine.Proofs.Scheduler.Calls

/-! The wait protocol between a scheduler and its host. A host hands in completions only for waits
that it took and has not answered; then no wake-up is lost, and none comes twice. -/

namespace MarkupMachine

/-- A scheduler with a host that keeps book: waits that it took and has not answered, and numbers of
coroutines that it cancelled. -/
structure Session where
  scheduler : Scheduler
  taken : List (Nat × Wait) := []
  cancelled : List Nat := []

namespace Session

/-- The session after a call. The first wait of a coroutine is the one that is answered. -/
def after (session : Session) (call : Call) : Session where
  scheduler := session.scheduler.after call
  taken :=
    match call with
    | .takeOutbox => session.taken ++ session.scheduler.outbox
    | .deliver id _ => session.taken.eraseP (·.1 == id)
    | _ => session.taken
  cancelled :=
    match call with
    | .cancel id =>
      if (session.scheduler.coroutine? id).any (!·.isTerminated) then id :: session.cancelled
      else session.cancelled
    | _ => session.cancelled

/-- A host answers only waits that it holds. -/
def Allows (session : Session) : Call → Prop
  | .deliver id _ => ∃ w, (id, w) ∈ session.taken
  | _ => True

inductive Reached (start : Scheduler) : Session → Prop
  | start : Reached start { scheduler := start }
  | call {session call} : Reached start session → session.Allows call →
    Reached start (session.after call)

def waitsOf (id : Nat) (entries : List (Nat × Wait)) : List Wait :=
  (entries.filter (·.1 == id)).map (·.2)

def outstanding (session : Session) (id : Nat) : List Wait :=
  waitsOf id (session.taken ++ session.scheduler.outbox)

theorem waitsOf_append (id : Nat) (first later : List (Nat × Wait)) :
    waitsOf id (first ++ later) = waitsOf id first ++ waitsOf id later := by
  simp [waitsOf]

theorem waitsOf_own (id : Nat) (waits : List Wait) :
    waitsOf id (waits.map fun w => (id, w)) = waits := by
  induction waits with
  | nil => rfl
  | cons w waits ih => simpa [waitsOf] using ih

theorem waitsOf_other {id other : Nat} (h : other ≠ id) (waits : List Wait) :
    waitsOf other (waits.map fun w => (id, w)) = [] := by
  simp [waitsOf, Ne.symm h]

theorem mem_waitsOf {id : Nat} {w : Wait} {entries : List (Nat × Wait)} :
    w ∈ waitsOf id entries ↔ (id, w) ∈ entries := by
  simp [waitsOf]

theorem waitsOf_eraseP_self (id : Nat) (entries : List (Nat × Wait)) :
    waitsOf id (entries.eraseP (·.1 == id)) = (waitsOf id entries).tail := by
  induction entries with
  | nil => rfl
  | cons entry entries ih =>
    cases own : entry.1 == id with
    | true => simp [waitsOf, own]
    | false => simpa [waitsOf, own] using ih

theorem waitsOf_eraseP_other {id other : Nat} (h : other ≠ id) (entries : List (Nat × Wait)) :
    waitsOf other (entries.eraseP (·.1 == id)) = waitsOf other entries := by
  induction entries with
  | nil => rfl
  | cons entry entries ih =>
    cases own : entry.1 == id with
    | true =>
      have same : entry.1 = id := by simpa using own
      simp [waitsOf, same, Ne.symm h]
    | false => cases mine : entry.1 == other <;> simpa [waitsOf, own, mine] using ih

theorem waitsOf_withdrawn {id other : Nat} (h : other ≠ id) (entries : List (Nat × Wait)) :
    waitsOf other (entries.filter fun entry => entry.1 != id) = waitsOf other entries := by
  induction entries with
  | nil => rfl
  | cons entry entries ih =>
    cases own : entry.1 == id with
    | true =>
      have same : entry.1 = id := by simpa using own
      simpa [waitsOf, same, Ne.symm h] using ih
    | false => cases mine : entry.1 == other <;> simpa [waitsOf, own, mine, bne] using ih

end Session

namespace Scheduler

/-- The wait that a coroutine in the table stands for. -/
def owed (s : Scheduler) (id : Nat) : List Wait :=
  match s.coroutine? id with
  | some co => if co.state = .waiting then co.awaited?.toList else []
  | none => []

structure Queued (s : Scheduler) : Prop where
  nodup : s.queue.Nodup
  below : ∀ {id}, id ∈ s.queue → id < s.nextId
  waiting : ∀ {id co}, s.coroutine? id = some co → co.state = .waiting → id ∉ s.queue

end Scheduler

open Scheduler

structure Session.Balanced (session : Session) : Prop where
  sound : session.scheduler.Sound fun _ _ => True
  queued : session.scheduler.Queued
  fresh : ∀ {id}, id ∈ session.cancelled → id < session.scheduler.nextId
  balance : ∀ {id}, id ∉ session.cancelled →
    session.outstanding id = session.scheduler.owed id

namespace Coroutine

variable {admits : Coroutine → Completion → Prop} {env : Environment} {count : Nat}
  {co last : Coroutine}

theorem Passes.pending (passes : Passes env count co last) (driven : Driven admits co)
    (begun : co.state = .waiting → co.pending = co.awaited?.toList)
    (waiting : last.state = .waiting) : last.pending = last.awaited?.toList := by
  induction passes with
  | here => exact begun waiting
  | later running step _ ih =>
    have live := driven.live (by simp [running])
    exact ih (.stepped driven running step)
      (live.pending_of_transition running (live.transition_of_step running step)) waiting

theorem Driven.pending_slice (driven : Driven admits co) (ready : co.state = .ready)
    (env : Environment) (count : Nat) (waiting : (co.slice env count).state = .waiting) :
    (co.slice env count).pending = (co.slice env count).awaited?.toList := by
  obtain ⟨last, passes, eq | ⟨next, fault, _, _, eq⟩⟩ := slice_cases env count co
  · rw [eq] at waiting ⊢
    split at waiting
    · cases waiting
    · rename_i stopped
      rw [if_neg stopped]
      exact passes.pending (.started driven ready) (fun h => (nomatch h)) waiting
  · rw [eq, (ended_terminate _ next).state] at waiting
    cases waiting

end Coroutine

namespace Scheduler

variable {s : Scheduler} {id other : Nat} {co : Coroutine} {queue : List Nat}

theorem Takes.not_mem (takes : s.Takes id queue co) (queued : s.Queued) : id ∉ queue := by
  have sub := List.dropWhile_sublist (fun id => !s.isReady id) (l := s.queue)
  rw [takes.queue] at sub
  exact (List.nodup_cons.mp (queued.nodup.sublist sub)).1

theorem Takes.sublist (takes : s.Takes id queue co) : (id :: queue).Sublist s.queue := by
  have sub := List.dropWhile_sublist (fun id => !s.isReady id) (l := s.queue)
  rwa [takes.queue] at sub

theorem Queued.of_put {t : Scheduler} {rest : List Nat} (queued : s.Queued)
    (coroutines : t.coroutines = (s.put co).coroutines) (sub : rest.Sublist s.queue)
    (absent : co.state = .waiting → co.id ∉ rest) (next : s.nextId ≤ t.nextId)
    (below : co.id < t.nextId)
    (queue : t.queue = rest ∨ t.queue = rest ++ [co.id] ∧ co.id ∉ rest ∧ co.state ≠ .waiting) :
    t.Queued := by
  have lookup := coroutine?_of_put coroutines
  have nodup := queued.nodup.sublist sub
  have small {id : Nat} (mem : id ∈ rest) : id < t.nextId :=
    Nat.lt_of_lt_of_le (queued.below (sub.subset mem)) next
  have outside {id : Nat} {other : Coroutine} (stored : t.coroutine? id = some other)
      (waiting : other.state = .waiting) : id ∉ rest ∧ (id = co.id → co.state = .waiting) := by
    rw [lookup] at stored
    by_cases same : id = co.id
    · rw [if_pos same] at stored
      cases stored
      exact ⟨same ▸ absent waiting, fun _ => waiting⟩
    · rw [if_neg same] at stored
      exact ⟨fun mem => queued.waiting stored waiting (sub.subset mem), fun h => absurd h same⟩
  rcases queue with queue | ⟨queue, new, awake⟩
  · exact {
      nodup := by rwa [queue]
      below := fun mem => small (queue ▸ mem)
      waiting := fun stored waiting => queue ▸ (outside stored waiting).1 }
  · exact {
      nodup := by
        rw [queue]
        refine List.nodup_append.mpr ⟨nodup, by simp, fun a mem b last => ?_⟩
        rw [List.mem_singleton.mp last]
        exact fun same => new (same ▸ mem)
      below := fun mem => by
        rw [queue] at mem
        rcases List.mem_append.mp mem with mem | mem
        · exact small mem
        · rwa [List.mem_singleton.mp mem]
      waiting := fun stored waiting mem => by
        obtain ⟨old, other⟩ := outside stored waiting
        rw [queue] at mem
        rcases List.mem_append.mp mem with mem | mem
        · exact old mem
        · exact awake (other (List.mem_singleton.mp mem)) }

theorem state_resumeWith {co : Coroutine} (once : co.waits = 1) (c : Completion) :
    (co.resumeWith c).state = .ready := by
  simp [Coroutine.resumeWith, once]

variable {admits : Coroutine → Completion → Prop}

theorem Queued.after (queued : s.Queued) (sound : s.Sound admits) (call : Call) :
    (s.after call).Queued := by
  have done := sound.does_after call
  generalize s.after call = next at done
  cases done with
  | unable | refuses | spares => exact queued
  | spawns =>
    refine queued.of_put rfl (.refl _) (by simp [Coroutine.start]) (Nat.le_succ _)
      (Nat.lt_succ_self _) (.inr ⟨rfl, fun mem => ?_, by simp [Coroutine.start]⟩)
    exact Nat.lt_irrefl _ (queued.below mem)
  | @runs id queue co takes =>
    have kin := (sound.driven takes.coroutine).kin_slice takes.ready s.environment s.sliceSteps
    have own := sound.own takes.coroutine
    have same : (co.slice s.environment s.sliceSteps).filed.id = id := kin.id.trans own
    have absent := takes.not_mem queued
    have sub := (List.sublist_cons_self id queue).trans takes.sublist
    rw [file_eq]
    refine queued.of_put rfl sub (fun _ => same ▸ absent) (Nat.le_refl _)
      (same ▸ sound.below takes.coroutine) ?_
    by_cases ready : (co.slice s.environment s.sliceSteps).state = .ready
    · exact .inr ⟨if_pos ready, same ▸ absent, by simp [Coroutine.filed, ready]⟩
    · exact .inl (if_neg ready)
  | idles =>
    exact ⟨List.nodup_nil, fun mem => absurd mem List.not_mem_nil,
      fun _ _ => List.not_mem_nil⟩
  | delivers stored waiting =>
    have once := waits_of_waiting sound stored waiting
    have own := sound.own stored
    have awake := state_resumeWith once
    refine queued.of_put rfl (.refl _) (by simp [awake]) (Nat.le_refl _)
      (own.symm ▸ sound.below stored) (.inr ⟨by rw [← own]; rfl, ?_, by simp [awake]⟩)
    exact own.symm ▸ queued.waiting stored waiting
  | cancels stored alive =>
    have ended := Coroutine.ended_terminate .cancelled
    have kin := Coroutine.unwound_terminate .cancelled
    refine queued.of_put rfl (.refl _) (by simp [(ended _).state]) (Nat.le_refl _) ?_ (.inl rfl)
    exact ((kin _).id.trans (sound.own stored)).symm ▸ sound.below stored
  | takes | binds | unbinds | aims => exact ⟨queued.nodup, queued.below, queued.waiting⟩
  | reaps =>
    exact ⟨queued.nodup, queued.below, fun stored waiting =>
      queued.waiting (coroutine?_reap sound.ordered stored).1 waiting⟩

theorem owed_of_put {t : Scheduler} (coroutines : t.coroutines = (s.put co).coroutines) (id : Nat) :
    t.owed id = if id = co.id then (if co.state = .waiting then co.awaited?.toList else [])
      else s.owed id := by
  rw [owed, coroutine?_of_put coroutines]
  by_cases own : id = co.id
  · simp [own]
  · simp [own, owed]

theorem owed_file (s : Scheduler) (co : Coroutine) (id : Nat) :
    (s.file co).owed id = if id = co.id then (if co.state = .waiting then co.awaited?.toList else [])
      else s.owed id := by
  have coroutines : (s.file co).coroutines = (s.put co.filed).coroutines := by rw [file_eq]
  exact owed_of_put coroutines id

theorem outbox_file (s : Scheduler) (co : Coroutine) : (s.file co).outbox =
    if co.state = .waiting then s.outbox ++ co.pending.map fun wait => (co.id, wait)
      else s.outbox := by
  rw [file_eq]

theorem length_owed_le (s : Scheduler) (id : Nat) : (s.owed id).length ≤ 1 := by
  unfold owed
  split
  · split
    · rename_i co _ _
      cases co.awaited? <;> simp
    · simp
  · simp

theorem exists_of_mem_owed {w : Wait} (mem : w ∈ s.owed id) :
    ∃ co, s.coroutine? id = some co ∧ co.state = .waiting ∧ co.awaited? = some w := by
  unfold owed at mem
  split at mem
  · rename_i co stored
    split at mem
    · exact ⟨co, stored, by assumption, by simpa using mem⟩
    · cases mem
  · cases mem

theorem owed_reap (ordered : Table.Ordered s.coroutines) (id : Nat) :
    s.reap.2.owed id = s.owed id := by
  unfold owed
  rw [reap_eq ordered]
  cases stored : s.coroutine? id with
  | none => rfl
  | some co =>
    cases ended : co.isTerminated with
    | false => simp [Option.filter, ended]
    | true =>
      have state : co.state = .terminated := by simpa [Coroutine.isTerminated] using ended
      simp [Option.filter, ended, state]

theorem Sound.nextId_le (sound : s.Sound admits) (call : Call) :
    s.nextId ≤ (s.after call).nextId := by
  have done := sound.does_after call
  generalize s.after call = next at done
  cases done with
  | runs => rw [file_eq]; exact Nat.le_refl _
  | spawns => exact Nat.le_succ _
  | _ => exact Nat.le_refl _

theorem Sound.nextId_le_afterAll (sound : s.Sound admits) {calls : List Call}
    (grants : s.GrantsAll admits calls) : s.nextId ≤ (s.afterAll calls).nextId := by
  induction calls generalizing s with
  | nil => exact Nat.le_refl _
  | cons call rest ih =>
    exact Nat.le_trans (sound.nextId_le call) (ih (sound.after grants.1) grants.2)

theorem owed_of_awake (stored : s.coroutine? id = some co) (awake : co.state ≠ .waiting) :
    s.owed id = [] := by
  simp [owed, stored, awake]

theorem Sound.coroutine?_nextId (sound : s.Sound admits) : s.coroutine? s.nextId = none := by
  cases stored : s.coroutine? s.nextId with
  | none => rfl
  | some co => exact absurd (sound.below stored) (Nat.lt_irrefl _)

theorem owed_of_absent (absent : s.coroutine? id = none) : s.owed id = [] := by
  simp [owed, absent]

end Scheduler

namespace Session

variable {session : Session} {id : Nat}

theorem Balanced.of_runs {queue : List Nat} {co : Coroutine} (balanced : session.Balanced)
    (takes : session.scheduler.Takes id queue co) {other : Nat} (kept : other ∉ session.cancelled) :
    waitsOf other (session.taken ++ ({ session.scheduler with queue }.file (co.slice
      session.scheduler.environment session.scheduler.sliceSteps)).outbox) =
    ({ session.scheduler with queue }.file (co.slice session.scheduler.environment
      session.scheduler.sliceSteps)).owed other := by
  have driven := balanced.sound.driven takes.coroutine
  have kin := driven.kin_slice takes.ready session.scheduler.environment
    session.scheduler.sliceSteps
  have own := kin.id.trans (balanced.sound.own takes.coroutine)
  have before := balanced.balance kept
  have pending := driven.pending_slice takes.ready session.scheduler.environment
    session.scheduler.sliceSteps
  rw [outstanding] at before
  rw [owed_file, outbox_file]
  generalize co.slice session.scheduler.environment session.scheduler.sliceSteps = last at *
  rw [own]
  by_cases same : other = id
  · subst same
    rw [owed_of_awake takes.coroutine (by simp [takes.ready])] at before
    rw [if_pos rfl]
    by_cases waiting : last.state = .waiting
    · rw [if_pos waiting, if_pos waiting, ← List.append_assoc, waitsOf_append, before, waitsOf_own,
        pending waiting]
      rfl
    · rw [if_neg waiting, if_neg waiting]
      exact before
  · rw [if_neg same]
    refine Eq.trans ?_ before
    by_cases waiting : last.state = .waiting
    · rw [if_pos waiting, ← List.append_assoc, waitsOf_append, waitsOf_other same, List.append_nil]
    · rw [if_neg waiting]

theorem not_mem_of_after {other : Nat} {call : Call}
    (kept : other ∉ (session.after call).cancelled) : other ∉ session.cancelled := by
  intro mem
  apply kept
  cases call with
  | cancel id =>
    simp only [Session.after]
    split
    · exact List.mem_cons_of_mem _ mem
    · exact mem
  | _ => exact mem

theorem Balanced.fresh_after (balanced : session.Balanced) {call : Call} {other : Nat}
    (mem : other ∈ (session.after call).cancelled) :
    other < (session.after call).scheduler.nextId := by
  have below := balanced.sound.nextId_le call
  by_cases old : other ∈ session.cancelled
  · exact Nat.lt_of_lt_of_le (balanced.fresh old) below
  · cases call with
    | cancel id =>
      simp only [Session.after] at mem
      split at mem
      · rename_i alive
        rcases List.mem_cons.mp mem with rfl | mem
        · obtain ⟨co, stored, _⟩ := (Option.any_eq_true _ _).mp alive
          exact Nat.lt_of_lt_of_le (balanced.sound.below stored) below
        · exact absurd mem old
      · exact absurd mem old
    | _ => exact absurd mem old

theorem Balanced.held (balanced : session.Balanced) {w : Wait} (kept : id ∉ session.cancelled)
    (held : (id, w) ∈ session.taken) :
    waitsOf id session.taken = [w] ∧ waitsOf id session.scheduler.outbox = [] ∧
      session.scheduler.owed id = [w] := by
  have balance := balanced.balance kept
  rw [outstanding, waitsOf_append] at balance
  have bound := length_owed_le session.scheduler id
  rw [← balance, List.length_append] at bound
  have mem := mem_waitsOf.mpr held
  rcases taken : waitsOf id session.taken with _ | ⟨v, rest⟩
  · simp [taken] at mem
  · simp only [taken, List.length_cons] at bound
    have none : rest = [] := List.length_eq_zero_iff.mp (by omega)
    have empty : waitsOf id session.scheduler.outbox = [] := List.length_eq_zero_iff.mp (by omega)
    subst none
    have same : w = v := by simpa [taken] using mem
    rw [taken, empty] at balance
    exact ⟨by rw [same], empty, by rw [← balance, same]; rfl⟩

/-- The books stay balanced by every call that the host may make. -/
theorem Balanced.after (balanced : session.Balanced) {call : Call} (allowed : session.Allows call) :
    (session.after call).Balanced := by
  have sound := balanced.sound
  have grants : session.scheduler.Grants (fun _ _ => True) call := by
    cases call <;> simp [Grants]
  refine ⟨sound.after grants, balanced.queued.after sound call, balanced.fresh_after, ?_⟩
  intro other kept
  have before := balanced.balance (not_mem_of_after kept)
  rw [outstanding] at before
  have done := sound.does_after call
  simp only [outstanding, Session.after] at kept ⊢
  generalize session.scheduler.after call = next at done
  cases done with
  | unable | idles | spares | binds | unbinds | aims => exact before
  | spawns =>
    refine before.trans (Eq.trans ?_ (owed_of_put (by rfl) other).symm)
    by_cases new : other = session.scheduler.nextId
    · have absent : session.scheduler.coroutine? other = none := new ▸ sound.coroutine?_nextId
      rw [owed_of_absent absent, if_pos (by simpa [Coroutine.start] using new)]
      rfl
    · rw [if_neg (by simpa [Coroutine.start] using new)]
  | runs takes => exact balanced.of_runs takes kept
  | @refuses id _ still =>
    by_cases own : other = id
    · subst own
      obtain ⟨w, held⟩ := allowed
      obtain ⟨_, _, owed⟩ := balanced.held kept held
      obtain ⟨co, stored, waiting, _⟩ := exists_of_mem_owed (w := w) (by rw [owed]; simp)
      exact absurd waiting (still co stored)
    · rw [waitsOf_append, waitsOf_eraseP_other own, ← waitsOf_append]
      exact before
  | @delivers id c co stored waiting =>
    have once := waits_of_waiting sound stored waiting
    have awake := state_resumeWith once c
    have own := sound.own stored
    have number : (co.resumeWith c).id = id := own
    refine Eq.trans ?_ (owed_of_put (by rfl) other).symm
    rw [number, waitsOf_append]
    by_cases own : other = id
    · subst own
      obtain ⟨w, held⟩ := allowed
      obtain ⟨taken, outbox, _⟩ := balanced.held kept held
      rw [waitsOf_eraseP_self, taken, if_pos rfl, awake]
      exact outbox
    · rw [waitsOf_eraseP_other own, if_neg own, ← waitsOf_append]
      exact before
  | @cancels id co stored alive =>
    have kin := (Coroutine.unwound_terminate .cancelled co).id.trans (sound.own stored)
    simp only [stored, Option.any_some, alive, Bool.not_false, if_true, List.mem_cons, not_or] at kept
    refine Eq.trans ?_ (owed_of_put (by rfl) other).symm
    rw [kin, if_neg kept.1, waitsOf_append, waitsOf_withdrawn kept.1, ← waitsOf_append]
    exact before
  | takes =>
    rw [waitsOf_append]
    exact (List.append_nil _).trans before
  | reaps =>
    rw [owed_reap sound.ordered]
    exact before

theorem Balanced.start (maxFrames sliceSteps : Nat) (evaluator : Evaluator) :
    Balanced { scheduler := .empty maxFrames sliceSteps evaluator } where
  sound := .empty _ maxFrames sliceSteps evaluator
  queued := ⟨List.nodup_nil, fun mem => (nomatch mem), fun _ _ mem => (nomatch mem)⟩
  fresh mem := nomatch mem
  balance _ := rfl

theorem Reached.balanced {maxFrames sliceSteps : Nat} {evaluator : Evaluator}
    (reached : Reached (.empty maxFrames sliceSteps evaluator) session) : session.Balanced := by
  induction reached with
  | start => exact .start maxFrames sliceSteps evaluator
  | call _ allowed ih => exact ih.after allowed

structure Protocol (session : Session) : Prop where
  waiting_iff : ∀ id co, session.scheduler.coroutine? id = some co → id ∉ session.cancelled →
    (co.state = .waiting ↔ (session.outstanding id).length = 1)
  nothing : ∀ id, id ∉ session.cancelled →
    (∀ co, session.scheduler.coroutine? id = some co → co.state ≠ .waiting) →
    session.outstanding id = []
  waits : ∀ id co, session.scheduler.coroutine? id = some co →
    co.waits = if co.state = .waiting then 1 else 0
  pending : ∀ id co, session.scheduler.coroutine? id = some co → co.pending = []
  resume : ∀ id co, session.scheduler.coroutine? id = some co → co.state ≠ .terminated →
    (co.resume.isSome = true ↔ co.state = .ready ∧
      ∃ f, co.stack.top? = some f ∧ (f.next = .rerun ∨ ∃ state, f.next = .custom state))
  deliver : ∀ id w c, (id, w) ∈ session.taken → id ∉ session.cancelled → ∃ co f next,
    session.scheduler.coroutine? id = some co ∧ co.state = .waiting ∧
    co.stack.top? = some f ∧ f.Awaits w ∧
    co.stack.journal.head? = some (.suspended (some f.position) w) ∧
    session.scheduler.deliver id c = .ok next ∧
    next.coroutine? id = some (co.resumeWith c) ∧ (co.resumeWith c).state = .ready ∧
    (co.resumeWith c).resume = some c ∧ next.queue = session.scheduler.queue ++ [id] ∧
    next.queue.count id = 1
  answered : ∀ co f, session.scheduler.Shows co → co.state = .running → co.stack.top? = some f →
    (f.next = .rerun ∨ ∃ state, f.next = .custom state) → ∃ w c earlier, f.Awaits w ∧
      co.resume = some c ∧
      co.stack.journal = .resumed c :: .suspended (some f.position) w :: earlier
  paired : ∀ co, session.scheduler.Shows co → Paired co.stack.journal
  never : ∀ env co next kind, session.scheduler.Shows co → co.state = .running →
    co.step env ≠ (next, some (.structural kind "resumed without a completion"))

theorem Balanced.owed_eq {co : Coroutine} (balanced : session.Balanced)
    (stored : session.scheduler.coroutine? id = some co) (waiting : co.state = .waiting) :
    ∃ f outer w, co.stack.frames = f :: outer ∧ f.Awaits w ∧ co.Suspended f w ∧
      session.scheduler.owed id = [w] := by
  have live := (balanced.sound.driven stored).live (by simp [waiting])
  obtain ⟨f, outer, w, frames, awaits, suspended⟩ := live.exists_suspended waiting
  exact ⟨f, outer, w, frames, awaits, suspended, by
    simp [owed, stored, waiting, suspended.awaited?_eq]⟩

theorem Balanced.deliver (balanced : session.Balanced) {w : Wait} (kept : id ∉ session.cancelled)
    (held : (id, w) ∈ session.taken) (c : Completion) : ∃ co f next,
    session.scheduler.coroutine? id = some co ∧ co.state = .waiting ∧
    co.stack.top? = some f ∧ f.Awaits w ∧
    co.stack.journal.head? = some (.suspended (some f.position) w) ∧
    session.scheduler.deliver id c = .ok next ∧
    next.coroutine? id = some (co.resumeWith c) ∧ (co.resumeWith c).state = .ready ∧
    (co.resumeWith c).resume = some c ∧ next.queue = session.scheduler.queue ++ [id] ∧
    next.queue.count id = 1 := by
  obtain ⟨_, _, owed⟩ := balanced.held kept held
  obtain ⟨co, stored, waiting, _⟩ := exists_of_mem_owed (w := w) (by rw [owed]; simp)
  obtain ⟨f, outer, v, frames, awaits, suspended, same⟩ := balanced.owed_eq stored waiting
  obtain rfl : v = w := by simpa [owed] using same.symm
  obtain ⟨earlier, journal⟩ := suspended.journal
  have own := balanced.sound.own stored
  have absent := balanced.queued.waiting stored waiting
  refine ⟨co, f, _, stored, waiting, by simp [Stack.top?, frames], awaits, by simp [journal],
    deliver_eq stored waiting suspended.waits c, ?_, state_resumeWith suspended.waits c, rfl, rfl,
    ?_⟩
  · exact (coroutine?_of_put (by rfl) id).trans (if_pos own.symm)
  · rw [List.count_append, List.count_eq_zero.mpr absent]
    simp

end Session

/-- No wake-up is lost and none comes twice. -/
theorem wait_protocol (maxFrames sliceSteps : Nat) (evaluator : Evaluator) {session : Session}
    (reached : Session.Reached (.empty maxFrames sliceSteps evaluator) session) :
    session.Protocol := by
  have balanced := reached.balanced
  have sound := balanced.sound
  constructor
  · intro id co stored kept
    rw [balanced.balance kept]
    constructor
    · intro waiting
      obtain ⟨_, _, w, _, _, _, owed⟩ := balanced.owed_eq stored waiting
      simp [owed]
    · intro one
      apply Classical.byContradiction
      intro awake
      simp [owed_of_awake stored awake] at one
  · intro id kept awake
    rw [balanced.balance kept]
    cases stored : session.scheduler.coroutine? id with
    | none => exact owed_of_absent stored
    | some co => exact owed_of_awake stored (awake co stored)
  · intro id co stored
    rcases (sound.driven stored).live_or_ended with live | ended
    · exact live.waits_eq
    · simp [ended.waits, ended.state]
  · exact fun id co stored => sound.handed stored
  · exact fun id co stored alive =>
      ((sound.driven stored).live alive).resume_isSome_iff (sound.still stored)
  · exact fun id w c held kept => balanced.deliver kept held c
  · intro co f shows_ running top due
    exact ((sound.driven_of_shows shows_).live (by simp [running])).answered running top due
  · exact fun co shows_ => (sound.driven_of_shows shows_).paired
  · intro env co next kind shows_ running step
    have live := (sound.driven_of_shows shows_).live (by simp [running])
    exact (live.fails_of_step running step).ne_unanswered kind rfl

namespace Session

def pinged : Session :=
  let started := ({ scheduler := .empty 1 4 } : Session).after (.spawn 0 Scheduler.ping)
  (started.after .step).after .takeOutbox

theorem wait_protocol_pinged :
    pinged.Allows (.deliver 1 .timer) ∧ (pinged.after (.deliver 1 .timer)).Protocol := by
  have held : pinged.taken.any (·.1 == 1) = true := by decide +kernel
  obtain ⟨⟨id, w⟩, mem, own⟩ := List.any_eq_true.mp held
  obtain rfl : id = 1 := by simpa using own
  have allowed : pinged.Allows (.deliver 1 .timer) := ⟨w, mem⟩
  have reached : Reached (.empty 1 4) pinged :=
    .call (.call (.call .start trivial) trivial) trivial
  exact ⟨allowed, wait_protocol 1 4 .standard (.call reached allowed)⟩

end Session

end MarkupMachine
