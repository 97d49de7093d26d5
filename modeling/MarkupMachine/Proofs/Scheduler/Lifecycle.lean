import MarkupMachine.Proofs.Scheduler.Waits

/-! The life of a coroutine in a scheduler: it is given a number, takes turns and waits until it has
ended, and is handed back once, with the outcome that it ended with. -/

namespace MarkupMachine.Scheduler

variable {admits : Coroutine → Completion → Prop} {s : Scheduler} {id : Nat} {co : Coroutine}

def issuedBy (s : Scheduler) : Call → List Nat
  | .spawn document tree =>
    ((Document.ofTree? document tree).bind fun doc => (s.spawn doc).toOption.map (·.1)).toList
  | _ => []

def returnedBy (s : Scheduler) : Call → List Finished
  | .reap => s.reap.1
  | _ => []

/-- A state that a scheduler comes to by any calls, with the numbers that they gave out and what
they handed back. -/
inductive History (start : Scheduler) : List Nat → List Finished → Scheduler → Prop
  | start : History start [] [] start
  | call {issued returned s} (call : Call) : History start issued returned s →
    History start (issued ++ s.issuedBy call) (returned ++ s.returnedBy call) (s.after call)
  | runUntilIdle {issued returned s} : History start issued returned s →
    History start issued returned s.runUntilIdle.2

theorem runTurns_keeps {P : Scheduler → Prop} (kept : ∀ s, P s → P (s.after .step))
    (turns : Nat) (h : P s) : P (runTurns turns s).2 := by
  induction turns generalizing s with
  | zero => exact h
  | succ turns ih =>
    have next := kept s h
    rw [after] at next
    rw [runTurns]
    split
    · rename_i eq
      rw [eq] at next
      exact ih next
    · rename_i eq
      rw [eq] at next
      exact next

theorem Sound.runTurns_keeps {P : Scheduler → Prop} (sound : s.Sound fun _ _ => True)
    (kept : ∀ s, (s.Sound fun _ _ => True) → P s → P (s.after .step)) (turns : Nat) (h : P s) :
    P (runTurns turns s).2 := by
  have both := Scheduler.runTurns_keeps (P := fun s => (s.Sound fun _ _ => True) ∧ P s)
    (fun s h => ⟨h.1.after (grantsAll_true s [.step]).1, kept s h.1 h.2⟩) turns ⟨sound, h⟩
  exact both.2

/-- A coroutine that is ready has its turn to come, and waits are those of coroutines. -/
structure Tidy (s : Scheduler) : Prop where
  ready : ∀ {id co}, s.coroutine? id = some co → co.state = .ready → id ∈ s.queue
  outbox : ∀ {entry}, entry ∈ s.outbox → entry.1 < s.nextId

theorem isReady_of_ready (stored : s.coroutine? id = some co) (ready : co.state = .ready) :
    s.isReady id = true := by
  simp [isReady, stored, ready]

theorem Tidy.hasReady (tidy : s.Tidy) (stored : s.coroutine? id = some co)
    (ready : co.state = .ready) : s.hasReady = true :=
  List.any_eq_true.mpr ⟨id, tidy.ready stored ready, isReady_of_ready stored ready⟩

theorem mem_dropWhile_of_ready (mem : id ∈ s.queue) (stored : s.coroutine? id = some co)
    (ready : co.state = .ready) : id ∈ s.queue.dropWhile (fun id => !s.isReady id) := by
  have split := List.takeWhile_append_dropWhile (p := fun id => !s.isReady id) (l := s.queue)
  rw [← split] at mem
  rcases List.mem_append.mp mem with passed | mem
  · have idle := List.all_eq_true.mp List.all_takeWhile id passed
    rw [isReady_of_ready stored ready] at idle
    cases idle
  · exact mem

theorem not_ready_of_nobody (tidy : s.Tidy)
    (nobody : s.queue.dropWhile (fun id => !s.isReady id) = [])
    (stored : s.coroutine? id = some co) : co.state ≠ .ready := by
  intro ready
  have mem := mem_dropWhile_of_ready (tidy.ready stored ready) stored ready
  rw [nobody] at mem
  cases mem

theorem coroutines_file (s : Scheduler) (co : Coroutine) :
    (s.file co).coroutines = (s.put co.filed).coroutines := by
  rw [file_eq]

theorem queue_file (s : Scheduler) (co : Coroutine) : (s.file co).queue =
    if co.state = .ready then s.queue ++ [co.id] else s.queue := by
  rw [file_eq]

theorem nextId_file (s : Scheduler) (co : Coroutine) : (s.file co).nextId = s.nextId := by
  rw [file_eq]
  rfl

theorem Tidy.of_put {t : Scheduler} (coroutines : t.coroutines = (s.put co).coroutines)
    (new : co.state = .ready → co.id ∈ t.queue)
    (old : ∀ id other, id ≠ co.id → s.coroutine? id = some other → other.state = .ready →
      id ∈ t.queue)
    (outbox : ∀ entry, entry ∈ t.outbox → entry.1 < t.nextId) : t.Tidy where
  ready := by
    intro id other stored ready
    rw [coroutine?_of_put coroutines] at stored
    by_cases same : id = co.id
    · rw [if_pos same] at stored
      cases stored
      exact same ▸ new ready
    · rw [if_neg same] at stored
      exact old id other same stored ready
  outbox mem := outbox _ mem

theorem Tidy.after (tidy : s.Tidy) (sound : s.Sound admits) (call : Call) :
    (s.after call).Tidy := by
  have done := sound.does_after call
  generalize s.after call = next at done
  cases done with
  | unable | refuses | spares => exact tidy
  | spawns =>
    refine .of_put rfl (fun _ => List.mem_append_right _ (List.mem_singleton.mpr rfl)) ?_ ?_
    · exact fun _ _ _ stored ready => List.mem_append_left _ (tidy.ready stored ready)
    · exact fun _ mem => Nat.lt_succ_of_lt (tidy.outbox mem)
  | @runs id queue co takes =>
    have own := sound.id_slice takes
    have given := sound.below takes.coroutine
    generalize co.slice s.environment s.sliceSteps = last at *
    refine .of_put (coroutines_file _ last) (fun ready => ?_)
      (fun other next apart stored ready => ?_) (fun entry mem => ?_)
    · have ready : last.state = .ready := ready
      rw [queue_file, if_pos ready]
      exact List.mem_append_right _ (List.mem_singleton.mpr rfl)
    · have mem := mem_dropWhile_of_ready (tidy.ready stored ready) stored ready
      rw [takes.queue] at mem
      have mem : other ∈ queue :=
        (List.mem_cons.mp mem).resolve_left fun same => apart (same.trans own.symm)
      rw [queue_file]
      split
      · exact List.mem_append_left _ mem
      · exact mem
    · rw [nextId_file]
      rw [outbox_file] at mem
      split at mem
      · rcases List.mem_append.mp mem with mem | mem
        · exact tidy.outbox mem
        · obtain ⟨_, _, rfl⟩ := List.mem_map.mp mem
          exact own ▸ given
      · exact tidy.outbox mem
  | idles nobody =>
    exact ⟨fun stored ready => absurd ready (not_ready_of_nobody tidy nobody stored), tidy.outbox⟩
  | delivers stored waiting =>
    have own := sound.own stored
    refine .of_put rfl (fun _ => ?_) ?_ fun _ => tidy.outbox
    · exact List.mem_append_right _ (List.mem_singleton.mpr own)
    · exact fun _ _ _ stored ready => List.mem_append_left _ (tidy.ready stored ready)
  | cancels stored alive =>
    refine .of_put rfl (fun ready => nomatch ready) ?_ ?_
    · exact fun _ _ _ stored ready => tidy.ready stored ready
    · exact fun _ mem => tidy.outbox (List.mem_filter.mp mem).1
  | takes => exact ⟨tidy.ready, fun mem => nomatch mem⟩
  | reaps =>
    exact ⟨fun stored ready => tidy.ready (coroutine?_reap sound.ordered stored).1 ready,
      tidy.outbox⟩
  | binds | unbinds | aims => exact ⟨tidy.ready, tidy.outbox⟩

theorem Sound.stays (sound : s.Sound admits) (stored : s.coroutine? id = some co)
    (idle : co.state ≠ .ready) {call : Call}
    (unanswered : ∀ c, call = .deliver id c → co.state ≠ .waiting)
    (spared : call = .cancel id → co.isTerminated = true)
    (kept : call = .reap → co.isTerminated = false) :
    (s.after call).coroutine? id = some co := by
  have done := sound.does_after call
  generalize s.after call = next at done
  have apart {t : Scheduler} {last : Coroutine} (coroutines : t.coroutines = (s.put last).coroutines)
      (other : id ≠ last.id) : t.coroutine? id = some co := by
    rw [coroutine?_of_put coroutines, if_neg other, stored]
  cases done with
  | unable | refuses | spares | idles | takes | binds | unbinds | aims => exact stored
  | spawns => exact apart rfl (Nat.ne_of_lt (sound.below stored))
  | @runs ran queue co' takes =>
    have own := sound.id_slice takes
    refine apart (coroutines_file _ _) fun same => idle ?_
    obtain rfl : id = ran := same.trans own
    cases stored.symm.trans takes.coroutine
    exact takes.ready
  | @delivers other c co' found waiting =>
    have own := sound.own found
    refine apart rfl fun (same : id = co'.id) => ?_
    obtain rfl : id = other := same.trans own
    cases stored.symm.trans found
    exact unanswered c rfl waiting
  | @cancels other co' found alive =>
    have own := (Coroutine.unwound_terminate .cancelled co').id.trans (sound.own found)
    refine apart rfl fun same => ?_
    obtain rfl : id = other := same.trans own
    cases stored.symm.trans found
    rw [spared rfl] at alive
    cases alive
  | reaps =>
    rw [reap_eq sound.ordered, stored]
    simp [Option.filter, kept rfl]

/-- Numbers that were given out, and what was handed back, agree with the table. -/
structure Accounted (issued : List Nat) (returned : List Finished) (s : Scheduler) : Prop where
  nodup : issued.Nodup
  below : ∀ {id}, id ∈ issued → id < s.nextId
  given : ∀ {id co}, s.coroutine? id = some co → id ∈ issued
  once : ∀ id, (returned.map (·.id)).count id =
    if id ∈ issued ∧ s.coroutine? id = none then 1 else 0

theorem mem_reap_iff (sound : s.Sound admits) (f : Finished) : f ∈ s.reap.1 ↔
    ∃ co, s.coroutine? f.id = some co ∧ co.isTerminated = true ∧ f = finished co := by
  simp only [reap, List.mem_map, List.mem_filter]
  constructor
  · rintro ⟨⟨id, co⟩, ⟨mem, ended⟩, rfl⟩
    have stored : s.coroutine? id = some co := Table.get?_of_mem sound.ordered mem
    have own : (finished co).id = id := sound.own stored
    exact ⟨co, own ▸ stored, ended, rfl⟩
  · rintro ⟨co, stored, ended, eq⟩
    exact ⟨(f.id, co), ⟨Table.mem_of_get? stored, ended⟩, eq.symm⟩

theorem count_reap (sound : s.Sound admits) (id : Nat) : (s.reap.1.map (·.id)).count id =
    if (s.coroutine? id).any (·.isTerminated) then 1 else 0 := by
  have own : s.reap.1.map (·.id) =
      (s.coroutines.filter fun entry => entry.2.isTerminated).map (·.1) := by
    simp only [reap, List.map_map]
    refine List.map_congr_left fun entry mem => ?_
    exact sound.own (Table.get?_of_mem sound.ordered (List.mem_filter.mp mem).1)
  have nodup : (s.reap.1.map (·.id)).Nodup := by
    rw [own]
    exact List.pairwise_map.mpr ((sound.ordered.filter _).imp fun less => Nat.ne_of_lt less)
  have mem : id ∈ s.reap.1.map (·.id) ↔ (s.coroutine? id).any (·.isTerminated) = true := by
    constructor
    · intro mem
      obtain ⟨f, reaped, rfl⟩ := List.mem_map.mp mem
      obtain ⟨co, stored, ended, _⟩ := (mem_reap_iff sound f).mp reaped
      simp [stored, ended]
    · intro ended
      obtain ⟨co, stored, ended⟩ := (Option.any_eq_true _ _).mp ended
      have own : (finished co).id = id := sound.own stored
      exact List.mem_map.mpr ⟨_, (mem_reap_iff sound _).mpr ⟨co, own ▸ stored, ended, rfl⟩, own⟩
  rw [nodup.count]
  by_cases h : id ∈ s.reap.1.map (·.id)
  · rw [if_pos h, if_pos (mem.mp h)]
  · rw [if_neg h, if_neg (mt mem.mpr h)]

theorem coroutine?_eq_none_of_put {t : Scheduler} {old : Coroutine}
    (stored : s.coroutine? co.id = some old) (coroutines : t.coroutines = (s.put co).coroutines)
    (id : Nat) : t.coroutine? id = none ↔ s.coroutine? id = none := by
  rw [coroutine?_of_put coroutines]
  by_cases same : id = co.id
  · simp [same, stored]
  · rw [if_neg same]

theorem Sound.coroutine?_after_eq_none (sound : s.Sound admits) {call : Call}
    (spawn : ∀ document tree, call ≠ .spawn document tree) (reap : call ≠ .reap) :
    (s.after call).nextId = s.nextId ∧
      ∀ id, (s.after call).coroutine? id = none ↔ s.coroutine? id = none := by
  have done := sound.does_after call
  generalize s.after call = next at done
  cases done with
  | unable | spawns => exact absurd rfl (spawn _ _)
  | reaps => exact absurd rfl reap
  | refuses | spares | idles | takes | binds | unbinds | aims => exact ⟨rfl, fun _ => .rfl⟩
  | @runs ran queue co takes =>
    have own := sound.id_slice takes
    exact ⟨nextId_file _ _, coroutine?_eq_none_of_put (own ▸ takes.coroutine) (coroutines_file _ _)⟩
  | delivers stored =>
    exact ⟨rfl, coroutine?_eq_none_of_put ((sound.own stored).symm ▸ stored) rfl⟩
  | cancels stored =>
    have own := (Coroutine.unwound_terminate .cancelled _).id.trans (sound.own stored)
    exact ⟨rfl, coroutine?_eq_none_of_put (own ▸ stored) rfl⟩

theorem spawn_cases (s : Scheduler) (document : Nat) (tree : Tree) :
    s.issuedBy (.spawn document tree) = [] ∧ s.after (.spawn document tree) = s ∨
    ∃ co, co.id = s.nextId ∧ s.issuedBy (.spawn document tree) = [s.nextId] ∧
      (s.after (.spawn document tree)).coroutines = (s.put co).coroutines ∧
      (s.after (.spawn document tree)).nextId = s.nextId + 1 := by
  cases made : Document.ofTree? document tree with
  | none => exact .inl ⟨by simp [issuedBy, made], by simp [after, made]⟩
  | some doc =>
    obtain ⟨root, el, rooted, element⟩ := Document.Built.exists_root ⟨document, tree, made⟩
    have eq := spawn_eq s rooted element
    by_cases none : s.maxFrames = 0
    · rw [if_pos none] at eq
      exact .inl ⟨by simp [issuedBy, made, eq, Except.toOption], by simp [after, made, eq]⟩
    · rw [if_neg none] at eq
      refine .inr ⟨.start s.maxFrames s.nextId doc root (ElementKind.ofTag el.tag), rfl, ?_, ?_, ?_⟩
      · simp [issuedBy, made, eq, Except.toOption]
      · simp only [after, made, eq]
      · simp only [after, made, eq]

variable {issued : List Nat} {returned : List Finished}

theorem Accounted.spawn {t : Scheduler} (accounted : Accounted issued returned s)
    (own : co.id = s.nextId) (coroutines : t.coroutines = (s.put co).coroutines)
    (next : t.nextId = s.nextId + 1) : Accounted (issued ++ [s.nextId]) returned t := by
  have fresh : s.nextId ∉ issued := fun mem => Nat.lt_irrefl _ (accounted.below mem)
  have lookup := coroutine?_of_put coroutines
  rw [own] at lookup
  refine ⟨?_, fun mem => ?_, fun {id other} stored => ?_, fun id => ?_⟩
  · refine List.nodup_append.mpr ⟨accounted.nodup, by simp, fun a mem b last same => fresh ?_⟩
    rwa [← List.mem_singleton.mp last, ← same]
  · rw [next]
    rcases List.mem_append.mp mem with mem | mem
    · exact Nat.lt_succ_of_lt (accounted.below mem)
    · exact List.mem_singleton.mp mem ▸ Nat.lt_succ_self _
  · by_cases new : id = s.nextId
    · exact List.mem_append_right _ (List.mem_singleton.mpr new)
    · rw [lookup, if_neg new] at stored
      exact List.mem_append_left _ (accounted.given stored)
  · rw [accounted.once, lookup]
    by_cases new : id = s.nextId
    · simp [new, fresh]
    · simp [new]

theorem Accounted.reap (accounted : Accounted issued returned s) (sound : s.Sound admits) :
    Accounted issued (returned ++ s.reap.1) s.reap.2 := by
  refine ⟨accounted.nodup, accounted.below, fun stored => ?_, fun id => ?_⟩
  · exact accounted.given (coroutine?_reap sound.ordered stored).1
  · rw [List.map_append, List.count_append, accounted.once, count_reap sound, reap_eq sound.ordered]
    cases stored : s.coroutine? id with
    | none => simp
    | some co =>
      have mem := accounted.given stored
      cases ended : co.isTerminated <;> simp [mem, ended, Option.filter]

theorem Accounted.congr {t : Scheduler} (accounted : Accounted issued returned s)
    (next : t.nextId = s.nextId) (absent : ∀ id, t.coroutine? id = none ↔ s.coroutine? id = none) :
    Accounted issued returned t where
  nodup := accounted.nodup
  below mem := next ▸ accounted.below mem
  given {id co} stored := by
    cases found : s.coroutine? id with
    | none => rw [(absent id).mpr found] at stored; cases stored
    | some other => exact accounted.given found
  once id := by
    simp only [absent]
    exact accounted.once id

theorem Accounted.after (accounted : Accounted issued returned s) (sound : s.Sound admits)
    (call : Call) :
    Accounted (issued ++ s.issuedBy call) (returned ++ s.returnedBy call) (s.after call) := by
  by_cases spawn : ∃ document tree, call = .spawn document tree
  · obtain ⟨document, tree, rfl⟩ := spawn
    have nothing : s.returnedBy (.spawn document tree) = [] := rfl
    rw [nothing, List.append_nil]
    rcases s.spawn_cases document tree with ⟨none, same⟩ | ⟨co, own, one, coroutines, next⟩
    · rw [none, same, List.append_nil]
      exact accounted
    · rw [one]
      exact accounted.spawn own coroutines next
  · by_cases reap : call = .reap
    · subst reap
      have nobody : s.issuedBy .reap = [] := rfl
      rw [nobody, List.append_nil]
      exact accounted.reap sound
    · have nobody : s.issuedBy call = [] := by
        cases call with
        | spawn document tree => exact absurd ⟨document, tree, rfl⟩ spawn
        | _ => rfl
      have nothing : s.returnedBy call = [] := by
        cases call with
        | reap => exact absurd rfl reap
        | _ => rfl
      obtain ⟨next, absent⟩ := sound.coroutine?_after_eq_none
        (fun document tree same => spawn ⟨document, tree, same⟩) reap
      rw [nobody, nothing, List.append_nil, List.append_nil]
      exact accounted.congr next absent

structure Orderly (issued : List Nat) (returned : List Finished) (s : Scheduler) : Prop where
  sound : s.Sound fun _ _ => True
  queued : s.Queued
  tidy : s.Tidy
  accounted : Accounted issued returned s

theorem Orderly.after (orderly : Orderly issued returned s) (call : Call) :
    Orderly (issued ++ s.issuedBy call) (returned ++ s.returnedBy call) (s.after call) where
  sound := orderly.sound.after (grantsAll_true s [call]).1
  queued := orderly.queued.after orderly.sound call
  tidy := orderly.tidy.after orderly.sound call
  accounted := orderly.accounted.after orderly.sound call

theorem Orderly.silent (orderly : Orderly issued returned s) (call : Call)
    (nobody : s.issuedBy call = []) (nothing : s.returnedBy call = []) :
    Orderly issued returned (s.after call) := by
  have next := orderly.after call
  rwa [nobody, nothing, List.append_nil, List.append_nil] at next

theorem Orderly.step (orderly : Orderly issued returned s) :
    Orderly issued returned (s.after .step) :=
  orderly.silent .step rfl rfl

theorem Orderly.empty (maxFrames sliceSteps : Nat) (evaluator : Evaluator) :
    Orderly [] [] (empty maxFrames sliceSteps evaluator) where
  sound := .empty _ maxFrames sliceSteps evaluator
  queued := (Session.Balanced.start maxFrames sliceSteps evaluator).queued
  tidy := ⟨fun stored => (nomatch stored), fun mem => (nomatch mem)⟩
  accounted := ⟨List.nodup_nil, fun mem => (nomatch mem), fun stored => (nomatch stored), fun _ => rfl⟩

theorem History.orderly {maxFrames sliceSteps : Nat} {evaluator : Evaluator}
    (history : History (empty maxFrames sliceSteps evaluator) issued returned s) :
    Orderly issued returned s := by
  induction history with
  | start => exact .empty maxFrames sliceSteps evaluator
  | call call _ ih => exact ih.after call
  | runUntilIdle _ ih => exact runTurns_keeps (fun _ orderly => orderly.step) _ ih

theorem History.keeps {P : Scheduler → Prop} {maxFrames sliceSteps : Nat} {evaluator : Evaluator}
    (history : History (empty maxFrames sliceSteps evaluator) issued returned s)
    (begun : P (empty maxFrames sliceSteps evaluator))
    (kept : ∀ s call, (s.Sound fun _ _ => True) → P s → P (s.after call)) : P s := by
  induction history with
  | start => exact begun
  | call call before ih => exact kept _ call before.orderly.sound ih
  | runUntilIdle before ih =>
    exact before.orderly.sound.runTurns_keeps (fun s => kept s .step) _ ih

theorem Sound.stays_runUntilIdle (sound : s.Sound fun _ _ => True)
    (stored : s.coroutine? id = some co) (idle : co.state ≠ .ready) :
    s.runUntilIdle.2.coroutine? id = some co := by
  refine sound.runTurns_keeps (P := fun s => s.coroutine? id = some co) (fun s sound stored => ?_)
    s.turnBound stored
  exact sound.stays stored idle (fun _ same => nomatch same) (fun same => nomatch same)
    (fun same => nomatch same)

structure LifeCycle (issued : List Nat) (returned : List Finished) (s : Scheduler) : Prop where
  still : ∀ id co, s.coroutine? id = some co → co.state ≠ .running
  ready : ∀ id co, s.coroutine? id = some co → co.state = .ready → s.queue.count id = 1
  waiting : ∀ id co, s.coroutine? id = some co → co.state = .waiting → id ∉ s.queue
  below : (∀ id ∈ s.queue, id < s.nextId) ∧ (∀ entry ∈ s.outbox, entry.1 < s.nextId) ∧
    ∀ id co, s.coroutine? id = some co → id < s.nextId
  issued_once : issued.Nodup ∧ ∀ id ∈ issued, id < s.nextId
  terminated : ∀ id co, s.coroutine? id = some co →
    (co.state = .terminated ↔ co.outcome.isSome = true) ∧
    (co.outcome.isSome = true ↔ co.stack.frames = [])
  final : ∀ id co o, s.coroutine? id = some co → co.outcome = some o →
    (∀ call, call ≠ .reap → (s.after call).coroutine? id = some co) ∧
    s.runUntilIdle.2.coroutine? id = some co
  waits : ∀ id co, s.coroutine? id = some co → co.state = .waiting →
    (∀ call, (∀ c, call ≠ .deliver id c) → call ≠ .cancel id →
      (s.after call).coroutine? id = some co) ∧
    s.runUntilIdle.2.coroutine? id = some co
  ran : ∀ id, s.step.1 = .ran id → ∃ co, s.coroutine? id = some co ∧ co.state = .ready
  idle : s.step.1 = .idle → (∀ id co, s.coroutine? id = some co → co.state ≠ .ready) ∧
    ∃ id co, s.coroutine? id = some co ∧ co.state = .waiting
  done : s.step.1 = .done → ∀ id co, s.coroutine? id = some co →
    co.state ≠ .ready ∧ co.state ≠ .waiting
  reaped : ∀ id co o, s.coroutine? id = some co → co.outcome = some o →
    ⟨id, co.stack.document.number, o, co.stack.stats⟩ ∈ s.reap.1 ∧
    (s.reap.1.map (·.id)).count id = 1 ∧ s.reap.2.coroutine? id = none
  genuine : ∀ f ∈ s.reap.1, ∃ co, s.coroutine? f.id = some co ∧ co.outcome = some f.outcome
  once : ∀ id, (returned.map (·.id)).count id =
    if id ∈ issued ∧ s.coroutine? id = none then 1 else 0

theorem Sound.terminated_iff (sound : s.Sound admits) (stored : s.coroutine? id = some co) :
    (co.state = .terminated ↔ co.outcome.isSome = true) ∧
    (co.outcome.isSome = true ↔ co.stack.frames = []) := by
  rcases (sound.driven stored).live_or_ended with live | ended
  · obtain ⟨f, outer, frames, _, _⟩ := live.standing
    simp [live.state, live.outcome, frames]
  · simp [ended.state, Option.isSome_iff_ne_none.mpr ended.outcome, ended.frames]

theorem Sound.isTerminated_of_outcome (sound : s.Sound admits) {o : Outcome}
    (stored : s.coroutine? id = some co) (outcome : co.outcome = some o) :
    co.isTerminated = true := by
  have state := (sound.terminated_iff stored).1.mpr (by simp [outcome])
  simp [Coroutine.isTerminated, state]

theorem hasWaiting_iff (sound : s.Sound admits) :
    s.hasWaiting = true ↔ ∃ id co, s.coroutine? id = some co ∧ co.state = .waiting := by
  simp only [hasWaiting, List.any_eq_true, beq_iff_eq]
  constructor
  · rintro ⟨⟨id, co⟩, mem, waiting⟩
    exact ⟨id, co, Table.get?_of_mem sound.ordered mem, waiting⟩
  · rintro ⟨id, co, stored, waiting⟩
    exact ⟨(id, co), Table.mem_of_get? stored, waiting⟩

theorem nobody_of_turn (h : ∀ id, s.step.1 ≠ .ran id) :
    s.queue.dropWhile (fun id => !s.isReady id) = [] := by
  rcases s.step_cases with ⟨nobody, _⟩ | ⟨id, _, _, takes, _⟩
  · exact nobody
  · exact absurd takes.turn (h id)

theorem Orderly.lifeCycle (orderly : Orderly issued returned s) : LifeCycle issued returned s := by
  have sound := orderly.sound
  refine {
    still := fun id co stored => sound.still stored
    ready := fun id co stored ready => ?_
    waiting := fun id co => orderly.queued.waiting
    below := ⟨fun id => orderly.queued.below, fun entry => orderly.tidy.outbox,
      fun id co => sound.below⟩
    issued_once := ⟨orderly.accounted.nodup, fun id => orderly.accounted.below⟩
    terminated := fun id co => sound.terminated_iff
    final := fun id co o stored outcome => ?_
    waits := fun id co stored waiting => ?_
    ran := fun id ran => ?_
    idle := fun turn => ?_
    done := fun turn id co stored => ?_
    reaped := fun id co o stored outcome => ?_
    genuine := fun f mem => ?_
    once := orderly.accounted.once }
  · rw [orderly.queued.nodup.count, if_pos (orderly.tidy.ready stored ready)]
  · have ended := sound.isTerminated_of_outcome stored outcome
    have state : co.state = .terminated := by simpa [Coroutine.isTerminated] using ended
    refine ⟨fun call other => ?_, sound.stays_runUntilIdle stored (by simp [state])⟩
    exact sound.stays stored (by simp [state]) (fun _ _ => by simp [state]) (fun _ => ended)
      fun same => absurd same other
  · refine ⟨fun call unanswered spared => ?_, sound.stays_runUntilIdle stored (by simp [waiting])⟩
    exact sound.stays stored (by simp [waiting]) (fun c same => absurd same (unanswered c))
      (fun same => absurd same spared) fun _ => by simp [Coroutine.isTerminated, waiting]
  · obtain ⟨_, co, takes⟩ := takes_of_ran ran
    exact ⟨co, takes.coroutine, takes.ready⟩
  · have nobody := nobody_of_turn (s := s) fun id => by simp [turn]
    rw [turn_of_nobody nobody] at turn
    refine ⟨fun id co stored => not_ready_of_nobody orderly.tidy nobody stored,
      (hasWaiting_iff sound).mp ?_⟩
    by_cases waiting : s.hasWaiting = true
    · exact waiting
    · simp [waiting] at turn
  · have nobody := nobody_of_turn (s := s) fun id => by simp [turn]
    rw [turn_of_nobody nobody] at turn
    refine ⟨not_ready_of_nobody orderly.tidy nobody stored, fun waiting => ?_⟩
    rw [if_pos ((hasWaiting_iff sound).mpr ⟨id, co, stored, waiting⟩)] at turn
    cases turn
  · have ended := sound.isTerminated_of_outcome stored outcome
    have own := sound.own stored
    refine ⟨(mem_reap_iff sound _).mpr ⟨co, stored, ended, ?_⟩, ?_, ?_⟩
    · simp [finished, own, outcome]
    · simp [count_reap sound, stored, ended]
    · simp [reap_eq sound.ordered, stored, ended, Option.filter]
  · obtain ⟨co, stored, ended, eq⟩ := (mem_reap_iff sound f).mp mem
    have state : co.state = .terminated := by simpa [Coroutine.isTerminated] using ended
    obtain ⟨o, outcome⟩ := Option.isSome_iff_exists.mp ((sound.terminated_iff stored).1.mp state)
    refine ⟨co, stored, ?_⟩
    rw [eq]
    simp [finished, outcome]

theorem life_cycle (maxFrames sliceSteps : Nat) (evaluator : Evaluator)
    (history : History (empty maxFrames sliceSteps evaluator) issued returned s) :
    LifeCycle issued returned s :=
  history.orderly.lifeCycle

/-- Two coroutines wait, and the first of them is cancelled. -/
def parting : Scheduler :=
  (((empty 1 8).after (.spawn 0 ping)).after (.spawn 1 ping)).runUntilIdle.2.after (.cancel 1)

theorem life_cycle_parting : ∃ f : Finished,
    History (empty 1 8) [1, 2] [f] (parting.after .reap) ∧ f.id = 1 ∧ f.outcome = .cancelled ∧
      LifeCycle [1, 2] [f] (parting.after .reap) := by
  obtain ⟨f, reaped, id, outcome⟩ :
      ∃ f : Finished, parting.reap.1 = [f] ∧ f.id = 1 ∧ f.outcome = .cancelled := ⟨_, rfl, rfl, rfl⟩
  have first : (empty 1 8).issuedBy (.spawn 0 ping) = [1] := by decide +kernel
  have second : ((empty 1 8).after (.spawn 0 ping)).issuedBy (.spawn 1 ping) = [2] := by
    decide +kernel
  have history : History (empty 1 8) _ _ (parting.after .reap) :=
    .call .reap (.call (.cancel 1) (.runUntilIdle (.call (.spawn 1 ping) (.call (.spawn 0 ping)
      .start))))
  rw [first, second] at history
  simp only [issuedBy, returnedBy] at history
  have history : History (empty 1 8) [1, 2] [f] (parting.after .reap) := reaped ▸ history
  exact ⟨f, history, id, outcome, life_cycle 1 8 .standard history⟩

end MarkupMachine.Scheduler
