import MarkupMachine.Proofs.Scheduler.Outbox

/-! Waits that are over. A completion may come before the host has taken the wait that it ends;
what lies in the outbox then is of no use to anyone, and stays there until it is taken or the
coroutine is cancelled. -/

namespace MarkupMachine.Scheduler

open Session (waitsOf waitsOf_append waitsOf_own waitsOf_other waitsOf_withdrawn mem_waitsOf)

variable {admits : Coroutine → Completion → Prop} {s : Scheduler} {id : Nat} {co : Coroutine}
  {stale : List (Nat × Wait)}

/-- Entries of the outbox are those of coroutines that wait, and none has two of them. -/
structure Prompt (s : Scheduler) : Prop where
  waiting : ∀ id w, (id, w) ∈ s.outbox → ∃ co, s.coroutine? id = some co ∧ co.state = .waiting
  once : (s.outbox.map (·.1)).Nodup

/-- The entries of the outbox whose waits are over after a call. A completion ends the wait that
its coroutine stands for, with the entry taken or not. -/
def outlived (s : Scheduler) (stale : List (Nat × Wait)) : Call → List (Nat × Wait)
  | .deliver id _ =>
    if (s.coroutine? id).any (·.state == .waiting) then
      stale.filter (·.1 != id) ++ s.outbox.filter (·.1 == id)
    else stale
  | .cancel id =>
    if (s.coroutine? id).any (!·.isTerminated) then stale.filter (·.1 != id) else stale
  | .takeOutbox => []
  | _ => stale

inductive Leaves (start : Scheduler) : List (Nat × Wait) → Scheduler → Prop
  | start : Leaves start [] start
  | call {stale : List (Nat × Wait)} {s : Scheduler} (call : Call) : Leaves start stale s →
    Leaves start (s.outlived stale call) (s.after call)
  | runUntilIdle {stale : List (Nat × Wait)} {s : Scheduler} : Leaves start stale s →
    Leaves start stale s.runUntilIdle.2

theorem waitsOf_kept (id : Nat) (entries : List (Nat × Wait)) :
    waitsOf id (entries.filter (·.1 == id)) = waitsOf id entries := by
  simp [waitsOf]

theorem waitsOf_kept_other {other : Nat} (apart : other ≠ id) (entries : List (Nat × Wait)) :
    waitsOf other (entries.filter (·.1 == id)) = [] := by
  rw [waitsOf, List.filter_filter, List.map_eq_nil_iff, List.filter_eq_nil_iff]
  intro entry _
  simp only [Bool.and_eq_true, beq_iff_eq, not_and]
  exact fun same => same ▸ apart

theorem waitsOf_withdrawn_self (id : Nat) (entries : List (Nat × Wait)) :
    waitsOf id (entries.filter (·.1 != id)) = [] := by
  rw [waitsOf, List.filter_filter, List.map_eq_nil_iff, List.filter_eq_nil_iff]
  simp

/-- Entries of a coroutine: those whose waits are over come first, and the wait that it stands for
is the last. Or all of them have been taken. -/
def Sorts (s : Scheduler) (stale : List (Nat × Wait)) : Prop :=
  ∀ id, waitsOf id s.outbox = waitsOf id stale ++ s.owed id ∨
    waitsOf id s.outbox = [] ∧ waitsOf id stale = []

theorem Sorts.eq_of_owed (sorts : s.Sorts stale) (nothing : s.owed id = []) :
    waitsOf id s.outbox = waitsOf id stale := by
  rcases sorts id with eq | ⟨taken, none⟩
  · rw [eq, nothing, List.append_nil]
  · rw [taken, none]

theorem Sorts.of_put {t : Scheduler} {left : List (Nat × Wait)} (sorts : s.Sorts stale)
    (coroutines : t.coroutines = (s.put co).coroutines)
    (own : waitsOf co.id t.outbox =
      waitsOf co.id left ++ if co.state = .waiting then co.awaited?.toList else [])
    (outbox : ∀ id, id ≠ co.id → waitsOf id t.outbox = waitsOf id s.outbox)
    (others : ∀ id, id ≠ co.id → waitsOf id left = waitsOf id stale) : t.Sorts left := by
  intro id
  rw [owed_of_put coroutines]
  by_cases same : id = co.id
  · rw [if_pos same, same]
    exact .inl own
  · rw [if_neg same, outbox id same, others id same]
    exact sorts id

theorem Sorts.after (sorts : s.Sorts stale) (sound : s.Sound admits) (call : Call) :
    (s.after call).Sorts (s.outlived stale call) := by
  have done := sound.does_after call
  generalize s.after call = next at done
  cases done with
  | unable | idles | binds | unbinds | aims => exact sorts
  | spawns =>
    refine sorts.of_put rfl ?_ (fun _ _ => rfl) fun _ _ => rfl
    exact (sorts.eq_of_owed (owed_of_absent sound.coroutine?_nextId)).trans (List.append_nil _).symm
  | @runs id queue co takes =>
    have pending := (sound.driven takes.coroutine).pending_slice takes.ready s.environment
      s.sliceSteps
    have own := sound.id_slice takes
    have before := sorts.eq_of_owed (owed_of_awake takes.coroutine (by simp [takes.ready]))
    generalize co.slice s.environment s.sliceSteps = last at *
    subst own
    refine sorts.of_put (coroutines_file _ last) ?_ (fun other apart => ?_) fun _ _ => rfl
    · change waitsOf last.id _ = waitsOf last.id stale ++
        if last.state = .waiting then last.awaited?.toList else []
      rw [outbox_file]
      by_cases waiting : last.state = .waiting
      · rw [if_pos waiting, if_pos waiting, waitsOf_append, waitsOf_own, pending waiting, before]
      · rw [if_neg waiting, if_neg waiting, before, List.append_nil]
    · rw [outbox_file]
      by_cases waiting : last.state = .waiting
      · have apart : other ≠ last.id := apart
        rw [if_pos waiting, waitsOf_append, waitsOf_other apart, List.append_nil]
      · rw [if_neg waiting]
  | @refuses id c still =>
    have awake : (s.coroutine? id).any (·.state == .waiting) = false := by
      cases stored : s.coroutine? id with
      | none => rfl
      | some co => simpa using still co stored
    rw [outlived, awake]
    exact sorts
  | @delivers id c co stored waiting =>
    have awake := state_resumeWith (waits_of_waiting sound stored waiting) c
    have own := sound.own stored
    have number : (co.resumeWith c).id = id := own
    have due : (s.coroutine? id).any (·.state == .waiting) = true := by simp [stored, waiting]
    rw [outlived, if_pos due]
    refine sorts.of_put rfl ?_ (fun _ _ => rfl) fun other apart => ?_
    · rw [if_neg (by simp [awake]), number, waitsOf_append, waitsOf_withdrawn_self, waitsOf_kept,
        List.nil_append, List.append_nil]
      rfl
    · rw [number] at apart
      rw [waitsOf_append, waitsOf_withdrawn apart, waitsOf_kept_other apart, List.append_nil]
  | @spares id ended =>
    have spared : (s.coroutine? id).any (!·.isTerminated) = false := by
      cases stored : s.coroutine? id with
      | none => rfl
      | some co => simpa using ended co stored
    rw [outlived, spared]
    exact sorts
  | @cancels id co stored alive =>
    have number : (co.terminate .cancelled).id = id :=
      (Coroutine.unwound_terminate .cancelled co).id.trans (sound.own stored)
    have ended := Coroutine.ended_terminate .cancelled co
    have live : (s.coroutine? id).any (!·.isTerminated) = true := by simp [stored, alive]
    rw [outlived, if_pos live]
    refine sorts.of_put rfl ?_ (fun other apart => ?_) fun other apart => ?_
    · have withdrawn := waitsOf_withdrawn_self id
      rw [if_neg (by simp [ended.state]), number, List.append_nil]
      exact (withdrawn s.outbox).trans (withdrawn stale).symm
    · exact waitsOf_withdrawn (number ▸ apart) _
    · exact waitsOf_withdrawn (number ▸ apart) _
  | takes => exact fun _ => .inr ⟨rfl, rfl⟩
  | reaps =>
    intro id
    rw [owed_reap sound.ordered]
    exact sorts id

theorem Sorts.prompt_iff (sorts : s.Sorts stale) (sound : s.Sound admits) :
    s.Prompt ↔ stale = [] := by
  constructor
  · intro prompt
    refine List.eq_nil_iff_forall_not_mem.mpr fun ⟨id, w⟩ mem => ?_
    have old := mem_waitsOf.mpr mem
    rcases sorts id with eq | ⟨_, none⟩
    · have listed : (id, w) ∈ s.outbox := by
        rw [← mem_waitsOf, eq]
        exact List.mem_append_left _ old
      obtain ⟨co, stored, waiting⟩ := prompt.waiting id w listed
      have one := length_owed sound id
      rw [stored, Option.any_some, waiting, if_pos (by rfl)] at one
      have most := List.nodup_iff_count.mp prompt.once id
      rw [count_eq_length_waitsOf, eq, List.length_append, one] at most
      have some := List.length_pos_of_mem old
      omega
    · rw [none] at old
      cases old
  · rintro rfl
    have owed (id : Nat) : waitsOf id s.outbox = s.owed id ∨ waitsOf id s.outbox = [] :=
      (sorts id).imp_right And.left
    refine ⟨fun id w mem => ?_, List.nodup_iff_count.mpr fun id => ?_⟩
    · have mem := mem_waitsOf.mpr mem
      rcases owed id with eq | none
      · rw [eq] at mem
        obtain ⟨co, stored, waiting, _⟩ := exists_of_mem_owed mem
        exact ⟨co, stored, waiting⟩
      · rw [none] at mem
        cases mem
    · rw [count_eq_length_waitsOf]
      rcases owed id with eq | none
      · rw [eq]
        exact length_owed_le s id
      · rw [none]
        exact Nat.zero_le 1

theorem Leaves.history {start : Scheduler} (leaves : Leaves start stale s) :
    ∃ issued returned, History start issued returned s := by
  induction leaves with
  | start => exact ⟨_, _, .start⟩
  | call call _ ih =>
    obtain ⟨_, _, history⟩ := ih
    exact ⟨_, _, history.call call⟩
  | runUntilIdle _ ih =>
    obtain ⟨_, _, history⟩ := ih
    exact ⟨_, _, history.runUntilIdle⟩

theorem Leaves.sound {maxFrames sliceSteps : Nat} {evaluator : Evaluator}
    (leaves : Leaves (empty maxFrames sliceSteps evaluator) stale s) :
    s.Sound fun _ _ => True := by
  obtain ⟨_, _, history⟩ := leaves.history
  exact history.orderly.sound

theorem Leaves.sorts {maxFrames sliceSteps : Nat} {evaluator : Evaluator}
    (leaves : Leaves (empty maxFrames sliceSteps evaluator) stale s) : s.Sorts stale := by
  induction leaves with
  | start => exact fun _ => .inl rfl
  | call call before ih => exact ih.after before.sound call
  | @runUntilIdle stale s before ih =>
    exact before.sound.runTurns_keeps (P := fun s => s.Sorts stale)
      (fun s sound sorts => sorts.after sound .step) s.turnBound ih

structure Posts (stale : List (Nat × Wait)) (s : Scheduler) : Prop where
  entries : ∀ id, waitsOf id s.outbox = waitsOf id stale ++ s.owed id ∨
    waitsOf id s.outbox = [] ∧ waitsOf id stale = []
  prompt_iff : s.Prompt ↔ stale = []
  spoils_iff : s.Prompt → ∀ call, ¬ (s.after call).Prompt ↔
    ∃ id c w, call = .deliver id c ∧ (id, w) ∈ s.outbox
  turns : s.Prompt → s.runUntilIdle.2.Prompt

/-- The outbox holds live waits, but for those whose completions came ahead of the host. -/
theorem outbox_posts (maxFrames sliceSteps : Nat) (evaluator : Evaluator)
    (leaves : Leaves (empty maxFrames sliceSteps evaluator) stale s) : Posts stale s := by
  have prompt_iff := leaves.sorts.prompt_iff leaves.sound
  refine ⟨leaves.sorts, prompt_iff, fun prompt call => ?_, fun prompt => ?_⟩
  · obtain rfl := prompt_iff.mp prompt
    have next := leaves.call call
    rw [next.sorts.prompt_iff next.sound]
    constructor
    · intro spoilt
      cases call with
      | deliver id c =>
        rw [outlived] at spoilt
        split at spoilt
        · rw [List.filter_nil, List.nil_append] at spoilt
          obtain ⟨⟨other, w⟩, mem⟩ := List.exists_mem_of_ne_nil _ spoilt
          obtain ⟨listed, same⟩ := List.mem_filter.mp mem
          obtain rfl : other = id := by simpa using same
          exact ⟨other, c, w, rfl, listed⟩
        · exact absurd rfl spoilt
      | cancel id =>
        rw [outlived] at spoilt
        split at spoilt <;> exact absurd rfl spoilt
      | _ => exact absurd rfl spoilt
    · rintro ⟨id, c, w, rfl, mem⟩ none
      obtain ⟨co, stored, waiting⟩ := prompt.waiting id w mem
      have due : (s.coroutine? id).any (·.state == .waiting) = true := by simp [stored, waiting]
      rw [outlived, if_pos due] at none
      have left : (id, w) ∈ s.outbox.filter (·.1 == id) := List.mem_filter.mpr ⟨mem, by simp⟩
      rw [(List.append_eq_nil_iff.mp none).2] at left
      cases left
  · have later := leaves.runUntilIdle
    exact (later.sorts.prompt_iff later.sound).mpr (prompt_iff.mp prompt)

def naps : Tree :=
  .element {
    tag := "sleep"
    attributes := [{ name := "for", value := some (.literal (.text "1s")) }] } []

/-- A timer is over before the host has taken it. -/
def roused : Scheduler := (empty 1 8).afterAll [.spawn 0 naps, .step, .deliver 1 .timer]

theorem outbox_posts_roused : ∃ stale, Leaves (empty 1 8) stale roused ∧
    stale.map (·.1) = [1] ∧ Posts stale roused := by
  have leaves : Leaves (empty 1 8) _ roused :=
    .call (.deliver 1 .timer) (.call .step (.call (.spawn 0 naps) .start))
  exact ⟨_, leaves, by decide +kernel, outbox_posts 1 8 .standard leaves⟩

/-- The wait is still posted when its coroutine is ready, and when it has been handed back. -/
theorem outbox_roused : ¬ roused.Prompt ∧ ∃ w, (1, w) ∈ roused.outbox ∧
    (roused.coroutine? 1).any (·.state == .ready) = true ∧
    (1, w) ∈ (roused.afterAll [.step, .reap]).outbox ∧
    (roused.afterAll [.step, .reap]).coroutine? 1 = none := by
  have listed : roused.outbox.any (·.1 == 1) = true := by decide +kernel
  have ready : (roused.coroutine? 1).any (·.state == .ready) = true := by decide +kernel
  obtain ⟨⟨id, w⟩, mem, own⟩ := List.any_eq_true.mp listed
  obtain rfl : id = 1 := by simpa using own
  refine ⟨fun prompt => ?_, w, mem, ready, ?_, ?_⟩
  · obtain ⟨co, stored, waiting⟩ := prompt.waiting 1 w mem
    simp [stored, waiting] at ready
  · have same : (roused.afterAll [.step, .reap]).outbox = roused.outbox := by rfl
    rwa [same]
  · have gone : ((roused.afterAll [.step, .reap]).coroutine? 1).isNone = true := by
      decide +kernel
    exact Option.isNone_iff_eq_none.mp gone

end MarkupMachine.Scheduler
