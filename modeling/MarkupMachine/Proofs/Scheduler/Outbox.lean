import MarkupMachine.Proofs.Scheduler.Lifecycle

/-! What lies in the outbox of a scheduler, whatever calls came before: of the waits of a coroutine
that waits, the last is the one that it stands for. -/

namespace MarkupMachine.Scheduler

open Session (waitsOf waitsOf_append waitsOf_own waitsOf_other waitsOf_withdrawn)

variable {admits : Coroutine → Completion → Prop} {s : Scheduler} {id : Nat} {co : Coroutine}

def Latest (s : Scheduler) : Prop :=
  ∀ id, waitsOf id s.outbox = [] ∨ s.owed id <:+ waitsOf id s.outbox

theorem Latest.of_put {t : Scheduler} (latest : s.Latest)
    (coroutines : t.coroutines = (s.put co).coroutines)
    (own : (if co.state = .waiting then co.awaited?.toList else []) <:+ waitsOf co.id t.outbox)
    (other : ∀ id, id ≠ co.id → waitsOf id t.outbox = waitsOf id s.outbox) : t.Latest := by
  intro id
  rw [owed_of_put coroutines]
  by_cases same : id = co.id
  · rw [if_pos same, same]
    exact .inr own
  · rw [if_neg same, other id same]
    exact latest id

theorem Latest.after (latest : s.Latest) (sound : s.Sound admits) (call : Call) :
    (s.after call).Latest := by
  have done := sound.does_after call
  generalize s.after call = next at done
  cases done with
  | unable | refuses | spares | idles | binds | unbinds | aims => exact latest
  | spawns => exact latest.of_put rfl List.nil_suffix fun _ _ => rfl
  | @runs id queue co takes =>
    have pending := (sound.driven takes.coroutine).pending_slice takes.ready s.environment
      s.sliceSteps
    generalize co.slice s.environment s.sliceSteps = last at *
    refine latest.of_put (coroutines_file _ last) ?_ fun other apart => ?_
    · change (if last.state = .waiting then last.awaited?.toList else []) <:+ waitsOf last.id _
      rw [outbox_file]
      by_cases waiting : last.state = .waiting
      · rw [if_pos waiting, if_pos waiting, waitsOf_append, waitsOf_own, pending waiting]
        exact List.suffix_append _ _
      · rw [if_neg waiting]
        exact List.nil_suffix
    · rw [outbox_file]
      by_cases waiting : last.state = .waiting
      · have apart : other ≠ last.id := apart
        rw [if_pos waiting, waitsOf_append, waitsOf_other apart, List.append_nil]
      · rw [if_neg waiting]
  | @delivers id c co stored waiting =>
    have awake := state_resumeWith (waits_of_waiting sound stored waiting) c
    refine latest.of_put rfl ?_ fun _ _ => rfl
    rw [if_neg (by simp [awake])]
    exact List.nil_suffix
  | @cancels id co stored alive =>
    have kin := (Coroutine.unwound_terminate .cancelled co).id.trans (sound.own stored)
    have ended := Coroutine.ended_terminate .cancelled co
    refine latest.of_put rfl ?_ fun other apart => ?_
    · rw [if_neg (by simp [ended.state])]
      exact List.nil_suffix
    · exact waitsOf_withdrawn (kin ▸ apart) _
  | takes => exact fun _ => .inl rfl
  | reaps =>
    intro id
    rw [owed_reap sound.ordered]
    exact latest id

theorem outbox_deliver (sound : s.Sound admits) (id : Nat) (c : Completion) :
    (s.after (.deliver id c)).outbox = s.outbox := by
  have done := sound.does_after (.deliver id c)
  generalize s.after (.deliver id c) = next at done
  cases done <;> rfl

theorem History.latest {maxFrames sliceSteps : Nat} {evaluator : Evaluator} {issued : List Nat}
    {returned : List Finished}
    (history : History (empty maxFrames sliceSteps evaluator) issued returned s) : s.Latest :=
  history.keeps (fun _ => .inl rfl) fun _ call sound latest => latest.after sound call

/-- The outbox holds one wait for each coroutine that waits, and nothing else. -/
def Posted (s : Scheduler) : Prop :=
  ∀ id, (s.outbox.map (·.1)).count id =
    if (s.coroutine? id).any (·.state == .waiting) then 1 else 0

theorem length_owed (sound : s.Sound admits) (id : Nat) : (s.owed id).length =
    if (s.coroutine? id).any (·.state == .waiting) then 1 else 0 := by
  cases stored : s.coroutine? id with
  | none => simp [owed_of_absent stored]
  | some co =>
    by_cases waiting : co.state = .waiting
    · have live := (sound.driven stored).live (by simp [waiting])
      obtain ⟨_, _, w, _, _, suspended⟩ := live.exists_suspended waiting
      simp [owed, stored, waiting, suspended.awaited?_eq]
    · simp [owed_of_awake stored waiting, waiting]

theorem count_eq_length_waitsOf (id : Nat) (entries : List (Nat × Wait)) :
    (entries.map (·.1)).count id = (waitsOf id entries).length := by
  rw [waitsOf, List.length_map, ← List.countP_eq_length_filter, List.count, List.countP_map]
  rfl

theorem History.balanced {maxFrames sliceSteps : Nat} {evaluator : Evaluator} {issued : List Nat}
    {returned : List Finished}
    (history : History (empty maxFrames sliceSteps evaluator) issued returned s)
    (posted : s.Posted) : Session.Balanced { scheduler := s } where
  sound := history.orderly.sound
  queued := history.orderly.queued
  fresh mem := absurd mem List.not_mem_nil
  balance {id} _ := by
    change waitsOf id s.outbox = s.owed id
    have lengths : (s.owed id).length = (waitsOf id s.outbox).length := by
      rw [length_owed history.orderly.sound, ← posted id, count_eq_length_waitsOf]
    rcases history.latest id with none | suffix
    · rw [none] at lengths ⊢
      exact (List.length_eq_zero_iff.mp lengths).symm
    · exact (suffix.eq_of_length lengths).symm

end MarkupMachine.Scheduler
