/-! The line of those who wait for their turn, by the record of what happened to it. Newcomers stand
behind, the first is served, and who is taken out does not come back. -/

namespace MarkupMachine

inductive Happening where
  | readied (id : Nat)
  | ran (id : Nat)
  | withdrawn (id : Nat)
  deriving DecidableEq

/-- What a line comes to. The record has its latest entry first. -/
inductive Replays (start : List Nat) : List Happening → List Nat → Prop
  | start : Replays start [] start
  | readied {log line id} : Replays start log line → id ∉ line → .withdrawn id ∉ log →
    Replays start (.readied id :: log) (line ++ [id])
  | ran {log line id} : Replays start log (id :: line) → Replays start (.ran id :: log) line
  | withdrawn {log line id} : Replays start log line → id ∈ line →
    Replays start (.withdrawn id :: log) (line.erase id)

/-- The second of two became ready after the first did so for the last time. -/
def Precedes (log : List Happening) (a b : Nat) : Prop :=
  ∃ recent older, log = recent ++ .readied a :: older ∧ .readied a ∉ recent ∧ .readied b ∈ recent

/-- Someone has had just one turn, or was taken out ahead of it. -/
def Served (log : List Happening) (b : Nat) : Prop :=
  log.count (.ran b) = 1 ∨ log.count (.ran b) = 0 ∧ .withdrawn b ∈ log

theorem Precedes.cons {log : List Happening} {a b : Nat} {event : Happening}
    (h : Precedes log a b) (other : event ≠ .readied a) : Precedes (event :: log) a b := by
  obtain ⟨recent, older, rfl, absent, mem⟩ := h
  refine ⟨event :: recent, older, rfl, ?_, List.mem_cons_of_mem _ mem⟩
  simp [Ne.symm other, absent]

theorem Precedes.asymm {log : List Happening} {a b : Nat} (h : Precedes log a b) :
    ¬ Precedes log b a := by
  rintro ⟨recent', older', split', absent', mem'⟩
  obtain ⟨recent, older, split, absent, mem⟩ := h
  rw [split] at split'
  rcases List.append_eq_append_iff.mp split' with ⟨more, rfl, _⟩ | ⟨more, rfl, _⟩
  · exact absent' (List.mem_append_left _ mem)
  · exact absent (List.mem_append_left _ mem')

theorem Served.cons {log : List Happening} {b : Nat} {event : Happening} (h : Served log b)
    (other : event ≠ .ran b) : Served (event :: log) b := by
  rw [Served, List.count_cons_of_ne other]
  exact h.imp_right fun ⟨unserved, mem⟩ => ⟨unserved, List.mem_cons_of_mem _ mem⟩

namespace Replays

variable {start line before behind : List Nat} {log newer older : List Happening} {a b : Nat}

theorem nodup (replays : Replays start log line) (once : start.Nodup) : line.Nodup := by
  induction replays with
  | start => exact once
  | readied _ absent _ ih =>
    refine List.nodup_append.mpr ⟨ih, by simp, fun a mem b last same => absent ?_⟩
    rwa [← List.mem_singleton.mp last, ← same]
  | ran _ ih => exact (List.nodup_cons.mp ih).2
  | withdrawn _ _ ih => exact ih.erase _

theorem earlier (replays : Replays start (newer ++ older) line) :
    ∃ line, Replays start older line := by
  induction newer generalizing line with
  | nil => exact ⟨line, replays⟩
  | cons event newer ih =>
    cases replays with
    | readied replays | ran replays | withdrawn replays => exact ih replays

theorem not_mem_of_withdrawn (replays : Replays start log line) (once : start.Nodup)
    (gone : .withdrawn a ∈ log) : a ∉ line := by
  induction replays with
  | start => cases gone
  | @readied log line id _ _ present ih =>
    have gone := (List.mem_cons.mp gone).resolve_left (by simp)
    have other : a ≠ id := fun same => present (same ▸ gone)
    simp [ih gone, other]
  | ran _ ih =>
    have gone := (List.mem_cons.mp gone).resolve_left (by simp)
    exact fun mem => ih gone (List.mem_cons_of_mem _ mem)
  | @withdrawn log line id replays _ ih =>
    rcases List.mem_cons.mp gone with same | gone
    · cases same
      exact (replays.nodup once).not_mem_erase
    · exact fun mem => ih gone (List.mem_of_mem_erase mem)

theorem readied_mem (replays : Replays [] log line) (mem : a ∈ line) : .readied a ∈ log := by
  induction replays with
  | start => cases mem
  | readied _ _ _ ih =>
    rcases List.mem_append.mp mem with mem | mem
    · exact List.mem_cons_of_mem _ (ih mem)
    · rw [List.mem_singleton.mp mem]
      exact List.mem_cons_self
  | ran _ ih => exact List.mem_cons_of_mem _ (ih (List.mem_cons_of_mem _ mem))
  | withdrawn _ _ ih => exact List.mem_cons_of_mem _ (ih (List.mem_of_mem_erase mem))

theorem ordered (replays : Replays [] log line) : line.Pairwise (Precedes log) := by
  induction replays with
  | start => exact List.Pairwise.nil
  | @readied log line id replays absent _ ih =>
    have apart {a : Nat} (mem : a ∈ line) : Happening.readied id ≠ .readied a := fun same => by
      cases same
      exact absent mem
    refine List.pairwise_append.mpr ⟨?_, List.pairwise_singleton _ _, fun a mem b last => ?_⟩
    · exact ih.imp_of_mem fun mem _ precedes => precedes.cons (apart mem)
    · obtain ⟨recent, older, split, fresh⟩ := List.eq_append_cons_of_mem (replays.readied_mem mem)
      rw [List.mem_singleton.mp last]
      exact ⟨.readied id :: recent, older, by rw [split]; rfl, by simp [(apart mem).symm, fresh],
        List.mem_cons_self⟩
  | ran _ ih =>
    exact (List.pairwise_cons.mp ih).2.imp fun precedes => precedes.cons (by simp)
  | withdrawn _ _ ih =>
    exact (ih.sublist List.erase_sublist).imp fun precedes => precedes.cons (by simp)

theorem ahead (replays : Replays (before ++ a :: behind) log line)
    (once : (before ++ a :: behind).Nodup) (mem : b ∈ before) (unserved : .ran a ∉ log) :
    .withdrawn a ∈ log ∨ ∃ front back, line = front ++ a :: back ∧
      (b ∈ front ∧ log.count (.ran b) = 0 ∨ b ∉ front ∧ Served log b) := by
  induction replays with
  | start => exact .inr ⟨before, behind, rfl, .inl ⟨mem, rfl⟩⟩
  | @readied log line id _ _ _ ih =>
    refine (ih (by simpa using unserved)).imp (List.mem_cons_of_mem _) ?_
    rintro ⟨front, back, rfl, state⟩
    refine ⟨front, back ++ [id], by simp, state.imp ?_ ?_⟩
    · exact fun ⟨mem, zero⟩ => ⟨mem, by simpa using zero⟩
    · exact fun ⟨passed, served⟩ => ⟨passed, served.cons (by simp)⟩
  | @ran log line id replays ih =>
    obtain ⟨other, unserved⟩ := not_or.mp (mt List.mem_cons.mpr unserved)
    refine (ih unserved).imp (List.mem_cons_of_mem _) ?_
    rintro ⟨front, back, split, state⟩
    cases front with
    | nil =>
      have same : id = a := (List.cons.inj split).1
      exact absurd (same ▸ rfl) other
    | cons first front =>
      obtain ⟨rfl, rfl⟩ := List.cons.inj split
      refine ⟨front, back, rfl, ?_⟩
      by_cases same : b = id
      · subst same
        have zero := (state.resolve_right fun ⟨passed, _⟩ => passed List.mem_cons_self).2
        have fresh := (List.nodup_cons.mp (replays.nodup once)).1
        exact .inr ⟨fun mem => fresh (List.mem_append_left _ mem), .inl (by simp [zero])⟩
      · have apart : Happening.ran id ≠ .ran b := by simp [Ne.symm same]
        refine state.imp ?_ ?_
        · rintro ⟨mem, zero⟩
          exact ⟨(List.mem_cons.mp mem).resolve_left same, by rwa [List.count_cons_of_ne apart]⟩
        · exact fun ⟨passed, served⟩ =>
            ⟨fun mem => passed (List.mem_cons_of_mem _ mem), served.cons apart⟩
  | @withdrawn log line id replays _ ih =>
    have still : .ran a ∉ log := by simpa using unserved
    rcases ih still with gone | ⟨front, back, rfl, state⟩
    · exact .inl (List.mem_cons_of_mem _ gone)
    by_cases own : id = a
    · exact .inl (own ▸ List.mem_cons_self)
    have unique : front.Nodup := (List.nodup_append.mp (replays.nodup once)).1
    refine .inr ?_
    by_cases inside : id ∈ front
    · refine ⟨front.erase id, back, List.erase_append_left _ inside, ?_⟩
      rcases state with ⟨mem, zero⟩ | ⟨passed, served⟩
      · by_cases same : b = id
        · subst same
          exact .inr ⟨unique.not_mem_erase, .inr ⟨by simpa using zero, List.mem_cons_self⟩⟩
        · exact .inl ⟨(List.mem_erase_of_ne same).mpr mem, by simpa using zero⟩
      · exact .inr ⟨fun mem => passed (List.mem_of_mem_erase mem), served.cons (by simp)⟩
    · refine ⟨front, back.erase id, ?_, ?_⟩
      · rw [List.erase_append_right _ inside, List.erase_cons_tail (by simpa using Ne.symm own)]
      · exact state.imp (fun ⟨mem, zero⟩ => ⟨mem, by simpa using zero⟩)
          fun ⟨passed, served⟩ => ⟨passed, served.cons (by simp)⟩

/-- When its turn comes, all that stood ahead of it have been served. -/
theorem served (replays : Replays (before ++ a :: behind) (.ran a :: log) line)
    (once : (before ++ a :: behind).Nodup) (mem : b ∈ before) (unserved : .ran a ∉ log) :
    Served log b := by
  cases replays with
  | ran replays =>
    have unique := replays.nodup once
    rcases replays.ahead once mem unserved with gone | ⟨front, back, split, state⟩
    · exact absurd List.mem_cons_self (replays.not_mem_of_withdrawn once gone)
    · cases front with
      | nil => exact (state.resolve_left fun ⟨mem, _⟩ => nomatch mem).2
      | cons first front =>
        obtain ⟨rfl, rfl⟩ := List.cons.inj split
        exact absurd (by simp) (List.nodup_cons.mp unique).1

end Replays
end MarkupMachine
