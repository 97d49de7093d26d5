/-! Finite maps as lists of pairs in increasing order of their keys. The operations work on any
list; on an ordered one they keep the order, so one map has one list. -/

namespace MarkupMachine.Table

variable {α β : Type} [DecidableEq α]

def get? (key : α) : List (α × β) → Option β
  | [] => none
  | (other, value) :: rest => if key = other then some value else get? key rest

def contains (key : α) (entries : List (α × β)) : Bool := (get? key entries).isSome

def insert [LT α] [DecidableLT α] (key : α) (value : β) : List (α × β) → List (α × β)
  | [] => [(key, value)]
  | (other, previous) :: rest =>
    if key = other then (key, value) :: rest
    else if key < other then (key, value) :: (other, previous) :: rest
    else (other, previous) :: insert key value rest

def erase (key : α) : List (α × β) → List (α × β)
  | [] => []
  | (other, value) :: rest =>
    if key = other then erase key rest else (other, value) :: erase key rest

/-- The map of some pairs; of repeated keys the last one counts. -/
def ofList [LT α] [DecidableLT α] (pairs : List (α × β)) : List (α × β) :=
  pairs.foldl (fun entries pair => insert pair.1 pair.2 entries) []

def Ordered [LT α] (entries : List (α × β)) : Prop :=
  entries.Pairwise fun a b => a.1 < b.1

omit [DecidableEq α] in
theorem ordered_iff_keys [LT α] (entries : List (α × β)) :
    Ordered entries ↔ (entries.map Prod.fst).Pairwise (· < ·) := by
  simp [Ordered, List.pairwise_map]

@[simp] theorem get?_nil (key : α) : get? key ([] : List (α × β)) = none := rfl

theorem get?_insert [LT α] [DecidableLT α] (key other : α) (value : β) (entries : List (α × β)) :
    get? other (insert key value entries) =
      if other = key then some value else get? other entries := by
  induction entries with
  | nil => simp [insert, get?]
  | cons entry rest ih =>
    obtain ⟨head, previous⟩ := entry
    by_cases same : key = head
    · subst same
      by_cases h : other = key <;> simp [insert, get?, h]
    · by_cases less : key < head
      · by_cases h : other = key <;> simp [insert, get?, same, less, h]
      · by_cases h : other = head
        · subst h
          simp [insert, get?, same, less, Ne.symm same]
        · simp [insert, get?, same, less, h, ih]

theorem get?_erase (key other : α) (entries : List (α × β)) :
    get? other (erase key entries) = if other = key then none else get? other entries := by
  induction entries with
  | nil => simp [erase, get?]
  | cons entry rest ih =>
    obtain ⟨head, previous⟩ := entry
    by_cases same : key = head
    · subst same
      by_cases h : other = key
      · subst h
        simpa [erase] using ih
      · simp [erase, get?, h, ih]
    · by_cases h : other = head
      · subst h
        simp [erase, get?, same, Ne.symm same]
      · simp [erase, get?, same, h, ih]

theorem mem_of_get? {key : α} {value : β} {entries : List (α × β)}
    (h : get? key entries = some value) : (key, value) ∈ entries := by
  induction entries with
  | nil => cases h
  | cons entry rest ih =>
    obtain ⟨head, previous⟩ := entry
    by_cases same : key = head
    · simp only [get?, same, if_true, Option.some.injEq] at h
      simp [same, h]
    · simp only [get?, same, if_false] at h
      exact List.mem_cons_of_mem _ (ih h)

theorem mem_insert [LT α] [DecidableLT α] {key : α} {value : β} {entries : List (α × β)}
    {entry : α × β} (h : entry ∈ insert key value entries) :
    entry = (key, value) ∨ entry ∈ entries := by
  induction entries with
  | nil => simpa [insert] using h
  | cons first rest ih =>
    obtain ⟨head, previous⟩ := first
    simp only [insert] at h
    split at h
    · exact (List.mem_cons.mp h).imp_right (List.mem_cons_of_mem _)
    · split at h
      · exact List.mem_cons.mp h
      · rcases List.mem_cons.mp h with rfl | h
        · exact .inr (by simp)
        · exact (ih h).imp_right (List.mem_cons_of_mem _)

theorem mem_of_mem_erase {key : α} {entries : List (α × β)} {entry : α × β}
    (h : entry ∈ erase key entries) : entry ∈ entries := by
  induction entries with
  | nil => exact h
  | cons first rest ih =>
    obtain ⟨head, previous⟩ := first
    simp only [erase] at h
    split at h
    · exact .tail _ (ih h)
    · exact (List.mem_cons.mp h).elim (fun same => by simp [same]) fun h => .tail _ (ih h)

theorem get?_of_mem {key : Nat} {value : β} {entries : List (Nat × β)} (ordered : Ordered entries)
    (h : (key, value) ∈ entries) : get? key entries = some value := by
  induction entries with
  | nil => cases h
  | cons first rest ih =>
    obtain ⟨head, previous⟩ := first
    obtain ⟨least, ordered⟩ := List.pairwise_cons.mp ordered
    rcases List.mem_cons.mp h with same | h
    · cases same
      simp [get?]
    · have above := least _ h
      have other : key ≠ head := by simp only at above; omega
      simp [get?, other, ih ordered h]

theorem ordered_insert [LT α] [DecidableLT α] [Std.Trichotomous fun a b : α => a < b]
    [Trans (fun a b : α => a < b) (fun a b : α => a < b) (fun a b : α => a < b)] {key : α}
    {value : β} {entries : List (α × β)} (ordered : Ordered entries) :
    Ordered (insert key value entries) := by
  induction entries with
  | nil => simp [Ordered, insert]
  | cons first rest ih =>
    obtain ⟨head, previous⟩ := first
    obtain ⟨least, tail⟩ := List.pairwise_cons.mp ordered
    simp only [insert]
    split
    · rename_i same
      subst same
      exact List.pairwise_cons.mpr ⟨least, tail⟩
    · rename_i other
      split
      · rename_i less
        refine List.pairwise_cons.mpr ⟨fun entry mem => ?_, ordered⟩
        rcases List.mem_cons.mp mem with rfl | mem
        · exact less
        · exact Std.lt_trans less (least entry mem)
      · rename_i above
        have below : head < key := Classical.byContradiction fun apart =>
          other (Std.Trichotomous.trichotomous (r := fun a b : α => a < b) key head above apart)
        refine List.pairwise_cons.mpr ⟨fun entry mem => ?_, ih tail⟩
        rcases mem_insert mem with rfl | mem
        · exact below
        · exact least entry mem

theorem ordered_ofList [LT α] [DecidableLT α] [Std.Trichotomous fun a b : α => a < b]
    [Trans (fun a b : α => a < b) (fun a b : α => a < b) (fun a b : α => a < b)]
    (pairs : List (α × β)) : Ordered (ofList pairs) := by
  have kept : ∀ (pairs entries : List (α × β)), Ordered entries →
      Ordered (pairs.foldl (fun entries pair => insert pair.1 pair.2 entries) entries) := by
    intro pairs
    induction pairs with
    | nil => exact fun _ ordered => ordered
    | cons pair rest ih => exact fun entries ordered => ih _ (ordered_insert ordered)
  exact kept pairs [] .nil

theorem mem_of_mem_ofList [LT α] [DecidableLT α] {pairs : List (α × β)} {entry : α × β}
    (h : entry ∈ ofList pairs) : entry ∈ pairs := by
  have before : ∀ (pairs entries : List (α × β)),
      entry ∈ pairs.foldl (fun entries pair => insert pair.1 pair.2 entries) entries →
        entry ∈ pairs ∨ entry ∈ entries := by
    intro pairs
    induction pairs with
    | nil => exact fun _ mem => .inr mem
    | cons pair rest ih =>
      intro entries mem
      rcases ih _ mem with mem | mem
      · exact .inl (.tail _ mem)
      · rcases mem_insert mem with rfl | mem
        · exact .inl (.head _)
        · exact .inr mem
  exact (before pairs [] h).resolve_right (List.not_mem_nil)

theorem get?_filter {keep : Nat × β → Bool} {entries : List (Nat × β)} (ordered : Ordered entries)
    (key : Nat) : get? key (entries.filter keep) =
      (get? key entries).filter fun value => keep (key, value) := by
  induction entries with
  | nil => rfl
  | cons first rest ih =>
    obtain ⟨head, previous⟩ := first
    obtain ⟨least, tail⟩ := List.pairwise_cons.mp ordered
    have absent : get? head rest = none := by
      cases found : get? head rest with
      | none => rfl
      | some value => exact absurd (least _ (mem_of_get? found)) (Nat.lt_irrefl head)
    by_cases same : key = head
    · subst same
      cases kept : keep (key, previous) <;>
        simp [get?, kept, ih tail, absent, Option.filter]
    · cases kept : keep (head, previous) <;>
        simp [get?, kept, ih tail, same]

theorem insert_last [LT α] [DecidableLT α] [Std.Asymm fun a b : α => a < b] {key : α} {value : β}
    {entries : List (α × β)} (last : ∀ entry ∈ entries, entry.1 < key) :
    insert key value entries = entries ++ [(key, value)] := by
  induction entries with
  | nil => rfl
  | cons entry rest ih =>
    obtain ⟨other, previous⟩ := entry
    have less : other < key := last (other, previous) (by simp)
    have back : ¬ key < other := Std.Asymm.asymm _ _ less
    have apart : key ≠ other := by
      rintro rfl
      exact back less
    simp [insert, apart, back, ih fun entry mem => last entry (.tail _ mem)]

theorem ofList_of_ordered [LT α] [DecidableLT α] [Std.Asymm fun a b : α => a < b]
    {entries : List (α × β)} (ordered : Ordered entries) : ofList entries = entries := by
  have through : ∀ later earlier : List (α × β), Ordered (earlier ++ later) →
      later.foldl (fun entries pair => insert pair.1 pair.2 entries) earlier =
        earlier ++ later := by
    intro later
    induction later with
    | nil => simp
    | cons pair later ih =>
      intro earlier ordered
      have last : ∀ entry ∈ earlier, entry.1 < pair.1 := fun entry mem =>
        (List.pairwise_append.mp ordered).2.2 entry mem pair (by simp)
      rw [List.foldl_cons, insert_last last, ih _ (by simpa using ordered)]
      simp
  exact through entries [] ordered

end MarkupMachine.Table
