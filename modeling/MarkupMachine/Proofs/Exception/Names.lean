import Mathlib.Data.List.Dedup
import Mathlib.Data.List.Perm.Subperm
import MarkupMachine.Exception.Codec
import MarkupMachine.Proofs.Text.Blank

/-! Names and their numbers. A number stands for the same name for good, whatever names are entered
before and after; so a filter that compares numbers accepts what its words say. -/

namespace MarkupMachine.NameTable

section Table

variable {table : NameTable} {name other : String} {atom : Atom}

theorem name_of_lookup? (found : table.lookup? name = some atom) : table.name atom = name := by
  simp [NameTable.name, (table.agree name atom).mp found]

theorem lookup?_inj (found : table.lookup? name = some atom)
    (found' : table.lookup? other = some atom) : name = other := by
  rw [← name_of_lookup? found, name_of_lookup? found']

theorem lookup?_push (absent : table.lookup? name = none) (other : String) :
    (table.push name absent).lookup? other =
      if other = name then some table.names.size else table.lookup? other :=
  Table.get?_insert name other table.names.size table.index

theorem intern_of_lookup? (found : table.lookup? name = some atom) :
    table.intern name = (table, atom) := by
  unfold intern
  split
  · rename_i known
    rw [found] at known
    cases known
    rfl
  · rename_i absent
    rw [found] at absent
    cases absent

theorem intern_of_absent (absent : table.lookup? name = none) :
    table.intern name = (table.push name absent, table.names.size) := by
  unfold intern
  split
  · rename_i known
    rw [absent] at known
    cases known
  · rfl

theorem lookup?_intern_self (table : NameTable) (name : String) :
    (table.intern name).1.lookup? name = some (table.intern name).2 := by
  cases known : table.lookup? name with
  | some atom => rw [intern_of_lookup? known, known]
  | none => rw [intern_of_absent known, lookup?_push, if_pos rfl]

theorem lookup?_intern_of_ne (ne : name ≠ other) (table : NameTable) :
    (table.intern other).1.lookup? name = table.lookup? name := by
  cases known : table.lookup? other with
  | some atom => rw [intern_of_lookup? known]
  | none => rw [intern_of_absent known, lookup?_push, if_neg ne]

theorem lookup?_intern (found : table.lookup? name = some atom) (other : String) :
    (table.intern other).1.lookup? name = some atom := by
  by_cases same : name = other
  · subst same
    rw [intern_of_lookup? found, found]
  · rw [lookup?_intern_of_ne same, found]

def internAll (table : NameTable) (names : List String) : NameTable :=
  names.foldl (fun table name => (table.intern name).1) table

theorem lookup?_internAll (found : table.lookup? name = some atom) (names : List String) :
    (table.internAll names).lookup? name = some atom := by
  induction names generalizing table with
  | nil => exact found
  | cons other names ih => exact ih (lookup?_intern found other)

theorem mem_of_lookup?_internAll {names : List String}
    (found : (table.internAll names).lookup? name = some atom) :
    name ∈ names ∨ table.lookup? name = some atom := by
  induction names generalizing table with
  | nil => exact .inr found
  | cons other names ih =>
    rcases ih found with mem | found
    · exact .inl (List.mem_cons_of_mem _ mem)
    · by_cases same : name = other
      · exact .inl (by simp [same])
      · exact .inr (lookup?_intern_of_ne same table ▸ found)

theorem exists_lookup?_internAll {names : List String} (mem : name ∈ names) (table : NameTable) :
    ∃ atom, (table.internAll names).lookup? name = some atom := by
  induction names generalizing table with
  | nil => cases mem
  | cons other names ih =>
    rcases List.mem_cons.mp mem with rfl | mem
    · exact ⟨_, lookup?_internAll (lookup?_intern_self table name) names⟩
    · exact ih mem _

theorem lt_size_of_lookup? (found : table.lookup? name = some atom) : atom < table.names.size :=
  (Array.getElem?_eq_some_iff.mp ((table.agree name atom).mp found)).1

theorem nodup_names (table : NameTable) : table.names.toList.Nodup := by
  rw [List.nodup_iff_injective_get]
  intro i j same
  have first := (table.agree (table.names.toList.get i) i).mpr (by simp)
  have second := (table.agree (table.names.toList.get j) j).mpr (by simp)
  rw [same, second] at first
  exact Fin.ext (Option.some.inj first).symm

theorem accepts_eq {category : String} (found : table.lookup? category = some atom)
    (filter : Option String) : table.accepts filter atom = filterAccepts filter category := by
  have same (word : String) : (table.lookup? word == some atom) = (category == word) := by
    rw [Bool.eq_iff_iff, beq_iff_eq, beq_iff_eq]
    constructor
    · exact lookup?_inj found
    · rintro rfl
      exact found
  cases filter with
  | none => rfl
  | some filter =>
    simp only [accepts, filterAccepts, same]
    rw [List.contains_eq_any_beq]

theorem accepts_internAll (table : NameTable) (category : String) (later : List String)
    (filter : Option String) :
    ((table.intern category).1.internAll later).accepts filter (table.intern category).2 =
      filterAccepts filter category ∧
    ((table.intern category).1.internAll later).name (table.intern category).2 = category := by
  have found := lookup?_internAll (lookup?_intern_self table category) later
  exact ⟨accepts_eq found filter, name_of_lookup? found⟩

end Table

theorem filterAccepts_iff (filter category : String) : filterAccepts (some filter) category = true ↔
    Text.LoneStar filter.toList ∨ Text.Word category.toList filter.toList := by
  simp [filterAccepts, Text.trim_star_iff, Text.mem_words_iff]

/-! Names are entered by the machine and by messages that are read. Filters look names up. -/

inductive Call where
  | intern (name : String)
  | lookup (name : String)
  | read (source : Json.Source) (scan : Json.Scan)
  | test (filter : Option String) (atom : Atom)

def Call.entering? : Call → Option String
  | .intern name => some name
  | .read source scan => (Json.Decoder.string source scan).toOption
  | .lookup _ | .test _ _ => none

/-- The table that a call leaves behind. A message that cannot be read leaves it as it is. -/
def after (table : NameTable) : Call → NameTable
  | .intern name => (table.intern name).1
  | .read source scan => ((table.read source scan).map Prod.fst).toOption.getD table
  | .lookup _ | .test _ _ => table

def afterAll (table : NameTable) (calls : List Call) : NameTable := calls.foldl after table

def entered (calls : List Call) : List String := calls.filterMap Call.entering?

def Call.looks : Call → Bool
  | .lookup _ | .test _ _ => true
  | .intern _ | .read _ _ => false

theorem after_of_looks {call : Call} (looks : call.looks = true) (table : NameTable) :
    table.after call = table := by
  cases call with
  | lookup | test => rfl
  | intern | read => cases looks

theorem afterAll_filter (table : NameTable) (calls : List Call) :
    table.afterAll (calls.filter fun call => !call.looks) = table.afterAll calls := by
  induction calls generalizing table with
  | nil => rfl
  | cons call calls ih =>
    cases looks : call.looks with
    | true =>
      rw [List.filter_cons_of_neg (by simp [looks]), ih, afterAll, afterAll, List.foldl_cons,
        after_of_looks looks]
    | false =>
      rw [List.filter_cons_of_pos (by simp [looks])]
      exact ih (table.after call)

theorem after_eq (table : NameTable) (call : Call) :
    table.after call = table.internAll call.entering?.toList := by
  cases call with
  | read source scan =>
    cases read : Json.Decoder.string source scan <;>
      simp [after, NameTable.read, Call.entering?, internAll, read, Except.map, Except.toOption,
        bind, Except.bind, pure, Except.pure]
  | _ => rfl

theorem afterAll_eq (table : NameTable) (calls : List Call) :
    table.afterAll calls = table.internAll (entered calls) := by
  induction calls generalizing table with
  | nil => rfl
  | cons call calls ih =>
    rw [afterAll, List.foldl_cons, ← afterAll, ih, after_eq, internAll, internAll, internAll,
      ← List.foldl_append, entered, entered, List.filterMap_cons]
    cases call.entering? <;> rfl

section Histories

variable {earlier : List Call} {name : String} {atom : Atom}

theorem lookup?_afterAll_iff (earlier : List Call) (name : String) :
    (((({} : NameTable).afterAll earlier).lookup? name).isSome) ↔ name ∈ entered earlier := by
  rw [afterAll_eq, Option.isSome_iff_exists]
  constructor
  · rintro ⟨atom, found⟩
    exact (mem_of_lookup?_internAll found).resolve_right fun held =>
      Option.some_ne_none atom held.symm
  · intro mem
    exact exists_lookup?_internAll mem {}

theorem lt_of_lookup?_afterAll
    (found : (({} : NameTable).afterAll earlier).lookup? name = some atom) :
    atom < (entered earlier).dedup.length := by
  refine Nat.lt_of_lt_of_le (lt_size_of_lookup? found) ?_
  have all : (({} : NameTable).afterAll earlier).names.toList ⊆ (entered earlier).dedup := by
    intro other mem
    obtain ⟨i, bound, rfl⟩ := List.mem_iff_getElem.mp mem
    rw [List.mem_dedup, ← lookup?_afterAll_iff, Option.isSome_iff_exists]
    exact ⟨i, (agree _ _ _).mpr (by simp)⟩
  simpa using (List.subperm_of_subset (nodup_names _) all).length_le

end Histories

/-- Numbers are as good as names. `table` is what the calls so far have made of an empty one. -/
structure Faithful (earlier : List Call) (table : NameTable) : Prop where
  distinct : ∀ name other between,
    (((table.intern name).1.afterAll between).intern other).2 = (table.intern name).2 ↔ other = name
  lasting : ∀ name later, ((table.intern name).1.afterAll later).name (table.intern name).2 = name
  known : ∀ name, (table.lookup? name).isSome ↔ name ∈ entered earlier
  looked_up : ∀ name later,
    ((table.intern name).1.afterAll later).lookup? name = some (table.intern name).2
  again : ∀ name atom, table.lookup? name = some atom → table.intern name = (table, atom)
  /-- As long as 32 bits can count the names, they hold each number. -/
  narrow : (entered earlier).dedup.length < UInt32.size →
    ∀ name atom, table.lookup? name = some atom → (UInt32.ofNat atom).toNat = atom
  unfiltered : ∀ atom, table.accepts none atom = true
  filtered : ∀ name atom filter, table.lookup? name = some atom →
    (table.accepts (some filter) atom = true ↔
      Text.LoneStar filter.toList ∨ Text.Word name.toList filter.toList)
  /-- Calls that only look may be left out of a history, wherever they stand in it. -/
  untouched : ∀ later, table.afterAll later = table.afterAll (later.filter fun call => !call.looks)

theorem lookup?_afterAll {table : NameTable} {name : String} {atom : Atom}
    (found : table.lookup? name = some atom) (later : List Call) :
    (table.afterAll later).lookup? name = some atom := by
  rw [afterAll_eq]
  exact lookup?_internAll found _

/-- Whatever names have been entered, in whatever order, comparing numbers is comparing names. -/
theorem afterAll_faithful (earlier : List Call) : Faithful earlier (afterAll {} earlier) := by
  constructor
  case distinct =>
    intro name other between
    have found := lookup?_afterAll (lookup?_intern_self (afterAll {} earlier) name) between
    constructor
    · intro same
      have own := lookup?_intern_self (((afterAll {} earlier).intern name).1.afterAll between) other
      rw [same] at own
      exact lookup?_inj own (lookup?_intern found other)
    · rintro rfl
      rw [intern_of_lookup? found]
  case lasting =>
    intro name later
    exact name_of_lookup? (lookup?_afterAll (lookup?_intern_self _ name) later)
  case known => exact lookup?_afterAll_iff earlier
  case looked_up =>
    intro name later
    exact lookup?_afterAll (lookup?_intern_self _ name) later
  case again =>
    intro name atom found
    exact intern_of_lookup? found
  case narrow =>
    intro few name atom found
    exact UInt32.toNat_ofNat_of_lt (Nat.lt_trans (lt_of_lookup?_afterAll found) few)
  case unfiltered =>
    intro atom
    rfl
  case filtered =>
    intro name atom filter found
    rw [accepts_eq found, filterAccepts_iff]
  case untouched =>
    intro later
    exact (afterAll_filter _ later).symm

end MarkupMachine.NameTable
