import MarkupMachine.Duration
import MarkupMachine.Proofs.Text.Blank

/-! How a duration is written: a count and a unit, with blanks around the two and between them. A
text is read as the duration that it writes, if 64 bits can count it, and otherwise not at all; no
text writes two durations. -/

namespace MarkupMachine

namespace Numeral

structure Denotes (cs : List Char) (n : Nat) : Prop where
  nonempty : cs ≠ []
  digits : ∀ c ∈ cs, c.isDigit = true
  value : Nat.ofDigitChars 10 cs 0 = n

inductive Natural (n : Nat) : List Char → Prop where
  | bare {cs} : Denotes cs n → Natural n cs
  | signed {cs} : Denotes cs n → Natural n ('+' :: cs)

theorem digit?_ten (c : Char) :
    digit? 10 c = if c.isDigit then some (c.toNat - '0'.toNat) else none := by
  unfold digit?
  by_cases digit : c.isDigit = true
  · have upper : c.toNat ≤ 57 := by
      simp only [Char.isDigit, Bool.and_eq_true, decide_eq_true_eq] at digit
      exact digit.2
    have below : c.toNat - 48 < 10 := by omega
    simp [digit, below]
  · -- the letters that serve as digits of larger bases come to ten at least
    simp only [digit]
    split_ifs <;> first | rfl | omega

theorem mapM_digit?_ten (cs : List Char) :
    cs.mapM (digit? 10) =
      if cs.all Char.isDigit then some (cs.map fun c => c.toNat - '0'.toNat) else none := by
  induction cs with
  | nil => rfl
  | cons c cs ih =>
    rw [List.mapM_cons, digit?_ten, ih]
    cases digit : c.isDigit
    · simp [digit]
    · cases rest : cs.all Char.isDigit <;> simp [digit, rest]

theorem digits?_eq_some_iff {cs : List Char} {n : Nat} :
    digits? 10 cs = some n ↔ Denotes cs n := by
  have value : (cs.map fun c => c.toNat - '0'.toNat).foldl (fun n d => n * 10 + d) 0 =
      Nat.ofDigitChars 10 cs 0 := by
    rw [List.foldl_map]
    simp only [Nat.ofDigitChars_eq_foldl, Nat.mul_comm]
  rw [digits?, mapM_digit?_ten]
  constructor
  · intro read
    split_ifs at read with none digits
    · have value' : Nat.ofDigitChars 10 cs 0 = n := by
        rw [← value]
        simpa using read
      exact ⟨by simpa using none, List.all_eq_true.mp digits, value'⟩
    · cases read
  · rintro ⟨nonempty, digits, rfl⟩
    rw [if_neg (by simpa using nonempty), if_pos (List.all_eq_true.mpr digits), Option.map_some,
      value]

theorem not_denotes_signed {cs : List Char} {n : Nat} : ¬ Denotes ('+' :: cs) n := fun denotes =>
  absurd (denotes.digits '+' (by simp)) (by decide)

theorem natural?_eq_some_iff {cs : List Char} {n : Nat} :
    natural? cs = some n ↔ Natural n cs := by
  unfold natural?
  split
  · rw [digits?_eq_some_iff]
    refine ⟨.signed, fun written => ?_⟩
    cases written with
    | bare denotes => exact absurd denotes not_denotes_signed
    | signed denotes => exact denotes
  · rename_i unsigned
    rw [digits?_eq_some_iff]
    refine ⟨.bare, fun written => ?_⟩
    cases written with
    | bare denotes => exact denotes
    | signed denotes => exact absurd rfl (unsigned _)

theorem Natural.exists_last {cs : List Char} {n : Nat} (written : Natural n cs) :
    ∃ c ∈ cs.getLast?, c.isDigit = true := by
  have ends {cs : List Char} (denotes : Denotes cs n) : ∃ c ∈ cs.getLast?, c.isDigit = true :=
    ⟨_, List.getLast?_eq_some_getLast denotes.nonempty,
      denotes.digits _ (List.getLast_mem denotes.nonempty)⟩
  cases written with
  | bare denotes => exact ends denotes
  | signed denotes =>
    obtain ⟨c, last, digit⟩ := ends denotes
    refine ⟨c, ?_, digit⟩
    rw [List.getLast?_cons, Option.mem_def.mp last]
    rfl

end Numeral

namespace Duration

inductive TimeUnit where
  | millisecond
  | second
  | minute
  | hour
  deriving DecidableEq

namespace TimeUnit

def symbol : TimeUnit → List Char
  | .millisecond => ['m', 's']
  | .second => ['s']
  | .minute => ['m']
  | .hour => ['h']

def nanoseconds : TimeUnit → Nat
  | .millisecond => 1000000
  | .second => 1000000000
  | .minute => 60 * 1000000000
  | .hour => 3600 * 1000000000

def factor : TimeUnit → Nat
  | .millisecond => 1
  | .second => 1
  | .minute => 60
  | .hour => 3600

/-- A number of units is one of 64 bits, and is so still when it is turned into seconds. -/
def Fits (unit : TimeUnit) (n : Nat) : Prop :=
  n < UInt64.size ∧ n * unit.factor < UInt64.size

def read? (unit : TimeUnit) (count : List Char) : Option Duration :=
  match unit with
  | .millisecond => (count? count).map ofMilliseconds
  | .second => (count? count).map ofSeconds
  | .minute => scaled? 60 count
  | .hour => scaled? 3600 count

end TimeUnit

inductive Padded (n : Nat) (cs : List Char) : Prop where
  | blanks {core} : Text.Trims core cs → Numeral.Natural n core → Padded n cs

/-- A text writes a number of units: the number and then the symbol of the unit, with blanks around
either or without. -/
inductive Writes (unit : TimeUnit) (n : Nat) (s : String) : Prop where
  | units {count} : Text.Trims (count ++ unit.symbol) s.toList → Padded n count → Writes unit n s

section Counts

variable {count : List Char} {n : Nat} {d : Duration} {unit : TimeUnit} {s : String}

theorem padded_iff : Padded n count ↔ Numeral.natural? (Text.trimmed count) = some n := by
  rw [Numeral.natural?_eq_some_iff]
  constructor
  · rintro ⟨trims, written⟩
    rwa [Text.trimmed_eq_iff.mpr trims]
  · exact .blanks (Text.trims_trimmed count)

theorem count?_eq_some_iff : count? count = some n ↔ Padded n count ∧ n < UInt64.size := by
  rw [padded_iff]
  unfold count?
  cases Numeral.natural? (Text.trimmed count) with
  | none => simp
  | some k =>
    simp only [Option.bind_eq_bind, Option.bind_some]
    split_ifs with fits <;> grind

theorem scaled?_eq_some_iff {factor : Nat} : scaled? factor count = some d ↔
    ∃ n, count? count = some n ∧ n * factor < UInt64.size ∧ ofSeconds (n * factor) = d := by
  unfold scaled?
  cases count? count with
  | none => simp
  | some k => simp

theorem TimeUnit.read?_eq_some_iff : unit.read? count = some d ↔
    ∃ n, Padded n count ∧ unit.Fits n ∧ ⟨n * unit.nanoseconds⟩ = d := by
  cases unit with
  | millisecond =>
    simp [read?, count?_eq_some_iff, Fits, factor, nanoseconds, ofMilliseconds, and_assoc]
  | second => simp [read?, count?_eq_some_iff, Fits, factor, nanoseconds, ofSeconds, and_assoc]
  | minute | hour =>
    simp [read?, scaled?_eq_some_iff, count?_eq_some_iff, Fits, factor, nanoseconds, ofSeconds,
      Nat.mul_assoc, and_assoc]

def Ends (count : List Char) : Prop :=
  ∀ c ∈ count.getLast?, c.isDigit = true ∨ Text.isBlank c = true

theorem Ends.of_reverse {c : Char} {rest : List Char} (ends : Ends count)
    (back : count.reverse = c :: rest) : c.isDigit = true ∨ Text.isBlank c = true := by
  refine ends c ?_
  rw [← List.head?_reverse, back]
  rfl

theorem Padded.ends (padded : Padded n count) : Ends count := by
  obtain ⟨trims, written⟩ := padded
  obtain ⟨before, after, rfl, -, right⟩ := trims.stands
  obtain ⟨c, last, digit⟩ := written.exists_last
  intro b mem
  rw [List.getLast?_append, List.getLast?_append, Option.mem_def.mp last] at mem
  cases tail : after.getLast? with
  | none =>
    rw [tail] at mem
    obtain rfl : c = b := by simpa using mem
    exact .inl digit
  | some e =>
    rw [tail] at mem
    obtain rfl : e = b := by simpa using mem
    exact .inr (right e (List.mem_of_getLast? tail))

theorem Padded.unique {m : Nat} (padded : Padded n count) (again : Padded m count) : n = m :=
  Option.some.inj ((padded_iff.mp padded).symm.trans (padded_iff.mp again))

theorem takeWhile_symbol (ends : Ends count) (unit : TimeUnit) :
    (count ++ unit.symbol).reverse.takeWhile (fun c => !(c.isDigit || Text.isBlank c)) =
      unit.symbol.reverse := by
  have letters : unit.symbol.reverse.all (fun c => !(c.isDigit || Text.isBlank c)) = true := by
    cases unit <;> rfl
  rw [List.reverse_append, List.takeWhile_append_of_pos (List.all_eq_true.mp letters)]
  cases back : count.reverse with
  | nil => simp
  | cons c rest =>
    have stop : (c.isDigit || Text.isBlank c) = true := by simpa using ends.of_reverse back
    rw [List.takeWhile_cons_of_neg (by simp [stop]), List.append_nil]

theorem TimeUnit.symbol_injective {unit other : TimeUnit} (same : unit.symbol = other.symbol) :
    unit = other := by
  cases unit <;> cases other <;> first | rfl | cases same

theorem unit_unique {rest : List Char} {other : TimeUnit} (ends : Ends count) (stops : Ends rest)
    (same : count ++ unit.symbol = rest ++ other.symbol) : unit = other ∧ count = rest := by
  have symbols : unit.symbol.reverse = other.symbol.reverse := by
    rw [← takeWhile_symbol ends, same, takeWhile_symbol stops]
  obtain rfl := TimeUnit.symbol_injective (List.reverse_inj.mp symbols)
  exact ⟨rfl, List.append_cancel_right same⟩

theorem parse?_of_symbol (ends : Ends count)
    (split : Text.trimmed s.toList = count ++ unit.symbol) : parse? s = unit.read? count := by
  have back : (Text.trimmed s.toList).reverse = unit.symbol.reverse ++ count.reverse := by
    rw [split, List.reverse_append]
  rw [parse?, back]
  cases unit with
  | second =>
    -- the match takes this branch only where no `m` stands before the `s`
    have plain : ∀ rest, count.reverse ≠ 'm' :: rest := fun rest starts =>
      absurd (ends.of_reverse starts) (by decide)
    simp [TimeUnit.symbol, TimeUnit.read?]
  | millisecond => simp [TimeUnit.symbol, TimeUnit.read?]
  | minute => simp [TimeUnit.symbol, TimeUnit.read?]
  | hour => simp [TimeUnit.symbol, TimeUnit.read?]

theorem exists_symbol_of_parse? (parsed : parse? s = some d) :
    ∃ (unit : TimeUnit) (count : List Char), Text.trimmed s.toList = count ++ unit.symbol ∧
      unit.read? count = some d := by
  have front (symbol rest : List Char) (back : (Text.trimmed s.toList).reverse = symbol ++ rest) :
      Text.trimmed s.toList = rest.reverse ++ symbol.reverse := by
    rw [← List.reverse_append, ← back, List.reverse_reverse]
  unfold parse? at parsed
  split at parsed
  · rename_i rest back
    exact ⟨.millisecond, rest.reverse, front ['s', 'm'] rest back, parsed⟩
  · rename_i rest _ back
    exact ⟨.second, rest.reverse, front ['s'] rest back, parsed⟩
  · rename_i rest back
    exact ⟨.minute, rest.reverse, front ['m'] rest back, parsed⟩
  · rename_i rest back
    exact ⟨.hour, rest.reverse, front ['h'] rest back, parsed⟩
  · cases parsed

end Counts

/-- A text is read as a duration if and only if it writes a number of units that fits 64 bits, and
then as that many units. It writes no two. -/
theorem parse?_reads (s : String) :
    (∀ d, parse? s = some d ↔
      ∃ (unit : TimeUnit) (n : Nat), Writes unit n s ∧ unit.Fits n ∧ ⟨n * unit.nanoseconds⟩ = d) ∧
    ∀ (unit other : TimeUnit) (n m : Nat), Writes unit n s → Writes other m s →
      unit = other ∧ n = m := by
  refine ⟨fun d => ⟨fun parsed => ?_, ?_⟩, ?_⟩
  · obtain ⟨unit, count, split, read⟩ := exists_symbol_of_parse? parsed
    obtain ⟨n, padded, fits, rfl⟩ := TimeUnit.read?_eq_some_iff.mp read
    exact ⟨unit, n, .units (Text.trimmed_eq_iff.mp split) padded, fits, rfl⟩
  · rintro ⟨unit, n, ⟨whole, padded⟩, fits, rfl⟩
    rw [parse?_of_symbol padded.ends (Text.trimmed_eq_iff.mpr whole)]
    exact TimeUnit.read?_eq_some_iff.mpr ⟨n, padded, fits, rfl⟩
  · rintro unit other n m ⟨whole, padded⟩ ⟨whole', padded'⟩
    have same := (Text.trimmed_eq_iff.mpr whole).symm.trans (Text.trimmed_eq_iff.mpr whole')
    obtain ⟨rfl, rfl⟩ := unit_unique padded.ends padded'.ends same
    exact ⟨rfl, padded.unique padded'⟩

/-- The longest time in whole minutes, as it may be written. -/
theorem parse?_reads_longest :
    Writes .minute 307445734561825860 "\u3000+307445734561825860\u00a0m\n" ∧
    parse? "\u3000+307445734561825860\u00a0m\n" = some ⟨18446744073709551600 * 1000000000⟩ ∧
    ¬ Writes .millisecond 307445734561825860 "\u3000+307445734561825860\u00a0m\n" := by
  have denotes : Numeral.Denotes "307445734561825860".toList 307445734561825860 :=
    ⟨by decide, List.all_eq_true.mp rfl, by decide⟩
  have trims : Text.Trims ('+' :: "307445734561825860".toList) "+307445734561825860\u00a0".toList :=
    Text.trimmed_eq_iff.mp (by decide)
  have writes : Writes .minute 307445734561825860 "\u3000+307445734561825860\u00a0m\n" :=
    .units (Text.trimmed_eq_iff.mp (by decide)) (.blanks trims (.signed denotes))
  obtain ⟨reads, unique⟩ := parse?_reads "\u3000+307445734561825860\u00a0m\n"
  refine ⟨writes, (reads _).mpr ⟨.minute, _, writes, ⟨by decide, by decide⟩, rfl⟩, fun other => ?_⟩
  cases (unique _ _ _ _ writes other).1

end Duration
end MarkupMachine
