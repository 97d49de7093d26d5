import Mathlib.Data.List.TakeWhile
import MarkupMachine.Text.Blank

/-! What the words of a text are, what is left of it without blanks around it, and when that is a
lone star, without regard to how the text is gone through. -/

namespace MarkupMachine.Text

/-- Some characters stand in a text as a word: none of them is blank, and there is a blank or an end
of the text on either side. -/
structure Word (word cs : List Char) : Prop where
  nonempty : word ≠ []
  solid : ∀ c ∈ word, isBlank c = false
  stands : ∃ before after, cs = before ++ (word ++ after) ∧
    (∀ c ∈ before.getLast?, isBlank c = true) ∧ ∀ c ∈ after.head?, isBlank c = true

def LoneStar (cs : List Char) : Prop :=
  ∃ before after, cs = before ++ '*' :: after ∧
    (∀ c ∈ before, isBlank c = true) ∧ ∀ c ∈ after, isBlank c = true

/-- What is left of a text without the blanks around it: it neither begins nor ends with one. -/
structure Trims (core cs : List Char) : Prop where
  stands : ∃ before after, cs = before ++ (core ++ after) ∧
    (∀ c ∈ before, isBlank c = true) ∧ ∀ c ∈ after, isBlank c = true
  head : ∀ c ∈ core.head?, isBlank c = false
  last : ∀ c ∈ core.getLast?, isBlank c = false

section Runs

variable {word cs rest : List Char} {c : Char}

theorem split_blank (blank : isBlank c = true) (rest : List Char) :
    split (c :: rest) = ((split rest).1, false) := by
  simp [split, blank]

theorem split_run (nonempty : word ≠ []) (solid : ∀ c ∈ word, isBlank c = false)
    (ends : ∀ c ∈ rest.head?, isBlank c = true) :
    split (word ++ rest) = (word :: (split rest).1, true) := by
  induction word with
  | nil => exact absurd rfl nonempty
  | cons c word ih =>
    have own : isBlank c = false := solid c (by simp)
    cases word with
    | nil =>
      have closed : (split rest).2 = false := by
        cases rest with
        | nil => rfl
        | cons d rest => rw [split_blank (ends d rfl)]
      simp [split, own, extend, closed]
    | cons d word =>
      have inner := ih (by simp) fun b mem => solid b (List.mem_cons_of_mem _ mem)
      rw [List.cons_append, split, inner]
      simp [own, extend]

theorem takeWhile_run (solid : ∀ c ∈ word, isBlank c = false)
    (ends : ∀ c ∈ rest.head?, isBlank c = true) :
    (word ++ rest).takeWhile (!isBlank ·) = word := by
  rw [List.takeWhile_append_of_pos fun c mem => by simp [solid c mem]]
  cases rest with
  | nil => simp
  | cons d rest => simp [ends d rfl]

theorem word_blank (blank : isBlank c = true) : Word word (c :: rest) ↔ Word word rest := by
  constructor
  · rintro ⟨nonempty, solid, before, after, split, left, right⟩
    cases before with
    | nil =>
      -- a word cannot start with the blank
      obtain ⟨d, word, rfl⟩ := List.exists_cons_of_ne_nil nonempty
      cases split
      simp [blank] at solid
    | cons b before =>
      cases split
      refine ⟨nonempty, solid, before, after, rfl, fun d mem => left d ?_, right⟩
      rw [List.getLast?_cons, Option.mem_def.mp mem]
      rfl
  · rintro ⟨nonempty, solid, before, after, rfl, left, right⟩
    refine ⟨nonempty, solid, c :: before, after, rfl, fun d mem => ?_, right⟩
    rw [List.getLast?_cons] at mem
    cases last : before.getLast? with
    | none =>
      rw [last] at mem
      obtain rfl : c = d := Option.some.inj mem
      exact blank
    | some e =>
      rw [last] at mem
      obtain rfl : e = d := Option.some.inj mem
      exact left e last

theorem word_run {first : List Char} (nonempty : first ≠ [])
    (solid : ∀ c ∈ first, isBlank c = false) (ends : ∀ c ∈ rest.head?, isBlank c = true) :
    Word word (first ++ rest) ↔ word = first ∨ Word word rest := by
  constructor
  · rintro ⟨nonempty', solid', before, after, split, left, right⟩
    rcases List.append_eq_append_iff.mp split with ⟨more, rfl, rfl⟩ | ⟨more, rfl, same⟩
    · right
      refine ⟨nonempty', solid', more, after, rfl, fun c mem => left c ?_, right⟩
      rw [List.getLast?_append, Option.mem_def.mp mem]
      rfl
    · left
      -- whatever comes before a word that starts in the first run is part of that run
      obtain rfl : before = [] := by
        rcases List.eq_nil_or_concat before with rfl | ⟨init, c, rfl⟩
        · rfl
        · have blank := left c (by simp)
          simp [solid c (by simp)] at blank
      rw [← takeWhile_run solid' right, same]
      exact takeWhile_run solid ends
  · rintro (rfl | ⟨nonempty', solid', before, after, rfl, left, right⟩)
    · exact ⟨nonempty, solid, [], rest, rfl, nofun, ends⟩
    · refine ⟨nonempty', solid', first ++ before, after, by simp, fun c mem => ?_, right⟩
      rw [List.getLast?_append] at mem
      cases last : before.getLast? with
      | none =>
        obtain rfl := List.getLast?_eq_none_iff.mp last
        obtain ⟨d, word, rfl⟩ := List.exists_cons_of_ne_nil nonempty'
        simp [ends d rfl] at solid'
      | some d =>
        rw [last] at mem
        cases mem
        exact left c last

/-- The words that a text is split into are those that stand in it. -/
theorem mem_split_iff (word cs : List Char) : word ∈ (split cs).1 ↔ Word word cs := by
  induction h : cs.length using Nat.strong_induction_on generalizing cs with
  | _ n ih =>
    subst h
    cases cs with
    | nil =>
      refine ⟨nofun, fun ⟨nonempty, _, before, after, split, _⟩ => absurd ?_ nonempty⟩
      simp at split
      exact split.2.1
    | cons c rest =>
      by_cases blank : isBlank c = true
      · rw [split_blank blank, word_blank blank, ih rest.length (by simp) rest rfl]
      have run : (c :: rest).takeWhile (!isBlank ·) ++ (c :: rest).dropWhile (!isBlank ·) =
          c :: rest := List.takeWhile_append_dropWhile
      have nonempty : (c :: rest).takeWhile (!isBlank ·) ≠ [] := by simp [blank]
      have solid : ∀ d ∈ (c :: rest).takeWhile (!isBlank ·), isBlank d = false :=
        fun d mem => by simpa using List.mem_takeWhile_imp mem
      have ends : ∀ d ∈ ((c :: rest).dropWhile (!isBlank ·)).head?, isBlank d = true := by
        intro d mem
        have first := List.head?_dropWhile_not (!isBlank ·) (c :: rest)
        rw [Option.mem_def.mp mem] at first
        simpa using first
      have shorter : ((c :: rest).dropWhile (!isBlank ·)).length < (c :: rest).length := by
        have := congrArg List.length run
        have := List.length_pos_iff.mpr nonempty
        simp only [List.length_append] at *
        omega
      rw [← run, split_run nonempty solid ends, word_run nonempty solid ends, List.mem_cons,
        ih _ shorter _ rfl]

end Runs

theorem mem_words_iff (word s : String) : word ∈ words s ↔ Word word.toList s.toList := by
  simp only [words, List.mem_map, ← mem_split_iff]
  constructor
  · rintro ⟨own, mem, rfl⟩
    simpa using mem
  · intro mem
    exact ⟨_, mem, by simp⟩

section Trimming

variable {core cs : List Char}

theorem dropWhile_solid (head : ∀ c ∈ cs.head?, isBlank c = false) :
    cs.dropWhile isBlank = cs := by
  cases cs with
  | nil => rfl
  | cons c rest => simp [head c rfl]

theorem trims_trimmed (cs : List Char) : Trims (trimmed cs) cs := by
  have front : cs.takeWhile isBlank ++ cs.dropWhile isBlank = cs :=
    List.takeWhile_append_dropWhile
  have back : trimmed cs ++ ((cs.dropWhile isBlank).reverse.takeWhile isBlank).reverse =
      cs.dropWhile isBlank := by
    rw [trimmed, ← List.reverse_append, List.takeWhile_append_dropWhile, List.reverse_reverse]
  refine ⟨⟨_, _, by rw [back, front], fun c mem => List.mem_takeWhile_imp mem,
    fun c mem => List.mem_takeWhile_imp (List.mem_reverse.mp mem)⟩, fun c first => ?_,
    fun c last => ?_⟩
  · have solid := List.head?_dropWhile_not isBlank cs
    rw [← back, List.head?_append, Option.mem_def.mp first] at solid
    simpa using solid
  · have solid := List.head?_dropWhile_not isBlank (cs.dropWhile isBlank).reverse
    rw [trimmed, List.getLast?_reverse] at last
    rw [Option.mem_def.mp last] at solid
    simpa using solid

theorem trimmed_eq_iff : trimmed cs = core ↔ Trims core cs := by
  constructor
  · rintro rfl
    exact trims_trimmed cs
  · rintro ⟨⟨before, after, rfl, left, right⟩, head, last⟩
    rw [trimmed, List.dropWhile_append_of_pos left]
    cases core with
    | nil =>
      have none : after.dropWhile isBlank = [] := List.dropWhile_eq_nil_iff.mpr right
      simp [none]
    | cons c rest =>
      -- what comes first in the core, and what comes first when it is reversed, is no blank
      have front : (c :: rest ++ after).dropWhile isBlank = c :: rest ++ after :=
        dropWhile_solid (by simpa using head)
      have back : (c :: rest).reverse.dropWhile isBlank = (c :: rest).reverse :=
        dropWhile_solid (by rwa [List.head?_reverse])
      rw [front, List.reverse_append,
        List.dropWhile_append_of_pos fun d mem => right d (List.mem_reverse.mp mem), back,
        List.reverse_reverse]

end Trimming

theorem trimmed_star_iff (cs : List Char) : trimmed cs = ['*'] ↔ LoneStar cs := by
  have solid : isBlank '*' = false := by decide
  rw [trimmed_eq_iff]
  constructor
  · rintro ⟨⟨before, after, split, left, right⟩, -, -⟩
    exact ⟨before, after, split, left, right⟩
  · rintro ⟨before, after, split, left, right⟩
    exact ⟨⟨before, after, split, left, right⟩, by simpa using solid, by simpa using solid⟩

theorem trim_star_iff (s : String) : trim s = "*" ↔ LoneStar s.toList := by
  rw [← trimmed_star_iff, trim, ← String.toList_inj]
  simp

end MarkupMachine.Text
