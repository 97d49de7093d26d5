import MarkupMachine.Json.Decode

/-! The scan of a printed text. -/

namespace MarkupMachine.Json

/-- What may follow a value in a text: nothing, or the next part of what holds it. -/
def Follows : List Char → Prop
  | [] => True
  | c :: _ => c = ',' ∨ c = ']' ∨ c = '\x7d'

namespace Scan

section Numbers

variable {rest cs left : List Char}

theorem takeWhile_append (follows : Follows rest) (cs : List Char) :
    (cs ++ rest).takeWhile Char.isDigit = cs.takeWhile Char.isDigit := by
  induction cs with
  | nil =>
    cases rest with
    | nil => rfl
    | cons c rest => rcases follows with rfl | rfl | rfl <;> rfl
  | cons c cs ih => cases digit : c.isDigit <;> simp [digit, ih]

theorem dropWhile_append (follows : Follows rest) (cs : List Char) :
    (cs ++ rest).dropWhile Char.isDigit = cs.dropWhile Char.isDigit ++ rest := by
  induction cs with
  | nil =>
    cases rest with
    | nil => rfl
    | cons c rest => rcases follows with rfl | rfl | rfl <;> rfl
  | cons c cs ih => cases digit : c.isDigit <;> simp [digit, ih]

theorem exponentDigits_append {negative : Bool} {size : Int} (follows : Follows rest)
    (read : exponentDigits negative cs = .ok (size, left)) :
    exponentDigits negative (cs ++ rest) = .ok (size, left ++ rest) := by
  simp only [exponentDigits, takeWhile_append follows, dropWhile_append follows] at read ⊢
  split at read
  · cases read
  · rename_i some
    cases read
    simp [some]

theorem exponentPart_append {size : Int} (follows : Follows rest)
    (read : exponentPart cs = .ok (size, left)) :
    exponentPart (cs ++ rest) = .ok (size, left ++ rest) := by
  unfold exponentPart at read
  split at read
  · exact exponentDigits_append follows read
  · exact exponentDigits_append follows read
  · rename_i plus minus
    cases cs with
    | nil => simp [exponentDigits] at read
    | cons c cs =>
      have plain : exponentPart (c :: cs ++ rest) = exponentDigits false (c :: cs ++ rest) := by
        unfold exponentPart
        split
        · rename_i same
          exact absurd (List.cons.inj same).1 (by simpa using plus)
        · rename_i same
          exact absurd (List.cons.inj same).1 (by simpa using minus)
        · rfl
      rw [plain]
      exact exponentDigits_append follows read

theorem readExponent_append {negative : Bool} {whole : List Char} {fraction : Option (List Char)}
    {s : Scan} (follows : Follows rest)
    (read : readExponent negative whole fraction cs = (s, .ok left)) :
    readExponent negative whole fraction (cs ++ rest) = (s, .ok (left ++ rest)) := by
  cases cs with
  | nil =>
    cases read
    cases rest with
    | nil => rfl
    | cons c rest => rcases follows with rfl | rfl | rfl <;> rfl
  | cons c cs =>
    simp only [readExponent, List.cons_append] at read ⊢
    split at read
    · rename_i letter
      rw [if_pos letter]
      cases part : exponentPart cs with
      | error why =>
        rw [part] at read
        cases read
      | ok found =>
        obtain ⟨exponent, after⟩ := found
        rw [part] at read
        cases read
        rw [exponentPart_append follows part]
    · rename_i other
      cases read
      rw [if_neg other]
      rfl

theorem readFraction_append {negative : Bool} {whole : List Char} {s : Scan}
    (follows : Follows rest) (read : readFraction negative whole cs = (s, .ok left)) :
    readFraction negative whole (cs ++ rest) = (s, .ok (left ++ rest)) := by
  unfold readFraction at read
  split at read
  · simp only [List.cons_append, readFraction, takeWhile_append follows, dropWhile_append follows]
    dsimp only at read
    split at read
    · cases read
    · rename_i some
      rw [if_neg some]
      exact readExponent_append follows read
  · rename_i pointless
    have plain : readFraction negative whole (cs ++ rest) =
        readExponent negative whole none (cs ++ rest) := by
      unfold readFraction
      split
      · rename_i same
        cases cs with
        | nil =>
          rw [List.nil_append] at same
          subst same
          rcases follows with same | same | same <;> cases same
        | cons c cs => exact absurd (List.cons.inj same).1 (by simpa using pointless)
      · rfl
    rw [plain]
    exact readExponent_append follows read

theorem readUnsigned_append {negative : Bool} {s : Scan} (follows : Follows rest)
    (read : readUnsigned negative cs = (s, .ok left)) :
    readUnsigned negative (cs ++ rest) = (s, .ok (left ++ rest)) := by
  simp only [readUnsigned, takeWhile_append follows, dropWhile_append follows] at read ⊢
  split at read
  · cases read
  · rename_i some
    rw [if_neg some]
    split at read
    · cases read
    · rename_i plain
      rw [if_neg plain]
      exact readFraction_append follows read

theorem readNumber_append {s : Scan} (follows : Follows rest)
    (read : readNumber cs = (s, .ok left)) : readNumber (cs ++ rest) = (s, .ok (left ++ rest)) := by
  unfold readNumber at read
  split at read
  · exact readUnsigned_append follows read
  · rename_i unsigned
    cases cs with
    | nil => simp [readUnsigned, noNumber] at read
    | cons c cs =>
      have plain : readNumber (c :: cs ++ rest) = readUnsigned false (c :: cs ++ rest) := by
        unfold readNumber
        split
        · rename_i same
          exact absurd (List.cons.inj same).1 (by simpa using unsigned)
        · rfl
      rw [plain]
      exact readUnsigned_append follows read

theorem exists_of_readNumber {s : Scan} (read : readNumber cs = (s, .ok left)) :
    ∃ c more, cs = c :: more ∧ (c.isDigit ∨ c = '-') := by
  unfold readNumber at read
  split at read
  · exact ⟨'-', _, rfl, .inr rfl⟩
  · cases cs with
    | nil => simp [readUnsigned, noNumber] at read
    | cons c cs =>
      refine ⟨c, cs, rfl, .inl ?_⟩
      cases digit : c.isDigit with
      | true => rfl
      | false => simp [readUnsigned, noNumber, digit] at read

end Numbers

section Strings

variable {rest : List Char}

theorem digit?_digitChar : ∀ d : Fin 16, Numeral.digit? 16 (Nat.digitChar d.val) = some d.val := by
  decide

theorem fourHex_control {n : Nat} (control : n < 0x20) (rest : List Char) :
    fourHex ('0' :: '0' :: Nat.digitChar (n / 16) :: Nat.digitChar (n % 16) :: rest) =
      .ok (n, rest) := by
  have zero : Numeral.digit? 16 '0' = some 0 := by decide
  have high := digit?_digitChar ⟨n / 16, by omega⟩
  have low := digit?_digitChar ⟨n % 16, by omega⟩
  simp only [fourHex, zero, high, low, Except.ok.injEq, Prod.mk.injEq, and_true]
  omega

theorem stringFrom_escape (fuel : Nat) (done : List Char) (c : Char) (rest : List Char) :
    stringFrom (fuel + 1) false done (escape c ++ rest) =
      stringFrom fuel false (c :: done) rest := by
  unfold escape
  split
  any_goals rfl
  rename_i quote backslash _ _ _ _ _
  -- Left are the characters without an escape of their own: by number, or as they are.
  split
  · rename_i control
    have lead : isLead c.toNat = false := by simp [isLead]; omega
    have trail : isTrail c.toNat = false := by simp [isTrail]; omega
    simp [stringFrom, fourHex_control control, lead, trail]
  · rename_i plain
    have quote : c ≠ '"' := quote
    have backslash : c ≠ '\\' := backslash
    simp [stringFrom, quote, backslash, plain]

theorem stringFrom_escapes (cs done : List Char) {fuel : Nat} (enough : cs.length < fuel)
    (rest : List Char) : stringFrom fuel false done (cs.flatMap escape ++ '"' :: rest) =
      (some (String.ofList (done.reverse ++ cs)), .ok rest) := by
  obtain ⟨fuel, rfl⟩ : ∃ fewer, fuel = fewer + 1 := ⟨fuel - 1, by omega⟩
  induction cs generalizing done fuel with
  | nil => simp [stringFrom]
  | cons c cs ih =>
    obtain ⟨fuel, rfl⟩ : ∃ fewer, fuel = fewer + 1 := ⟨fuel - 1, by simp at enough; omega⟩
    have others := ih (c :: done) fuel (by simp at enough; omega)
    rw [List.flatMap_cons, List.append_assoc, stringFrom_escape, others]
    simp

theorem length_le_escapes (cs : List Char) : cs.length ≤ (cs.flatMap escape).length := by
  have some (c : Char) : 1 ≤ (escape c).length := by
    unfold escape
    split
    any_goals simp
    split <;> simp
  induction cs with
  | nil => simp
  | cons c cs ih =>
    have first := some c
    simp only [List.flatMap_cons, List.length_append, List.length_cons]
    omega

theorem readString_escapes (s : String) (rest : List Char) :
    readString (s.toList.flatMap escape ++ '"' :: rest) = (.string (some s), .ok rest) := by
  have size := length_le_escapes s.toList
  have enough : s.toList.length < (s.toList.flatMap escape ++ '"' :: rest).length + 1 := by
    rw [List.length_append]
    omega
  simp only [readString, stringFrom_escapes s.toList [] enough rest]
  simp

end Strings

end Scan

def Number.Survives (n : Number) : Prop :=
  Scan.readNumber n.text.toList = (.number (some n), .ok [])

section Naturals

theorem le_ofDigitChars (digits : List Char) (n : Nat) : n ≤ Nat.ofDigitChars 10 digits n := by
  induction digits generalizing n with
  | nil => exact Nat.le_refl n
  | cons d digits ih =>
    have more := ih (10 * n + (d.toNat - '0'.toNat))
    rw [Nat.ofDigitChars_cons]
    omega

theorem absorb_digits (digits : List Char) {significand : Nat}
    (fits : Nat.ofDigitChars 10 digits significand < UInt64.size) :
    Scan.absorb significand digits =
      (Nat.ofDigitChars 10 digits significand, digits.length, 0) := by
  induction digits generalizing significand with
  | nil => rfl
  | cons d digits ih =>
    rw [Nat.ofDigitChars_cons] at fits ⊢
    have small := Nat.lt_of_le_of_lt (le_ofDigitChars digits _) fits
    rw [Scan.absorb, Nat.mul_comm significand 10]
    simp only [small, ih fits, if_true, List.length_cons]

theorem digitChar_ne_zero : ∀ n : Fin 10, 0 < n.val → Nat.digitChar n.val ≠ '0' := by
  decide

theorem head?_toDigits {n : Nat} (pos : 0 < n) : (Nat.toDigits 10 n).head? ≠ some '0' := by
  induction n using Nat.strongRecOn with
  | _ n ih =>
    by_cases small : n < 10
    · rw [Nat.toDigits_of_lt_base small]
      simpa using digitChar_ne_zero ⟨n, small⟩ pos
    · have before := ih (n / 10) (by omega) (by omega)
      obtain ⟨c, more, eq⟩ := List.exists_cons_of_ne_nil (@Nat.toDigits_ne_nil (n / 10) 10)
      rw [Nat.toDigits_of_base_le (by omega) (by omega), eq]
      rw [eq] at before
      exact before

theorem Number.survives_natural {n : Nat} (fits : n < UInt64.size) : (Number.int n).Survives := by
  have digits : (Number.int n).text.toList = Nat.toDigits 10 n := Nat.toList_repr
  have all : ∀ c ∈ Nat.toDigits 10 n, c.isDigit = true := fun c mem =>
    Nat.isDigit_of_mem_toDigits (by omega) (by omega) mem
  have whole : (Nat.toDigits 10 n).takeWhile Char.isDigit = Nat.toDigits 10 n := by
    rw [← List.append_nil (Nat.toDigits 10 n), List.takeWhile_append_of_pos all]
    simp
  have after : (Nat.toDigits 10 n).dropWhile Char.isDigit = [] := by
    rw [← List.append_nil (Nat.toDigits 10 n), List.dropWhile_append_of_pos all]
    rfl
  have plain : ¬ ((Nat.toDigits 10 n).head? = some '0' ∧ 1 < (Nat.toDigits 10 n).length) := by
    rintro ⟨zero, more⟩
    cases n with
    | zero => simp [Nat.toDigits_of_lt_base] at more
    | succ n => exact head?_toDigits (Nat.succ_pos n) zero
  have value : Nat.ofDigitChars 10 (Nat.toDigits 10 n) 0 = n :=
    Nat.ofDigitChars_toDigits (by omega) (by omega)
  have absorbed := absorb_digits (Nat.toDigits 10 n) (by rwa [value])
  have unsigned : Scan.readUnsigned false (Nat.toDigits 10 n) =
      (.number (some (.int n)), .ok []) := by
    simp only [Scan.readUnsigned, whole, after, if_neg plain]
    simp [Scan.readFraction, Scan.readExponent, Scan.numberOf, absorbed, value, Nat.toDigits_ne_nil]
  rw [Survives, digits]
  unfold Scan.readNumber
  split
  · rename_i same
    have minus := all '-' (by simp [same])
    cases minus
  · exact unsigned

end Naturals

mutual

def Survives : Json → Prop
  | .number n => n.Survives
  | .array items => ItemsSurvive items
  | .object fields => FieldsSurvive fields
  | _ => True

def ItemsSurvive : List Json → Prop
  | [] => True
  | item :: rest => item.Survives ∧ ItemsSurvive rest

def FieldsSurvive : List (String × Json) → Prop
  | [] => True
  | (_, value) :: rest => value.Survives ∧ FieldsSurvive rest

end

namespace Scan

theorem ne_of_first {c d : Char} (first : c.isDigit ∨ c = '-')
    (other : d.isDigit = false ∧ d ≠ '-') : c ≠ d := by
  rintro rfl
  rcases first with digit | rfl
  · simp [digit] at other
  · exact other.2 rfl

theorem isSpace_of_first {c : Char} (first : c.isDigit ∨ c = '-') : isSpace c = false := by
  have blank := ne_of_first (d := ' ') first (by decide)
  have line := ne_of_first (d := '\n') first (by decide)
  have tab := ne_of_first (d := '\t') first (by decide)
  have back := ne_of_first (d := '\r') first (by decide)
  simp [isSpace, blank, line, tab, back]

theorem exists_of_chars {j : Json} (survives : j.Survives) :
    ∃ c more, j.chars = c :: more ∧ isSpace c = false ∧ c ≠ ']' := by
  cases j with
  | null => exact ⟨'n', _, rfl, by decide⟩
  | bool b => cases b <;> exact ⟨_, _, rfl, by decide⟩
  | number n =>
    obtain ⟨c, more, eq, first⟩ := exists_of_readNumber survives
    exact ⟨c, more, eq, isSpace_of_first first, ne_of_first first (by decide)⟩
  | string s => exact ⟨'"', _, rfl, by decide⟩
  | array items => exact ⟨'[', _, rfl, by decide⟩
  | object fields => exact ⟨'\x7b', _, rfl, by decide⟩

theorem skipSpace_cons {c : Char} (dark : isSpace c = false) (cs : List Char) :
    skipSpace (c :: cs) = c :: cs := by
  simp [skipSpace, dark]

theorem readValue_number {c : Char} (first : c.isDigit ∨ c = '-') (fuel : Nat) (cs : List Char) :
    readValue (fuel + 1) (c :: cs) = readNumber (c :: cs) := by
  rw [readValue, skipSpace_cons (isSpace_of_first first)]
  have apart (d : Char) (other : d.isDigit = false ∧ d ≠ '-') : c ≠ d := ne_of_first first other
  simp [first, apart 'n' (by decide), apart 't' (by decide), apart 'f' (by decide),
    apart '"' (by decide), apart '[' (by decide), apart '\x7b' (by decide)]

theorem itemChars_next (item next : Json) (others : List Json) :
    itemChars (item :: next :: others) = item.chars ++ ',' :: itemChars (next :: others) := by
  rw [itemChars]
  nofun

theorem fieldChars_next (name : String) (value : Json) (next : String × Json)
    (others : List (String × Json)) : fieldChars ((name, value) :: next :: others) =
      stringChars name ++ ':' :: (value.chars ++ ',' :: fieldChars (next :: others)) := by
  rw [fieldChars, List.append_assoc, List.cons_append]
  nofun

theorem exists_of_itemChars {item : Json} {others : List Json} (survives : item.Survives) :
    ∃ c more, itemChars (item :: others) = c :: more ∧ isSpace c = false ∧ c ≠ ']' := by
  obtain ⟨c, more, eq, dark, inside⟩ := exists_of_chars survives
  cases others with
  | nil => exact ⟨c, more, by rw [itemChars, eq], dark, inside⟩
  | cons next others => exact ⟨c, _, by rw [itemChars_next, eq]; rfl, dark, inside⟩

theorem exists_of_fieldChars (name : String) (value : Json) (others : List (String × Json)) :
    ∃ more, fieldChars ((name, value) :: others) = stringChars name ++ more := by
  cases others with
  | nil => exact ⟨_, rfl⟩
  | cons next others => exact ⟨_, fieldChars_next ..⟩

section Containers

variable {fuel : Nat} {cs rest : List Char} {value : Scan} {items : List Scan}
  {fields : List (Scan × Scan)}

theorem readValue_array {c : Char} (dark : isSpace c = false) (inside : c ≠ ']')
    (read : readItems fuel (c :: cs) = (items, .ok rest)) :
    readValue (fuel + 1) ('[' :: c :: cs) = (.array items none, .ok rest) := by
  rw [readValue, skipSpace_cons (by decide)]
  simp [skipSpace_cons dark, inside, read]

theorem readItems_last (read : readValue fuel cs = (value, .ok (']' :: rest))) :
    readItems (fuel + 1) cs = ([value], .ok rest) := by
  simp [readItems, read, skipSpace, isSpace]

theorem readItems_next {more : List Char} (read : readValue fuel cs = (value, .ok (',' :: more)))
    (others : readItems fuel more = (items, .ok rest)) :
    readItems (fuel + 1) cs = (value :: items, .ok rest) := by
  simp [readItems, read, skipSpace, isSpace, others]

theorem readValue_object (key : String)
    (read : readFields fuel (stringChars key ++ cs) = (fields, .ok rest)) :
    readValue (fuel + 1) ('\x7b' :: (stringChars key ++ cs)) = (.object fields none, .ok rest) := by
  rw [readValue, skipSpace_cons (by decide)]
  simp only [stringChars, List.cons_append, List.append_assoc, List.nil_append] at read ⊢
  simp [skipSpace_cons, isSpace, read]

theorem readFields_last (key : String) (read : readValue fuel cs = (value, .ok ('\x7d' :: rest))) :
    readFields (fuel + 1) (stringChars key ++ ':' :: cs) =
      ([(.string (some key), value)], .ok rest) := by
  have name := readString_escapes key (':' :: cs)
  simp [readFields, stringChars, skipSpace, isSpace, name, read]

theorem readFields_next (key : String) {more : List Char}
    (read : readValue fuel cs = (value, .ok (',' :: more)))
    (others : readFields fuel more = (fields, .ok rest)) :
    readFields (fuel + 1) (stringChars key ++ ':' :: cs) =
      ((.string (some key), value) :: fields, .ok rest) := by
  have name := readString_escapes key (':' :: cs)
  simp [readFields, stringChars, skipSpace, isSpace, name, read, others]

end Containers

mutual

theorem readValue_chars : ∀ (j : Json) {fuel : Nat} {rest : List Char},
    j.Survives → j.chars.length ≤ fuel → Follows rest →
    readValue fuel (j.chars ++ rest) = (ofJson j, .ok rest)
  -- A text has a first character, so that fuel for its length is never used up.
  | j, 0, rest, survives, enough, _ => by
    obtain ⟨c, more, eq, _⟩ := exists_of_chars survives
    simp [eq] at enough
  | .null, fuel + 1, rest, _, _, _ => by
    simp [readValue, chars, skipSpace, isSpace, readWord, ofJson]
  | .bool true, fuel + 1, rest, _, _, _ => by
    simp [readValue, chars, skipSpace, isSpace, readWord, ofJson]
  | .bool false, fuel + 1, rest, _, _, _ => by
    simp [readValue, chars, skipSpace, isSpace, readWord, ofJson]
  | .number n, fuel + 1, rest, survives, _, follows => by
    obtain ⟨c, more, eq, first⟩ := exists_of_readNumber survives
    have read := readNumber_append follows survives
    rw [eq] at read
    rw [chars, eq, List.cons_append, readValue_number first]
    exact read
  | .string s, fuel + 1, rest, _, _, _ => by
    rw [chars, stringChars, List.append_assoc]
    exact readString_escapes s rest
  | .array [], fuel + 1, rest, _, _, _ => rfl
  | .array (item :: others), fuel + 1, rest, survives, enough, _ => by
    have size : (itemChars (item :: others)).length < fuel := by
      simp only [chars, List.length_append, List.length_cons] at enough
      omega
    have items : readItems fuel (itemChars (item :: others) ++ ']' :: rest) = _ :=
      readItems_chars item others survives size
    obtain ⟨c, more, eq, dark, inside⟩ := exists_of_itemChars survives.1
    rw [chars, List.append_assoc, List.cons_append]
    rw [eq] at items ⊢
    exact readValue_array dark inside items
  | .object [], fuel + 1, rest, _, _, _ => rfl
  | .object ((name, value) :: others), fuel + 1, rest, survives, enough, _ => by
    have size : (fieldChars ((name, value) :: others)).length < fuel := by
      simp only [chars, List.length_append, List.length_cons] at enough
      omega
    have fields : readFields fuel (fieldChars ((name, value) :: others) ++ '\x7d' :: rest) = _ :=
      readFields_chars name value others survives size
    obtain ⟨more, eq⟩ := exists_of_fieldChars name value others
    rw [chars, List.append_assoc, List.cons_append]
    rw [eq, List.append_assoc] at fields ⊢
    exact readValue_object name fields

theorem readItems_chars : ∀ (item : Json) (others : List Json) {fuel : Nat} {rest : List Char},
    ItemsSurvive (item :: others) →
    (itemChars (item :: others)).length < fuel →
    readItems fuel (itemChars (item :: others) ++ ']' :: rest) =
      (ofItems (item :: others), .ok rest)
  | _, _, 0, _, _, enough => absurd enough (Nat.not_lt_zero _)
  | item, [], fuel + 1, rest, survives, enough => by
    rw [itemChars] at enough ⊢
    exact readItems_last
      (readValue_chars item survives.1 (Nat.le_of_lt_succ enough) (.inr (.inl rfl)))
  | item, next :: others, fuel + 1, rest, survives, enough => by
    simp only [itemChars_next, List.length_append, List.length_cons] at enough
    have after : readItems fuel (itemChars (next :: others) ++ ']' :: rest) = _ :=
      readItems_chars next others survives.2 (by omega)
    rw [itemChars_next, List.append_assoc, List.cons_append]
    exact readItems_next (readValue_chars item survives.1 (by omega) (.inl rfl)) after

theorem readFields_chars : ∀ (name : String) (value : Json) (others : List (String × Json))
    {fuel : Nat} {rest : List Char},
    FieldsSurvive ((name, value) :: others) →
    (fieldChars ((name, value) :: others)).length < fuel →
    readFields fuel (fieldChars ((name, value) :: others) ++ '\x7d' :: rest) =
      (ofFields ((name, value) :: others), .ok rest)
  | _, _, _, 0, _, _, enough => absurd enough (Nat.not_lt_zero _)
  | name, value, [], fuel + 1, rest, survives, enough => by
    simp only [fieldChars, List.length_append, List.length_cons] at enough
    rw [fieldChars, List.append_assoc, List.cons_append]
    exact readFields_last name (readValue_chars value survives.1 (by omega) (.inr (.inr rfl)))
  | name, value, (next, after) :: others, fuel + 1, rest, survives, enough => by
    simp only [fieldChars_next, List.length_append, List.length_cons] at enough
    have more : readFields fuel (fieldChars ((next, after) :: others) ++ '\x7d' :: rest) = _ :=
      readFields_chars next after others survives.2
        (by omega)
    rw [fieldChars_next, List.append_assoc, List.cons_append, List.append_assoc, List.cons_append]
    exact readFields_next name (readValue_chars value survives.1 (by omega) (.inl rfl)) more

end

end Scan

theorem scan_text {j : Json} (survives : j.Survives) :
    scan j.text = ⟨.ofJson j, false⟩ := by
  have read : Scan.readValue (2 * j.chars.length + 2) (j.chars ++ []) = _ :=
    Scan.readValue_chars j survives (by omega) trivial
  rw [List.append_nil] at read
  simp [scan, text, read, Scan.skipSpace]

end MarkupMachine.Json
