import MarkupMachine.Number.Numeral

/-! Dates and times as TOML writes them. Only their text is kept, in its normal form: a `T` between
date and time, no zeros at the end of a fraction, a sign or a `Z` in front of no offset, and an
offset in hours and minutes below sixty. -/

namespace MarkupMachine.Toml

/-- How strictly a moment is read: in a document as a value of its own, or out of a string. -/
inductive Reading where
  | strict
  | loose
  deriving DecidableEq

def Reading.lastHour : Reading → Nat
  | .strict => 23
  | .loose => 24

def pair? (a b : Char) : Option Nat := Numeral.digits? 10 [a, b]

def field? (least greatest : Nat) (a b : Char) : Option String := do
  let n ← pair? a b
  if least ≤ n ∧ n ≤ greatest then some (String.ofList [a, b]) else none

def isLeap (year : Nat) : Bool := year % 4 == 0 && (year % 100 != 0 || year % 400 == 0)

def daysIn (year month : Nat) : Nat :=
  if month = 2 then (if isLeap year then 29 else 28)
  else if month = 4 ∨ month = 6 ∨ month = 9 ∨ month = 11 then 30
  else 31

def date? (cs : List Char) : Option (String × List Char) :=
  match cs with
  | y₁ :: y₂ :: y₃ :: y₄ :: '-' :: m₁ :: m₂ :: '-' :: d₁ :: d₂ :: rest => do
    let year ← Numeral.digits? 10 [y₁, y₂, y₃, y₄]
    let month ← field? 1 12 m₁ m₂
    let days := daysIn year ((pair? m₁ m₂).getD 0)
    let day ← field? 1 days d₁ d₂
    return (String.ofList [y₁, y₂, y₃, y₄] ++ "-" ++ month ++ "-" ++ day, rest)
  | _ => none

def fraction? (cs : List Char) : Option (String × List Char) :=
  match cs with
  | '.' :: rest =>
    let digits := rest.takeWhile Char.isDigit
    let kept := ((digits.take 9).reverse.dropWhile (· == '0')).reverse
    if digits.isEmpty then none
    else some (if kept.isEmpty then "" else "." ++ String.ofList kept, rest.dropWhile Char.isDigit)
  | cs => some ("", cs)

/-- A time of day at the start of a text, with what follows it. A minute may have a leap second. -/
def time? (reading : Reading) (cs : List Char) : Option (String × List Char) :=
  match cs with
  | h₁ :: h₂ :: ':' :: m₁ :: m₂ :: ':' :: s₁ :: s₂ :: rest => do
    let hour ← field? 0 reading.lastHour h₁ h₂
    let minute ← field? 0 59 m₁ m₂
    let second ← field? 0 60 s₁ s₂
    let (fraction, rest) ← fraction? rest
    return (hour ++ ":" ++ minute ++ ":" ++ second ++ fraction, rest)
  | _ => none

/-- Whether an offset of these hours and minutes may be written. Out of a string, the minutes may
be any as long as both come to a day at most. -/
def Reading.allows (reading : Reading) (hours minutes : Nat) : Bool :=
  match reading with
  | .strict => hours ≤ 23 && minutes ≤ 59
  | .loose => hours * 60 + minutes ≤ 24 * 60

def twoDigits (n : Nat) : String := String.ofList [Nat.digitChar (n / 10), Nat.digitChar (n % 10)]

def offset? (reading : Reading) (cs : List Char) : Option String :=
  match cs with
  | [] => some ""
  | ['Z'] | ['z'] => some "Z"
  | [sign, h₁, h₂, ':', m₁, m₂] => do
    let hours ← pair? h₁ h₂
    let minutes ← pair? m₁ m₂
    if (sign = '+' ∨ sign = '-') ∧ reading.allows hours minutes then
      let total := hours * 60 + minutes
      some ((if sign = '-' ∧ total ≠ 0 then "-" else "+") ++ twoDigits (total / 60) ++ ":" ++
        twoDigits (total % 60))
    else none
  | _ => none

def moment? (reading : Reading) (cs : List Char) : Option String :=
  match date? cs with
  | some (date, []) => some date
  | some (date, delimiter :: rest) =>
    if delimiter = 'T' ∨ delimiter = 't' ∨ delimiter = ' ' then do
      let (time, rest) ← time? reading rest
      let offset ← offset? reading rest
      return date ++ "T" ++ time ++ offset
    else none
  | none =>
    match time? reading cs with
    | some (time, []) => some time
    | _ => none

end MarkupMachine.Toml
