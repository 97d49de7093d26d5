import MarkupMachine.Number.Numeral
import MarkupMachine.Text.Blank

/-! Spans of time in whole nanoseconds: how they are written in attributes, computed from a number
of milliseconds, and shown. -/

namespace MarkupMachine

structure Duration where
  nanoseconds : Nat
  deriving DecidableEq, Repr, Inhabited

namespace Duration

def ofMilliseconds (n : Nat) : Duration := ⟨n * 1000000⟩

def ofSeconds (n : Nat) : Duration := ⟨n * 1000000000⟩

def secondsBound : Nat := UInt64.size

/-- A nonnegative number of milliseconds, divided by a thousand as a number and then rounded to
the nearest nanosecond, ties to even. -/
def ofNumber? (milliseconds : Binary64) : Option Duration :=
  match milliseconds.div (.ofNat 1000) with
  | .finite negative significand exponent _ =>
    let (n, d) := Binary64.ratio significand exponent
    if (negative ∧ significand ≠ 0) ∨ d * secondsBound ≤ n then none
    else some ⟨roundRatio (n * 1000000000) d⟩
  | _ => none

/-- A count below `2 ^ 64`: digits with blanks around them and perhaps a plus sign in front. -/
def count? (cs : List Char) : Option Nat := do
  let n ← Numeral.natural? (Text.trimmed cs)
  if n < UInt64.size then some n else none

/-- A count of a longer unit, in seconds; the product must fit 64 bits as well. -/
def scaled? (unit : Nat) (cs : List Char) : Option Duration := do
  let n ← count? cs
  if n * unit < UInt64.size then some (ofSeconds (n * unit)) else none

def parse? (s : String) : Option Duration :=
  match (Text.trimmed s.toList).reverse with
  | 's' :: 'm' :: rest => (count? rest.reverse).map ofMilliseconds
  | 's' :: rest => (count? rest.reverse).map ofSeconds
  | 'm' :: rest => scaled? 60 rest.reverse
  | 'h' :: rest => scaled? 3600 rest.reverse
  | _ => none

def padded (places n : Nat) : List Char :=
  let digits := Nat.toDigits 10 n
  List.replicate (places - digits.length) '0' ++ digits

def clock (d : Duration) : String :=
  toString (d.nanoseconds / 1000000000) ++ "." ++
    String.ofList (padded 9 (d.nanoseconds % 1000000000))

def withFraction (whole places fraction : Nat) : String :=
  let digits := ((padded places fraction).reverse.dropWhile (· == '0')).reverse
  toString whole ++ (if digits.isEmpty then "" else "." ++ String.ofList digits)

def text (d : Duration) : String :=
  let n := d.nanoseconds
  if 1000000000 ≤ n then withFraction (n / 1000000000) 9 (n % 1000000000) ++ "s"
  else if 1000000 ≤ n then withFraction (n / 1000000) 6 (n % 1000000) ++ "ms"
  else if 1000 ≤ n then withFraction (n / 1000) 3 (n % 1000) ++ "µs"
  else toString n ++ "ns"

end Duration
end MarkupMachine
