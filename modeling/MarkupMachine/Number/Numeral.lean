import MarkupMachine.Number.Decimal

/-! Numerals: numbers read out of their plain text. Every digit counts, and a fraction is rounded
once, to the nearest number. -/

namespace MarkupMachine.Numeral

def digit? (base : Nat) (c : Char) : Option Nat :=
  let value :=
    if c.isDigit then c.toNat - '0'.toNat
    else if 'a' ≤ c ∧ c ≤ 'f' then c.toNat - 'a'.toNat + 10
    else if 'A' ≤ c ∧ c ≤ 'F' then c.toNat - 'A'.toNat + 10
    else base
  if value < base then some value else none

def digits? (base : Nat) (cs : List Char) : Option Nat :=
  if cs.isEmpty then none
  else (cs.mapM (digit? base)).map (·.foldl (fun n d => n * base + d) 0)

def natural? (cs : List Char) : Option Nat :=
  match cs with
  | '+' :: cs => digits? 10 cs
  | cs => digits? 10 cs

def integer? (cs : List Char) : Option Int :=
  match cs with
  | '-' :: cs => (digits? 10 cs).map fun n => -(n : Int)
  | cs => (natural? cs).map Int.ofNat

/-- A whole part and a fraction, of which one may be empty, and perhaps an exponent. -/
def decimal? (cs : List Char) : Option Decimal := do
  let whole := cs.takeWhile Char.isDigit
  let rest := cs.dropWhile Char.isDigit
  let (fraction, rest) := match rest with
    | '.' :: rest => (rest.takeWhile Char.isDigit, rest.dropWhile Char.isDigit)
    | rest => ([], rest)
  let digits ← digits? 10 (whole ++ fraction)
  let exponent ← (match rest with
    | [] => some 0
    | 'e' :: rest => integer? rest
    | _ => none)
  return ⟨digits, exponent - fraction.length⟩

/-- The number nearest to a decimal. Decimals far out of range are not computed. -/
def nearest (negative : Bool) (x : Decimal) : Binary64 :=
  let lead := x.exponent + (Nat.toDigits 10 x.digits).length
  if x.digits = 0 ∨ lead < -400 then .zero negative
  else if 400 < lead then .infinite negative
  else if x.exponent < 0 then .ofRatio negative x.digits (Nat.pow 10 (-x.exponent).toNat)
  else .ofRatio negative (x.digits * Nat.pow 10 x.exponent.toNat) 1

/-- A number as it is written by hand, with the words `inf`, `infinity` and `nan`, in letters of
either case. -/
def float? (cs : List Char) : Option Binary64 :=
  let (negative, cs) := match cs with
    | '-' :: cs => (true, cs)
    | '+' :: cs => (false, cs)
    | cs => (false, cs)
  let cs := cs.map Char.toLower
  match String.ofList cs with
  | "inf" | "infinity" => some (.infinite negative)
  | "nan" => some .nan
  | _ => (decimal? cs).map (nearest negative)

end MarkupMachine.Numeral
