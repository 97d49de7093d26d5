import MarkupMachine.Number.Binary64

/-! Decimal text of binary numbers: the fewest digits that read back as the same number, and of
those the nearest; then the written forms, positional and with an exponent. Going the other way,
a decimal significand is scaled by a power of ten that is itself rounded. -/

namespace MarkupMachine

/-- `digits * 10 ^ exponent`. -/
structure Decimal where
  digits : Nat
  exponent : Int
  deriving DecidableEq, Repr

namespace Decimal

/-- Which neighbour is taken when a number lies halfway between two shortest decimals. -/
inductive Tie where
  | upward
  | toEven
  deriving DecidableEq

/-- The exponent `d` with `10 ^ (d - 1) ≤ num / den < 10 ^ d`, for a positive ratio. -/
def magnitude (num den : Nat) : Int :=
  if den ≤ num then ((Nat.toDigits 10 (num / den)).length : Int)
  else
    let places := (Nat.toDigits 10 (den / num)).length
    if den % num = 0 ∧ den / num = Nat.pow 10 (places - 1) then 2 - (places : Int)
    else 1 - (places : Int)

def inUnits (num den : Nat) (exponent : Int) : Nat × Nat :=
  if exponent < 0 then (num * Nat.pow 10 (-exponent).toNat, den)
  else (num, den * Nat.pow 10 exponent.toNat)

/-- The ratios between which every real rounds to a given positive finite number, over a common
denominator with the number itself: `(low, value, high, den)`. Below a power of two the spacing
is half of that above. -/
def neighbourhood (significand : Nat) (exponent : Int) : Nat × Nat × Nat × Nat :=
  let low := if significand = Nat.pow 2 52 ∧ -1074 < exponent then 1 else 2
  let (n, d) := Binary64.ratio 1 (exponent - 2)
  ((4 * significand - low) * n, 4 * significand * n, (4 * significand + 2) * n, d)

def readsBack (closed : Bool) (low high den candidate : Nat) (exponent : Int) : Bool :=
  let (l, d) := inUnits low den exponent
  let (h, _) := inUnits high den exponent
  let c := candidate * d
  if closed then decide (l ≤ c ∧ c ≤ h) else decide (l < c ∧ c < h)

/-- The better of the two neighbours of the number on the grid of `10 ^ exponent`, if one of them
reads back. -/
def onGrid? (tie : Tie) (closed : Bool) (low value high den : Nat) (exponent : Int) : Option Nat :=
  let (v, d) := inUnits value den exponent
  let floor := v / d
  let rest := 2 * (v % d)
  let lower := readsBack closed low high den floor exponent
  let upper := readsBack closed low high den (floor + 1) exponent
  if lower ∧ upper then
    if rest < d then some floor
    else if d < rest then some (floor + 1)
    else match tie with
      | .upward => some (floor + 1)
      | .toEven => some (if floor % 2 = 0 then floor else floor + 1)
  else if lower then some floor
  else if upper then some (floor + 1)
  else none

def trim : Nat → Nat → Int → Decimal
  | 0, digits, exponent => ⟨digits, exponent⟩
  | fuel + 1, digits, exponent =>
    if digits ≠ 0 ∧ digits % 10 = 0 then trim fuel (digits / 10) (exponent + 1)
    else ⟨digits, exponent⟩

def search (tie : Tie) (closed : Bool) (low value high den : Nat) (top : Int) :
    Nat → Nat → Decimal
  | 0, count => ⟨value / den, top - count⟩
  | fuel + 1, count =>
    match onGrid? tie closed low value high den (top - count) with
    | some digits => trim 20 digits (top - count)
    | none => search tie closed low value high den top fuel (count + 1)

/-- The shortest decimal that reads back as `significand * 2 ^ exponent`. -/
def shortest (tie : Tie) (significand : Nat) (exponent : Int) : Decimal :=
  if significand = 0 then ⟨0, 0⟩
  else
    let (low, value, high, den) := neighbourhood significand exponent
    search tie (significand % 2 == 0) low value high den (magnitude value den) 17 1

def zeros (count : Nat) : String := String.ofList (List.replicate count '0')

/-- Digits with a point in their middle or zeros around them, never an exponent; `fraction` adds
`.0` to a whole number. -/
def positional (fraction : Bool) (x : Decimal) : String :=
  let digits := Nat.toDigits 10 x.digits
  if 0 ≤ x.exponent then
    String.ofList digits ++ (if x.digits = 0 then "" else zeros x.exponent.toNat) ++
      (if fraction then ".0" else "")
  else
    let places := (-x.exponent).toNat
    if places < digits.length then
      String.ofList (digits.take (digits.length - places)) ++ "." ++
        String.ofList (digits.drop (digits.length - places))
    else "0." ++ zeros (places - digits.length) ++ String.ofList digits

def scientific (x : Decimal) : String :=
  let digits := Nat.toDigits 10 x.digits
  let exponent := x.exponent + (digits.length : Int) - 1
  let tail := digits.drop 1
  String.ofList (digits.take 1) ++
    (if tail.isEmpty then "" else "." ++ String.ofList tail) ++
    (if exponent < 0 then "e-" else "e+") ++ toString exponent.natAbs

def sink : Nat → Binary64 → Binary64
  | 0, x => x
  | count + 1, x => if x.isZero then x else sink count (x.div (.ofNat (Nat.pow 10 308)))

/-- A 64-bit significand times a power of ten as a number: the significand and the power are
rounded first, then their product or quotient; exponents below -308 are taken in parts. There is
no number beyond the largest finite one. -/
def toBinary? (negative : Bool) (x : Decimal) : Option Binary64 :=
  let start := Binary64.ofNat x.digits
  let magnitude? :=
    if start.isZero then some start
    else if 308 < x.exponent then none
    else if 0 ≤ x.exponent then
      let product := start.mul (.ofNat (Nat.pow 10 x.exponent.toNat))
      if product.isFinite then some product else none
    else
      let places := (-x.exponent).toNat
      let parts := (places - 1) / 308
      some ((sink parts start).div (.ofNat (Nat.pow 10 (places - 308 * parts))))
  magnitude?.map fun magnitude => if negative then magnitude.neg else magnitude

end Decimal

namespace Binary64

def text : Binary64 → String
  | .nan => "NaN"
  | .infinite s => if s then "-inf" else "inf"
  | .finite s m e _ =>
    (if s then "-" else "") ++ Decimal.positional false (Decimal.shortest .upward m e)

end Binary64
end MarkupMachine
