/-! Double-precision numbers as exact data. A finite number is a sign and a significand times a
power of two, in the one form that the width of 53 bits allows, so equal numbers of one sign are
equal terms. Arithmetic is done on exact ratios and rounded once, to nearest, ties to even. -/

namespace MarkupMachine

/-- The significand fills 53 bits, unless the exponent is already the least one. -/
def Binary64.Canonical (significand : Nat) (exponent : Int) : Prop :=
  significand < Nat.pow 2 53 ∧ -1074 ≤ exponent ∧ exponent ≤ 971 ∧
    (Nat.pow 2 52 ≤ significand ∨ exponent = -1074)

instance (significand : Nat) (exponent : Int) :
    Decidable (Binary64.Canonical significand exponent) := by
  unfold Binary64.Canonical
  infer_instance

/-- A finite number is `significand * 2 ^ exponent`, with its sign kept for zero too. -/
inductive Binary64 where
  | nan
  | infinite (negative : Bool)
  | finite (negative : Bool) (significand : Nat) (exponent : Int)
      (canonical : Binary64.Canonical significand exponent)
  deriving DecidableEq

def roundRatio (num den : Nat) : Nat :=
  let floor := num / den
  let rest := 2 * (num % den)
  if rest < den ∨ (rest = den ∧ floor % 2 = 0) then floor else floor + 1

namespace Binary64

def zero (negative : Bool) : Binary64 :=
  .finite negative 0 (-1074) (by decide)

instance : Inhabited Binary64 := ⟨zero false⟩

def pack (negative : Bool) (significand : Nat) (exponent : Int) : Binary64 :=
  if h : Canonical significand exponent then .finite negative significand exponent h
  else .infinite negative

def scaleDown (num den : Nat) (exponent : Int) : Nat × Nat :=
  if exponent < 0 then (num * Nat.pow 2 (-exponent).toNat, den)
  else (num, den * Nat.pow 2 exponent.toNat)

def exponentFor (num den : Nat) : Int :=
  let guess : Int := (num.log2 : Int) - (den.log2 : Int) - 52
  let (n, d) := scaleDown num den guess
  max (-1074) (if n / d < Nat.pow 2 52 then guess - 1 else guess)

/-- The number nearest to `num / den`, with ties to the even significand. -/
def ofRatio (negative : Bool) (num den : Nat) : Binary64 :=
  if num = 0 then zero negative
  else
    let exponent := exponentFor num den
    let (n, d) := scaleDown num den exponent
    let significand := roundRatio n d
    if significand = Nat.pow 2 53 then pack negative (Nat.pow 2 52) (exponent + 1)
    else pack negative significand exponent

def ofNat (n : Nat) : Binary64 := ofRatio false n 1

def ofInt (n : Int) : Binary64 := ofRatio (decide (n < 0)) n.natAbs 1

def ratio (significand : Nat) (exponent : Int) : Nat × Nat :=
  if exponent < 0 then (significand, Nat.pow 2 (-exponent).toNat)
  else (significand * Nat.pow 2 exponent.toNat, 1)

/-- Bits as in the IEEE interchange format: sign, eleven bits of exponent, 52 bits of fraction. -/
def ofBits (bits : UInt64) : Binary64 :=
  let negative := bits.toNat / Nat.pow 2 63 == 1
  let field : Nat := bits.toNat / Nat.pow 2 52 % Nat.pow 2 11
  let fraction : Nat := bits.toNat % Nat.pow 2 52
  if field = 2047 then (if fraction = 0 then .infinite negative else .nan)
  else if field = 0 then pack negative fraction (-1074)
  else pack negative (Nat.pow 2 52 + fraction) (Int.ofNat field - 1075)

def neg : Binary64 → Binary64
  | .nan => .nan
  | .infinite s => .infinite !s
  | .finite s m e h => .finite (!s) m e h

def isZero : Binary64 → Bool
  | .finite _ m _ _ => m == 0
  | _ => false

def isFinite : Binary64 → Bool
  | .finite .. => true
  | _ => false

/-- Product of two finite numbers; the only use here is by positive powers of ten. -/
def mul : Binary64 → Binary64 → Binary64
  | .finite s m e _, .finite s' m' e' _ =>
    let (n, d) := ratio m e
    let (n', d') := ratio m' e'
    ofRatio (s != s') (n * n') (d * d')
  | .nan, _ | _, .nan => .nan
  | .infinite s, y => if y.isZero then .nan else .infinite (s != isNegative y)
  | x, .infinite s => if x.isZero then .nan else .infinite (s != isNegative x)
where
  isNegative : Binary64 → Bool
    | .nan => false
    | .infinite s => s
    | .finite s _ _ _ => s

def div : Binary64 → Binary64 → Binary64
  | .finite s m e _, .finite s' m' e' _ =>
    let (n, d) := ratio m e
    let (n', d') := ratio m' e'
    if n' = 0 then (if n = 0 then .nan else .infinite (s != s'))
    else ofRatio (s != s') (n * d') (d * n')
  | .nan, _ | _, .nan => .nan
  | .infinite _, .infinite _ => .nan
  | .infinite s, .finite s' _ _ _ => .infinite (s != s')
  | .finite s _ _ _, .infinite s' => zero (s != s')

/-- Numeric equality: a number that is no number differs from itself, and the two zeros agree. -/
def equal : Binary64 → Binary64 → Bool
  | .nan, _ | _, .nan => false
  | .infinite s, .infinite s' => s == s'
  | .finite s m e _, .finite s' m' e' _ => (m == 0 && m' == 0) || (s == s' && m == m' && e == e')
  | _, _ => false

/-- At least zero; false of `nan`, true of the negative zero. -/
def isNonnegative : Binary64 → Bool
  | .nan => false
  | .infinite s => !s
  | .finite s m _ _ => m == 0 || !s

def toInt? : Binary64 → Option Int
  | .finite s m e _ =>
    let (n, d) := ratio m e
    if n % d = 0 then some (if s then -((n / d : Nat) : Int) else ((n / d : Nat) : Int)) else none
  | _ => none

end Binary64
end MarkupMachine
