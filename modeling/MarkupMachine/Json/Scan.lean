import MarkupMachine.Json.Basic
import MarkupMachine.Number.Numeral

/-! What a single pass over a text sees of a JSON document. A text may stop being JSON anywhere;
what came before is kept, so that a decoder which walks the result in document order meets
whichever fault comes first, its own or that of the text. -/

namespace MarkupMachine.Json

inductive Break where
  | malformed
  | truncated
  deriving DecidableEq, Repr

/-- A number out of range and a string with half a surrogate pair are seen as `none`: they can be
skipped but not read. A word or a number that breaks off after its first character is kept apart
from a place where nothing starts. A container that is never closed carries the reason, and so does
the value of a field whose key is not a string. -/
inductive Scan where
  | broken (why : Break)
  | halfWord (why : Break)
  | halfNumber (why : Break)
  | null
  | bool (b : Bool)
  | number (n : Option Number)
  | string (s : Option String)
  | array (items : List Scan) (stop : Option Break)
  | object (fields : List (Scan × Scan)) (stop : Option Break)
  deriving Inhabited

abbrev Rest := Except Break (List Char)

namespace Scan

def isSpace (c : Char) : Bool := c == ' ' || c == '\n' || c == '\t' || c == '\r'

def skipSpace (cs : List Char) : List Char := cs.dropWhile isSpace

def breakAt (cs : List Char) : Break := if cs.isEmpty then .truncated else .malformed

def readWord (expected : List Char) (value : Scan) : List Char → Scan × Rest
  | cs => match expected, cs with
    | [], cs => (value, .ok cs)
    | _ :: _, [] => (.halfWord .truncated, .error .truncated)
    | e :: expected, c :: cs =>
      if e = c then readWord expected value cs else (.halfWord .malformed, .error .malformed)

/-! ### Numbers -/

/-- Takes digits into a significand as long as it fits 64 bits; answers the significand, how many
digits it took, and how many were left. -/
def absorb : Nat → List Char → Nat × Nat × Nat
  | significand, [] => (significand, 0, 0)
  | significand, d :: digits =>
    let next := significand * 10 + (d.toNat - '0'.toNat)
    if next < UInt64.size then
      let (result, taken, left) := absorb next digits
      (result, taken + 1, left)
    else (significand, 0, digits.length + 1)

def numberOf (negative : Bool) (whole : List Char) (fraction : Option (List Char))
    (exponent : Option Int) : Option Number :=
  let (significand, _, dropped) := absorb 0 whole
  match fraction, exponent, dropped with
  | none, none, 0 =>
    if !negative then some (.int significand)
    else if significand = 0 ∨ UInt64.size / 2 < significand then
      some (.float (Binary64.ofNat significand).neg)
    else some (.int (-(significand : Int)))
  | _, _, _ =>
    let (significand, taken, _) := absorb significand (fraction.getD [])
    (Decimal.toBinary? negative
      ⟨significand, (exponent.getD 0) + (dropped : Int) - (taken : Int)⟩).map .float

def exponentDigits (negative : Bool) (cs : List Char) : Except Break (Int × List Char) :=
  let digits := cs.takeWhile Char.isDigit
  if digits.isEmpty then .error (breakAt cs)
  else
    let size : Int := (digits.foldl (fun n d => n * 10 + (d.toNat - '0'.toNat)) 0 : Nat)
    .ok (if negative then -size else size, cs.dropWhile Char.isDigit)

def exponentPart : List Char → Except Break (Int × List Char)
  | '+' :: cs => exponentDigits false cs
  | '-' :: cs => exponentDigits true cs
  | cs => exponentDigits false cs

def noNumber (why : Break) : Scan × Rest := (.halfNumber why, .error why)

def readExponent (negative : Bool) (whole : List Char) (fraction : Option (List Char))
    (cs : List Char) : Scan × Rest :=
  let ended : Scan × Rest := (.number (numberOf negative whole fraction none), .ok cs)
  match cs with
  | [] => ended
  | c :: rest =>
    if c = 'e' ∨ c = 'E' then
      match exponentPart rest with
      | .error why => noNumber why
      | .ok (exponent, rest) =>
        (.number (numberOf negative whole fraction (some exponent)), .ok rest)
    else ended

def readFraction (negative : Bool) (whole : List Char) : List Char → Scan × Rest
  | '.' :: cs =>
    let fraction := cs.takeWhile Char.isDigit
    let cs := cs.dropWhile Char.isDigit
    if fraction.isEmpty then noNumber (breakAt cs)
    else readExponent negative whole (some fraction) cs
  | cs => readExponent negative whole none cs

def readUnsigned (negative : Bool) (cs : List Char) : Scan × Rest :=
  let whole := cs.takeWhile Char.isDigit
  let cs := cs.dropWhile Char.isDigit
  if whole.isEmpty then noNumber (breakAt cs)
  else if whole.head? = some '0' ∧ 1 < whole.length then noNumber .malformed
  else readFraction negative whole cs

def readNumber : List Char → Scan × Rest
  | '-' :: cs => readUnsigned true cs
  | cs => readUnsigned false cs

/-! ### Strings -/

/-- Four hexadecimal digits. Fewer than four bytes before the end of the text count as its end. -/
def fourHex (cs : List Char) : Except Break (Nat × List Char) :=
  match cs with
  | a :: b :: c :: d :: rest =>
    match Numeral.digit? 16 a, Numeral.digit? 16 b, Numeral.digit? 16 c, Numeral.digit? 16 d with
    | some a, some b, some c, some d => .ok (((a * 16 + b) * 16 + c) * 16 + d, rest)
    | _, _, _, _ => .error .malformed
  | cs => .error (if (String.ofList cs).utf8ByteSize < 4 then .truncated else .malformed)

def simpleEscape? : Char → Option Char
  | '"' => some '"'
  | '\\' => some '\\'
  | '/' => some '/'
  | 'b' => some '\x08'
  | 'f' => some '\x0c'
  | 'n' => some '\n'
  | 'r' => some '\r'
  | 't' => some '\t'
  | _ => none

def isLead (n : Nat) : Bool := 0xd800 ≤ n && n < 0xdc00

def isTrail (n : Nat) : Bool := 0xdc00 ≤ n && n < 0xe000

def trail? : List Char → Option (Nat × List Char)
  | '\\' :: 'u' :: cs =>
    match fourHex cs with
    | .ok (n, rest) => if isTrail n then some (n, rest) else none
    | .error _ => none
  | _ => none

/-- Reads the characters of a string after its opening quote. `lone` tells of half a surrogate
pair met before. -/
def stringFrom (fuel : Nat) (lone : Bool) (done : List Char) (cs : List Char) :
    Option String × Rest :=
  match fuel, cs with
  | 0, _ => (none, .error .malformed)
  | _, [] => (none, .error .truncated)
  | fuel + 1, c :: cs =>
    if c = '"' then (if lone then none else some (String.ofList done.reverse), .ok cs)
    else if c.toNat < 0x20 then (none, .error .malformed)
    else if c ≠ '\\' then stringFrom fuel lone (c :: done) cs
    else match cs with
      | [] => (none, .error .truncated)
      | 'u' :: cs =>
        match fourHex cs with
        | .error why => (none, .error why)
        | .ok (n, rest) =>
          if isLead n then
            match trail? rest with
            | some (m, rest) =>
              let c := Char.ofNat (0x10000 + (n - 0xd800) * 0x400 + (m - 0xdc00))
              stringFrom fuel lone (c :: done) rest
            | none => stringFrom fuel true done rest
          else if isTrail n then stringFrom fuel true done rest
          else stringFrom fuel lone (Char.ofNat n :: done) rest
      | e :: cs =>
        match simpleEscape? e with
        | some c => stringFrom fuel lone (c :: done) cs
        | none => (none, .error .malformed)

def missingTrail : List Char → Break
  | [] | ['\\'] => .truncated
  | '\\' :: 'u' :: cs =>
    match fourHex cs with
    | .error why => why
    | .ok _ => .malformed
  | _ => .malformed

/-- Whether half a surrogate pair is met in a string that breaks off. -/
def loneWithin (fuel : Nat) (cs : List Char) : Bool :=
  match fuel, cs with
  | 0, _ | _, [] => false
  | fuel + 1, '\\' :: 'u' :: cs =>
    match fourHex cs with
    | .error _ => false
    | .ok (n, rest) =>
      if isLead n then
        match trail? rest with
        | some (_, rest) => loneWithin fuel rest
        | none => missingTrail rest = .malformed
      else isTrail n || loneWithin fuel rest
  | fuel + 1, '\\' :: _ :: cs => loneWithin fuel cs
  | fuel + 1, _ :: cs => loneWithin fuel cs

/-- Reads a string after its opening quote. If it never ends, the text is broken there, unless a
reader of the string would have refused it sooner. -/
def readString (cs : List Char) : Scan × Rest :=
  match stringFrom (cs.length + 1) false [] cs with
  | (s, .ok rest) => (.string s, .ok rest)
  | (_, .error why) =>
    (if loneWithin cs.length cs then .string none else .broken why, .error why)

/-! ### Containers -/

mutual

/-- Reads a value; `fuel` bounds the number of values and separators still to come. -/
def readValue (fuel : Nat) (cs : List Char) : Scan × Rest :=
  match fuel with
  | 0 => (.broken .malformed, .error .malformed)
  | fuel + 1 =>
    match skipSpace cs with
    | [] => (.broken .truncated, .error .truncated)
    | 'n' :: cs => readWord ['u', 'l', 'l'] .null cs
    | 't' :: cs => readWord ['r', 'u', 'e'] (.bool true) cs
    | 'f' :: cs => readWord ['a', 'l', 's', 'e'] (.bool false) cs
    | '"' :: cs => readString cs
    | '[' :: cs =>
      match skipSpace cs with
      | [] => (.array [] (some .truncated), .error .truncated)
      | ']' :: cs => (.array [] none, .ok cs)
      | cs =>
        match readItems fuel cs with
        | (items, .ok rest) => (.array items none, .ok rest)
        | (items, .error why) => (.array items (some why), .error why)
    | '\x7b' :: cs =>
      match skipSpace cs with
      | [] => (.object [] (some .truncated), .error .truncated)
      | '\x7d' :: cs => (.object [] none, .ok cs)
      | cs =>
        match readFields fuel cs with
        | (fields, .ok rest) => (.object fields none, .ok rest)
        | (fields, .error why) => (.object fields (some why), .error why)
    | c :: cs =>
      if c.isDigit ∨ c = '-' then readNumber (c :: cs) else (.broken .malformed, .error .malformed)

/-- Reads items up to the closing bracket. What stands after a comma is an item, even a broken
one. -/
def readItems (fuel : Nat) (cs : List Char) : List Scan × Rest :=
  match fuel with
  | 0 => ([], .error .malformed)
  | fuel + 1 =>
    match readValue fuel cs with
    | (item, .error why) => ([item], .error why)
    | (item, .ok rest) =>
      match skipSpace rest with
      | [] => ([item], .error .truncated)
      | ']' :: rest => ([item], .ok rest)
      | ',' :: rest =>
        let (others, rest) := readItems fuel rest
        (item :: others, rest)
      | _ => ([item], .error .malformed)

/-- Reads fields up to the closing brace. What stands after a comma is a field, even without a key;
a field that breaks off before its value has a broken one. -/
def readFields (fuel : Nat) (cs : List Char) : List (Scan × Scan) × Rest :=
  let stop (key : Scan) (why : Break) : List (Scan × Scan) × Rest :=
    ([(key, .broken why)], .error why)
  match fuel with
  | 0 => stop (.broken .malformed) .malformed
  | fuel + 1 =>
    match skipSpace cs with
    | [] => stop (.broken .truncated) .truncated
    | '"' :: cs =>
      match readString cs with
      | (key, .error why) => stop key why
      | (key, .ok rest) =>
        match skipSpace rest with
        | ':' :: rest =>
          match readValue fuel rest with
          | (item, .error why) => ([(key, item)], .error why)
          | (item, .ok rest) =>
            match skipSpace rest with
            | [] => ([(key, item)], .error .truncated)
            | '\x7d' :: rest => ([(key, item)], .ok rest)
            | ',' :: rest =>
              let (others, rest) := readFields fuel rest
              ((key, item) :: others, rest)
            | _ => ([(key, item)], .error .malformed)
        | rest => stop key (breakAt rest)
    | cs => stop (readValue fuel cs).1 .malformed

end

end Scan

/-- A text as scanned: its value, and whether anything but space follows it. -/
structure Text where
  root : Scan
  trailing : Bool

def scan (s : String) : Text :=
  let cs := s.toList
  match Scan.readValue (2 * cs.length + 2) cs with
  | (root, .ok rest) => ⟨root, !(Scan.skipSpace rest).isEmpty⟩
  | (root, .error _) => ⟨root, false⟩

end MarkupMachine.Json
