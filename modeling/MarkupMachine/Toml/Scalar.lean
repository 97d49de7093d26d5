import MarkupMachine.Toml.Basic

/-! Scalars of TOML: numbers, truth values and moments, each a maximal run of characters that one
form accepts whole, and the strings in their four quotations. -/

namespace MarkupMachine.Toml

def isDelimiter (c : Char) : Bool :=
  c == ' ' || c == '\t' || c == '\n' || c == '\r' || c == ',' || c == ']' || c == '\x7d' || c == '#'

def grouped? (base : Nat) : List Char → Option (List Char)
  | [] => none
  | [d] => if (Numeral.digit? base d).isSome then some [d] else none
  | d :: '_' :: rest =>
    if (Numeral.digit? base d).isSome then (d :: ·) <$> grouped? base rest else none
  | d :: rest => if (Numeral.digit? base d).isSome then (d :: ·) <$> grouped? base rest else none

def signed (cs : List Char) : List Char × List Char :=
  match cs with
  | '+' :: rest => (['+'], rest)
  | '-' :: rest => (['-'], rest)
  | cs => ([], cs)

/-- Decimal digits of a whole number, of which the first is zero only if it is alone. -/
def whole? (cs : List Char) : Option (List Char) := do
  let digits ← grouped? 10 cs
  if digits.head? = some '0' ∧ 1 < digits.length then none else some digits

def integer? (cs : List Char) : Option Int := do
  let n ← (match cs with
    | '0' :: 'x' :: rest => do
      return Int.ofNat (← Numeral.digits? 16 (← grouped? 16 rest))
    | '0' :: 'o' :: rest => do
      return Int.ofNat (← Numeral.digits? 8 (← grouped? 8 rest))
    | '0' :: 'b' :: rest => do
      return Int.ofNat (← Numeral.digits? 2 (← grouped? 2 rest))
    | cs => do
      let (sign, rest) := signed cs
      Numeral.integer? (sign ++ (← whole? rest)))
  if Int64.minValue.toInt ≤ n ∧ n ≤ Int64.maxValue.toInt then some n else none

def exponent? (cs : List Char) : Option (List Char) := do
  let (sign, rest) := signed cs
  return 'e' :: sign ++ (← grouped? 10 rest)

def isExponentMark (c : Char) : Bool := c == 'e' || c == 'E'

def afterWhole? (cs : List Char) : Option (List Char) :=
  match cs with
  | '.' :: rest => do
    let digits ← grouped? 10 (rest.takeWhile fun c => !isExponentMark c)
    match rest.dropWhile fun c => !isExponentMark c with
    | [] => return '.' :: digits
    | _ :: rest => return '.' :: digits ++ (← exponent? rest)
  | c :: rest => if isExponentMark c then exponent? rest else none
  | [] => none

/-- A number with a fraction or an exponent, or one of the words `inf` and `nan`. There is no such
number beyond the largest one, only below the least. -/
def float? (cs : List Char) : Option Binary64 :=
  let (sign, rest) := signed cs
  match rest with
  | ['i', 'n', 'f'] => some (.infinite (sign == ['-']))
  | ['n', 'a', 'n'] => some .nan
  | rest => do
    let isWhole (c : Char) : Bool := c.isDigit || c == '_'
    let whole ← whole? (rest.takeWhile isWhole)
    let others ← afterWhole? (rest.dropWhile isWhole)
    let x ← Numeral.float? (sign ++ whole ++ others)
    if x = .infinite false then none else some x

def scalar? (cs : List Char) : Option Value :=
  match cs with
  | ['t', 'r', 'u', 'e'] => some (.boolean true)
  | ['f', 'a', 'l', 's', 'e'] => some (.boolean false)
  | cs =>
    match moment? .strict cs with
    | some s => some (.moment s)
    | none =>
      match float? cs with
      | some x => some (.float x)
      | none => (integer? cs).map .integer

/-- Reads a run with its value. A date and a time may have a blank between them. -/
def readScalar (cs : List Char) : Option (Value × List Char) := do
  let run := cs.takeWhile fun c => !isDelimiter c
  let rest := cs.dropWhile fun c => !isDelimiter c
  let single : Option (Value × List Char) := (scalar? run).map fun x => (x, rest)
  match date? run, rest with
  | some (_, []), ' ' :: c :: more =>
    if c.isDigit then
      let later := (c :: more).takeWhile fun c => !isDelimiter c
      (moment? .strict (run ++ ' ' :: later)).map fun s =>
        (.moment s, (c :: more).drop later.length)
    else single
  | _, _ => single

/-! ### Strings -/

def isPrintable (c : Char) : Bool := c == '\t' || (0x20 ≤ c.toNat && c.toNat != 0x7f)

def numbered? (digits : List Char) : Option Char := do
  let n ← Numeral.digits? 16 digits
  if n.isValidChar then some (Char.ofNat n) else none

def readEscape (cs : List Char) : Option (Char × List Char) :=
  match cs with
  | 'b' :: rest => some ('\x08', rest)
  | 't' :: rest => some ('\t', rest)
  | 'n' :: rest => some ('\n', rest)
  | 'f' :: rest => some ('\x0c', rest)
  | 'r' :: rest => some ('\r', rest)
  | '"' :: rest => some ('"', rest)
  | '\\' :: rest => some ('\\', rest)
  | 'u' :: rest =>
    if rest.length < 4 then none else (numbered? (rest.take 4)).map fun c => (c, rest.drop 4)
  | 'U' :: rest =>
    if rest.length < 8 then none else (numbered? (rest.take 8)).map fun c => (c, rest.drop 8)
  | _ => none

/-- Reads a string on one line after its opening quote; only in double quotes there are escapes.
`fuel` bounds its characters. -/
def readLine (quote : Char) (fuel : Nat) (done : List Char) (cs : List Char) :
    Option (String × List Char) :=
  match fuel, cs with
  | 0, _ | _, [] => none
  | fuel + 1, c :: cs =>
    if c = quote then some (String.ofList done.reverse, cs)
    else if c = '\\' ∧ quote = '"' then do
      let (c, rest) ← readEscape cs
      readLine quote fuel (c :: done) rest
    else if isPrintable c then readLine quote fuel (c :: done) cs
    else none

def isBlank (c : Char) : Bool := c == ' ' || c == '\t'

def afterBreak? (cs : List Char) : Option (List Char) :=
  match cs with
  | '\n' :: rest | '\r' :: '\n' :: rest => some rest
  | _ => none

def skipLines : List Char → List Char
  | '\r' :: '\n' :: rest => skipLines rest
  | c :: rest => if isBlank c ∨ c = '\n' then skipLines rest else c :: rest
  | [] => []

/-- Reads a string of several lines after its opening quotes. Up to two quotes may stand anywhere,
also in front of the closing three. A backslash at the end of a line joins the lines. -/
def readLines (quote : Char) (fuel : Nat) (done : List Char) (cs : List Char) :
    Option (String × List Char) :=
  match fuel with
  | 0 => none
  | fuel + 1 =>
    match afterBreak? cs, cs with
    | some rest, _ => readLines quote fuel ('\n' :: done) rest
    | none, [] => none
    | none, c :: rest =>
      if c = quote then
        let quotes := cs.takeWhile (· == quote)
        let rest := cs.dropWhile (· == quote)
        if quotes.length < 3 then readLines quote fuel (quotes ++ done) rest
        else if quotes.length ≤ 5 then
          some (String.ofList (done.reverse ++ quotes.drop 3), rest)
        else none
      else if c = '\\' ∧ quote = '"' then
        match afterBreak? (rest.dropWhile isBlank) with
        | some rest => readLines quote fuel done (skipLines rest)
        | none => do
          let (c, rest) ← readEscape rest
          readLines quote fuel (c :: done) rest
      else if isPrintable c then readLines quote fuel (c :: done) rest
      else none

/-- Reads a string from its opening quote on. A line break right after three quotes is left out. -/
def readString (cs : List Char) : Option (String × List Char) :=
  match cs with
  | '"' :: '"' :: '"' :: rest => readLines '"' (cs.length) [] ((afterBreak? rest).getD rest)
  | '\'' :: '\'' :: '\'' :: rest => readLines '\'' (cs.length) [] ((afterBreak? rest).getD rest)
  | '"' :: rest => readLine '"' cs.length [] rest
  | '\'' :: rest => readLine '\'' cs.length [] rest
  | _ => none

end MarkupMachine.Toml
