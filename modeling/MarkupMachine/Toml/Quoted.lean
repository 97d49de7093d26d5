/-! Strings as TOML writes them, in the plainest quotation that needs no escapes. -/

namespace MarkupMachine.Toml

inductive Quotation where
  | basic
  | literal
  | basicLines
  | literalLines
  deriving DecidableEq

def isControl (c : Char) : Bool :=
  (c.toNat < 0x20 && c != '\t' && c != '\n') || c.toNat == 0x7f

def longestRun (c : Char) : List Char → Nat
  | [] => 0
  | d :: rest =>
    if d = c then max (((d :: rest).takeWhile (· == c)).length) (longestRun c rest)
    else longestRun c rest

namespace Quotation

/-- The first quotation in which the text stands as it is; if there is none, double quotes, tripled
for a text of several lines. -/
def ofText (cs : List Char) : Quotation :=
  let control := cs.any isControl
  let escapes := control || cs.contains '\\'
  let lines := cs.contains '\n'
  if !escapes ∧ !lines ∧ longestRun '"' cs = 0 then .basic
  else if !control ∧ !lines ∧ longestRun '\'' cs = 0 then .literal
  else if !escapes ∧ longestRun '"' cs ≤ 2 then .basicLines
  else if !control ∧ longestRun '\'' cs ≤ 2 then .literalLines
  else if lines then .basicLines
  else .basic

def mark : Quotation → List Char
  | .basic => ['"']
  | .literal => ['\'']
  | .basicLines => ['"', '"', '"']
  | .literalLines => ['\'', '\'', '\'']

def hasEscapes : Quotation → Bool
  | .basic | .basicLines => true
  | .literal | .literalLines => false

def hasLines : Quotation → Bool
  | .basicLines | .literalLines => true
  | .basic | .literal => false

end Quotation

def hexDigit (n : Nat) : Char := (Nat.digitChar n).toUpper

def escape (lines : Bool) (c : Char) : List Char :=
  match c with
  | '\x08' => ['\\', 'b']
  | '\t' => ['\\', 't']
  | '\n' => if lines then ['\n'] else ['\\', 'n']
  | '\x0c' => ['\\', 'f']
  | '\r' => ['\\', 'r']
  | '\\' => ['\\', '\\']
  | c =>
    if isControl c then
      ['\\', 'u', '0', '0', hexDigit (c.toNat / 16), hexDigit (c.toNat % 16)]
    else [c]

/-- Escapes a text. Of double quotes in a row `quotes` may still stand as they are; an escape
starts a new row. -/
def escaped (lines : Bool) (quotes : Nat) : List Char → List Char
  | [] => []
  | '"' :: rest =>
    match quotes with
    | 0 => '\\' :: '"' :: escaped lines (if lines then 2 else 0) rest
    | quotes + 1 => '"' :: escaped lines quotes rest
  | c :: rest => escape lines c ++ escaped lines (if lines then 2 else 0) rest

/-- A string in its quotation. Triple quotes are followed by a line break if the text has one, which
does not belong to it. -/
def quoted (s : String) : String :=
  let cs := s.toList
  let quotation := Quotation.ofText cs
  let start := if quotation.hasLines ∧ cs.contains '\n' then ['\n'] else []
  let body := if quotation.hasEscapes then
      escaped quotation.hasLines (if quotation.hasLines then 2 else 0) cs
    else cs
  String.ofList (quotation.mark ++ start ++ body ++ quotation.mark)

end MarkupMachine.Toml
