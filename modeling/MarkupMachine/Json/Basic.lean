import MarkupMachine.Number.Decimal

/-! JSON documents as trees, and their compact text. -/

namespace MarkupMachine

/-- A number keeps the form in which it was written: without fraction and exponent, or not. -/
inductive Json.Number where
  | int (n : Int)
  | float (x : Binary64)
  deriving DecidableEq, Inhabited

/-- Objects keep the order of their fields, and repeated keys. -/
inductive Json where
  | null
  | bool (b : Bool)
  | number (n : Json.Number)
  | string (s : String)
  | array (items : List Json)
  | object (fields : List (String × Json))
  deriving Inhabited

namespace Json

/-- Whole numbers get a fraction of zero; very large and very small ones an exponent. What is no
finite number has no spelling and is written as `null`. -/
def floatText : Binary64 → String
  | .finite s m e _ =>
    let x := Decimal.shortest .toEven m e
    let lead := x.exponent + ((Nat.toDigits 10 x.digits).length : Int)
    (if s then "-" else "") ++
      if m = 0 ∨ (-5 < lead ∧ lead ≤ 16) then x.positional true else x.scientific
  | _ => "null"

def Number.text : Number → String
  | .int n => toString n
  | .float x => floatText x

def escape (c : Char) : List Char :=
  match c with
  | '"' => ['\\', '"']
  | '\\' => ['\\', '\\']
  | '\x08' => ['\\', 'b']
  | '\x0c' => ['\\', 'f']
  | '\n' => ['\\', 'n']
  | '\r' => ['\\', 'r']
  | '\t' => ['\\', 't']
  | c =>
    if c.toNat < 0x20 then
      ['\\', 'u', '0', '0', Nat.digitChar (c.toNat / 16), Nat.digitChar (c.toNat % 16)]
    else [c]

def stringChars (s : String) : List Char :=
  '"' :: s.toList.flatMap escape ++ ['"']

mutual

def chars : Json → List Char
  | .null => "null".toList
  | .bool b => if b then "true".toList else "false".toList
  | .number n => n.text.toList
  | .string s => stringChars s
  | .array items => '[' :: itemChars items ++ [']']
  | .object fields => '\x7b' :: fieldChars fields ++ ['\x7d']

def itemChars : List Json → List Char
  | [] => []
  | [item] => chars item
  | item :: rest => chars item ++ ',' :: itemChars rest

def fieldChars : List (String × Json) → List Char
  | [] => []
  | [(key, value)] => stringChars key ++ ':' :: chars value
  | (key, value) :: rest => stringChars key ++ ':' :: chars value ++ ',' :: fieldChars rest

end

def text (j : Json) : String := String.ofList j.chars

end Json
end MarkupMachine
