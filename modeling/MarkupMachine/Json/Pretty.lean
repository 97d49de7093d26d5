import MarkupMachine.Json.Basic

/-! The text of JSON over several lines, two blanks further in for every level. -/

namespace MarkupMachine.Json

def newLine (level : Nat) : List Char := '\n' :: List.replicate (2 * level) ' '

mutual

def prettyChars (level : Nat) : Json → List Char
  | .array [] => ['[', ']']
  | .array items => '[' :: prettyItems (level + 1) items ++ newLine level ++ [']']
  | .object [] => ['\x7b', '\x7d']
  | .object fields => '\x7b' :: prettyFields (level + 1) fields ++ newLine level ++ ['\x7d']
  | j => j.chars

def prettyItems (level : Nat) : List Json → List Char
  | [] => []
  | [item] => newLine level ++ prettyChars level item
  | item :: rest => newLine level ++ prettyChars level item ++ ',' :: prettyItems level rest

def prettyFields (level : Nat) : List (String × Json) → List Char
  | [] => []
  | [(key, value)] => newLine level ++ stringChars key ++ ':' :: ' ' :: prettyChars level value
  | (key, value) :: rest =>
    newLine level ++ stringChars key ++ ':' :: ' ' :: prettyChars level value ++
      ',' :: prettyFields level rest

end

def prettyText (j : Json) : String := String.ofList (prettyChars 0 j)

end MarkupMachine.Json
