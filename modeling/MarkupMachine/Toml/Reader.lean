import MarkupMachine.Toml.Outline
import MarkupMachine.Toml.Scalar

/-! Reading TOML documents into tables. -/

namespace MarkupMachine.Toml

def skipBlanks (cs : List Char) : List Char := cs.dropWhile isBlank

def skipComment (cs : List Char) : Option (List Char) :=
  match cs with
  | '#' :: rest =>
    let text := rest.takeWhile fun c => c != '\n' && c != '\r'
    if text.all isPrintable then some (rest.drop text.length) else none
  | cs => some cs

def endLine (cs : List Char) : Option (List Char) := do
  match ← skipComment (skipBlanks cs) with
  | [] => some []
  | rest => afterBreak? rest

/-- Skips blanks, line breaks and comments between the items of an array; a comment has to end
with its line. `fuel` bounds the lines. -/
def skipSpace (fuel : Nat) (cs : List Char) : Option (List Char) :=
  match fuel with
  | 0 => none
  | fuel + 1 =>
    match skipLines cs with
    | '#' :: rest => do
      let rest ← skipComment ('#' :: rest)
      skipSpace fuel (← afterBreak? rest)
    | rest => some rest

/-! ### Keys -/

def maxDepth : Nat := 79

def isBare (c : Char) : Bool := c.isAlphanum || c == '_' || c == '-'

def readSimpleKey (cs : List Char) : Option (String × List Char) :=
  match cs with
  | '"' :: rest => readLine '"' cs.length [] rest
  | '\'' :: rest => readLine '\'' cs.length [] rest
  | cs =>
    let name := cs.takeWhile isBare
    if name.isEmpty then none else some (String.ofList name, cs.dropWhile isBare)

/-- Reads simple keys with dots between them, and blanks around them: the path and the last one.
`fuel` bounds their number. -/
def readKey (fuel : Nat) (cs : List Char) : Option ((List String × String) × List Char) :=
  match fuel with
  | 0 => none
  | fuel + 1 => do
    let (key, rest) ← readSimpleKey (skipBlanks cs)
    match skipBlanks rest with
    | '.' :: rest =>
      let ((path, last), rest) ← readKey fuel rest
      return ((key :: path, last), rest)
    | rest => return (([], key), rest)

/-! ### Values -/

mutual

/-- Reads a value. `room` bounds how deep it nests, and `fuel` the values and separators still to
come. -/
def readValue (fuel room : Nat) (cs : List Char) : Option (Value × List Char) :=
  match fuel, cs with
  | 0, _ | _, [] => none
  | fuel + 1, '[' :: rest =>
    match room with
    | 0 => none
    | room + 1 => do
      let (items, rest) ← readItems fuel room rest
      return (.array items, rest)
  | fuel + 1, '\x7b' :: rest =>
    match room with
    | 0 => none
    | room + 1 =>
      match skipBlanks rest with
      | '\x7d' :: rest => some (.table [], rest)
      | rest => do
        let (entries, rest) ← readPairs fuel room [] rest
        return (entries.toValue, rest)
  | _, c :: cs =>
    if c = '"' ∨ c = '\'' then (readString (c :: cs)).map fun (s, rest) => (.string s, rest)
    else readScalar (c :: cs)

def readItems (fuel room : Nat) (cs : List Char) : Option (List Value × List Char) :=
  match fuel with
  | 0 => none
  | fuel + 1 => do
    match ← skipSpace (cs.length + 1) cs with
    | ']' :: rest => return ([], rest)
    | rest =>
      let (item, rest) ← readValue fuel room rest
      match ← skipSpace (rest.length + 1) rest with
      | ']' :: rest => return ([item], rest)
      | ',' :: rest =>
        let (others, rest) ← readItems fuel room rest
        return (item :: others, rest)
      | _ => none

def readPairs (fuel room : Nat) (entries : Entries) (cs : List Char) :
    Option (Entries × List Char) :=
  match fuel with
  | 0 => none
  | fuel + 1 => do
    let ((path, key), rest) ← readKey (cs.length + 1) cs
    if maxDepth ≤ path.length then none
    else
      match rest with
      | '=' :: rest =>
        let (value, rest) ← readValue fuel room (skipBlanks rest)
        let entries ← entries.define path key value
        match skipBlanks rest with
        | ',' :: rest => readPairs fuel room entries rest
        | '\x7d' :: rest => return (entries, rest)
        | _ => none
      | _ => none

end

/-! ### Documents -/

/-- What has been read so far, and the table that the last header has opened. -/
structure Progress where
  entries : Entries := []
  current : List String := []

namespace Progress

def readPair (p : Progress) (cs : List Char) : Option (Progress × List Char) := do
  let ((path, key), rest) ← readKey (cs.length + 1) cs
  match rest with
  | '=' :: rest =>
    let (value, rest) ← readValue (rest.length + 1) maxDepth (skipBlanks rest)
    let entries ← p.entries.within false (fun _ entries => entries.define path key value)
      p.current .header
    if maxDepth ≤ path.length then none
    else return ({ p with entries }, ← endLine rest)
  | _ => none

def readHeader (p : Progress) (cs : List Char) : Option (Progress × List Char) :=
  match cs with
  | '[' :: cs => do
    let ((path, key), rest) ← readKey (cs.length + 1) cs
    match rest with
    | ']' :: ']' :: rest =>
      if maxDepth ≤ path.length then none
      else return (⟨← p.entries.openNext path key, path ++ [key]⟩, ← endLine rest)
    | _ => none
  | cs => do
    let ((path, key), rest) ← readKey (cs.length + 1) cs
    match rest with
    | ']' :: rest =>
      if maxDepth ≤ path.length then none
      else return (⟨← p.entries.openTable path key, path ++ [key]⟩, ← endLine rest)
    | _ => none

def readAll (fuel : Nat) (p : Progress) (cs : List Char) : Option Progress :=
  match fuel with
  | 0 => none
  | fuel + 1 =>
    match skipBlanks cs with
    | [] => some p
    | '[' :: rest => do
      let (p, rest) ← p.readHeader rest
      readAll fuel p rest
    | c :: rest =>
      if c = '#' ∨ c = '\n' ∨ c = '\r' then do
        readAll fuel p (← endLine (c :: rest))
      else do
        let (p, rest) ← p.readPair (c :: rest)
        readAll fuel p rest

end Progress

def parse? (s : String) : Option Value := do
  let cs := s.toList
  let cs := if cs.head? = some '\ufeff' then cs.drop 1 else cs
  let p ← Progress.readAll (cs.length + 1) {} cs
  return p.entries.toValue

end MarkupMachine.Toml
