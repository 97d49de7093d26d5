import MarkupMachine.Json.Scan
import MarkupMachine.Table

/-! Decoders from scanned JSON to typed data. A decoder says where its input comes from: straight
from a text, from a value set aside while a tag was looked for, or from a finished tree. The first
fault in document order wins. -/

namespace MarkupMachine.Json

/-- Why decoding failed: the text is not JSON, it ends early, or it is JSON of another shape. -/
inductive Failure where
  | malformed
  | truncated
  | unfit
  deriving DecidableEq, Repr, Inhabited

def Failure.word : Failure → String
  | .malformed => "syntax"
  | .truncated => "eof"
  | .unfit => "data"

def Failure.ofBreak : Break → Failure
  | .malformed => .malformed
  | .truncated => .truncated

/-- Where a decoder's input comes from. A text has room for so many more nested containers. -/
inductive Source where
  | text (room : Nat)
  | aside
  | tree
  deriving DecidableEq

abbrev Decoder (α : Type) := Source → Scan → Except Failure α

def maxDepth : Nat := 127

def Source.enter : Source → Except Failure Source
  | .text 0 => .error .malformed
  | .text (room + 1) => .ok (.text room)
  | source => .ok source

def close : Option Break → Except Failure Unit
  | none => .ok ()
  | some why => .error (.ofBreak why)

namespace Scan

/-- The failure on meeting something of another kind than expected: a scalar is read first, a
container is not. -/
def refusal : Scan → Failure
  | .broken why | .halfWord why | .halfNumber why => .ofBreak why
  | .number none | .string none => .malformed
  | _ => .unfit

mutual

/-- Skips over a value, whose strings and numbers are then held to the grammar alone. A number
must be whole even where the text ends. -/
def skip : Scan → Except Failure Unit
  | .broken why | .halfWord why => .error (.ofBreak why)
  | .halfNumber _ => .error .malformed
  | .array items stop => do skipItems items; close stop
  | .object fields stop => do skipFields fields; close stop
  | _ => .ok ()

def skipItems : List Scan → Except Failure Unit
  | [] => .ok ()
  | item :: rest => do item.skip; skipItems rest

def skipFields : List (Scan × Scan) → Except Failure Unit
  | [] => .ok ()
  | (_, value) :: rest => do value.skip; skipFields rest

end

def key : Scan → Except Failure String
  | .string (some s) => .ok s
  | .broken why => .error (.ofBreak why)
  | _ => .error .malformed

mutual

def toJson (source : Source) : Scan → Except Failure Json
  | .broken why | .halfWord why | .halfNumber why => .error (.ofBreak why)
  | .null => .ok .null
  | .bool b => .ok (.bool b)
  | .number none | .string none => .error .malformed
  | .number (some n) => .ok (.number n)
  | .string (some s) => .ok (.string s)
  | .array items stop => do
    let inner ← source.enter
    let items ← itemsToJson inner items
    close stop
    return .array items
  | .object fields stop => do
    let inner ← source.enter
    let fields ← fieldsToJson inner fields
    close stop
    return .object fields

def itemsToJson (source : Source) : List Scan → Except Failure (List Json)
  | [] => .ok []
  | item :: rest => do return (← item.toJson source) :: (← itemsToJson source rest)

def fieldsToJson (source : Source) :
    List (Scan × Scan) → Except Failure (List (String × Json))
  | [] => .ok []
  | (name, value) :: rest => do
    let name ← name.key
    return (name, ← value.toJson source) :: (← fieldsToJson source rest)

end

mutual

def ofJson : Json → Scan
  | .null => .null
  | .bool b => .bool b
  | .number n => .number (some n)
  | .string s => .string (some s)
  | .array items => .array (ofItems items) none
  | .object fields => .object (ofFields fields) none

def ofItems : List Json → List Scan
  | [] => []
  | item :: rest => ofJson item :: ofItems rest

def ofFields : List (String × Json) → List (Scan × Scan)
  | [] => []
  | (name, value) :: rest => (.string (some name), ofJson value) :: ofFields rest

end

mutual

def height : Scan → Nat
  | .array items _ => itemsHeight items + 1
  | .object fields _ => fieldsHeight fields + 1
  | _ => 0

def itemsHeight : List Scan → Nat
  | [] => 0
  | item :: rest => max item.height (itemsHeight rest)

def fieldsHeight : List (Scan × Scan) → Nat
  | [] => 0
  | (_, value) :: rest => max value.height (fieldsHeight rest)

end
end Scan

namespace Decoder

/-! ### Scalars -/

def string : Decoder String := fun _ scan =>
  match scan with
  | .string (some s) => .ok s
  | other => .error other.refusal

def bool : Decoder Bool := fun _ scan =>
  match scan with
  | .bool b => .ok b
  | other => .error other.refusal

def float : Decoder Binary64 := fun _ scan =>
  match scan with
  | .number (some (.float x)) => .ok x
  | .number (some (.int n)) => .ok (.ofInt n)
  | other => .error other.refusal

def natural (bound : Nat) : Decoder Nat := fun _ scan =>
  match scan with
  | .number (some (.int n)) => if 0 ≤ n ∧ n < bound then .ok n.toNat else .error .unfit
  | other => .error other.refusal

def uint16 : Decoder UInt16 := fun source scan => .ofNat <$> natural UInt16.size source scan

def uint32 : Decoder UInt32 := fun source scan => .ofNat <$> natural UInt32.size source scan

def uint64 : Decoder UInt64 := fun source scan => .ofNat <$> natural UInt64.size source scan

def char : Decoder Char := fun source scan => do
  match (← string source scan).toList with
  | [c] => return c
  | _ => throw .unfit

/-! ### Containers -/

def nullable {α : Type} (decoder : Decoder α) : Decoder (Option α) := fun source scan =>
  match scan with
  | .null => .ok none
  | other => some <$> decoder source other

def list {α : Type} (decoder : Decoder α) : Decoder (List α) := fun source scan => do
  match scan with
  | .array items stop =>
    let inner ← source.enter
    let values ← items.mapM (decoder inner)
    close stop
    return values
  | other => throw other.refusal

def fields {α : Type} (decoder : Decoder α) : Decoder (List (String × α)) := fun source scan => do
  match scan with
  | .object fields stop =>
    let inner ← source.enter
    let values ← fields.mapM fun (name, value) => do
      return (← name.key, ← decoder inner value)
    close stop
    return values
  | other => throw other.refusal

/-! ### Records -/

/-- A named field that reads its value into the record so far. An optional one may be left out
where the record is written as an array. -/
structure Field (σ : Type) where
  name : String
  optional : Bool := false
  read : Source → Scan → σ → Except Failure σ

def field {α σ : Type} (name : String) (decoder : Decoder α) (put : σ → α → σ)
    (optional : Bool := false) : Field σ :=
  ⟨name, optional, fun source scan record => put record <$> decoder source scan⟩

/-- Fields by name in any order; unknown ones are skipped, repeated ones refused. -/
def readNamed {σ : Type} (known : List (Field σ)) (source : Source) :
    List (Scan × Scan) → List String → σ → Except Failure σ
  | [], _, record => .ok record
  | (name, value) :: rest, seen, record => do
    let name ← name.key
    match known.find? (·.name == name) with
    | none =>
      value.skip
      readNamed known source rest seen record
    | some field =>
      if seen.contains name then throw .unfit
      else
        let record ← field.read source value record
        readNamed known source rest (name :: seen) record

/-- Fields by position. A text with more items than fields is at fault as a text. -/
def readPlaced {σ : Type} (source : Source) :
    List (Field σ) → List Scan → Option Break → σ → Except Failure σ
  | [], [], stop, record => do close stop; return record
  | [], _ :: _, _, _ =>
    match source with
    | .text _ => .error .malformed
    | _ => .error .unfit
  | field :: known, [], stop, record => do
    close stop
    if field.optional then readPlaced source known [] stop record else throw .unfit
  | field :: known, item :: rest, stop, record => do
    let record ← field.read source item record
    readPlaced source known rest stop record

def record {σ : Type} (known : List (Field σ)) (empty : σ) : Decoder σ := fun source scan => do
  match scan with
  | .object fields stop =>
    let inner ← source.enter
    let record ← readNamed known inner fields [] empty
    close stop
    return record
  | .array items stop =>
    let inner ← source.enter
    readPlaced inner known items stop empty
  | other => throw other.refusal

def required {α : Type} : Option α → Except Failure α
  | some a => .ok a
  | none => .error .unfit

/-! ### Variants -/

def variantNamed (names : List String) (name : String) : Except Failure Nat :=
  match names.findIdx? (· == name) with
  | some index => .ok index
  | none => .error .unfit

/-- The unit that stands for the empty content of a variant in object form. -/
def unit : Decoder Unit := fun source scan =>
  match source, scan with
  | _, .null => .ok ()
  | .aside, .object [] _ => .ok ()
  | _, other => .error other.refusal

def nothing : Decoder Unit := fun source scan => do
  match scan with
  | .null => return ()
  | .array _ _ | .object _ _ =>
    let _ ← source.enter
    throw .unfit
  | other => throw other.refusal

/-- One of some names: a string, or an object with the name as its only key. In a text anything
else is at fault as a text, whatever becomes of it. -/
def oneOf (names : List String) : Decoder Nat := fun source scan => do
  match scan with
  | .string (some name) => variantNamed names name
  | .string none => throw .malformed
  | .broken why => throw (.ofBreak why)
  | .object ((name, value) :: rest) stop =>
    let inner ← source.enter
    match source with
    | .text _ =>
      let index ← variantNamed names (← string inner name)
      unit inner value
      match rest, stop with
      | [], none => return index
      | [], some why => throw (.ofBreak why)
      | _ :: _, _ => throw .malformed
    | _ =>
      if rest.isEmpty then
        let index ← variantNamed names (← string inner name)
        unit inner value
        return index
      else throw .unfit
  | .object [] stop =>
    let _ ← source.enter
    close stop
    throw (outOfPlace source)
  | _ => throw (outOfPlace source)
where
  outOfPlace : Source → Failure
    | .text _ => .malformed
    | _ => .unfit

def tag (names : List String) : Decoder Nat := fun source scan =>
  match source, scan with
  | .aside, .number (some (.int n)) =>
    if 0 ≤ n ∧ n < names.length then .ok n.toNat else .error .unfit
  | _, _ => do variantNamed names (← string source scan)

/-- Looks for the tag among the fields of an object and sets the others aside. -/
def splitNamed (key : String) (names : List String) (source : Source) :
    List (Scan × Scan) → Option Nat → Except Failure (Option Nat × List (Scan × Scan))
  | [], found => .ok (found, [])
  | (name, value) :: rest, found => do
    if (← name.key) = key then
      match found with
      | some _ => throw .unfit
      | none =>
        let found ← tag names source value
        splitNamed key names source rest (some found)
    else
      let _ ← value.toJson source
      let (found, others) ← splitNamed key names source rest found
      return (found, (name, value) :: others)

/-- A variant whose tag stands among its own fields, or in front of them in an array: its number
and the rest, set aside whole before any of it is decoded. -/
def tagged (key : String) (names : List String) : Decoder (Nat × Scan) := fun source scan => do
  match scan with
  | .object fields stop =>
    let inner ← source.enter
    let (found, others) ← splitNamed key names inner fields none
    close stop
    return (← required found, .object others none)
  | .array items stop =>
    let inner ← source.enter
    match items with
    | [] =>
      close stop
      throw .unfit
    | first :: rest =>
      let found ← tag names inner first
      let _ ← Scan.itemsToJson inner rest
      close stop
      return (found, .array rest none)
  | other => throw other.refusal

/-- What remains of an object after tag and content have been seen: neither may come again. -/
def noneOf (keys : List String) : List (Scan × Scan) → Except Failure Unit
  | [] => .ok ()
  | (name, value) :: rest => do
    if keys.contains (← name.key) then throw .unfit
    else
      value.skip
      noneOf keys rest

def nextOf (keys : List String) :
    List (Scan × Scan) → Except Failure (Option (String × Scan × List (Scan × Scan)))
  | [] => .ok none
  | (name, value) :: rest => do
    let name ← name.key
    if keys.contains name then return some (name, value, rest)
    else
      value.skip
      nextOf keys rest

/-- A variant with its tag and its content under two keys, in either order, or in an array. The
content is `none` where it is missing; content in front of its tag is set aside first. -/
def adjacent {α : Type} (tagKey contentKey : String) (names : List String)
    (content : Nat → Source → Option Scan → Except Failure α) : Decoder α := fun source scan => do
  match scan with
  | .object fields stop =>
    let inner ← source.enter
    let keys := [tagKey, contentKey]
    match ← nextOf keys fields with
    | none =>
      close stop
      throw .unfit
    | some (first, value, rest) =>
      if first = tagKey then
        let variant ← oneOf names inner value
        match ← nextOf keys rest with
        | none =>
          close stop
          content variant inner none
        | some (second, value, rest) =>
          if second = tagKey then throw .unfit
          else
            let result ← content variant inner (some value)
            noneOf keys rest
            close stop
            return result
      else
        let _ ← value.toJson inner
        match ← nextOf keys rest with
        | none =>
          close stop
          throw .unfit
        | some (second, later, rest) =>
          if second = tagKey then
            let variant ← oneOf names inner later
            let result ← content variant .aside (some value)
            noneOf keys rest
            close stop
            return result
          else throw .unfit
  | .array items stop =>
    let inner ← source.enter
    match items with
    | first :: second :: rest =>
      let variant ← tag names inner first
      let result ← content variant inner (some second)
      match rest, source with
      | [], _ =>
        close stop
        return result
      | _ :: _, .text _ => throw .malformed
      | _ :: _, _ => throw .unfit
    | [first] =>
      let _ ← tag names inner first
      close stop
      throw .unfit
    | [] =>
      close stop
      throw .unfit
  | other => throw other.refusal

end Decoder

def decode {α : Type} (decoder : Decoder α) (s : String) : Except Failure α := do
  let text := scan s
  let value ← decoder (.text maxDepth) text.root
  if text.trailing then throw .malformed
  return value

mutual

/-- The tree with every key once and in order; of repeated fields the last one counts. -/
def normal : Json → Json
  | .array items => .array (normalItems items)
  | .object fields => .object (Table.ofList (normalFields fields))
  | j => j

def normalItems : List Json → List Json
  | [] => []
  | item :: rest => normal item :: normalItems rest

def normalFields : List (String × Json) → List (String × Json)
  | [] => []
  | (key, value) :: rest => (key, normal value) :: normalFields rest

end

def decodeTree {α : Type} (decoder : Decoder α) (j : Json) : Except Failure α :=
  decoder .tree (.ofJson j.normal)

def parse (s : String) : Except Failure Json :=
  decode (fun source scan => scan.toJson source) s

end MarkupMachine.Json
