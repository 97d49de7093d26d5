import MarkupMachine.Number.Numeral
import MarkupMachine.Json.Basic
import MarkupMachine.Table

/-! Settings from several sources as one tree of sections. A later source is laid over an earlier
one: sections are merged, everything else is replaced. Keys ignore case. -/

namespace MarkupMachine.Settings

abbrev Layer := List (String × Json)

def fieldsOf : Json → List (String × Json)
  | .object fields => fields
  | _ => []

mutual

def merge (existing : Option Json) : Json → Json
  | .object incoming => mergeFields (existing.getD (.object [])) incoming
  | value => value

def mergeFields (target : Json) : List (String × Json) → Json
  | [] => target
  | (key, value) :: rest =>
    let fields := fieldsOf target
    let key := key.toLower
    mergeFields (.object (Table.insert key (merge (Table.get? key fields) value) fields)) rest

end

/-! ### Paths -/

/-- One step from a value into its parts. A negative index counts from the end. -/
inductive Step where
  | key (name : String)
  | index (place : Int)
  deriving DecidableEq

def isNameChar (c : Char) : Bool := c.isAlphanum || c == ' ' || c == '_' || c == '-'

/-- An index of 64 bits between brackets, with blanks around it. -/
def index? (cs : List Char) : Option Int :=
  let isSpace (c : Char) : Bool := c == ' ' || c == '\t'
  let cs := ((cs.dropWhile isSpace).reverse.dropWhile isSpace).reverse
  match cs with
  | '+' :: _ => none
  | cs => (Numeral.integer? cs).filter fun n =>
    Int64.minValue.toInt ≤ n ∧ n ≤ Int64.maxValue.toInt

/-- The steps after the first: names after dots, and indices in brackets. `fuel` bounds their
number. -/
def steps? (fuel : Nat) (cs : List Char) : Option (List Step) :=
  match fuel, cs with
  | _, [] => some []
  | 0, _ => none
  | fuel + 1, '.' :: rest => do
    let name := rest.takeWhile isNameChar
    if name.isEmpty then none
    else return .key (String.ofList name) :: (← steps? fuel (rest.dropWhile isNameChar))
  | fuel + 1, '[' :: rest => do
    let place ← index? (rest.takeWhile (· != ']'))
    match rest.dropWhile (· != ']') with
    | ']' :: rest => return .index place :: (← steps? fuel rest)
    | _ => none
  | _, _ => none

/-- The steps that a key stands for. A key of another form is one name. -/
def stepsOf (key : String) : List Step :=
  let cs := key.toList
  let name := cs.takeWhile isNameChar
  match name, steps? cs.length (cs.dropWhile isNameChar) with
  | _ :: _, some steps => .key (String.ofList name) :: steps
  | _, _ => [.key key]

/-- Puts a value at an index of a list, which grows to it. An index in front of the list changes
nothing. -/
def putAt (place : Int) (value : Option Json → Json) (items : List Json) : List Json :=
  let place := if place < 0 then items.length + place else place
  match place with
  | .negSucc _ => items
  | .ofNat n =>
    if n < items.length then items.modify n fun item => value (some item)
    else items ++ List.replicate (n - items.length) .null ++ [value none]

/-- Lays a value over what is there at the end of some steps. What is in the way is replaced. -/
def put (value : Json) : List Step → Option Json → Json
  | [], existing => merge existing value
  | .key name :: rest, existing =>
    let name := name.toLower
    let fields := fieldsOf (existing.getD .null)
    .object (Table.insert name (put value rest (Table.get? name fields)) fields)
  | [.index place], existing => .array (putAt place (fun _ => value) (itemsOf existing))
  | .index place :: rest, existing =>
    .array (putAt place (fun item => put value rest item) (itemsOf existing))
where
  itemsOf : Option Json → List Json
    | some (.array items) => items
    | _ => []

namespace Layer

def cover (below above : Layer) : Layer :=
  above.foldl (fun layer (key, value) => fieldsOf (put value (stepsOf key) (some (.object layer))))
    below

/-! ### The environment -/

def valueOf (text : String) : Json :=
  let cs := text.toList
  match text.toLower with
  | "true" => .bool true
  | "false" => .bool false
  | _ =>
    match (Numeral.integer? cs).filter fun n =>
        Int64.minValue.toInt ≤ n ∧ n ≤ Int64.maxValue.toInt with
    | some n => .number (.int n)
    | none =>
      match Numeral.float? cs with
      | some x => .number (.float x)
      | none => .string text

def dots : List Char → List Char
  | '_' :: '_' :: rest => '.' :: dots rest
  | c :: rest => c :: dots rest
  | [] => []

def variableMark : List Char := "hvml_".toList

def ofEnvironment (environment : List (String × String)) : Layer :=
  environment.filterMap fun (name, text) =>
    let cs := name.toLower.toList
    if variableMark.isPrefixOf cs then
      some (String.ofList (dots (cs.drop variableMark.length)), valueOf text)
    else none

end Layer
end MarkupMachine.Settings
