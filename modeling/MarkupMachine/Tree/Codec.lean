import MarkupMachine.Tree.Basic
import MarkupMachine.Value.Codec

/-! The JSON form of trees. Nodes and expressions say under `t` what they are, beside their own
fields; absent optional fields are written as `null`. -/

namespace MarkupMachine

open Json (Decoder Failure Scan Source)

namespace Position

def toJson (p : Position) : Json :=
  .object [
    ("line", .number (.int p.line.toNat)),
    ("column", .number (.int p.column.toNat)),
    ("offset", .number (.int p.offset.toNat))]

structure Draft where
  line : Option UInt32 := none
  column : Option UInt32 := none
  offset : Option UInt64 := none

def decoder : Decoder Position := fun source scan => do
  let draft ← Decoder.record (σ := Draft) [
    Decoder.field "line" Decoder.uint32 fun d x => { d with line := some x },
    Decoder.field "column" Decoder.uint32 fun d x => { d with column := some x },
    Decoder.field "offset" Decoder.uint64 fun d x => { d with offset := some x }] {} source scan
  return ⟨← Decoder.required draft.line, ← Decoder.required draft.column,
    ← Decoder.required draft.offset⟩

end Position

def Json.ofOption {α : Type} (f : α → Json) : Option α → Json
  | none => .null
  | some a => f a

namespace Expression

mutual

def toJson : Expression → Json
  | .literal value => .object [("t", .string "Lit"), ("v", value.toJson)]
  | .variable name => .object [("t", .string "Var"), ("name", .string name)]
  | .symbol c level =>
    .object [("t", .string "Symbol"), ("symbol", .string (String.singleton c)),
      ("number", .number (.int level.toNat))]
  | .interpolation parts => .object [("t", .string "Concat"), ("parts", .array (partsToJson parts))]

def partsToJson : List Expression → List Json
  | [] => []
  | part :: rest => part.toJson :: partsToJson rest

end

def tags : List String := ["Lit", "Var", "Symbol", "Concat"]

def variant (parts : Decoder (List Expression)) : Nat → Decoder Expression
  | 0 => fun source scan => do
    let value ← Decoder.record [Decoder.field "v" Value.decoder fun _ v => some v] none source scan
    return .literal (← Decoder.required value)
  | 1 => fun source scan => do
    let name ← Decoder.record [Decoder.field "name" Decoder.string fun _ s => some s] none
      source scan
    return .variable (← Decoder.required name)
  | 2 => fun source scan => do
    let (c, level) ← Decoder.record [
      Decoder.field "symbol" Decoder.char (fun d c => (some c, d.2)),
      Decoder.field "number" Decoder.uint32 (fun d n => (d.1, n)) true] (none, 0) source scan
    return .symbol (← Decoder.required c) level
  | _ => fun source scan => do
    let parts ← Decoder.record [Decoder.field "parts" parts fun _ l => some l] none source scan
    return .interpolation (← Decoder.required parts)

def decodeWithin : Nat → Decoder Expression
  | 0 => fun _ scan => .error scan.refusal
  | levels + 1 => fun source scan => do
    let (index, fields) ← Decoder.tagged "t" tags source scan
    variant (Decoder.list (decodeWithin levels)) index .aside fields

/-- Decodes an expression; each level of them takes one container at least. -/
def decoder : Decoder Expression := fun source scan => decodeWithin (scan.height + 1) source scan

end Expression

namespace Operator

def decoder : Decoder Operator := fun source scan => do
  let index ← Decoder.oneOf (all.map text) source scan
  return all.getD index .assign

end Operator

namespace Attribute

def toJson (a : Attribute) : Json :=
  .object [("name", .string a.name), ("op", .string a.operator.text),
    ("value", Json.ofOption Expression.toJson a.value)]

structure Draft where
  name : Option String := none
  operator : Operator := .assign
  value : Option Expression := none

def decoder : Decoder Attribute := fun source scan => do
  let draft ← Decoder.record (σ := Draft) [
    Decoder.field "name" Decoder.string (fun d x => { d with name := some x }),
    Decoder.field "op" Operator.decoder (fun d x => { d with operator := x }) true,
    Decoder.field "value" (Decoder.nullable Expression.decoder)
      (fun d x => { d with value := x }) true] {} source scan
  return ⟨← Decoder.required draft.name, draft.operator, draft.value⟩

end Attribute

namespace Tree

mutual

def toJson : Tree → Json
  | .document children =>
    .object [("t", .string "document"), ("children", .array (childrenToJson children))]
  | .element e children =>
    .object [("t", .string "element"), ("tag", .string e.tag),
      ("attrs", .array (e.attributes.map Attribute.toJson)),
      ("children", .array (childrenToJson children)),
      ("pos", Json.ofOption Position.toJson e.position)]
  | .content text => .object [("t", .string "content"), ("text", .string text)]
  | .comment text => .object [("t", .string "comment"), ("text", .string text)]

def childrenToJson : List Tree → List Json
  | [] => []
  | t :: rest => t.toJson :: childrenToJson rest

end

def tags : List String := ["document", "element", "content", "comment"]

structure Draft where
  tag : Option String := none
  attributes : List Attribute := []
  children : List Tree := []
  position : Option Position := none

def variant (children : Decoder (List Tree)) : Nat → Decoder Tree
  | 0 => fun source scan => do
    return .document (← Decoder.record
      [Decoder.field "children" children (fun _ l => l) true] [] source scan)
  | 1 => fun source scan => do
    let draft ← Decoder.record (σ := Draft) [
      Decoder.field "tag" Decoder.string (fun d x => { d with tag := some x }),
      Decoder.field "attrs" (Decoder.list Attribute.decoder)
        (fun d x => { d with attributes := x }) true,
      Decoder.field "children" children (fun d x => { d with children := x }) true,
      Decoder.field "pos" (Decoder.nullable Position.decoder)
        (fun d x => { d with position := x }) true] {} source scan
    return .element ⟨← Decoder.required draft.tag, draft.attributes, draft.position⟩ draft.children
  | 2 => fun source scan => return .content (← text source scan)
  | _ => fun source scan => return .comment (← text source scan)
where
  text : Decoder String := fun source scan => do
    Decoder.required (← Decoder.record [Decoder.field "text" Decoder.string fun _ s => some s] none
      source scan)

def decodeWithin : Nat → Decoder Tree
  | 0 => fun _ scan => .error scan.refusal
  | levels + 1 => fun source scan => do
    let (index, fields) ← Decoder.tagged "t" tags source scan
    variant (Decoder.list (decodeWithin levels)) index .aside fields

def decoder : Decoder Tree := fun source scan => decodeWithin (scan.height + 1) source scan

end Tree
end MarkupMachine
