import MarkupMachine.Renderer.Message
import MarkupMachine.Tree.Codec

/-! The JSON form of renderer messages. -/

namespace MarkupMachine

open Json (Decoder Failure)

namespace Uuid

def unhyphenated? (cs : List Char) : Option (List Char) :=
  if cs.length = 36 ∧ cs[8]? = some '-' ∧ cs[13]? = some '-' ∧ cs[18]? = some '-' ∧
      cs[23]? = some '-' then
    some (cs.take 8 ++ (cs.drop 9).take 4 ++ (cs.drop 14).take 4 ++ (cs.drop 19).take 4 ++
      cs.drop 24)
  else none

def digit? (c : Char) : Option (Fin 16) :=
  match Numeral.digit? 16 c with
  | some n => if h : n < 16 then some ⟨n, h⟩ else none
  | none => none

/-- Thirty-two digits, bare or with hyphens; with hyphens also in braces or after `urn:uuid:` in
any case. -/
def parse? (s : String) : Option Uuid := do
  let cs := s.toList
  let cs ←
    if cs.length = 32 then some cs
    else if cs.length = 38 ∧ cs.head? = some '\x7b' ∧ cs.getLast? = some '\x7d' then
      unhyphenated? ((cs.drop 1).take 36)
    else if cs.length = 45 ∧ (cs.take 9).map Char.toLower = "urn:uuid:".toList then
      unhyphenated? (cs.drop 9)
    else unhyphenated? cs
  let digits ← cs.mapM digit?
  if h : digits.length = 32 then some ⟨digits, h⟩ else none

def decoder : Decoder Uuid := fun source scan => do
  match parse? (← Decoder.string source scan) with
  | some id => return id
  | none => throw .unfit

end Uuid

namespace Target

def all : List Target := [.session, .workspace, .plainWindow, .tabbedWindow, .tabPage, .dom]

def name : Target → String
  | .session => "session"
  | .workspace => "workspace"
  | .plainWindow => "plainWindow"
  | .tabbedWindow => "tabbedWindow"
  | .tabPage => "tabPage"
  | .dom => "dom"

def decoder : Decoder Target := fun source scan => do
  return all.getD (← Decoder.oneOf (all.map name) source scan) .session

end Target

namespace ElementType

def all : List ElementType := [.void, .handle, .id]

def name : ElementType → String
  | .void => "void"
  | .handle => "handle"
  | .id => "id"

def decoder : Decoder ElementType := fun source scan => do
  return all.getD (← Decoder.oneOf (all.map name) source scan) .void

end ElementType

namespace Payload

def toJson : Payload → Json
  | .void => .object [("type", .string "void")]
  | .text s => .object [("type", .string "text"), ("data", .string s)]
  | .json v => .object [("type", .string "json"), ("data", v.toJson)]

def decoder : Decoder Payload :=
  Decoder.adjacent "type" "data" ["void", "text", "json"] fun variant source content =>
    match variant, content with
    | 0, none => .ok .void
    | 0, some content => do
      Decoder.nothing source content
      return .void
    | _, none => .error .unfit
    | 1, some content => .text <$> Decoder.string source content
    | _, some content => .json <$> Value.decoder source content

end Payload

namespace Request

def optionalField (name : String) : Option String → List (String × Json)
  | none => []
  | some s => [(name, .string s)]

def toJson (r : Request) : Json :=
  .object ([("requestId", .string r.id.text), ("target", .string r.target.name),
    ("targetValue", .number (.int r.handle.toNat)), ("operation", .string r.operation),
    ("elementType", .string r.elementType.name)] ++
    optionalField "element" r.element ++ optionalField "property" r.property ++
    [("data", r.payload.toJson)])

structure Draft where
  id : Option Uuid := none
  target : Option Target := none
  handle : Option UInt64 := none
  operation : Option String := none
  elementType : Option ElementType := none
  element : Option String := none
  property : Option String := none
  payload : Payload := .void

def decoder : Decoder Request := fun source scan => do
  let draft ← Decoder.record (σ := Draft) [
    Decoder.field "requestId" Uuid.decoder (fun d x => { d with id := some x }),
    Decoder.field "target" Target.decoder (fun d x => { d with target := some x }),
    Decoder.field "targetValue" Decoder.uint64 (fun d x => { d with handle := some x }),
    Decoder.field "operation" Decoder.string (fun d x => { d with operation := some x }),
    Decoder.field "elementType" ElementType.decoder
      (fun d x => { d with elementType := some x }),
    Decoder.field "element" (Decoder.nullable Decoder.string)
      (fun d x => { d with element := x }) true,
    Decoder.field "property" (Decoder.nullable Decoder.string)
      (fun d x => { d with property := x }) true,
    Decoder.field "data" Payload.decoder (fun d x => { d with payload := x }) true] {} source scan
  return {
    id := ← Decoder.required draft.id
    target := ← Decoder.required draft.target
    handle := ← Decoder.required draft.handle
    operation := ← Decoder.required draft.operation
    elementType := ← Decoder.required draft.elementType
    element := draft.element
    property := draft.property
    payload := draft.payload }

end Request

namespace Response

def toJson (r : Response) : Json :=
  .object [("requestId", .string r.id.text), ("retCode", .number (.int r.status.toNat)),
    ("resultValue", .number (.int r.result.toNat)), ("data", r.payload.toJson)]

structure Draft where
  id : Option Uuid := none
  status : Option UInt16 := none
  result : UInt64 := 0
  payload : Payload := .void

def decoder : Decoder Response := fun source scan => do
  let draft ← Decoder.record (σ := Draft) [
    Decoder.field "requestId" Uuid.decoder (fun d x => { d with id := some x }),
    Decoder.field "retCode" Decoder.uint16 (fun d x => { d with status := some x }),
    Decoder.field "resultValue" Decoder.uint64 (fun d x => { d with result := x }) true,
    Decoder.field "data" Payload.decoder (fun d x => { d with payload := x }) true] {} source scan
  return ⟨← Decoder.required draft.id, ← Decoder.required draft.status, draft.result,
    draft.payload⟩

end Response
end MarkupMachine
