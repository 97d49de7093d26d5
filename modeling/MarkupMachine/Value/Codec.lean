import MarkupMachine.Json.Decode
import MarkupMachine.Value.Basic

/-! The tagged JSON form of values: every value says under `t` what it is. -/

namespace MarkupMachine.Value

open Json (Decoder Failure Scan Source)

def tagged (tag : String) (content : Json) : Json :=
  .object [("t", .string tag), ("v", content)]

/-- What is no finite number is written as `null`. -/
def numberToJson (x : Binary64) : Json := if x.isFinite then .number (.float x) else .null

mutual

def toJson : Value → Json
  | .null => .object [("t", .string "Null")]
  | .bool b => tagged "Bool" (.bool b)
  | .number x => tagged "Num" (numberToJson x)
  | .text s => tagged "Str" (.string s)
  | .list items => tagged "List" (.array (itemsToJson items))
  | .object entries => tagged "Obj" (.object (entriesToJson entries))

def itemsToJson : List Value → List Json
  | [] => []
  | item :: rest => item.toJson :: itemsToJson rest

def entriesToJson : List (String × Value) → List (String × Json)
  | [] => []
  | (key, value) :: rest => (key, value.toJson) :: entriesToJson rest

end

def tags : List String := ["Null", "Bool", "Num", "Str", "List", "Obj"]

def decodeWithin : Nat → Decoder Value
  | 0 => fun _ scan => .error scan.refusal
  | levels + 1 =>
    Decoder.adjacent "t" "v" tags fun variant source content =>
      match variant, content with
      | 0, none => .ok .null
      | 0, some content => do
        Decoder.nothing source content
        return .null
      | _, none => .error .unfit
      | 1, some content => .bool <$> Decoder.bool source content
      | 2, some content => .number <$> Decoder.float source content
      | 3, some content => .text <$> Decoder.string source content
      | 4, some content => .list <$> Decoder.list (decodeWithin levels) source content
      | _, some content => do
        return .object (Table.ofList (← Decoder.fields (decodeWithin levels) source content))

def decoder : Decoder Value := fun source scan => decodeWithin (scan.height + 1) source scan

end MarkupMachine.Value
