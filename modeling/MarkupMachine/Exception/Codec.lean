import MarkupMachine.Exception.Basic
import MarkupMachine.Tree.Codec

/-! The JSON form of exceptions. -/

namespace MarkupMachine

namespace Exception

open Json (Decoder)

def Info.toJson (info : Info) : Json :=
  .object [("message", .string info.message), ("element", Json.ofOption .string info.element),
    ("position", Json.ofOption Position.toJson info.position)]

def toJson (e : Exception) : Json :=
  .object [("atom", .string e.category), ("info", Json.ofOption Info.toJson e.info)]

structure Info.Draft where
  message : Option String := none
  element : Option String := none
  position : Option Position := none

def Info.decoder : Decoder Info := fun source scan => do
  let draft ← Decoder.record (σ := Info.Draft) [
    Decoder.field "message" Decoder.string (fun d x => { d with message := some x }),
    Decoder.field "element" (Decoder.nullable Decoder.string) (fun d x => { d with element := x }),
    Decoder.field "position" (Decoder.nullable Position.decoder)
      (fun d x => { d with position := x })] {} source scan
  return ⟨← Decoder.required draft.message, draft.element, draft.position⟩

def decoder : Decoder Exception := fun source scan => do
  let (category, info) ← Decoder.record [
    Decoder.field "atom" Decoder.string (fun d x => (some x, d.2)),
    Decoder.field "info" (Decoder.nullable Info.decoder) (fun d x => (d.1, x))] (none, none)
    source scan
  return ⟨← Decoder.required category, info⟩

end Exception

/-- The number of a name that comes in a message. It is entered when it has been read. -/
def NameTable.read (table : NameTable) (source : Json.Source) (scan : Json.Scan) :
    Except Json.Failure (NameTable × NameTable.Atom) := do
  return table.intern (← Json.Decoder.string source scan)

end MarkupMachine
