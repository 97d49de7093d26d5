import MarkupMachine.Exception.Codec
import MarkupMachine.Scheduler
import MarkupMachine.Renderer.Codec
import MarkupMachine.Value.Plain

/-! The JSON forms of run states and outcomes, and the report on a coroutine that has ended. -/

namespace MarkupMachine

open Json (Decoder)

namespace RunState

def all : List RunState := [.ready, .running, .waiting, .terminated]

def decoder : Decoder RunState := fun source scan => do
  return all.getD (← Decoder.oneOf (all.map name) source scan) .ready

end RunState

namespace Outcome

def toJson : Outcome → Json
  | .returned value => .object [("t", .string "Return"), ("v", value.toJson)]
  | .thrown e => .object [("t", .string "Throw"), ("v", e.toJson)]
  | .fatal message => .object [("t", .string "Fatal"), ("v", .string message)]
  | .cancelled => .object [("t", .string "Cancelled")]

def decoder : Decoder Outcome :=
  Decoder.adjacent "t" "v" ["Return", "Throw", "Fatal", "Cancelled"] fun variant source content =>
    match variant, content with
    | 0, some content => .returned <$> Value.decoder source content
    | 1, some content => .thrown <$> Exception.decoder source content
    | 2, some content => .fatal <$> Decoder.string source content
    | 3, none => .ok .cancelled
    | 3, some content => do
      Decoder.nothing source content
      return .cancelled
    | _, _ => .error .unfit

def status : Outcome → String
  | .returned _ => "return"
  | .thrown _ => "throw"
  | .fatal _ => "fatal"
  | .cancelled => "cancelled"

def result : Outcome → Json
  | .returned value => value.toPlain
  | .thrown e => e.toValue.toPlain
  | .fatal message => .string message
  | .cancelled => .null

def isReturn : Outcome → Bool
  | .returned _ => true
  | _ => false

end Outcome

def Stats.toJson (s : Stats) : Json :=
  .object [
    ("frames_pushed", .number (.int s.framesPushed)),
    ("frames_popped", .number (.int s.framesPopped)),
    ("peak_frames", .number (.int s.peakFrames)),
    ("contexts_installed", .number (.int s.contextsInstalled)),
    ("contexts_released", .number (.int s.contextsReleased))]

def Finished.report (f : Finished) : Json :=
  .object [
    ("coroutine", .string (Coroutine.label f.id)),
    ("status", .string f.outcome.status),
    ("result", f.outcome.result),
    ("stats", f.stats.toJson)]

end MarkupMachine
