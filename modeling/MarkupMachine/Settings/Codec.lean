import MarkupMachine.Json.Decode
import MarkupMachine.Settings.Basic

/-! Settings out of JSON. Every field may be left out and then has its default. -/

namespace MarkupMachine.Settings

open Json (Decoder)

def Protocol.decoder : Decoder Protocol := fun source scan => do
  let _ ← Decoder.oneOf [Protocol.headless.name] source scan
  return .headless

def Interpreter.decoder : Decoder Interpreter :=
  Decoder.record [
    Decoder.field "max_frames" Decoder.uint64 (fun s n => { s with maxFrames := n }) true,
    Decoder.field "slice_steps" Decoder.uint64 (fun s n => { s with sliceSteps := n }) true] {}

def Renderer.decoder : Decoder Renderer :=
  Decoder.record [
    Decoder.field "protocol" Protocol.decoder (fun s p => { s with protocol := p }) true,
    Decoder.field "uri" Decoder.string (fun s uri => { s with uri }) true,
    Decoder.field "timeout_ms" Decoder.uint64 (fun s n => { s with timeoutMs := n }) true,
    Decoder.field "dom_handle" Decoder.uint64 (fun s n => { s with domHandle := n }) true] {}

def Logging.decoder : Decoder Logging :=
  Decoder.record [
    Decoder.field "filter" Decoder.string (fun s filter => { s with filter }) true] {}

def decoder : Decoder Settings :=
  Decoder.record [
    Decoder.field "interpreter" Interpreter.decoder (fun s x => { s with interpreter := x }) true,
    Decoder.field "renderer" Renderer.decoder (fun s x => { s with renderer := x }) true,
    Decoder.field "logging" Logging.decoder (fun s x => { s with logging := x }) true] {}

end MarkupMachine.Settings
