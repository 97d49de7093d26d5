import MarkupMachine.Toml.Quoted

/-! The settings of a run: limits of the machine, the renderer, and what is logged; their defaults,
the check of their values, and their TOML text. -/

namespace MarkupMachine

inductive Settings.Protocol where
  | headless
  deriving DecidableEq, Repr

def Settings.Protocol.name : Settings.Protocol → String
  | .headless => "headless"

structure Settings.Interpreter where
  maxFrames : UInt64 := 1024
  sliceSteps : UInt64 := 64
  deriving DecidableEq, Repr

structure Settings.Renderer where
  protocol : Settings.Protocol := .headless
  uri : String := "headless:"
  timeoutMs : UInt64 := 5000
  domHandle : UInt64 := 1
  deriving DecidableEq, Repr

structure Settings.Logging where
  filter : String := "hvml_core=info"
  deriving DecidableEq, Repr

structure Settings where
  interpreter : Settings.Interpreter := {}
  renderer : Settings.Renderer := {}
  logging : Settings.Logging := {}
  deriving DecidableEq, Repr

namespace Settings

inductive Problem where
  | noFrames
  | noSteps
  | noTime
  deriving DecidableEq, Repr

def Problem.message : Problem → String
  | .noFrames => "interpreter.max_frames must be at least 1"
  | .noSteps => "interpreter.slice_steps must be at least 1"
  | .noTime => "renderer.timeout_ms must be greater than 0"

def problem? (s : Settings) : Option Problem :=
  if s.interpreter.maxFrames = 0 then some .noFrames
  else if s.interpreter.sliceSteps = 0 then some .noSteps
  else if s.renderer.timeoutMs = 0 then some .noTime
  else none

/-- Why there are no settings: their sources cannot be read, or they have a problem. -/
inductive Failure where
  | unreadable
  | invalid (problem : Problem)
  deriving DecidableEq, Repr

def Failure.message : Failure → String
  | .unreadable => "failed to load configuration"
  | .invalid problem => "invalid configuration: " ++ problem.message

def checked (s : Settings) : Except Failure Settings :=
  match s.problem? with
  | some problem => .error (.invalid problem)
  | none => .ok s

/-- The TOML text. Its numbers have 63 bits, and larger ones have no text. -/
def toml? (s : Settings) : Option String :=
  let numbers := [s.interpreter.maxFrames, s.interpreter.sliceSteps, s.renderer.timeoutMs,
    s.renderer.domHandle]
  if numbers.all (·.toNat < UInt64.size / 2) then
    some (String.join [
      "[interpreter]\n",
      "max_frames = ", toString s.interpreter.maxFrames, "\n",
      "slice_steps = ", toString s.interpreter.sliceSteps, "\n",
      "\n[renderer]\n",
      "protocol = ", Toml.quoted s.renderer.protocol.name, "\n",
      "uri = ", Toml.quoted s.renderer.uri, "\n",
      "timeout_ms = ", toString s.renderer.timeoutMs, "\n",
      "dom_handle = ", toString s.renderer.domHandle, "\n",
      "\n[logging]\n",
      "filter = ", Toml.quoted s.logging.filter, "\n"])
  else none

end Settings
end MarkupMachine
