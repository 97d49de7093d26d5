import MarkupMachine.CommandLine.Execution
import MarkupMachine.Json.Pretty
import Std.Time.DateTime.Timestamp

/-! The program: it reads the files that an invocation may need, carries the invocation out, waits
as long as its timers took, and prints. -/

namespace MarkupMachine.CommandLine

def usage : String := String.join [
  "Usage: hvml [--config <FILE>] <COMMAND>\n\n",
  "Commands:\n",
  "  run <FILES>... [--var <NAME=JSON>]...  Run documents and print their outcomes as JSON\n",
  "  check <FILE>                           Load a document and summarize its elements\n",
  "  config                                 Print the effective configuration\n"]

def Misuse.message : Misuse → String
  | .helpAsked | .nothingGiven => ""
  | .noCommand => "error: a command is required\n\n"
  | .unknownCommand => "error: unknown command\n\n"
  | .unknownArgument => "error: unexpected argument\n\n"
  | .missingFile => "error: a file is required\n\n"
  | .missingValue => "error: an option or a file has no value\n\n"
  | .unneededValue => "error: an option takes no value\n\n"
  | .repeatedOption => "error: an option is given twice\n\n"

def readEnvironment (names : List String) : IO (List (String × String)) :=
  names.filterMapM fun name => do return (← IO.getEnv name).map fun value => (name, value)

def variableNames : List String :=
  Settings.fileVariable :: [
    "HVML_INTERPRETER__MAX_FRAMES", "HVML_INTERPRETER__SLICE_STEPS",
    "HVML_RENDERER__PROTOCOL", "HVML_RENDERER__URI", "HVML_RENDERER__TIMEOUT_MS",
    "HVML_RENDERER__DOM_HANDLE", "HVML_LOGGING__FILTER"]

def readText (path : String) : IO (String × Except String String) := do
  try return (path, .ok (← IO.FS.readFile path))
  catch
    | .noFileOrDirectory .. => return (path, .error Unreadable.missing.message)
    | e => return (path, .error (toString e))

def printOutput : Output → IO Unit
  | .text s => IO.print s
  | .reports elapsed reports => do
    IO.sleep (.ofNat (elapsed.nanoseconds / 1000000))
    IO.println (Json.array reports).normal.prettyText

def run (i : Invocation) : IO UInt32 := do
  let environment ← readEnvironment variableNames
  let texts ← (i.filesRead environment).mapM readText
  let around : Surroundings := {
    files := fun path => (texts.lookup path).getD (.error Unreadable.missing.message)
    environment
    present := (← Std.Time.Timestamp.now).toMillisecondsSinceUnixEpoch.val.toNat }
  let (output, failure) := i.execute around
  printOutput output
  match failure with
  | none => return 0
  | some why =>
    IO.eprintln ("Error: " ++ ": ".intercalate why.causes)
    return 1

end MarkupMachine.CommandLine

open MarkupMachine.CommandLine in
def main (arguments : List String) : IO UInt32 := do
  match Invocation.parse arguments with
  | .ok i => run i
  | .error .helpAsked =>
    IO.print usage
    return 0
  | .error misuse =>
    IO.eprint (misuse.message ++ usage)
    return 2
