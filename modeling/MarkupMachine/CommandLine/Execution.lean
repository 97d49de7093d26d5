import MarkupMachine.CommandLine.Assignment
import MarkupMachine.CommandLine.Invocation
import MarkupMachine.Host
import MarkupMachine.Report
import MarkupMachine.Settings.Load
import MarkupMachine.Tree.Parse

/-! Carrying out a command: settings first, then its arguments, then its documents; the first
failure ends it. -/

namespace MarkupMachine.CommandLine

/-- What surrounds a command: files, each with its text or the reason why it cannot be read, the
variables of the environment, and the present in milliseconds since 1970. -/
structure Surroundings where
  files : String → Except String String
  environment : List (String × String)
  present : Nat

/-- What a command prints: a text, or the reports on a run and how long its timers took. -/
inductive Output where
  | text (s : String)
  | reports (elapsed : Duration) (reports : List Json)

inductive Failure where
  | settings (why : Settings.Failure)
  | unwritable
  | assignment (why : Assignment.Fault)
  | unread (file reason : String)
  | unfit (file : String) (why : Document.Failure)
  | unstarted (document : Nat) (why : Fault)
  | incomplete (failed total : Nat)

def Failure.causes : Failure → List String
  | .settings why => ["Failed to load configuration", why.message]
  | .unwritable => ["out-of-range value for u64 type"]
  | .assignment why => [why.message]
  | .unread file reason => ["Failed to read " ++ file, reason]
  | .unfit file why => ["Failed to load document " ++ file, why.message]
  | .unstarted document why => [s!"Failed to start document {document}", why.message]
  | .incomplete failed total => [s!"{failed} of {total} coroutine(s) did not complete"]

namespace Surroundings

def document (around : Surroundings) (number : Nat) (file : String) : Except Failure Document :=
  match around.files file with
  | .error reason => .error (.unread file reason)
  | .ok text => (Document.parse number text).mapError (.unfit file)

def settings (around : Surroundings) (path : Option String) : Except Failure Settings :=
  (Settings.load (fun file => (around.files file).toOption) around.environment path).mapError
    .settings

end Surroundings

def summaryText (file : String) (doc : Document) : String :=
  let summary := doc.summary
  String.join (
    s!"Document: {file}\nElements: {summary.elements}\n" ::
    summary.tags.map fun (tag, count) =>
      let kind := (ElementKind.ofTag tag).name
      s!"  <{tag}> x{count} ({kind})\n")

def startAll (docs : List Document) (assignments : List Assignment) (s : Scheduler) :
    Except Failure Scheduler :=
  docs.foldlM (fun s doc =>
    let bound := assignments.foldl (fun s a => s.bindGlobal doc.number a.name a.value) s
    match bound.spawn doc with
    | .ok (_, s) => .ok s
    | .error why => .error (.unstarted doc.number why)) s

def hostFor (settings : Settings) (present : Nat) (scheduler : Scheduler) : Host (List Request) where
  scheduler := scheduler.setTarget settings.renderer.domHandle
  renderer := []
  present := present
  limit := .ofMilliseconds settings.renderer.timeoutMs.toNat

def runAll (settings : Settings) (present : Nat) (docs : List Document)
    (assignments : List Assignment) : Except Failure (Output × Option Failure) := do
  let s ← startAll docs assignments
    (.empty settings.interpreter.maxFrames.toNat settings.interpreter.sliceSteps.toNat)
  let host := (hostFor settings present s).run headless .jumping
  let failed := host.finished.countP fun f => !f.outcome.isReturn
  return (.reports (.ofMilliseconds host.now) (host.finished.map Finished.report),
    if failed = 0 then none else some (.incomplete failed host.finished.length))

def Command.execute (around : Surroundings) (settings : Settings) :
    Command → Except Failure (Output × Option Failure)
  | .run files texts => do
    let assignments ← texts.mapM fun text => (Assignment.parse text).mapError .assignment
    let docs ← files.zipIdx.mapM fun (file, number) => around.document number file
    runAll settings around.present docs assignments
  | .check file => do
    return (.text (summaryText file (← around.document 0 file)), none)
  | .settings =>
    match settings.toml? with
    | some text => .ok (.text text, none)
    | none => .error .unwritable

def Invocation.execute (around : Surroundings) (i : Invocation) : Output × Option Failure :=
  match around.settings i.settings >>= i.command.execute around with
  | .ok result => result
  | .error why => (.text "", some why)

def Invocation.filesRead (environment : List (String × String)) (i : Invocation) : List String :=
  Settings.candidates (Settings.fileFor i.settings environment).1 ++
    match i.command with
    | .run files _ => files
    | .check file => [file]
    | .settings => []

end MarkupMachine.CommandLine
