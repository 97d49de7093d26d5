import MarkupMachine.Folder
import MarkupMachine.Settings.Basic
import MarkupMachine.Settings.Layer
import MarkupMachine.Toml.Reader

/-! Loading settings: defaults, a TOML file over them, and the environment over both. Values of
another type are converted where that makes sense. -/

namespace MarkupMachine.Settings

def roundedWithin (bound : Nat) : Binary64 → Nat
  | .finite false significand exponent _ =>
    let (n, d) := Binary64.ratio significand exponent
    min bound ((2 * n + d) / (2 * d))
  | .infinite false => bound
  | _ => 0

def number? : Json → Option UInt64
  | .number (.int n) => if 0 ≤ n ∧ n < UInt64.size then some (.ofNat n.toNat) else none
  | .number (.float x) => some (.ofNat (roundedWithin (UInt64.size - 1) x))
  | .bool b => some (if b then 1 else 0)
  | .string s =>
    match s.toLower with
    | "true" | "on" | "yes" => some 1
    | "false" | "off" | "no" => some 0
    | _ => do
      let n ← Numeral.natural? s.toList
      if n < UInt64.size then some (.ofNat n) else none
  | _ => none

def text? : Json → Option String
  | .string s => some s
  | .bool b => some (if b then "true" else "false")
  | .number (.int n) => some (toString n)
  | .number (.float x) => some x.text
  | _ => none

/-- A protocol by its name in any case, also where the name is the only key of a section. -/
def protocol? : Json → Option Protocol
  | .string s => named? s
  | .object [(s, _)] => named? s
  | _ => none
where
  named? (s : String) : Option Protocol :=
    if s.toLower = Protocol.headless.name then some .headless else none

structure Entry (σ : Type) where
  key : String
  read : Json → σ → Option σ

def entry {α σ : Type} (key : String) (convert? : Json → Option α) (put : σ → α → σ) : Entry σ :=
  ⟨key, fun j s => (convert? j).map (put s)⟩

/-- Reads a section by its keys, or by their order where it is a list. What is missing keeps its
default. -/
def readSection? {σ : Type} (entries : List (Entry σ)) (default : σ) : Json → Option σ
  | .object fields =>
    entries.foldlM (fun s entry =>
      match Table.get? entry.key fields with
      | some j => entry.read j s
      | none => some s) default
  | .array items => (entries.zip items).foldlM (fun s (entry, j) => entry.read j s) default
  | _ => none

def interpreter? : Json → Option Interpreter :=
  readSection? [
    entry "max_frames" number? fun s n => { s with maxFrames := n },
    entry "slice_steps" number? fun s n => { s with sliceSteps := n }] {}

def renderer? : Json → Option Renderer :=
  readSection? [
    entry "protocol" protocol? fun s p => { s with protocol := p },
    entry "uri" text? fun s uri => { s with uri },
    entry "timeout_ms" number? fun s n => { s with timeoutMs := n },
    entry "dom_handle" number? fun s n => { s with domHandle := n }] {}

def logging? : Json → Option Logging :=
  readSection? [entry "filter" text? fun s filter => { s with filter }] {}

def ofLayer? (layer : Layer) : Option Settings :=
  readSection? [
    entry "interpreter" interpreter? fun s x => { s with interpreter := x },
    entry "renderer" renderer? fun s x => { s with renderer := x },
    entry "logging" logging? fun s x => { s with logging := x }] {} (.object layer)

def toLayer (s : Settings) : Layer :=
  let number (n : UInt64) : Json := .number (.int n.toNat)
  Table.ofList [
    ("interpreter", .object (Table.ofList [
      ("max_frames", number s.interpreter.maxFrames),
      ("slice_steps", number s.interpreter.sliceSteps)])),
    ("renderer", .object (Table.ofList [
      ("protocol", .string s.renderer.protocol.name),
      ("uri", .string s.renderer.uri),
      ("timeout_ms", number s.renderer.timeoutMs),
      ("dom_handle", number s.renderer.domHandle)])),
    ("logging", .object (Table.ofList [("filter", .string s.logging.filter)]))]

/-! ### Files -/

def defaultFile : String := "hvml.toml"

def fileVariable : String := "HVML_CONFIG_PATH"

/-- The file to read, and whether it has to be there. -/
def fileFor (path : Option String) (environment : List (String × String)) : String × Bool :=
  match path, environment.lookup fileVariable with
  | some path, _ => (path, true)
  | none, some path => (path, true)
  | none, none => (defaultFile, false)

def suffixed? (path : String) : Option String :=
  let steps := Path.steps path
  match steps.getLast? with
  | none | some ".." => none
  | some _ =>
    some ((if path.startsWith "/" then "/" else "") ++ "/".intercalate steps ++ ".toml")

def candidates (path : String) : List String := path :: (suffixed? path).toList

/-- The layer that a file describes, which has to be a table. The file may have a byte order mark in
front of its document. -/
def layerOf? (file : String) : Option Layer := do
  let document := match file.toList with
    | '\ufeff' :: rest => String.ofList rest
    | _ => file
  match ← (← Toml.parse? document).plain? with
  | .object fields => some fields
  | _ => none

def fileLayer? (files : String → Option String) (path : String) (needed : Bool) : Option Layer :=
  match (candidates path).findSome? files with
  | some file => layerOf? file
  | none => if needed then none else some []

def load (files : String → Option String) (environment : List (String × String))
    (path : Option String) : Except Failure Settings :=
  let (path, needed) := fileFor path environment
  let layered? := do
    let file ← fileLayer? files path needed
    ofLayer? ((({} : Settings).toLayer.cover file).cover (Layer.ofEnvironment environment))
  match layered? with
  | some s => s.checked
  | none => .error .unreadable

end MarkupMachine.Settings
