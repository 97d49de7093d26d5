/-! What a command line asks for, read word by word: options, the command, and its files. -/

namespace MarkupMachine.CommandLine

inductive Command where
  | run (files assignments : List String)
  | check (file : String)
  | settings
  deriving DecidableEq, Repr

structure Invocation where
  settings : Option String
  command : Command
  deriving DecidableEq, Repr

inductive Misuse where
  | helpAsked
  | nothingGiven
  | noCommand
  | unknownCommand
  | unknownArgument
  | missingFile
  | missingValue
  | unneededValue
  | repeatedOption
  deriving DecidableEq, Repr

inductive Slot where
  | settings
  | assignment
  | file
  deriving DecidableEq, Repr

inductive Verb where
  | run
  | check
  | settings
  | help
  deriving DecidableEq, Repr

def Verb.ofWord? (word : String) : Option Verb :=
  match word with
  | "run" => some .run
  | "check" => some .check
  | "config" => some .settings
  | "help" => some .help
  | _ => none

/-- What may follow at one place of the command line: a command, or the options and files of one.
`files` is the number of files, if there is a limit. -/
structure Form where
  commands : Bool := false
  assignments : Bool := false
  files : Option Nat := some 0

def Form.start : Form := { commands := true }

def Verb.form : Verb → Form
  | .run => { assignments := true, files := none }
  | .check => { files := some 1 }
  | .settings | .help => {}

structure Progress where
  settings : Option String := none
  assignments : List String := []
  files : List String := []
  places : Nat := 0
  waiting : Option (Slot × List String) := none

namespace Progress

/-- Fills a slot. Only the name of a file must not be empty, and settings come from one file. -/
def fill (p : Progress) (slot : Slot) (values : List String) : Except Misuse Progress :=
  match slot with
  | .settings =>
    match values with
    | [] => .error .missingValue
    | path :: _ =>
      if p.settings.isSome then .error .repeatedOption
      else if path.isEmpty then .error .missingValue
      else .ok { p with settings := some path }
  | .assignment =>
    if values.isEmpty then .error .missingValue
    else .ok { p with assignments := p.assignments ++ values }
  | .file =>
    if values.isEmpty ∨ values.any (·.isEmpty) then .error .missingValue
    else .ok { p with files := p.files ++ values }

def settle (p : Progress) : Except Misuse Progress :=
  match p.waiting with
  | none => .ok p
  | some (slot, values) => { p with waiting := none }.fill slot values

def wanting? (p : Progress) : Option Slot :=
  match p.waiting with
  | some (slot, []) => some slot
  | _ => none

/-- Takes a word as a file, if there is room for one. Files in a row are one value. -/
def place (p : Progress) (form : Form) (word : String) : Except Misuse Progress :=
  match form.files, p.waiting with
  | none, some (.file, words) => .ok { p with waiting := some (.file, words ++ [word]) }
  | limit, _ =>
    if limit.any (· ≤ p.places) then .error .unknownArgument
    else do
      let p ← p.settle
      return { p with places := p.places + 1, waiting := some (.file, [word]) }

def askHelp (p : Progress) : Except Misuse Progress := do
  let _ ← p.settle
  throw .helpAsked

def option (p : Progress) (form : Form) (name : String) (value : Option String) :
    Except Misuse Progress :=
  let slot? : Option Slot :=
    if name = "config" then some .settings
    else if name = "var" ∧ form.assignments then some .assignment
    else none
  match slot?, value with
  | some slot, some value => do (← p.settle).fill slot [value]
  | some slot, none => do return { (← p.settle) with waiting := some (slot, []) }
  | none, some _ => .error (if name = "help" then .unneededValue else .unknownArgument)
  | none, none => if name = "help" then p.askHelp else .error .unknownArgument

end Progress

inductive Shape where
  | separator
  | long (name : String) (value : Option String)
  | short (letter : Char)
  | plain
  deriving DecidableEq, Repr

def Shape.ofWord (word : String) : Shape :=
  match word.toList with
  | ['-', '-'] => .separator
  | '-' :: '-' :: cs =>
    let value := match cs.dropWhile (· != '=') with
      | [] => none
      | _ :: value => some (String.ofList value)
    .long (String.ofList (cs.takeWhile (· != '='))) value
  | '-' :: letter :: _ => .short letter
  | _ => .plain

/-- Reads words up to the end or up to a command, which is answered with the words after it. An
option without its value takes the next plain word. After a separator all words are plain, no
option takes them, and none is a command. -/
def readWords (form : Form) :
    List String → (separated : Bool) → Progress →
      Except Misuse (Progress × Option (Verb × List String))
  | [], _, p => .ok (p, none)
  | word :: rest, separated, p =>
    match if separated then .plain else Shape.ofWord word with
    | .separator => readWords form rest true p
    | .long name value => do readWords form rest false (← p.option form name value)
    | .short letter => do
      readWords form rest false (← if letter = 'h' then p.askHelp else .error .unknownArgument)
    | .plain =>
      match if separated then none else p.wanting? with
      | some slot => readWords form rest separated { p with waiting := some (slot, [word]) }
      | none =>
        if form.commands then
          match Verb.ofWord? word with
          | none => .error .unknownCommand
          | some verb => if separated then .error .unknownArgument else .ok (p, some (verb, rest))
        else do readWords form rest separated (← p.place form word)

/-- Asking for help on something: on a command, or on help itself. -/
def helpOn (topics : List String) : Misuse :=
  match topics with
  | [] => .helpAsked
  | [topic] => if (Verb.ofWord? topic).isSome then .helpAsked else .unknownCommand
  | _ => .unknownCommand

def Verb.command (verb : Verb) (p : Progress) : Except Misuse Command :=
  match verb, p.files with
  | .run, [] | .check, [] => .error .missingFile
  | .run, files => .ok (.run files p.assignments)
  | .check, file :: _ => .ok (.check file)
  | .settings, _ | .help, _ => .ok .settings

/-- Reads a command line. A settings file named after the command counts more than one before. -/
def Invocation.parse (words : List String) : Except Misuse Invocation := do
  match ← readWords .start words false {} with
  | (p, none) => throw (if (← p.settle).settings.isSome then .noCommand else .nothingGiven)
  | (_, some (.help, topics)) => throw (helpOn topics)
  | (before, some (verb, words)) =>
    let (p, _) ← readWords verb.form words false {}
    let p ← p.settle
    let command ← verb.command p
    return ⟨p.settings.or (← before.settle).settings, command⟩

end MarkupMachine.CommandLine
