import ScriptHeap.Files.Inspect
import ScriptHeap.Heap.Contents
import ScriptHeap.Settings.Reading
import ScriptHeap.Settings.Writing

/-!
# The command line

Three commands: show the settings of the compiler, show what files of packed values hold, and write
a sample file.  What a command does is a function of its arguments and of what it sees around it;
the outcome says what to print and what to write.

## What is here

* `Command.parse?` — the command that arguments stand for.
* `Command.filesRead`, `Command.fileCreated?` — the files a command touches.
* `Command.run` — the outcome of a command.
-/

set_option autoImplicit false
namespace ScriptHeap

/-- The commands. -/
inductive Command where
  /-- Shows settings: those of a file, or those that follow from the surroundings. -/
  | config (path : Option String) (json : Bool)
  /-- Shows what files hold. -/
  | inspect (files : List String)
  /-- Writes the sample value to a file. -/
  | packDemo (file : String)
  deriving DecidableEq, Repr

/-- What a command leaves behind: an exit code, what it prints on its two channels, and the file it
writes. -/
structure Outcome where
  code : Nat
  output : String
  errors : String
  written : Option (String × List UInt8)
  deriving DecidableEq, Repr

namespace Outcome

/-- A success with something to print. -/
def success (output : String) : Outcome :=
  ⟨0, output, "", none⟩

/-- A failure with a line that tells why. -/
def failure (reason : String) : Outcome :=
  ⟨1, "", reason ++ "\n", none⟩

/-- The outcome of arguments that stand for no command. -/
def usage : Outcome :=
  ⟨2, "", "usage: config [PATH] [--json] | inspect FILE... | pack-demo FILE\n", none⟩

end Outcome

namespace Command

/-! ## Arguments -/

/-- Whether an argument asks for more messages, once or several times.  It may stand anywhere. -/
def asksForMessages (arg : String) : Bool :=
  match arg.toList with
  | '-' :: 'v' :: more => more.all (· == 'v')
  | _ => arg == "--verbose"

/-- Whether an argument has the form of an option; a single hyphen is a value. -/
def isOption (arg : String) : Bool :=
  match arg.toList with
  | '-' :: _ :: _ => true
  | _ => false

/-- The arguments after the name of a command: how often JSON is asked for, and the values.  After
two hyphens everything is a value; an unknown option is refused. -/
def arguments? : List String → Option (Nat × List String)
  | [] => some (0, [])
  | arg :: args =>
    if arg = "--" then some (0, args)
    else if asksForMessages arg then arguments? args
    else if arg = "--json" then (arguments? args).map fun (asked, values) ↦ (asked + 1, values)
    else if isOption arg then none
    else (arguments? args).map fun (asked, values) ↦ (asked, arg :: values)

/-- The command with a name and arguments.  No value may be empty. -/
def ofArguments? (name : String) (asked : Nat) (values : List String) : Option Command :=
  if values.contains "" then none
  else
    match name, asked, values with
    | "config", 0, [] => some (.config none false)
    | "config", 1, [] => some (.config none true)
    | "config", 0, [path] => some (.config (some path) false)
    | "config", 1, [path] => some (.config (some path) true)
    | "inspect", 0, file :: files => some (.inspect (file :: files))
    | "pack-demo", 0, [file] => some (.packDemo file)
    | _, _, _ => none

/-- The command that arguments stand for. -/
def parse? (args : List String) : Option Command :=
  match args.dropWhile asksForMessages with
  | [] => none
  | name :: args => (arguments? args).bind fun (asked, values) ↦ ofArguments? name asked values

/-- The files a command reads, in order. -/
def filesRead : Command → List String
  | config path _ => path.toList
  | inspect files => files
  | packDemo _ => []

/-- The file a command creates. -/
def fileCreated? : Command → Option String
  | packDemo file => some file
  | _ => none

/-! ## What the commands do -/

/-- Values without host objects. -/
instance : HostObject Empty where

/-- The settings a command shows, or the message why there are none. -/
def settings (s : Surroundings) : Option String → Except String Settings
  | none => .ok (.ofLookup s.variableValue (normalizedDir s.workingDir))
  | some path =>
    match s.read path with
    | .error problem => .error (problem.message path)
    | .ok bytes => (Settings.parse (Text.ofUtf8Lenient bytes)).mapError (·.message path)

/-- Shows settings. -/
def showSettings (s : Surroundings) (path : Option String) (json : Bool) : Outcome :=
  match settings s path with
  | .error reason => .failure ("Error reading configuration: " ++ reason)
  | .ok settings =>
    let text := if json then settings.json else settings.render
    .success (String.ofList (Text.trimEnd text.toList) ++ "\n")

/-- The line for a file, on the channel where it belongs. -/
def inspectedLine (h : Heap Empty) : Inspected Empty → String ⊕ String
  | (path, .ok v) => .inl (path ++ ": " ++ v.kind.name ++ " " ++ h.quoted v ++ "\n")
  | (_, .error e) => .inr (e.message ++ "\n")

/-- Shows what files hold.  One that holds nothing makes the whole command fail in the end. -/
def showFiles (s : Surroundings) (files : List String) : Outcome :=
  match (inspectAll s.read files).run (Heap.empty .standard) with
  | .error fault _ => .failure fault.message
  | .ok results h =>
    let lines := results.map (inspectedLine h)
    let failures := lines.filterMap Sum.getRight?
    { code := if failures.isEmpty then 0 else 1
      output := String.join (lines.filterMap Sum.getLeft?)
      errors := String.join failures
      written := none }

/-- Writes the sample file and shows its value. -/
def writeSample (s : Surroundings) (file : String) : Outcome :=
  let sample : Datum Empty := demoDatum
  match writePacked s.problemAt sample file with
  | .error reason => .failure ("Error writing '" ++ file ++ "': " ++ reason)
  | .ok bytes => { Outcome.success (sample.quoted ++ "\n") with written := some (file, bytes) }

/-- The outcome of a command. -/
def run (s : Surroundings) : Command → Outcome
  | config path json => showSettings s path json
  | inspect files => showFiles s files
  | packDemo file => writeSample s file

end Command

/-- The outcome of a call with arguments. -/
def runArguments (s : Surroundings) (args : List String) : Outcome :=
  match Command.parse? args with
  | some command => command.run s
  | none => .usage

end ScriptHeap
