import ScriptHeap.CommandLine

/-!
# The program

The outer layer: it reads the files a command asks for, hands everything to the pure command, and
prints and writes what the outcome says.
-/

set_option autoImplicit false
namespace ScriptHeap

/-- Whether an error has a number; the system gives some numbers with the opposite sign. -/
def hasNumber (code number : UInt32) : Bool :=
  code == number || code == 0 - number

/-- The problem behind an error of the system. -/
def problemOf : IO.Error → FileProblem
  | .noFileOrDirectory .. => .notFound
  | .permissionDenied .. => .permissionDenied
  | .inappropriateType _ code details =>
    if hasNumber code 20 then .notADirectory
    else if hasNumber code 21 then .isADirectory
    else .other details
  | .invalidArgument _ code details => if hasNumber code 36 then .nameTooLong else .other details
  | e => .other (toString e)

/-- The contents of a file. -/
def readFile (path : String) : IO (Except FileProblem (List UInt8)) := do
  try
    return .ok (← IO.FS.readBinFile path).data.toList
  catch e =>
    return .error (problemOf e)

/-- Creates a file, or tells why that is not possible. -/
def createFile (path : String) : IO (Option FileProblem) := do
  try
    let _ ← IO.FS.Handle.mk path .write
    return none
  catch e =>
    return some (problemOf e)

/-- The surroundings as far as a command looks at them. -/
def surroundingsFor (command : Command) : IO Surroundings := do
  let contents ← command.filesRead.mapM fun path ↦ return (path, ← readFile path)
  let problem ← match command.fileCreated? with
    | some path => createFile path
    | none => pure none
  let named ← [Settings.moduleVariable, Settings.includeVariable].mapM fun name ↦
    return (name, ← IO.getEnv name)
  return {
    read := fun path ↦ (contents.lookup path).getD (.error .notFound)
    problemAt := fun _ ↦ problem
    variableValue := fun name ↦ (named.lookup name).join
    workingDir := toString (← IO.currentDir) }

/-- Prints and writes an outcome. -/
def Outcome.deliver (o : Outcome) : IO UInt32 := do
  IO.print o.output
  IO.eprint o.errors
  match o.written with
  | some (path, bytes) => IO.FS.writeBinFile path ⟨bytes.toArray⟩
  | none => pure ()
  return UInt32.ofNat o.code

end ScriptHeap

/-- Runs the command that the arguments stand for. -/
def main (args : List String) : IO UInt32 := do
  match ScriptHeap.Command.parse? args with
  | none => ScriptHeap.Outcome.usage.deliver
  | some command => (command.run (← ScriptHeap.surroundingsFor command)).deliver
