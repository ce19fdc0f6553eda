import ScriptHeap.Text.Split
import ScriptHeap.Text.Utf8

/-!
# Files

Reading and creating files, as far as programs can see: contents, or a problem with a text of the
operating system.

## What is here

* `FileProblem` — why a file cannot be read or created.
* `Surroundings` — what a program sees around it: files, variables, working directory.
* `Location` — the place that a path names.
* `Directory` — a directory held in memory: `write`, `read` and `problemAt`.
-/

set_option autoImplicit false
namespace ScriptHeap

/-- Why a file cannot be read or created. -/
inductive FileProblem where
  | notFound
  | notADirectory
  | isADirectory
  | nameTooLong
  | permissionDenied
  | nulInName
  | other (text : String)
  deriving DecidableEq, Repr

/-- The text of a problem. -/
def FileProblem.text : FileProblem → String
  | notFound => "No such file or directory (os error 2)"
  | notADirectory => "Not a directory (os error 20)"
  | isADirectory => "Is a directory (os error 21)"
  | nameTooLong => "File name too long (os error 36)"
  | permissionDenied => "Permission denied (os error 13)"
  | nulInName => "file name contained an unexpected NUL byte"
  | other text => text

/-- The message for a file that cannot be read. -/
def FileProblem.message (path : String) (p : FileProblem) : String :=
  "Unable to open '" ++ path ++ "' for reading: " ++ p.text

/-- What a program sees around it. -/
structure Surroundings where
  /-- The contents of a file. -/
  read : String → Except FileProblem (List UInt8)
  /-- Why no file can be created, if there is a reason. -/
  problemAt : String → Option FileProblem
  variableValue : String → Option String
  workingDir : String

/-! ## Paths -/

/-- Names one after another, each of a thing in the directory named before. -/
abbrev Route := List (List Char)

/-- The steps of a path: its parts between slashes that are not empty. -/
def steps (path : String) : Route :=
  (Text.parts '/' path.toList).filter (· ≠ [])

/-- A place among files, as the way to it without detours: from the working directory, or from what
lies above it.  All the directories above are taken as one, for nothing is known about them. -/
structure Location where
  above : Bool
  route : Route
  deriving DecidableEq, Repr

namespace Location

/-- The place where a path starts. -/
def start (path : String) : Location :=
  ⟨path.startsWith "/", []⟩

/-- The place after one step: a single dot stays, two dots go up. -/
def next (l : Location) (step : List Char) : Location :=
  if step = ['.'] then l
  else if step = ['.', '.'] then
    if l.route.isEmpty then ⟨true, []⟩ else { l with route := l.route.dropLast }
  else { l with route := l.route ++ [step] }

/-- The place that a path names. -/
def ofPath (path : String) : Location :=
  (steps path).foldl next (start path)

/-- Whether a place lies on the way to another. -/
def isOnWayTo (l m : Location) : Bool :=
  l.above == m.above && decide (l.route.length < m.route.length) &&
    m.route.take l.route.length == l.route

end Location

/-- The most bytes in one step of a path, and the most bytes in a path. -/
def stepLimit : Nat := 255

@[inherit_doc stepLimit]
def pathLimit : Nat := 4095

/-! ## A directory -/

/-- The files of a working directory by their places. -/
structure Directory where
  files : List (Location × List UInt8)
  deriving Repr

namespace Directory

/-- The directory without files. -/
def empty : Directory :=
  ⟨[]⟩

/-- The file at a place. -/
def fileAt? (d : Directory) (l : Location) : Option (List UInt8) :=
  d.files.lookup l

/-- Whether there is a directory at a place: where a path starts, or on the way to a file. -/
def isDirectoryAt (d : Directory) (l : Location) : Bool :=
  l.route.isEmpty || d.files.any fun f ↦ l.isOnWayTo f.1

/-- The directory with a file created or written anew. -/
def write (d : Directory) (path : String) (bytes : List UInt8) : Directory :=
  let l := Location.ofPath path
  ⟨(l, bytes) :: d.files.filter fun f ↦ f.1 ≠ l⟩

/-- The directory with files written one after another. -/
def ofFiles (files : List (String × List UInt8)) : Directory :=
  files.foldl (fun d f ↦ d.write f.1 f.2) empty

/-- The place that steps lead to.  All but the last have to reach directories. -/
def walk (d : Directory) : Location → Route → Except FileProblem Location
  | l, [] => .ok l
  | l, step :: rest =>
    if stepLimit < (Text.utf8 (String.ofList step)).length then .error .nameTooLong
    else
      let l := l.next step
      if rest.isEmpty || d.isDirectoryAt l then walk d l rest
      else if (d.fileAt? l).isSome then .error .notADirectory
      else .error .notFound

/-- The place that a path leads to. -/
def locate (d : Directory) (path : String) : Except FileProblem Location :=
  if path.toList.contains (Char.ofNat 0) then .error .nulInName
  else if path.isEmpty then .error .notFound
  else if pathLimit < (Text.utf8 path).length then .error .nameTooLong
  else d.walk (.start path) (steps path)

/-- The contents of a file.  A path with a slash at its end asks for a directory. -/
def read (d : Directory) (path : String) : Except FileProblem (List UInt8) := do
  let l ← d.locate path
  if d.isDirectoryAt l then throw .isADirectory
  match d.fileAt? l with
  | some bytes => if path.endsWith "/" then throw .notADirectory else return bytes
  | none => throw .notFound

/-- Why no file can be created at a path, if there is a reason. -/
def problemAt (d : Directory) (path : String) : Option FileProblem :=
  match d.locate path with
  | .error p => some p
  | .ok l => if d.isDirectoryAt l || path.endsWith "/" then some .isADirectory else none

end Directory
end ScriptHeap
