import LineDiagram.CommandLine.Path
import LineDiagram.Text.Quoted

/-!
# Storage

What can go wrong with files, and a directory tree kept in memory, on which the
program can be run without touching any disk.
-/

namespace LineDiagram.CommandLine

/-- Why a file cannot be read or written. -/
inductive FileFault where
  /-- There is no such file, or no such directory for it. -/
  | missing
  /-- It is a directory. -/
  | isDirectory
  /-- A part of the path that should be a directory is a file. -/
  | notDirectory
  /-- Something else, with the code and the words of the system. -/
  | other (code : Nat) (message : Text)
deriving DecidableEq, Repr

/-- The fault in the words of the system, for a path. -/
def FileFault.hint (fault : FileFault) (path : Path) : Text :=
  let (code, message) : Nat × Text :=
    match fault with
    | .missing => (2, "No such file or directory")
    | .isDirectory => (21, "Is a directory")
    | .notDirectory => (20, "Not a directory")
    | .other code message => (code, message)
  "[Errno " ++ Text.ofNat code ++ "] " ++ message ++ ": " ++ Text.quoted path.toText

/-- A directory tree.  A place in it is the list of names that leads there from
the top; the directories above the top are reached by `..` and hold nothing else
that is known. -/
structure Storage where
  /-- The directories besides the one at the top. -/
  directories : List (List Text) := []
  /-- The files and their bytes. -/
  files : List (List Text × List UInt8) := []

namespace Storage

/-- Whether a place is the top or above it. -/
def isAbove (place : List Text) : Bool := place.all (· == "..".toList)

/-- The place of the directory around a place. -/
def outside (place : List Text) : List Text :=
  if isAbove place then place ++ ["..".toList] else place.dropLast

/-- Whether there is a directory. -/
def isDirectory (s : Storage) (place : List Text) : Bool :=
  isAbove place || s.directories.contains place

/-- The bytes of a file. -/
def file? (s : Storage) (place : List Text) : Option (List UInt8) := s.files.lookup place

/-- Walks from a directory along all parts; each place on the way has to be a
directory. -/
def walk (s : Storage) (place : List Text) : List Text → Except FileFault (List Text)
  | [] => .ok place
  | part :: rest =>
    if s.isDirectory place then
      walk s (if part == "..".toList then outside place else place ++ [part]) rest
    else if (s.file? place).isSome then .error .notDirectory
    else .error .missing

/-- The place that a relative path leads to.  Absolute paths lead nowhere. -/
def resolve (s : Storage) (path : Path) : Except FileFault (List Text) :=
  if path.root.isEmpty then s.walk [] path.parts else .error .missing

/-- Reads a file. -/
def read (s : Storage) (path : Path) : Except FileFault (List UInt8) := do
  let place ← s.resolve path
  if s.isDirectory place then .error .isDirectory
  else
    match s.file? place with
    | some bytes => .ok bytes
    | none => .error .missing

/-- Writes a file. -/
def write (s : Storage) (path : Path) (bytes : List UInt8) : Except FileFault Storage := do
  let place ← s.resolve path
  if s.isDirectory place then .error .isDirectory
  else if (s.file? place).isSome then
    .ok { s with files := s.files.map fun f => if f.1 == place then (place, bytes) else f }
  else .ok { s with files := s.files ++ [(place, bytes)] }

/-- Adds a directory and those around it. -/
def addDirectory (s : Storage) (place : List Text) : Storage :=
  { s with directories := s.directories ++
      ((List.range place.length).map fun n => place.take (n + 1)) }

/-- Adds a file and the directories around it. -/
def addFile (s : Storage) (place : List Text) (bytes : List UInt8) : Storage :=
  let s := s.addDirectory place.dropLast
  { s with files := s.files ++ [(place, bytes)] }

end Storage

end LineDiagram.CommandLine
