import LineDiagram.CommandLine.Arguments
import LineDiagram.CommandLine.Storage
import LineDiagram.Compilation
import LineDiagram.Value.Json

/-!
# Running the program

The program runs on a host, which reads and writes for it; the exit code is zero
when all went well.
-/

namespace LineDiagram.CommandLine

/-- What the program needs from its surroundings. -/
structure Host (m : Type → Type) where
  /-- Standard input; none when it is a terminal. -/
  input : m (Option Text)
  /-- Reads a file. -/
  read : Path → m (Except FileFault (List UInt8))
  /-- Writes a text to a file. -/
  write : Path → Text → m (Except FileFault Unit)
  /-- Writes to standard output. -/
  out : Text → m Unit
  /-- Writes to standard error. -/
  err : Text → m Unit

/-- Why the program fails. -/
inductive Failure where
  /-- The command line is refused. -/
  | usage (e : UsageError)
  /-- There is no command. -/
  | noCommand
  /-- There are a file and a text. -/
  | fileAndText
  /-- There are two places for the drawing. -/
  | twoOutputs
  /-- There is no document. -/
  | noInput
  /-- The file does not exist. -/
  | notFound (path : Path)
  /-- The file cannot be read. -/
  | unreadable (path : Path) (hint : Text)
  /-- The drawing cannot be written. -/
  | unwritable (path : Path) (hint : Text)

namespace Failure

/-- The code of a failure. -/
def code : Failure → String
  | .notFound _ => "E_IO_READ"
  | .unreadable _ _ => "E_IO_READ"
  | .unwritable _ _ => "E_IO_WRITE"
  | _ => "E_ARGS"

/-- The message of a failure. -/
def message : Failure → Text
  | .usage e => e.message
  | .noCommand => "missing subcommand"
  | .fileAndText => "--text cannot be combined with file input"
  | .twoOutputs => "--stdout and --output are mutually exclusive"
  | .noInput => "no input provided"
  | .notFound path => "input file not found: " ++ path.toText
  | .unreadable path _ => "failed to read input file: " ++ path.toText
  | .unwritable path _ => "failed to write output file: " ++ path.toText

/-- What to do about a failure. -/
def hint : Failure → Option Text
  | .usage _ => some "Use subcommands: compile, check."
  | .noCommand => some "Use one of: compile, check."
  | .fileAndText => some "Use either FILE or --text."
  | .twoOutputs => some "Choose either --stdout or --output."
  | .noInput => some "Use a subcommand with FILE, --text, or pipe stdin."
  | .notFound _ => none
  | .unreadable _ hint => some hint
  | .unwritable _ hint => some hint

/-- The file that a failure is about. -/
def file : Failure → Option Text
  | .notFound path => some path.toText
  | .unreadable path _ => some path.toText
  | .unwritable path _ => some path.toText
  | _ => none

/-- The exit code of a failure. -/
def exitCode : Failure → Nat
  | .unwritable _ _ => 4
  | _ => 2

/-- A failure as it is written. -/
def render (f : Failure) (json : Bool) : Text :=
  if json then
    (Value.ofFields [
      ("ok", .flag false), ("code", .ofString f.code), ("message", .text f.message),
      ("file", .ofText? f.file), ("hint", .ofText? f.hint)]).toJson ++ "\n"
  else
    let hint : Text :=
      match filled? f.hint with
      | some hint => "hint: " ++ hint ++ "\n"
      | none => []
    "error[" ++ f.code.toList ++ "]: " ++ f.message ++ "\n" ++ hint

end Failure

/-- A text with line feeds as its only line ends; `done` holds the result so
far, reversed. -/
def unifyLineEndsFrom (done : Text) : Text → Text
  | [] => done.reverse
  | '\r' :: '\n' :: rest => unifyLineEndsFrom ('\n' :: done) rest
  | '\r' :: rest => unifyLineEndsFrom ('\n' :: done) rest
  | c :: rest => unifyLineEndsFrom (c :: done) rest

/-- A text with line feeds as its only line ends. -/
def unifyLineEnds (t : Text) : Text := unifyLineEndsFrom [] t

/-- A document, its name in messages and its file. -/
structure Opened where
  /-- The document. -/
  text : Text
  /-- Its name in messages. -/
  name : Text
  /-- Its file. -/
  path : Option Path := none

/-- The text of a file, or why there is none. -/
def textOfFile (path : Path) (content : Except FileFault (List UInt8)) : Except Failure Opened :=
  match content with
  | .error .missing => .error (.notFound path)
  | .error .notDirectory => .error (.notFound path)
  | .error fault => .error (.unreadable path (fault.hint path))
  | .ok bytes =>
    match Text.decodeUtf8 bytes with
    | .ok t => .ok ⟨unifyLineEnds t, path.toText, some path⟩
    | .error e => .error (.unreadable path e.message)

section

variable {m : Type → Type} [Monad m] (host : Host m)

/-- Opens the document. -/
def openSource (source : Source) : m (Except Failure Opened) := do
  match filled? source.file, source.text with
  | some _, some _ => return .error .fileAndText
  | none, some t => return .ok ⟨t, "<text>", none⟩
  | some file, none =>
    let path := Path.ofText file
    return textOfFile path (← host.read path)
  | none, none =>
    match ← host.input with
    | some t => return .ok ⟨unifyLineEnds t, "<stdin>", none⟩
    | none => return .error .noInput

/-- The issues of a compilation as they are written. -/
def renderIssues (c : Compilation) (name : Text) (json : Bool) : Text :=
  if c.issues.isEmpty then []
  else if json then
    (Value.ofFields [
      ("ok", .flag c.isValid), ("file", .text name),
      ("issues", .list (c.issues.map Issue.toValue))]).toJson ++ "\n"
  else c.issues.flatMap fun issue => name ++ ": " ++ issue.located ++ "\n"

/-- Writes a failure and gives its exit code. -/
def fail (json : Bool) (f : Failure) : m Nat := do
  host.err (f.render json)
  return f.exitCode

/-- Writes the drawing of a document. -/
def runCompile (json : Bool) (source : Source) (toStdout : Bool) (output font : Option Text)
    (strict : Bool) : m Nat := do
  let output := filled? output
  if toStdout && output.isSome then fail host json .twoOutputs
  else
    match ← openSource host source with
    | .error f => fail host json f
    | .ok doc =>
      let c := compile doc.text font
      let exitCode := if strict && !c.isValid then 3 else 0
      host.err (renderIssues c doc.name json)
      let target :=
        if toStdout then none
        else (output.map Path.ofText).orElse fun _ => doc.path.map (·.withSuffix ".dot")
      match target with
      | none =>
        host.out c.dot
        return exitCode
      | some path =>
        match ← host.write path c.dot with
        | .ok () =>
          host.out ("Wrote " ++ path.toText ++ "\n")
          return exitCode
        | .error fault => fail host json (.unwritable path (fault.hint path))

/-- Reports what is wrong with a document. -/
def runCheck (json : Bool) (source : Source) : m Nat := do
  match ← openSource host source with
  | .error f => fail host json f
  | .ok doc =>
    let c := compile doc.text
    host.err (renderIssues c doc.name json)
    if c.isValid then
      host.out (doc.name ++ ": " ++ c.summary ++ "\n")
      return 0
    else return 3

/-- The usage of the program. -/
def usage : Text :=
  "usage: linediagram [-h] [--error-format \x7btext,json\x7d] [--verbose] \x7bcompile,check\x7d ...\n"

/-- Runs the program and gives its exit code. -/
def run (args : List Text) : m Nat := do
  match Arguments.parse args with
  | .error e => fail host (asksForJson args) (.usage e)
  | .ok ⟨json, command⟩ =>
    match command with
    | .help =>
      host.out usage
      return 0
    | .none => fail host json .noCommand
    | .compile source toStdout output font strict =>
      runCompile host json source toStdout output font strict
    | .check source => runCheck host json source

end

end LineDiagram.CommandLine
