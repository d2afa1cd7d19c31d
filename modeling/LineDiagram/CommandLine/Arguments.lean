import LineDiagram.CommandLine.Options

/-!
# The arguments of the program

The program has two commands: `compile` writes the drawing of a document,
`check` only reports what is wrong with it.  Both take the document from a file,
from the command line or from standard input.
-/

namespace LineDiagram.CommandLine

/-- What options stand for. -/
inductive OptionKey where
  /-- Shows the usage. -/
  | help
  /-- How errors are written. -/
  | errorFormat
  /-- Writes what is being done. -/
  | verbose
  /-- The document itself. -/
  | text
  /-- Writes the drawing to standard output. -/
  | stdout
  /-- The file for the drawing. -/
  | output
  /-- The font. -/
  | font
  /-- Fails when there are errors. -/
  | strict
deriving DecidableEq, Repr

/-- The option that shows the usage. -/
def helpOption : OptionSpec OptionKey := ⟨.help, ["-h", "--help"], false, []⟩

/-- The option for the document itself. -/
def textOption : OptionSpec OptionKey := ⟨.text, ["--text"], true, []⟩

/-- The options in front of the command. -/
def leadingOptions : List (OptionSpec OptionKey) := [
  helpOption,
  ⟨.errorFormat, ["--error-format"], true, ["text", "json"]⟩,
  ⟨.verbose, ["--verbose"], false, []⟩]

/-- The options of `compile`. -/
def compileOptions : List (OptionSpec OptionKey) := [
  helpOption,
  textOption,
  ⟨.stdout, ["--stdout"], false, []⟩,
  ⟨.output, ["-o", "--output"], true, []⟩,
  ⟨.font, ["--font"], true, []⟩,
  ⟨.strict, ["--strict"], false, []⟩]

/-- The options of `check`. -/
def checkOptions : List (OptionSpec OptionKey) := [helpOption, textOption]

/-- Where the document is; empty names do not count. -/
structure Source where
  /-- The file. -/
  file : Option Text := none
  /-- The document itself. -/
  text : Option Text := none

/-- What the program is asked to do. -/
inductive Command where
  /-- Show the usage. -/
  | help
  /-- Write the drawing. -/
  | compile (source : Source) (toStdout : Bool) (output font : Option Text) (strict : Bool)
  /-- Report what is wrong. -/
  | check (source : Source)
  /-- Nothing. -/
  | none

/-- The arguments of the program. -/
structure Arguments where
  /-- Whether errors are written as JSON. -/
  json : Bool
  /-- What to do. -/
  command : Command

/-- The last value of an option. -/
def Parsed.last? (p : Parsed OptionKey) (key : OptionKey) : Option Text :=
  ((p.options.filter (·.1 == key)).getLast?).bind (·.2)

/-- Whether an option is given. -/
def Parsed.has (p : Parsed OptionKey) (key : OptionKey) : Bool := p.options.any (·.1 == key)

/-- The names of the commands. -/
def commandNames : List String := ["compile", "check"]

/-- Parses what follows the name of a command: the command and the arguments
that are left. -/
def parseCommand (name : Text) (args : List Text) : Except UsageError (Command × List Text) := do
  if name == "compile".toList then
    let p ← parseOptions {} (← classifyAll compileOptions args)
    let source := ⟨p.plain, p.last? .text⟩
    if p.has .help then return (.help, [])
    return (.compile source (p.has .stdout) (p.last? .output) (p.last? .font)
      (p.has .strict), p.extras)
  else if name == "check".toList then
    let p ← parseOptions {} (← classifyAll checkOptions args)
    if p.has .help then return (.help, [])
    return (.check ⟨p.plain, p.last? .text⟩, p.extras)
  else .error (.invalidChoice "command" name commandNames)

/-- Parses the arguments of the program. -/
def Arguments.parse (args : List Text) : Except UsageError Arguments := do
  let (leading, count) ← parseLeading {} 0 (← classifyAll leadingOptions args)
  let json := leading.last? .errorFormat == some "json".toList
  if leading.has .help then return ⟨json, .help⟩
  let (command, extras) ←
    match args.drop count with
    | [] => pure (.none, [])
    | ["--"] => pure (.none, ["--".toList])
    | name :: rest => parseCommand name rest
  match leading.extras ++ extras with
  | [] => return ⟨json, command⟩
  | extras => .error (.unrecognized extras)

/-- Whether a refused command line asks for JSON: what follows the first
`--error-format`. -/
def asksForJson (args : List Text) : Bool :=
  (args.dropWhile (· != "--error-format".toList)).tail.head? == some "json".toList

end LineDiagram.CommandLine
