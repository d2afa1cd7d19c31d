import LineDiagram.Text.Digit
import LineDiagram.Text.Quoted

/-!
# Options

Arguments that start with a hyphen are options, unless they look like a negative
number or hold a blank.  A long option may be cut short as long as it stays
unambiguous; its value follows it or stands after an equals sign.  The value of
a short option may follow it directly.  After `--` there are no options.
-/

namespace LineDiagram.CommandLine

/-- An option of a command. -/
structure OptionSpec (κ : Type) where
  /-- What the option stands for. -/
  key : κ
  /-- Its names. -/
  names : List String
  /-- Whether a value follows. -/
  takesValue : Bool
  /-- The values it takes; all when there are none. -/
  choices : List String := []

/-- Why a command line is refused. -/
inductive UsageError where
  /-- An option is cut too short. -/
  | ambiguous (arg : Text) (candidates : List Text)
  /-- The value of an option is missing. -/
  | missingValue (name : Text)
  /-- An option takes no value. -/
  | needlessValue (name value : Text)
  /-- A value is not among those that are possible. -/
  | invalidChoice (name value : Text) (choices : List String)
  /-- There are arguments left. -/
  | unrecognized (args : List Text)
deriving DecidableEq, Repr

/-- The message of a usage error. -/
def UsageError.message : UsageError → Text
  | .ambiguous arg candidates =>
    "ambiguous option: " ++ arg ++ " could match " ++ Text.join ", " candidates
  | .missingValue name => "argument " ++ name ++ ": expected one argument"
  | .needlessValue name value =>
    "argument " ++ name ++ ": ignored explicit argument " ++ Text.quoted value
  | .invalidChoice name value choices =>
    "argument " ++ name ++ ": invalid choice: " ++ Text.quoted value ++ " (choose from " ++
      Text.join ", " (choices.map fun c => Text.quoted c.toList) ++ ")"
  | .unrecognized args => "unrecognized arguments: " ++ Text.join " " args

/-- How an option is called in messages. -/
def OptionSpec.label {κ : Type} (spec : OptionSpec κ) : Text :=
  Text.join "/" (spec.names.map String.toList)

/-- An argument, by what it looks like. -/
inductive Argument (κ : Type) where
  /-- A plain argument. -/
  | plain (arg : Text)
  /-- The mark after which there are no options. -/
  | divider
  /-- An option, perhaps with a value that belongs to the same argument. -/
  | option (spec : OptionSpec κ) (value : Option Text)
  /-- Something that looks like an option and is none. -/
  | unknown (arg : Text)

/-- The argument as it was given, for those that no option takes. -/
def Argument.text {κ : Type} : Argument κ → Text
  | .plain arg => arg
  | .divider => "--"
  | .option spec _ => spec.label
  | .unknown arg => arg

section

variable {κ : Type} (specs : List (OptionSpec κ))

/-- All names with their options, in order. -/
def namedOptions : List (Text × OptionSpec κ) :=
  specs.flatMap fun spec => spec.names.map fun name => (name.toList, spec)

/-- The option with exactly this name. -/
def named? (name : Text) : Option (OptionSpec κ) := (namedOptions specs).lookup name

/-- An argument cut at its first equals sign. -/
def cutAtEquals (arg : Text) : Text × Option Text :=
  match arg.dropWhile (· != '=') with
  | _ :: value => (arg.takeWhile (· != '='), some value)
  | [] => (arg, none)

/-- The options that an argument may stand for, with their names and values. -/
def candidates (arg : Text) : List (Text × OptionSpec κ × Option Text) :=
  match arg with
  | '-' :: '-' :: _ =>
    let (start, value) := cutAtEquals arg
    ((namedOptions specs).filter fun o => start.isPrefixOf o.1).map fun o => (o.1, o.2, value)
  | _ =>
    (namedOptions specs).filterMap fun o =>
      if o.1 == arg.take 2 then some (o.1, o.2, some (arg.drop 2))
      else if arg.isPrefixOf o.1 then some (o.1, o.2, none)
      else none

/-- Whether an argument looks like a negative number; a line feed may end it. -/
def isNegativeNumber (arg : Text) : Bool :=
  match arg with
  | '-' :: rest =>
    let rest := if rest.getLast? == some '\n' then rest.dropLast else rest
    match rest.dropWhile Text.isDigit with
    | [] => !rest.isEmpty
    | '.' :: places => !places.isEmpty && places.all Text.isDigit
    | _ => false
  | _ => false

/-- What an argument before the divider looks like. -/
def classify (arg : Text) : Except UsageError (Argument κ) :=
  match arg with
  | '-' :: _ :: _ =>
    match named? specs arg with
    | some spec => .ok (.option spec none)
    | none =>
      let (name, value) := cutAtEquals arg
      match (if value.isSome then named? specs name else none) with
      | some spec => .ok (.option spec value)
      | none =>
        match candidates specs arg with
        | [(_, spec, value)] => .ok (.option spec value)
        | [] =>
          if isNegativeNumber arg || arg.contains ' ' then .ok (.plain arg) else .ok (.unknown arg)
        | several => .error (.ambiguous arg (several.map (·.1)))
  | _ => .ok (.plain arg)

/-- What all arguments look like. -/
def classifyAll : List Text → Except UsageError (List (Argument κ))
  | [] => .ok []
  | arg :: rest =>
    if arg == "--".toList then .ok (.divider :: rest.map .plain)
    else do
      let first ← classify specs arg
      let others ← classifyAll rest
      return first :: others

end

/-- What a list of arguments gives: the options with their values, the plain
arguments that were asked for, and those that are left. -/
structure Parsed (κ : Type) where
  /-- Options in order. -/
  options : List (κ × Option Text) := []
  /-- The plain argument, if there is one. -/
  plain : Option Text := none
  /-- What is left, in order. -/
  extras : List Text := []

/-- The value of an option that has one with it. -/
def takeValue {κ : Type} (spec : OptionSpec κ) (value : Text) :
    Except UsageError (κ × Option Text) :=
  if !spec.takesValue then .error (.needlessValue spec.label value)
  else if !spec.choices.isEmpty && !(spec.choices.map String.toList).contains value then
    .error (.invalidChoice spec.label value spec.choices)
  else .ok (spec.key, some value)

/-- Parses arguments of which one may be plain. -/
def parseOptions {κ : Type} (done : Parsed κ) : List (Argument κ) → Except UsageError (Parsed κ)
  | [] => .ok done
  | .unknown arg :: rest => parseOptions { done with extras := done.extras ++ [arg] } rest
  | .option spec (some value) :: rest => do
    let taken ← takeValue spec value
    parseOptions { done with options := done.options ++ [taken] } rest
  | .option spec none :: rest =>
    if spec.takesValue then
      match rest with
      | .plain value :: rest => do
        let taken ← takeValue spec value
        parseOptions { done with options := done.options ++ [taken] } rest
      | _ => .error (.missingValue spec.label)
    else parseOptions { done with options := done.options ++ [(spec.key, none)] } rest
  | .plain arg :: rest =>
    if done.plain.isNone then
      match rest with
      | .divider :: rest =>
        .ok { done with plain := some arg, extras := done.extras ++ rest.map Argument.text }
      | rest => parseOptions { done with plain := some arg } rest
    else parseOptions { done with extras := done.extras ++ [arg] } rest
  | .divider :: rest =>
    if done.plain.isNone then
      .ok { done with
        plain := rest.head?.map Argument.text
        extras := done.extras ++ rest.tail.map Argument.text }
    else .ok { done with extras := done.extras ++ "--".toList :: rest.map Argument.text }

/-- Parses the options in front of a command: the options, what is left before
the command, and how many arguments there are before it. -/
def parseLeading {κ : Type} (done : Parsed κ) (count : Nat) :
    List (Argument κ) → Except UsageError (Parsed κ × Nat)
  | [] => .ok (done, count)
  | .unknown arg :: rest =>
    parseLeading { done with extras := done.extras ++ [arg] } (count + 1) rest
  | .option spec (some value) :: rest => do
    let taken ← takeValue spec value
    parseLeading { done with options := done.options ++ [taken] } (count + 1) rest
  | .option spec none :: rest =>
    if spec.takesValue then
      match rest with
      | .plain value :: rest => do
        let taken ← takeValue spec value
        parseLeading { done with options := done.options ++ [taken] } (count + 2) rest
      | _ => .error (.missingValue spec.label)
    else parseLeading { done with options := done.options ++ [(spec.key, none)] } (count + 1) rest
  | _ => .ok (done, count)

end LineDiagram.CommandLine
