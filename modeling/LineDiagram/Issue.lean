import LineDiagram.Value.Basic

/-!
# Issues

A document that is being edited is malformed most of the time.  A problem
therefore never stops anything; it is recorded as an issue with the line it was
found on.
-/

namespace LineDiagram

/-- How bad an issue is. -/
inductive Severity where
  /-- The line was left out. -/
  | error
  /-- The line was used in part. -/
  | warning
  /-- A remark. -/
  | info
deriving DecidableEq, Repr

/-- The name of a severity. -/
def Severity.name : Severity → String
  | .error => "error"
  | .warning => "warning"
  | .info => "info"

/-- The severity with a given name. -/
def Severity.ofName? (name : Text) : Option Severity :=
  [Severity.error, .warning, .info].find? fun s => s.name.toList == name

/-- A problem on one line. -/
structure Issue where
  /-- Code of the problem. -/
  code : Text
  /-- What is wrong. -/
  message : Text
  /-- Line number, from one. -/
  line : Int
  /-- The line. -/
  text : Text := []
  /-- How bad it is. -/
  severity : Severity := .error
deriving DecidableEq, Repr

/-- The message with its line number. -/
def Issue.located (issue : Issue) : Text :=
  "Line " ++ Text.ofInt issue.line ++ ": " ++ issue.message

/-- An issue as a record. -/
def Issue.toValue (issue : Issue) : Value := .ofFields [
  ("severity", .ofString issue.severity.name),
  ("code", .text issue.code),
  ("message", .text issue.located),
  ("line", .whole issue.line),
  ("text", .text issue.text)]

/-- The problems that lines of a diagram can have. -/
inductive Problem where
  /-- The line is of no known kind. -/
  | unrecognised
  /-- The token of a definition is not an identifier, which is given second. -/
  | invalidNodeId (token id : Text)
  /-- An edge starts nowhere. -/
  | edgeWithoutSources
  /-- An edge ends nowhere. -/
  | edgeWithoutTargets
  /-- A marker has an odd number of dashes. -/
  | oddMarker
deriving DecidableEq, Repr

/-- The issue that a problem raises on a line. -/
def Problem.toIssue (problem : Problem) (line : Nat) (text : Text) : Issue :=
  match problem with
  | .unrecognised =>
    { code := "UNRECOGNISED_LINE", message := "unrecognised syntax: " ++ text, line, text }
  | .invalidNodeId token id =>
    { code := "INVALID_NODE_ID"
      message :=
        "node id '" ++ token ++ "' is not a bare identifier; it is stored as '" ++ id ++ "'"
      line, text, severity := .warning }
  | .edgeWithoutSources =>
    { code := "EDGE_NO_SOURCES", message := "edge has no sources", line, text }
  | .edgeWithoutTargets =>
    { code := "EDGE_NO_TARGETS", message := "edge has no targets", line, text }
  | .oddMarker =>
    { code := "ODD_CLUSTER_MARKER"
      message := "grouping box marker must use an even number of '-' (e.g. -- or ----)"
      line, text }

end LineDiagram
