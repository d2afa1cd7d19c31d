import LineDiagram.Document
import LineDiagram.Dot.Writer
import LineDiagram.Graph.Build
import LineDiagram.Text.Utf8

/-!
# Compiling

Compiling a document gives the drawing together with everything that was found
on the way.  It is a function of the text alone and never fails on one; only
what is no text is refused.
-/

namespace LineDiagram

/-- What compiling a document gives. -/
structure Compilation where
  /-- The drawing. -/
  dot : Text
  /-- The settings. -/
  settings : Settings
  /-- The issues, in the order of the lines. -/
  issues : List Issue := []
  /-- The graph. -/
  graph : Option Graph := none

/-- How many things a graph has. -/
structure Stats where
  /-- Number of nodes. -/
  nodes : Nat := 0
  /-- Number of edges. -/
  edges : Nat := 0
  /-- Number of boxes. -/
  boxes : Nat := 0
deriving DecidableEq, Repr

namespace Compilation

/-- Number of errors. -/
def errorCount (c : Compilation) : Nat := c.issues.countP (·.severity == .error)

/-- Number of warnings. -/
def warningCount (c : Compilation) : Nat := c.issues.countP (·.severity == .warning)

/-- Whether there are no errors. -/
def isValid (c : Compilation) : Bool := c.errorCount == 0

/-- The sizes of the graph; zero without one. -/
def stats (c : Compilation) : Stats :=
  match c.graph with
  | some g => ⟨g.nodes.length, g.edges.length, g.boxes.length⟩
  | none => {}

/-- One line about the result. -/
def summary (c : Compilation) : Text :=
  let stats := c.stats
  (if c.isValid then "Valid" else "Invalid" : String).toList ++
    " | Nodes: " ++ Text.ofNat stats.nodes ++ ", Edges: " ++ Text.ofNat stats.edges ++
    ", Clusters: " ++ Text.ofNat stats.boxes ++ " | Errors: " ++ Text.ofNat c.errorCount ++
    ", Warnings: " ++ Text.ofNat c.warningCount

/-- The sizes as a record. -/
def statsValue (c : Compilation) : Value :=
  let stats := c.stats
  .ofFields [("nodes", .ofNat stats.nodes), ("edges", .ofNat stats.edges),
    ("clusters", .ofNat stats.boxes)]

/-- The fields of the result, without the graph. -/
def fields (c : Compilation) : List (String × Value) := [
  ("is_valid", .flag c.isValid),
  ("dot", .text c.dot),
  ("settings", c.settings.toValue),
  ("errors", .list (c.issues.map Issue.toValue)),
  ("error_count", .ofNat c.errorCount),
  ("warning_count", .ofNat c.warningCount),
  ("stats", c.statsValue)]

end Compilation

/-- Compiles a text; a font that is empty or not given is the default one. -/
def compile (t : Text) (font : Option Text := none) : Compilation :=
  let font := (filled? font).getD Label.defaultFont
  let draft := Draft.ofLines font (Document.split t)
  { dot := Dot.render draft.graph font, settings := draft.graph.settings
    issues := draft.issues, graph := some draft.graph }

/-- What may be handed in as a document. -/
inductive Input where
  /-- A text. -/
  | text (t : Text)
  /-- Bytes that should encode a text. -/
  | bytes (b : List UInt8)
  /-- Something else. -/
  | other (v : Value)

/-- Why something is no document. -/
inductive InputError where
  /-- The bytes do not encode a text. -/
  | notUtf8 (e : Text.Utf8Error)
  /-- It is a value of another kind. -/
  | notText (kind : String)

/-- The message of an input error. -/
def InputError.message : InputError → Text
  | .notUtf8 e => "document is not valid UTF-8: " ++ e.message
  | .notText kind => "document must be text, got " ++ kind.toList

/-- The name of a value's kind. -/
def Value.kindName : Value → String
  | .null => "NoneType"
  | .flag _ => "bool"
  | .whole _ => "int"
  | .real _ => "float"
  | .text _ => "str"
  | .list _ => "list"
  | .record _ => "dict"

/-- The text of a document. -/
def Input.toText : Input → Except InputError Text
  | .text t => .ok t
  | .bytes b =>
    match Text.decodeUtf8 b with
    | .ok t => .ok t
    | .error e => .error (.notUtf8 e)
  | .other v => .error (.notText v.kindName)

end LineDiagram
