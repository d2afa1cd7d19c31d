import LineDiagram.Graph.Basic
import LineDiagram.Issue

/-!
# Building a graph

The lines are taken in one after the other, and each adds to a draft: a settings
line sets a setting, a definition adds a node or changes it, an edge line adds
the edges from each source to each target, a marker opens or closes a box.  A
malformed line adds an issue and nothing else.
-/

namespace LineDiagram

/-- The tokens of one side of an edge, divided by bars; arrow signs in them are
dropped. -/
def splitEndpoints (t : Text) : List Text := Text.parts '|' (t.filter (· != '→'))

/-- A graph while it is built. -/
structure Draft where
  /-- The graph so far. -/
  graph : Graph := {}
  /-- The issues so far. -/
  issues : List Issue := []
  /-- The boxes so far. -/
  scanner : Box.Scanner := {}

namespace Draft

/-- Records a problem on a line. -/
def report (d : Draft) (problem : Problem) (index : Nat) (raw : Text) : Draft :=
  { d with issues := d.issues ++ [problem.toIssue (index + 1) raw] }

/-- Takes in a marker. -/
def addMarker (d : Draft) (index depth : Nat) (line : Line) : Draft :=
  if depth % 2 != 0 then d.report .oddMarker index line.raw
  else
    match d.scanner.feed index line with
    | (.opened, scanner) =>
      match scanner.current? with
      | some opener => { d with scanner, graph := d.graph.addBox (.ofOpener opener) }
      | none => { d with scanner }
    | (_, scanner) => { d with scanner }

/-- Puts a node into the innermost open box. -/
def placeNode (d : Draft) (id : Text) : Draft :=
  match d.scanner.current? with
  | some opener => { d with graph := d.graph.modifyBox opener.index (·.addMember id) }
  | none => d

/-- Takes in a settings line. -/
def addSetting (d : Draft) (phrase value : Text) : Draft :=
  match Setting.ofKey? phrase with
  | some s => { d with graph := { d.graph with settings := d.graph.settings.assign s value } }
  | none => d

/-- Takes in a definition. -/
def addNode (d : Draft) (token label : Text) (bracket : Option Text) : Draft :=
  let id := Identifier.ofToken token
  let defaults := NodeStyle.applyDefaults d.graph.settings {}
  let style :=
    match bracket with
    | some inner => defaults.applyBracket (.ofText inner)
    | none => defaults
  let graph := (d.graph.mention token).modifyNode id fun n =>
    { n with label := if label.isEmpty then n.label else label, style := n.style.merge style }
  { d with graph }.placeNode id

/-- Takes in the edges from one source to several targets. -/
def addEdgesFrom (line : Nat) (style : EdgeStyle) (targets : List Text) (g : Graph)
    (source : Text) : Graph :=
  targets.foldl (fun g target =>
    let g := g.mention target
    { g with edges := g.edges ++
        [⟨Identifier.ofToken source, Identifier.ofToken target, line, style⟩] }) (g.mention source)

/-- Takes in an edge line. -/
def addEdges (font : Text) (d : Draft) (index : Nat) (raw sources targets : Text)
    (bracket : Option Text) : Draft :=
  let sources := splitEndpoints sources
  let targets := splitEndpoints targets
  if sources.isEmpty then d.report .edgeWithoutSources index raw
  else if targets.isEmpty then d.report .edgeWithoutTargets index raw
  else
    let style :=
      match bracket with
      | some inner => EdgeStyle.ofBracket font (.ofText inner)
      | none => {}
    { d with graph := sources.foldl (addEdgesFrom (index + 1) style targets) d.graph }

/-- Takes in a line at a position. -/
def addLine (font : Text) (d : Draft) (index : Nat) (line : Line) : Draft :=
  match line.content with
  | .blank => d
  | .marker depth _ _ => d.addMarker index depth line
  | .setting phrase _ value => d.addSetting phrase value
  | .node token label bracket =>
    let d :=
      if Identifier.isBare token then d
      else d.report (.invalidNodeId token (Identifier.ofToken token)) index line.raw
    d.addNode token label bracket
  | .edge sources targets bracket => addEdges font d index line.raw sources targets bracket
  | .unrecognised => d.report .unrecognised index line.raw

/-- Takes in lines in order, the first of them at a given position. -/
def addLines (font : Text) (d : Draft) (index : Nat) : List Text → Draft
  | [] => d
  | raw :: rest => addLines font (d.addLine font index (.ofText raw)) (index + 1) rest

/-- The draft of a document, with edge labels in variants of a font. -/
def ofLines (font : Text) (lines : List Text) : Draft := addLines font {} 0 lines

end Draft

end LineDiagram
