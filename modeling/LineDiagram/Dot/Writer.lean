import LineDiagram.Dot.Basic
import LineDiagram.Dot.Element

/-!
# Drawing a graph

The order of a drawing is fixed, so that the same source always gives the same
text: defaults, settings of the drawing, boxes from the top down, nodes outside
all boxes in the order of first mention, edges in the order of the source.
-/

namespace LineDiagram.Dot

/-- The statement of a node. -/
def nodeStatement (g : Graph) (indent : Text) (node : Node) : Text :=
  let style := node.style.applyDefaults g.settings
  let wrap := (g.settings.number .labelWrap).map Number.toBinary64
  indent ++ quote node.id ++ attributesOf [
    ("fillcolor", .ofText? style.fill),
    ("style", .text (joinStyles style.styles)),
    ("color", .ofText? style.borderColour),
    ("penwidth", .ofInt? style.borderWidth),
    ("fontsize", .ofText? style.fontSize),
    ("label", .text (Label.wrap node.label wrap)),
    ("id", .text (Element.ofNodeId node.id).id)] ++ ";"

/-- The statement of an edge. -/
def edgeStatement (e : Edge) : Text :=
  "  " ++ quote e.source ++ " -> " ++ quote e.target ++ attributesOf [
    ("label", .ofText? e.style.label),
    ("color", .ofText? e.style.colour),
    ("penwidth", .ofInt? e.style.width),
    ("style", .text (joinStyles e.style.styles)),
    ("fontname", .ofText? e.style.font),
    ("fontsize", .ofBinary64? e.style.fontSize),
    ("id", .text (Element.ofEdge e).id)] ++ ";"

/-- The line width of edges, which has to be above zero. -/
def linkWidth (settings : Settings) : Value :=
  match (settings.number .linkWidth).map Number.toBinary64 with
  | some width =>
    if width.isPositive then
      match width.roundHalfUp with
      | .ok n => .whole n
      | .error _ => .null
    else .null
  | none => .null

/-- The default style of edges, when it is a line style. -/
def linkStyle (settings : Settings) : Option Text :=
  (settings.text .linkStyle).filter Border.lineStyles.contains

/-- The statements that set defaults. -/
def defaults (settings : Settings) (font : Text) : List Text := [
  "  graph" ++ attributesOf [("fontname", .text font)] ++ ";",
  "  node" ++ attributesOf [
    ("fontname", .text font),
    ("shape", .ofString "box"),
    ("fontcolor", .ofText? (settings.text .nodeTextColour))] ++ ";",
  "  edge" ++ attributesOf [
    ("fontname", .text font),
    ("fontsize", .whole 12),
    ("color", .ofText? (settings.text .linkColour)),
    ("fontcolor", .ofText? (settings.text .textColour)),
    ("style", .ofText? (linkStyle settings)),
    ("penwidth", linkWidth settings)] ++ ";"]

/-- A statement about the whole drawing. -/
def directive (name : String) (v : Value) : Text := "  " ++ assignment name v ++ ";"

/-- A statement about the whole drawing, if a text is set. -/
def directive? (name : String) (t : Option Text) : List Text :=
  ((filled? t).map fun t => directive name (.text t)).toList

/-- Size of the title: a size above zero, or 18. -/
def titleSize (settings : Settings) : Binary64 :=
  (((settings.number .titleSize).map Number.toBinary64).filter Binary64.isPositive).getD (.ofInt 18)

/-- The title, with a line break after it for a gap to the diagram. -/
def titleStatement (settings : Settings) (title : Text) : Text :=
  let (vertical, horizontal) := titlePlace ((settings.text .titlePosition).getD [])
  "  " ++ assignment "label" (.text (title ++ "\\n")) ++
    "; " ++ assignment "labelloc" (.text vertical) ++
    "; " ++ assignment "labeljust" (.text horizontal) ++
    "; " ++ assignment "fontsize" (.real (titleSize settings)) ++ ";"

/-- A distance in inches; the source has tenths of them. -/
def separation (name : String) (distance : Option Number) : List Text :=
  (distance.map fun d => directive name (.real (d.toBinary64.mul (.ofRatio false 1 10)))).toList

/-- The statements about the whole drawing. -/
def directives (settings : Settings) : List Text :=
  directive? "bgcolor" (settings.text .background) ++
  directive? "fontcolor" (settings.text .textColour) ++
  ((filled? (settings.text .title)).map (titleStatement settings)).toList ++
  directive? "rankdir" (settings.text .direction) ++
  separation "ranksep" (settings.number .spacingAlong) ++
  separation "nodesep" (settings.number .spacingAcross)

/-- The statements about a box itself. -/
def boxAttributes (g : Graph) (indent : Text) (box : Box) : List Text :=
  let attributes : List (String × Value) := [
    ("label", if (Text.trim box.label).isEmpty then .null else .text box.label),
    ("style", .text (joinStyles box.style.styles)),
    ("color", .text ((filled? box.style.borderColour).getD "#cccccc")),
    ("penwidth", .ofInt? box.style.borderWidth),
    ("fillcolor", .ofText? box.style.fill),
    ("fontcolor",
      .ofText? ((filled? box.style.fontColour).orElse fun _ => g.settings.text .boxTextColour)),
    ("fontsize", .ofText? box.style.fontSize)]
  (attributes.filter fun a =>
    match a.2 with
    | .null => false
    | v => !(valueText v).isEmpty).map fun a => indent ++ assignment a.1 a.2 ++ ";"

/-- The statements of the nodes of a box. -/
def memberStatements (g : Graph) (indent : Text) (box : Box) : List Text :=
  (box.members.filterMap g.node?).map (nodeStatement g indent)

/-- Lines of a drawing, and the nodes that they draw in boxes. -/
structure Part where
  /-- The lines. -/
  lines : List Text := []
  /-- The nodes. -/
  boxed : List Text := []

/-- Parts one after the other. -/
def Part.join (parts : List Part) : Part := ⟨parts.flatMap (·.lines), parts.flatMap (·.boxed)⟩

/-- The block of a box with everything in it.  A box without content is drawn
too, so that nesting stays visible.  No more than the given number of levels are
drawn. -/
def boxPart (g : Graph) : (levels : Nat) → (indent : Text) → Box → Part
  | 0, _, _ => {}
  | levels + 1, indent, box =>
    let deeper := indent ++ "  "
    let inside := Part.join ((g.inside box).map (boxPart g levels deeper))
    { lines := [indent ++ "subgraph " ++ Box.idOf box.index ++ " \x7b"] ++
        boxAttributes g deeper box ++ memberStatements g deeper box ++
          inside.lines ++ [indent ++ "\x7d"]
      boxed := box.members ++ inside.boxed }

/-- The blocks of the boxes at the top.  There are no more levels than boxes. -/
def boxParts (g : Graph) : Part := Part.join (g.topBoxes.map (boxPart g g.boxes.length "  "))

/-- The statements of the nodes that are not drawn in boxes. -/
def freeNodes (g : Graph) (boxed : List Text) : List Text :=
  (g.nodes.filter fun n => !boxed.contains n.id).map (nodeStatement g "  ")

/-- The lines of the drawing of a graph. -/
def lines (g : Graph) (font : Text) : List Text :=
  let boxes := boxParts g
  "digraph G \x7b".toList :: defaults g.settings font ++ directives g.settings ++ boxes.lines ++
    freeNodes g boxes.boxed ++ g.edges.map edgeStatement ++ ["\x7d".toList]

/-- The drawing of a graph. -/
def render (g : Graph) (font : Text) : Text := Text.join "\n" (lines g font)

end LineDiagram.Dot
