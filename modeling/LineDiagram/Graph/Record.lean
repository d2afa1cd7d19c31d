import LineDiagram.Graph.Basic

/-!
# Graphs as records

A graph as a value with named fields, for those who want to look at it rather
than draw it.
-/

namespace LineDiagram

/-- The style of a node as a record. -/
def NodeStyle.toValue (s : NodeStyle) : Value := .ofFields [
  ("styles", .ofTexts s.styles),
  ("extras", .ofTable s.extras),
  ("fill_color", .ofText? s.fill),
  ("border_color", .ofText? s.borderColour),
  ("border_width", .ofInt? s.borderWidth),
  ("font_size", .ofText? s.fontSize)]

/-- The style of a node as attributes of a drawing. -/
def NodeStyle.toAttributes (s : NodeStyle) : Value := .ofFields [
  ("fillcolor", .ofText? s.fill),
  ("style", .text (joinStyles s.styles)),
  ("color", .ofText? s.borderColour),
  ("penwidth", .ofInt? s.borderWidth),
  ("fontsize", .ofText? s.fontSize)]

/-- The style of an edge as a record. -/
def EdgeStyle.toValue (s : EdgeStyle) : Value := .ofFields [
  ("styles", .ofTexts s.styles),
  ("extras", .ofTable s.extras),
  ("label", .ofText? s.label),
  ("color", .ofText? s.colour),
  ("pen_width", .ofInt? s.width),
  ("font_name", .ofText? s.font),
  ("font_size", .ofBinary64? s.fontSize)]

/-- The style of a box as a record. -/
def BoxStyle.toValue (s : BoxStyle) : Value := .ofFields [
  ("styles", .ofTexts s.styles),
  ("extras", .ofTable s.extras),
  ("fill_color", .ofText? s.fill),
  ("border_color", .ofText? s.borderColour),
  ("border_width", .ofInt? s.borderWidth),
  ("font_color", .ofText? s.fontColour),
  ("font_size", .ofText? s.fontSize)]

/-- A node as a record. -/
def Node.toValue (n : Node) : Value := .ofFields [
  ("id", .text n.id), ("label", .text n.label), ("attrs", n.style.toValue)]

/-- An edge as a record. -/
def Edge.toValue (e : Edge) : Value := .ofFields [
  ("from_id", .text e.source), ("to_id", .text e.target), ("source_line", .ofNat e.line),
  ("attrs", e.style.toValue)]

/-- A box as a record. -/
def Box.toValue (b : Box) : Value := .ofFields [
  ("id", .text (Box.idOf b.index)),
  ("label", .text b.label),
  ("depth", .ofNat b.depth),
  ("source_line", .ofNat b.line),
  ("style_inner", .text b.inner),
  ("attrs", b.style.toValue),
  ("node_ids", .ofTexts b.members),
  ("children", .ofTexts (b.children.map Box.idOf))]

/-- A graph as a record. -/
def Graph.toValue (g : Graph) : Value := .ofFields [
  ("nodes", .list (g.nodes.map Node.toValue)),
  ("edges", .list (g.edges.map Edge.toValue)),
  ("clusters", .list (g.boxes.map Box.toValue))]

end LineDiagram
