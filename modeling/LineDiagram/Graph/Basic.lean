import LineDiagram.Box.Scanner
import LineDiagram.Graph.Style

/-!
# Graphs

A graph has nodes in the order in which they are first mentioned, edges in the
order of the source and boxes in opening order.  A box knows the number of the
box around it.  It also has a list of its own of the boxes directly in it, to
which each of them is added when it is opened.
-/

namespace LineDiagram

/-- A node. -/
structure Node where
  /-- Identifier. -/
  id : Text
  /-- Label. -/
  label : Text
  /-- Style. -/
  style : NodeStyle := {}
deriving DecidableEq, Repr

/-- An edge. -/
structure Edge where
  /-- Identifier of the node it starts at. -/
  source : Text
  /-- Identifier of the node it ends at. -/
  target : Text
  /-- Line of the source, from one. -/
  line : Nat
  /-- Style. -/
  style : EdgeStyle := {}
deriving DecidableEq, Repr

/-- A box around nodes and other boxes. -/
structure Box where
  /-- Number, in opening order. -/
  index : Nat
  /-- Label. -/
  label : Text
  /-- Number of dashes of its marker. -/
  depth : Nat
  /-- Inside of the bracket of its marker. -/
  inner : Text
  /-- Line of the marker, from one. -/
  line : Nat
  /-- The box around it. -/
  parent : Option Nat
  /-- Style. -/
  style : BoxStyle
  /-- Identifiers of the nodes defined directly in it. -/
  members : List Text := []
  /-- Numbers of the boxes opened directly in it, in order. -/
  children : List Nat := []
deriving DecidableEq, Repr

/-- The box of an opener. -/
def Box.ofOpener (o : Box.Opener) : Box :=
  { index := o.index, label := o.label, depth := o.depth, inner := o.inner
    line := o.lineIndex + 1, parent := o.parent, style := .ofInner o.inner }

/-- Adds a node to a box, unless it is there already. -/
def Box.addMember (box : Box) (id : Text) : Box :=
  if box.members.contains id then box else { box with members := box.members ++ [id] }

/-- Adds the number of a box that was opened in a box. -/
def Box.addChild (box : Box) (index : Nat) : Box := { box with children := box.children ++ [index] }

/-- A diagram as a graph. -/
structure Graph where
  /-- Settings. -/
  settings : Settings := {}
  /-- Nodes in the order of first mention. -/
  nodes : List Node := []
  /-- Edges in the order of the source. -/
  edges : List Edge := []
  /-- Boxes in opening order. -/
  boxes : List Box := []

namespace Graph

/-- The node with an identifier. -/
def node? (g : Graph) (id : Text) : Option Node := g.nodes.find? (·.id == id)

/-- Changes the node with an identifier. -/
def modifyNode (g : Graph) (id : Text) (f : Node → Node) : Graph :=
  { g with nodes := g.nodes.map fun n => if n.id == id then f n else n }

/-- Mentions a node by a token.  A node that is new gets the token as its label;
a token that is not an identifier becomes the label in any case. -/
def mention (g : Graph) (token : Text) : Graph :=
  let token := Text.trim token
  let id := Identifier.ofToken token
  if (g.node? id).isNone then { g with nodes := g.nodes ++ [{ id, label := token }] }
  else if Identifier.isBare token then g
  else g.modifyNode id fun n => { n with label := token }

/-- The box with a number. -/
def box? (g : Graph) (index : Nat) : Option Box := g.boxes.find? (·.index == index)

/-- Changes the box with a number. -/
def modifyBox (g : Graph) (index : Nat) (f : Box → Box) : Graph :=
  { g with boxes := g.boxes.map fun b => if b.index == index then f b else b }

/-- Adds a box, and its number to the box around it. -/
def addBox (g : Graph) (box : Box) : Graph :=
  let g := { g with boxes := g.boxes ++ [box] }
  match box.parent with
  | some index => g.modifyBox index (·.addChild box.index)
  | none => g

/-- The boxes directly in a box, in the order of its list. -/
def inside (g : Graph) (box : Box) : List Box := box.children.filterMap g.box?

/-- The boxes at the top: those of depth two, wherever they were opened. -/
def topBoxes (g : Graph) : List Box := g.boxes.filter (·.depth == 2)

end Graph

end LineDiagram
