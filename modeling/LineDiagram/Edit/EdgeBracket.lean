import LineDiagram.Border
import LineDiagram.Edit.Bracket

/-!
# Editing the bracket of an edge

In the bracket of an edge, label and border may be keyed or loose.  The layout
of a bracket says which parts are read as label and border, in the way the graph
reads them, and which earlier keyed parts are hidden by a later one.  An edit
changes those parts and no others.
-/

namespace LineDiagram

/-- Which parts of the bracket of an edge are its label and its border. -/
structure EdgeLayout where
  /-- All parts. -/
  parts : List Text
  /-- Position of the label. -/
  label : Option Nat := none
  /-- Positions of the parts of the border. -/
  border : List Nat := []
  /-- Positions of keyed labels that do not count. -/
  hiddenLabels : List Nat := []
  /-- Positions of keyed borders that do not count. -/
  hiddenBorders : List Nat := []
deriving DecidableEq, Repr

namespace EdgeLayout

/-- The position of the part with a key that counts, which is the last unless
that is empty, and the positions of the others. -/
def lastKeyed (parts : List Text) (key : String) : Option Nat × List Nat :=
  let indexes := (List.range parts.length).filter fun i =>
    Bracket.key? (parts.getD i []) == some key.toList
  match indexes.getLast? with
  | none => (none, [])
  | some last =>
    if (Bracket.value (parts.getD last [])).isEmpty then (none, indexes)
    else (some last, indexes.dropLast)

/-- The layout of the inside of a bracket. -/
def ofInner (inner : Text) : EdgeLayout :=
  let parts := Bracket.splitParts inner
  let (label, hiddenLabels) := lastKeyed parts "label"
  let (border, hiddenBorders) := lastKeyed parts "border"
  let loose := (List.range parts.length).filter fun i => (Bracket.key? (parts.getD i [])).isNone
  let isBorder := fun i => Border.isPart (parts.getD i [])
  let (label, loose) :=
    match label, loose with
    | none, first :: rest => if isBorder first then (none, loose) else (some first, rest)
    | _, _ => (label, loose)
  let border :=
    match border with
    | some i => [i]
    | none => loose.filter isBorder
  { parts, label, border, hiddenLabels, hiddenBorders }

/-- What a part says: its value when it is keyed. -/
def partText (part : Text) : Text :=
  match Bracket.key? part with
  | some (_ :: _) => Bracket.value part
  | _ => part

/-- The label. -/
def labelText (layout : EdgeLayout) : Text :=
  match layout.label with
  | some i => partText (layout.parts.getD i [])
  | none => []

/-- The border. -/
def borderText (layout : EdgeLayout) : Text :=
  Text.join " " (layout.border.map fun i => partText (layout.parts.getD i []))

/-- Whether the part at a position is label or border, counting or not. -/
def isManaged (layout : EdgeLayout) (i : Nat) : Bool :=
  layout.border.contains i || layout.hiddenLabels.contains i || layout.hiddenBorders.contains i ||
    layout.label == some i

/-- The parts that are neither label nor border. -/
def otherParts (layout : EdgeLayout) : List Text :=
  ((List.range layout.parts.length).filter fun i => !layout.isManaged i).map fun i =>
    layout.parts.getD i []

/-- A label as a part; one that would not be read as a label is keyed. -/
def labelPart (label : Text) (key : Option Text) : Text :=
  match key with
  | some key => key ++ "=" ++ label
  | none =>
    if label.contains '=' || Border.isPart label then "label=" ++ label else label

/-- A border as a part; one that would not be read as a border is keyed. -/
def borderPart (border : Text) (key : Option Text) : Text :=
  match key with
  | some key => key ++ "=" ++ border
  | none => if Border.isPart border then border else "border=" ++ border

/-- The part at a position after the border was changed. -/
def withBorder (layout : EdgeLayout) (border : Text) (i : Nat) (part : Text) : Text :=
  if layout.hiddenBorders.contains i then []
  else if layout.border.head? == some i then
    if border.isEmpty then [] else borderPart border (Bracket.writtenKey? part)
  else if layout.border.contains i then []
  else part

/-- The part at a position after the label was changed. -/
def withLabel (layout : EdgeLayout) (label : Text) (i : Nat) (part : Text) : Text :=
  if layout.hiddenLabels.contains i then []
  else if layout.label == some i then
    if label.isEmpty then [] else labelPart label (Bracket.writtenKey? part)
  else part

/-- The inside of the bracket with another label and border.  The empty text
removes one of them, and `none` leaves it as it is.  A new label comes first, a
new border last. -/
def update (layout : EdgeLayout) (label border : Option Text) : Text :=
  let changed := layout.parts.mapIdx fun i part =>
    let part :=
      match border with
      | some border => layout.withBorder border i part
      | none => part
    match label with
    | some label => layout.withLabel label i part
    | none => part
  let newLabel :=
    match label with
    | some label =>
      if layout.label.isNone && !label.isEmpty then [labelPart label none] else []
    | none => []
  let newBorder :=
    match border with
    | some border =>
      if layout.border.isEmpty && !border.isEmpty then [borderPart border none] else []
    | none => []
  Bracket.joinParts (newLabel ++ (changed.filter fun p => !p.isEmpty) ++ newBorder)

end EdgeLayout

/-- New values for an edge. -/
structure EdgeEdit where
  /-- Label. -/
  label : Field := none
  /-- Border. -/
  border : Field := none

/-- The inside of the bracket of an edge after an edit. -/
def EdgeEdit.apply (edit : EdgeEdit) (inner : Text) : Text :=
  (EdgeLayout.ofInner inner).update
    (edit.label.map fun v => Comment.escape (Text.trim v.textIfFilled))
    (edit.border.map writtenBorder)

end LineDiagram
