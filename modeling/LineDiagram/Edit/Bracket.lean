import LineDiagram.Bracket
import LineDiagram.Colour.Basic
import LineDiagram.Edit.Patch
import LineDiagram.Line.Comment

/-!
# Editing the bracket of a node or a box

A managed attribute has a key and aliases of it.  Setting it changes the first
part that uses any of them, as it is spelled there, and drops the others; an
attribute that is missing is added at the end.  Parts that are not managed stay
as they are, in their order.
-/

namespace LineDiagram

/-- A size as it is written: two decimal places, and nothing for the size one or
a size that is none. -/
def writtenTextSize (v : Value) : Text :=
  let size :=
    match v with
    | .text t => Text.scale? t
    | v => v.binary64?
  match size with
  | some x =>
    let x := x.roundPlaces 2
    if x.le (.ofInt 0) || x.sameValue (.ofInt 1) then [] else x.compactText
  | none => []

/-- A colour as it is written. -/
def writtenColour (v : Value) : Text := Colour.sourceToken v.textUnlessNull

/-- A border as it is written: words that are colours in hexadecimal digits
become colour functions, and other number signs are escaped. -/
def writtenBorder (v : Value) : Text :=
  Comment.escape (Text.join " " ((Text.words v.textIfFilled).map Colour.sourceToken))

namespace Bracket

/-- Whether a part uses one of some keys. -/
def usesKey (aliases : List Text) (part : Text) : Bool := (key? part).any aliases.contains

/-- The parts with an attribute set; the empty value removes it. -/
def setKey (aliases : List Text) (key value : Text) (parts : List Text) : List Text :=
  let others := parts.filter fun p => !usesKey aliases p
  if value.isEmpty then others
  else
    match parts.findIdx? (usesKey aliases) with
    | some index =>
      let written := (writtenKey? (parts.getD index [])).getD key ++ "=" ++ value
      let (before, after) := (parts.take index, parts.drop (index + 1))
      before ++ written :: after.filter fun p => !usesKey aliases p
    | none => others ++ [key ++ "=" ++ value]

/-- The parts with an attribute set, removed, or left as it is. -/
def updateKey (aliases : List Text) (key : String) (value : Option Text) (parts : List Text) :
    List Text :=
  match value with
  | some value => setKey aliases key value parts
  | none => parts

/-- The keys of a border. -/
def borderKeys : List Text := ["border"]

/-- The keys of a shape. -/
def shapeKeys : List Text := ["shape"]

/-- Whether a part makes a node rounded. -/
def isRounded (part : Text) : Bool :=
  usesKey shapeKeys part && Text.lower (value part) == ("rounded" : Text)

/-- The parts of a rounded or not rounded node; other shapes stay. -/
def updateRounded (rounded : Field) (parts : List Text) : List Text :=
  match rounded with
  | none => parts
  | some v =>
    if v.isFilled then setKey shapeKeys "shape" "rounded" parts
    else parts.filter fun p => !isRounded p

end Bracket

/-- New values for the style of a node. -/
structure NodeStyleEdit where
  /-- Fill. -/
  fill : Field := none
  /-- Border. -/
  border : Field := none
  /-- Rounded or not. -/
  rounded : Field := none
  /-- Size of the label, relative. -/
  textSize : Field := none

/-- The inside of the bracket of a node after an edit. -/
def NodeStyleEdit.apply (edit : NodeStyleEdit) (inner : Text) : Text :=
  let parts := Bracket.splitParts inner
  let parts := Bracket.updateKey Bracket.fillKeys "colour" (edit.fill.toText? writtenColour) parts
  let parts :=
    Bracket.updateKey Bracket.borderKeys "border" (edit.border.toText? writtenBorder) parts
  let parts := Bracket.updateRounded edit.rounded parts
  let parts :=
    Bracket.updateKey Bracket.textSizeKeys "text size" (edit.textSize.toText? writtenTextSize) parts
  Bracket.joinParts parts

/-- New values for the style of a box. -/
structure BoxStyleEdit where
  /-- Fill. -/
  fill : Field := none
  /-- Border. -/
  border : Field := none
  /-- Colour of the label. -/
  textColour : Field := none
  /-- Size of the label, relative. -/
  textSize : Field := none

/-- The inside of the bracket of a box after an edit. -/
def BoxStyleEdit.apply (edit : BoxStyleEdit) (inner : Text) : Text :=
  let parts := Bracket.splitParts inner
  let parts := Bracket.updateKey Bracket.fillKeys "colour" (edit.fill.toText? writtenColour) parts
  let parts :=
    Bracket.updateKey Bracket.borderKeys "border" (edit.border.toText? writtenBorder) parts
  let parts :=
    Bracket.updateKey Bracket.textColourKeys "text colour"
      (edit.textColour.toText? writtenColour) parts
  let parts :=
    Bracket.updateKey Bracket.textSizeKeys "text size" (edit.textSize.toText? writtenTextSize) parts
  Bracket.joinParts parts

end LineDiagram
