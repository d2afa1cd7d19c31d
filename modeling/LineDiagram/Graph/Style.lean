import LineDiagram.Border
import LineDiagram.Bracket
import LineDiagram.Label
import LineDiagram.Settings.Basic

/-!
# Styles

The style of a node, an edge or a box is read from its bracket.  Besides
colours, widths and sizes, each has a list of style words without repeats, and
the keys of the bracket that mean nothing here are kept as they are written.

The settings have defaults for nodes.  Applying them a second time changes
nothing, and what a bracket says wins.
-/

namespace LineDiagram

/-- Adds a style word, unless it is blank or there already. -/
def addStyle (styles : List Text) (word : Option Text) : List Text :=
  let word := Text.trim (word.getD [])
  if word.isEmpty || styles.contains word then styles else styles ++ [word]

/-- The style words with commas between them. -/
def joinStyles (styles : List Text) : Text := Text.join "," styles

/-- A text that is set and not empty. -/
def filled? (t : Option Text) : Option Text := t.filter fun t => !t.isEmpty

/-- Size of node and box labels at scale one. -/
def baseFontSize : Binary64 := .ofInt 14

/-- The font size that a scale stands for, with one decimal place. -/
def scaledFontSize? (scale : Text) : Option Text :=
  match Text.scale? scale with
  | some x => if x.sameValue (.ofInt 0) then none else some ((baseFontSize.mul x).fixed 1)
  | none => none

/-- The style of a node. -/
structure NodeStyle where
  /-- Style words. -/
  styles : List Text := []
  /-- Keys that mean nothing here. -/
  extras : Table := []
  /-- Fill. -/
  fill : Option Text := none
  /-- Colour of the border. -/
  borderColour : Option Text := none
  /-- Width of the border. -/
  borderWidth : Option Int := none
  /-- Size of the label. -/
  fontSize : Option Text := none
deriving DecidableEq, Repr

namespace NodeStyle

/-- Lays one style over another: whatever the second one sets wins. -/
def merge (style other : NodeStyle) : NodeStyle where
  styles := if other.styles.isEmpty then style.styles else other.styles
  extras := style.extras.update other.extras
  fill := other.fill.orElse fun _ => style.fill
  borderColour := other.borderColour.orElse fun _ => style.borderColour
  borderWidth := other.borderWidth.orElse fun _ => style.borderWidth
  fontSize := other.fontSize.orElse fun _ => style.fontSize

/-- Adds a style word. -/
def addStyle (style : NodeStyle) (word : Option Text) : NodeStyle :=
  { style with styles := LineDiagram.addStyle style.styles word }

/-- Fills the node. -/
def setFill (style : NodeStyle) (colour : Text) : NodeStyle :=
  { style with fill := some (Colour.normalize colour) }.addStyle (some "filled")

/-- Draws a border; what it does not set stays. -/
def setBorder (style : NodeStyle) (border : Border) : NodeStyle :=
  { style with
    borderColour := (filled? border.colour).orElse fun _ => style.borderColour
    borderWidth := border.width.orElse fun _ => style.borderWidth }.addStyle border.style

/-- Draws the default border where the node has none of its own. -/
def addDefaultBorder (style : NodeStyle) (border : Border) : NodeStyle :=
  { style with
    borderColour :=
      if (filled? style.borderColour).isNone then
        (filled? border.colour).orElse fun _ => style.borderColour
      else style.borderColour
    borderWidth := style.borderWidth.orElse fun _ => border.width }.addStyle border.style

/-- Applies the defaults of the settings; what the style sets itself stays. -/
def applyDefaults (settings : Settings) (style : NodeStyle) : NodeStyle :=
  let style :=
    match filled? (settings.text .nodeColour) with
    | some colour =>
      { style with
        fill := if (filled? style.fill).isNone then some colour else style.fill }.addStyle
          (some "filled")
    | none => style
  let style :=
    if settings.text .nodeShape == some ("rounded" : Text) then style.addStyle (some "rounded")
    else style
  match filled? (settings.text .nodeBorder) with
  | some border => style.addDefaultBorder (.ofText border)
  | none => style

/-- The keys that a node bracket gives a meaning. -/
def managedKeys : List Text :=
  Bracket.fillKeys ++ Bracket.textSizeKeys ++ ["shape".toList, "border".toList]

/-- Lays what a bracket says over a style. -/
def applyBracket (style : NodeStyle) (bracket : Bracket) : NodeStyle :=
  let colour := bracket.first ["colour", "color"]
  let style := if colour.isEmpty then style else style.setFill colour
  let background := bracket.get "background"
  let style := if background.isEmpty then style else style.setFill background
  let style :=
    if Text.lower (Text.trim (bracket.get "shape")) == ("rounded" : Text) then
      style.addStyle (some "rounded")
    else style
  let border := bracket.get "border"
  let style := if border.isEmpty then style else style.setBorder (.ofText border)
  { style with
    fontSize :=
      (scaledFontSize? (bracket.first Bracket.textSizeKeys)).orElse fun _ => style.fontSize
    extras := bracket.keyed.without managedKeys }

end NodeStyle

/-- The style of an edge. -/
structure EdgeStyle where
  /-- Style words. -/
  styles : List Text := []
  /-- Keys that mean nothing here. -/
  extras : Table := []
  /-- Label. -/
  label : Option Text := none
  /-- Colour. -/
  colour : Option Text := none
  /-- Line width. -/
  width : Option Int := none
  /-- Font of the label. -/
  font : Option Text := none
  /-- Size of the label. -/
  fontSize : Option Binary64 := none
deriving DecidableEq, Repr

namespace EdgeStyle

/-- Draws the line as a border says; what it does not set stays. -/
def setBorder (style : EdgeStyle) (border : Border) : EdgeStyle :=
  { style with
    colour := border.colour.orElse fun _ => style.colour
    width := border.width.orElse fun _ => style.width
    styles := addStyle style.styles border.style }

/-- The keys that an edge bracket gives a meaning. -/
def managedKeys : List Text :=
  Bracket.labelStyleKeys ++ Bracket.labelSizeKeys ++ ["label".toList, "border".toList]

/-- The label among loose parts, which is the first of them unless that is part
of a border, and the other parts. -/
def splitLooseLabel : List Text → Option Text × List Text
  | [] => (none, [])
  | part :: rest => if Border.isPart part then (none, part :: rest) else (some part, rest)

/-- What the bracket of an edge says.  A keyed label or border wins over a loose
one; a label style is a variant of the given font. -/
def ofBracket (font : Text) (bracket : Bracket) : EdgeStyle :=
  let label := bracket.get "label"
  let border := bracket.get "border"
  let (loose, borderParts) :=
    if label.isEmpty then splitLooseLabel bracket.loose else (some label, bracket.loose)
  let style : EdgeStyle := { label := loose }
  let style :=
    if border.isEmpty then style.setBorder (.ofParts borderParts)
    else style.setBorder (.ofPart border)
  let labelStyle := bracket.first Bracket.labelStyleKeys
  { style with
    font := if labelStyle.isEmpty then none else some (Label.styledFont font labelStyle)
    fontSize :=
      (Text.leadingNumber? (bracket.first Bracket.labelSizeKeys)).filter Binary64.isPositive
    extras := bracket.keyed.without managedKeys }

end EdgeStyle

/-- The style of a box. -/
structure BoxStyle where
  /-- Style words. -/
  styles : List Text := []
  /-- Keys that mean nothing here. -/
  extras : Table := []
  /-- Fill. -/
  fill : Option Text := none
  /-- Colour of the border. -/
  borderColour : Option Text := none
  /-- Width of the border. -/
  borderWidth : Option Int := none
  /-- Colour of the label. -/
  fontColour : Option Text := none
  /-- Size of the label. -/
  fontSize : Option Text := none
deriving DecidableEq, Repr

namespace BoxStyle

/-- Adds a style word. -/
def addStyle (style : BoxStyle) (word : Option Text) : BoxStyle :=
  { style with styles := LineDiagram.addStyle style.styles word }

/-- Draws a border; what it does not set stays. -/
def setBorder (style : BoxStyle) (border : Border) : BoxStyle :=
  { style with
    borderColour := (filled? border.colour).orElse fun _ => style.borderColour
    borderWidth := border.width.orElse fun _ => style.borderWidth }.addStyle border.style

/-- The keys that a box bracket gives a meaning. -/
def managedKeys : List Text :=
  Bracket.fillKeys ++ Bracket.textColourKeys ++ Bracket.textSizeKeys ++ ["border".toList]

/-- What the bracket of a box says; every box is rounded. -/
def ofInner (inner : Text) : BoxStyle :=
  let bracket := Bracket.ofText inner
  let style : BoxStyle := BoxStyle.addStyle {} (some "rounded")
  let fill := bracket.first Bracket.fillKeys
  let style :=
    if fill.isEmpty then style
    else { style with fill := some (Colour.normalize fill) }.addStyle (some "filled")
  let border := bracket.get "border"
  let style := if border.isEmpty then style else style.setBorder (.ofText border)
  let textColour := bracket.first Bracket.textColourKeys
  { style with
    fontColour := if textColour.isEmpty then none else some (Colour.normalize textColour)
    fontSize := scaledFontSize? (bracket.first Bracket.textSizeKeys)
    extras := bracket.keyed.without managedKeys }

end BoxStyle

end LineDiagram
