import LineDiagram.Box.Scanner
import LineDiagram.Edit.Edge

/-!
# Looking at nodes, boxes and edges

An editor shows the style of a node, a box or an edge before it is changed.
Colours are shown in hexadecimal digits; what names no colour is shown as none.
-/

namespace LineDiagram

/-- A border as an editor shows it. -/
structure BorderView where
  /-- Width; zero when there is no border. -/
  width : Int
  /-- Line style. -/
  style : Text
  /-- Colour in hexadecimal digits. -/
  colour : Text
deriving DecidableEq, Repr

namespace BorderView

/-- The colour of a border without one. -/
def defaultColour : Text := "#999999"

/-- A border as an editor shows it. -/
def ofText (t : Text) : BorderView :=
  let t := Text.trim t
  if t.isEmpty then ⟨0, "solid", defaultColour⟩
  else
    let border := Border.ofPart t
    { width := border.width.getD 1
      style := border.style.getD "solid"
      colour := (Colour.resolveHex? (border.colour.getD [])).getD defaultColour }

/-- The colour that an editor gave, or the default one. -/
def colourOf (colour : Text) : Rgb :=
  ((Colour.ofHex? colour).orElse fun _ => Colour.resolve? colour).getD ⟨0x99, 0x99, 0x99⟩

/-- A border as it is written in the source; nothing for a width that is no
number above zero. -/
def write (width : Value) (style colour : Text) : Except RoundingFault Text :=
  match width.binary64? with
  | none => .ok []
  | some w =>
    if w.le (.ofInt 0) then .ok []
    else
      let style := Text.lower (Text.trim (if style.isEmpty then "solid".toList else style))
      let style := if Border.lineStyles.contains style then style else "solid"
      match w.roundHalfUp with
      | .ok n => .ok (Text.ofInt n ++ "px " ++ style ++ " " ++ Colour.rgbText (colourOf colour))
      | .error e => .error e

/-- The view as a record. -/
def toValue (b : BorderView) : Value := .ofFields [
  ("width", .whole b.width), ("style", .text b.style), ("colour_hex", .text b.colour)]

end BorderView

/-- The style of a node as an editor shows it. -/
structure NodeStyleView where
  /-- Fill. -/
  fill : Option Text
  /-- Border. -/
  border : Option BorderView
  /-- Whether the node is rounded. -/
  rounded : Bool
  /-- Size of the label, relative. -/
  textSize : Option Binary64

/-- The border that a bracket gives, as an editor shows it. -/
def Bracket.borderView? (b : Bracket) : Option BorderView :=
  let border := b.get "border"
  if border.isEmpty then none else some (.ofText border)

/-- The style in a bracket; an empty bracket has none. -/
def NodeStyleView.ofInner (inner : Text) : Option NodeStyleView :=
  if (Text.trim inner).isEmpty then none
  else
    let bracket := Bracket.ofText inner
    some {
      fill := Colour.resolveHex? (bracket.first Bracket.fillKeys)
      border := bracket.borderView?
      rounded := Text.lower (Text.trim (bracket.get "shape")) == ("rounded" : Text)
      textSize := Text.scale? (bracket.first Bracket.textSizeKeys) }

/-- The view as a record. -/
def NodeStyleView.toValue (v : NodeStyleView) : Value := .ofFields [
  ("fill_hex", .ofText? v.fill),
  ("border", (v.border.map BorderView.toValue).getD .null),
  ("rounded", .flag v.rounded),
  ("text_size", .ofBinary64? v.textSize)]

/-- The style of a box as an editor shows it. -/
structure BoxStyleView where
  /-- Fill. -/
  fill : Option Text
  /-- Border. -/
  border : Option BorderView
  /-- Colour of the label. -/
  textColour : Option Text
  /-- Size of the label, relative. -/
  textSize : Option Binary64

/-- The style in a bracket; an empty bracket has none. -/
def BoxStyleView.ofInner (inner : Text) : Option BoxStyleView :=
  if (Text.trim inner).isEmpty then none
  else
    let bracket := Bracket.ofText inner
    some {
      fill := Colour.resolveHex? (bracket.first Bracket.fillKeys)
      border := bracket.borderView?
      textColour := Colour.resolveHex? (bracket.first Bracket.textColourKeys)
      textSize := Text.scale? (bracket.first Bracket.textSizeKeys) }

/-- The view as a record. -/
def BoxStyleView.toValue (v : BoxStyleView) : Value := .ofFields [
  ("fill_hex", .ofText? v.fill),
  ("border", (v.border.map BorderView.toValue).getD .null),
  ("text_colour_hex", .ofText? v.textColour),
  ("text_size", .ofBinary64? v.textSize)]

/-- A node as an editor shows it. -/
structure NodeView where
  /-- Identifier. -/
  id : Text
  /-- Position of its definition. -/
  lineIndex : Nat
  /-- Label. -/
  label : Text
  /-- Inside of its bracket. -/
  inner : Text
  /-- Comment of its definition. -/
  comment : Text

/-- Looks at a node; one without a definition cannot be seen. -/
def NodeView.find? (lines : List Text) (id : Text) : Option NodeView := do
  let index ← findDefinition? lines id
  let line := Line.ofText (lines.getD index [])
  match line.content with
  | .node _ label bracket => some ⟨id, index, label, bracket.getD [], line.comment⟩
  | _ => none

/-- The view as a record. -/
def NodeView.toValue (v : NodeView) : Value := .ofFields [
  ("node_id", .text v.id),
  ("line_index", .ofNat v.lineIndex),
  ("label", .text v.label),
  ("style_inner", .text v.inner),
  ("style", ((NodeStyleView.ofInner v.inner).map NodeStyleView.toValue).getD .null),
  ("comment", .text v.comment)]

/-- An opener as an editor shows its box. -/
def Box.Opener.viewValue (o : Box.Opener) : Value := .ofFields [
  ("cluster_id", .text (Box.idOf o.index)),
  ("line_index", .ofNat o.lineIndex),
  ("close_line_index", .ofNat? o.closeLine),
  ("depth", .ofNat o.depth),
  ("label", .text o.label),
  ("style_inner", .text o.inner),
  ("style", ((BoxStyleView.ofInner o.inner).map BoxStyleView.toValue).getD .null),
  ("comment", .text o.comment)]

/-- An edge line as an editor shows it. -/
structure EdgeView where
  /-- Position of the line. -/
  lineIndex : Nat
  /-- Sources as they are written. -/
  sources : List Text
  /-- Targets as they are written. -/
  targets : List Text
  /-- Label. -/
  label : Text
  /-- Border. -/
  border : Text
  /-- Keyed parts that are neither label nor border. -/
  keptKeyed : Table
  /-- Loose parts that are neither label nor border. -/
  keptLoose : List Text
  /-- Comment. -/
  comment : Text

/-- Looks at an edge line. -/
def EdgeView.find? (lines : List Text) (line : LineRef) : Option EdgeView := do
  let index ← line.edgeIndex? lines
  let raw := lines.getD index []
  let parts := LineParts.ofText raw
  let layout := EdgeLayout.ofInner (parts.inner.getD [])
  let (sources, targets) := edgeSides raw
  let kept := layout.otherParts
  let keyed := kept.filter fun p => (Bracket.key? p).any fun key => !key.isEmpty
  some {
    lineIndex := index, sources, targets
    label := layout.labelText
    border := layout.borderText
    keptKeyed := keyed.foldl (fun t p => t.set ((Bracket.key? p).getD []) (Bracket.value p)) []
    keptLoose := kept.filter fun p => (Bracket.key? p).isNone
    comment := parts.comment }

/-- The view as a record. -/
def EdgeView.toValue (v : EdgeView) : Value := .ofFields [
  ("line_number", .ofNat (v.lineIndex + 1)),
  ("line_index", .ofNat v.lineIndex),
  ("sources", .ofTexts v.sources),
  ("targets", .ofTexts v.targets),
  ("label", .text v.label),
  ("border", .text v.border),
  ("border_ui", if v.border.isEmpty then .null else (BorderView.ofText v.border).toValue),
  ("kept_kv", .ofTable v.keptKeyed),
  ("kept_loose", .ofTexts v.keptLoose),
  ("comment", .text v.comment)]

/-- The default style of nodes as an editor shows it. -/
def Settings.nodeDefaults (settings : Settings) : Value :=
  let colour := (settings.text .nodeColour).getD []
  let border := Text.trim ((settings.text .nodeBorder).getD [])
  .ofFields [
    ("fill_hex", .text ((Colour.resolveHex? colour).getD "#ffffff")),
    ("border", (BorderView.ofText border).toValue),
    ("rounded", .flag (settings.text .nodeShape == some ("rounded" : Text))),
    ("has_fill_default", .flag (!colour.isEmpty)),
    ("has_border_default", .flag (!border.isEmpty))]

/-- The default border of edges. -/
def Settings.edgeDefault (settings : Settings) : Except RoundingFault Text :=
  let width := ((settings.number .linkWidth).map Number.toBinary64).filter Binary64.isPositive
  let style := ((settings.text .linkStyle).filter Border.lineStyles.contains).getD "solid"
  let colour := Text.trim ((settings.text .linkColour).getD [])
  let colour := if colour.isEmpty then "rgb(108,117,125)".toList else colour
  match (width.getD (.ofInt 1)).roundHalfUp with
  | .ok n => .ok (Text.ofInt n ++ "px " ++ style ++ " " ++ colour)
  | .error e => .error e

end LineDiagram
