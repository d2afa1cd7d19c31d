import LineDiagram.Box.Scanner
import LineDiagram.Edit.Bracket
import LineDiagram.Line.Parts

/-!
# Editing a box

A box is edited on the marker that opens it.  An edit that would turn a marker
into one of another kind, and so move the numbers of boxes, is refused.
-/

namespace LineDiagram.Edit

/-- The openers as pairs of number and position. -/
def openerPlaces (lines : List Text) : List (Nat × Nat) :=
  (Box.openers lines).map fun o => (o.index, o.lineIndex)

/-- Replaces the marker that opens a box, unless that changes which lines open
boxes. -/
def replaceOpener (lines : List Text) (id : Text) (action : Action) (newLine : Box.Opener → Text)
    (changes : List Text) : Outcome :=
  match Box.find? lines id with
  | none => .refuse lines action id (.noOpener id)
  | some opener =>
    let line := newLine opener
    if openerPlaces (lines.set opener.lineIndex line) == openerPlaces lines then
      .replaceLine lines opener.lineIndex line action id changes
    else .refuse lines action id .changesBoxes

/-- Changes the style of a box. -/
def setBoxStyle (lines : List Text) (id : Text) (edit : BoxStyleEdit) : Outcome :=
  match Field.firstBroken?
      [("fill", edit.fill), ("border", edit.border), ("text_colour", edit.textColour)] with
  | some name => .refuse lines .setBoxStyle id (.badField name)
  | none =>
    let newLine := fun (opener : Box.Opener) =>
      let parts := LineParts.ofText (lines.getD opener.lineIndex [])
      parts.assemble (edit.apply (parts.inner.getD []))
    replaceOpener lines id .setBoxStyle newLine (Field.changes [
      ("fill", edit.fill), ("border", edit.border), ("text_colour", edit.textColour),
      ("text_size", edit.textSize)])

/-- Changes the label of a box. -/
def setBoxLabel (lines : List Text) (id label : Text) : Outcome :=
  let label := Comment.escape (Text.trim label)
  if label.any Text.isBracketBreaker then .refuse lines .setBoxLabel id .badLabel
  else
    let newLine := fun (opener : Box.Opener) =>
      let raw := lines.getD opener.lineIndex []
      let parts := LineParts.ofText raw
      let before := Text.margin raw ++ List.replicate opener.depth '-' ++ label
      parts.assemble parts.inner (some (parts.spaced before))
    replaceOpener lines id .setBoxLabel newLine ["set label=" ++ label]

end LineDiagram.Edit
