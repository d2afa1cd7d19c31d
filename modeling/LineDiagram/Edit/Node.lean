import LineDiagram.Edit.Bracket
import LineDiagram.Line.Locate
import LineDiagram.Line.Parts

/-!
# Editing a node

A node is edited on the first line that defines it; no other line changes.
-/

namespace LineDiagram.Edit

/-- Changes the style of a node. -/
def setNodeStyle (lines : List Text) (id : Text) (edit : NodeStyleEdit) : Outcome :=
  match findDefinition? lines id with
  | none => .refuse lines .setNodeStyle id (.noDefinition id)
  | some index =>
    match Field.firstBroken? [("fill", edit.fill), ("border", edit.border)] with
    | some name => .refuse lines .setNodeStyle id (.badField name)
    | none =>
      let parts := LineParts.ofText (lines.getD index [])
      let line := parts.assemble (edit.apply (parts.inner.getD []))
      .replaceLine lines index line .setNodeStyle id (Field.changes [
        ("fill", edit.fill), ("border", edit.border), ("rounded", edit.rounded),
        ("text_size", edit.textSize)])

/-- Changes the label of a node; the empty label stands for the identifier. -/
def setNodeLabel (lines : List Text) (id label : Text) : Outcome :=
  match findDefinition? lines id with
  | none => .refuse lines .setNodeLabel id (.noDefinition id)
  | some index =>
    let label := Comment.escape (Text.trim label)
    let label := if label.isEmpty then id else label
    if label.any Text.isBracketBreaker then .refuse lines .setNodeLabel id .badLabel
    else
      let parts := LineParts.ofText (lines.getD index [])
      match definitionHead? parts.before with
      | none => .refuse lines .setNodeLabel id .noColons
      | some head =>
        let line := parts.assemble parts.inner (some (parts.spaced (head ++ label)))
        .replaceLine lines index line .setNodeLabel id ["set label=" ++ label]

end LineDiagram.Edit
