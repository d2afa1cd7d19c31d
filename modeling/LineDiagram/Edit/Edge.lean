import LineDiagram.Edit.EdgeBracket
import LineDiagram.Line.Locate
import LineDiagram.Line.Parts

/-!
# Editing an edge

An edge is edited on its line, which is given by its number.  The ends stay as
they are written unless one of them is replaced.
-/

namespace LineDiagram

/-- The tokens of one side of an edge as they are written, arrow signs
included. -/
def writtenEndpoints (side : Text) : List Text := Text.parts '|' side

/-- Whether a written token stands for a node. -/
def isTokenOf (id token : Text) : Bool :=
  token == id || Identifier.ofToken (token.filter (· != '→')) == id

/-- The two sides of an edge line. -/
def edgeSides (raw : Text) : List Text × List Text :=
  match Line.contentOfRaw raw with
  | .edge sources targets _ => (writtenEndpoints sources, writtenEndpoints targets)
  | _ => ([], [])

/-- The two sides of an edge line written out after the margin of a raw line. -/
def writeSides (raw : Text) (sources targets : List Text) : Text :=
  Text.margin raw ++ Text.join " | " sources ++ " -> " ++ Text.join " | " targets

/-- The token to write for a node: its label when the identifier is made of
that, or its identifier. -/
def tokenFor (id : Text) (labels : Table) : Text :=
  let id := Text.trim id
  let label := Text.trim (labels.get id)
  if !label.isEmpty && !Identifier.isBare label && Identifier.ofToken label == id then label else id

/-- Replaces the first token of a node. -/
def replaceEndpoint? (id new : Text) : List Text → Option (List Text)
  | [] => none
  | token :: rest =>
    if isTokenOf id token then some (new :: rest)
    else (replaceEndpoint? id new rest).map (token :: ·)

namespace Edit

/-- The ends of an edge to replace. -/
structure Endpoints where
  /-- The source to replace and the new one. -/
  source : Option (Text × Text) := none
  /-- The target to replace and the new one. -/
  target : Option (Text × Text) := none
  /-- Labels of nodes, by identifier. -/
  labels : Table := []

/-- One side of an edge after an end of it was replaced, and the change in
words. -/
def replaceSide (line : LineRef) (labels : Table) (side : String) (change : Option (Text × Text))
    (tokens : List Text) : Except Refusal (List Text × List Text) :=
  match change with
  | none => .ok (tokens, [])
  | some (old, new) =>
    let token := tokenFor new labels
    match replaceEndpoint? old token tokens with
    | some tokens => .ok (tokens, [side.toList ++ " " ++ old ++ " -> " ++ token])
    | none => .error (.noEndpoint side old line.written)

/-- What stands before the bracket of an edge after its ends were replaced, and
the changes in words. -/
def replaceEndpoints (line : LineRef) (ends : Endpoints) (raw : Text) :
    Except Refusal (Text × List Text) := do
  let parts := LineParts.ofText raw
  if ends.source.isNone && ends.target.isNone then return (parts.before, [])
  let (sources, targets) := edgeSides raw
  let (sources, sourceChanges) ← replaceSide line ends.labels "source" ends.source sources
  let (targets, targetChanges) ← replaceSide line ends.labels "target" ends.target targets
  return (parts.spaced (writeSides raw sources targets), sourceChanges ++ targetChanges)

/-- Changes an edge. -/
def setEdge (lines : List Text) (line : LineRef) (edit : EdgeEdit)
    (ends : Endpoints := {}) : Outcome :=
  match line.edgeIndex? lines with
  | none => .refuse lines .setEdge line.name (.notAnEdge line.written)
  | some index =>
    match Field.firstBroken? [("label", edit.label), ("border", edit.border)] with
    | some name => .refuse lines .setEdge line.name (.badField name)
    | none =>
      let raw := lines.getD index []
      match replaceEndpoints line ends raw with
      | .error refusal => .refuse lines .setEdge line.name refusal
      | .ok (before, moved) =>
        let parts := LineParts.ofText raw
        let newLine := parts.assemble (some (edit.apply (parts.inner.getD []))) (some before)
        .replaceLine lines index newLine .setEdge line.name
          (Field.changes [("label", edit.label), ("border", edit.border)] ++ moved)

/-- Deletes an edge line. -/
def deleteEdge (lines : List Text) (line : LineRef) : Outcome :=
  match line.edgeIndex? lines with
  | none => .refuse lines .deleteEdge line.name (.notAnEdge line.written)
  | some index =>
    let change := "removed line " ++ Text.ofNat (index + 1) ++ ": " ++ lines.getD index []
    ⟨{ success := true, action := .deleteEdge, target := line.name, lineIndex := some index
       message := "updated", changes := [change] }, lines.eraseIdx index⟩

end Edit

end LineDiagram
