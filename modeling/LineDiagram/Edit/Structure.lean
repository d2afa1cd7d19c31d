import LineDiagram.Box.Scanner
import LineDiagram.Document
import LineDiagram.Edit.Edge

/-!
# Editing the structure

These edits add, remove and move whole lines: a node is deleted with its edges,
a box is deleted around its content, nodes are put into a new box, new nodes are
linked to an old one.
-/

namespace LineDiagram.Edit

/-- What deleting a node does to a line. -/
inductive NodeDeletion where
  /-- The line stays. -/
  | keep
  /-- The line goes, because it defines the node. -/
  | dropDefinition
  /-- The line goes, because an edge would have an end without nodes. -/
  | dropEdge
  /-- The line stays as an edge between the other nodes. -/
  | shorten (line : Text)
deriving DecidableEq, Repr

/-- What deleting a node does to a line. -/
def NodeDeletion.ofLine (id raw : Text) : NodeDeletion :=
  match Line.contentOfRaw raw with
  | .node token _ _ => if Identifier.ofToken token == id then .dropDefinition else .keep
  | .edge sources targets _ =>
    let sources := writtenEndpoints sources
    let targets := writtenEndpoints targets
    let keptSources := sources.filter fun t => !isTokenOf id t
    let keptTargets := targets.filter fun t => !isTokenOf id t
    if keptSources == sources && keptTargets == targets then .keep
    else if keptSources.isEmpty || keptTargets.isEmpty then .dropEdge
    else
      let parts := LineParts.ofText raw
      .shorten (parts.assemble parts.inner
        (some (parts.spaced (writeSides raw keptSources keptTargets))))
  | _ => .keep

/-- The lines that are left of a line. -/
def NodeDeletion.linesLeft (raw : Text) : NodeDeletion → List Text
  | .keep => [raw]
  | .shorten line => [line]
  | _ => []

/-- What happens to the line with a given number, in words. -/
def NodeDeletion.change? (id : Text) (number : Nat) : NodeDeletion → Option Text
  | .keep => none
  | .dropDefinition => some ("removed definition line " ++ Text.ofNat number)
  | .dropEdge => some ("removed edge line " ++ Text.ofNat number)
  | .shorten _ => some ("removed '" ++ id ++ "' from edge line " ++ Text.ofNat number)

/-- Deletes a node: its definitions, and its token on every edge line. -/
def deleteNode (lines : List Text) (id : Text) : Outcome :=
  let id := Text.trim id
  let deletions := lines.map (NodeDeletion.ofLine id)
  let changes := (deletions.mapIdx fun i d => d.change? id (i + 1)).filterMap fun c => c
  if changes.isEmpty then .refuse lines .deleteNode id (.notMentioned id)
  else
    ⟨{ success := true, action := .deleteNode, target := id
       lineIndex := deletions.findIdx? (· != .keep), message := "updated", changes },
     (lines.zip deletions).flatMap fun (raw, d) => d.linesLeft raw⟩

/-- Where the content of a box ends: at the marker that closes it, or at the
next box that is not deeper, or at the end. -/
def scopeEnd (lines : List Text) (opener : Box.Opener) : Nat :=
  match opener.closeLine with
  | some index => index
  | none =>
    let later := (Box.openers lines).find? fun o =>
      opener.lineIndex < o.lineIndex && o.depth ≤ opener.depth
    match later with
    | some o => o.lineIndex
    | none => lines.length

/-- Whether a line is a marker of an even depth beyond a given one. -/
def isDeeperMarker (depth : Nat) (raw : Text) : Bool :=
  match Line.contentOfRaw raw with
  | .marker d _ _ => d % 2 == 0 && depth < d
  | _ => false

/-- A marker moved up one level. -/
def raiseMarker (raw : Text) : Text :=
  let margin := Text.margin raw
  margin ++ raw.drop (margin.length + 2)

/-- What deleting a box leaves of the line at a position, and the change in
words. -/
def withoutBox (opener : Box.Opener) (scope index : Nat) (raw : Text) : Option Text × Option Text :=
  if index == opener.lineIndex then (none, none)
  else if opener.closeLine == some index then
    (none, some ("removed closing marker line " ++ Text.ofNat (index + 1)))
  else if opener.lineIndex < index && index < scope && isDeeperMarker opener.depth raw then
    (some (raiseMarker raw),
      some ("moved marker line " ++ Text.ofNat (index + 1) ++ " up one level"))
  else (some raw, none)

/-- Deletes a box and keeps what is in it; boxes in it move up one level. -/
def deleteBox (lines : List Text) (id : Text) : Outcome :=
  match Box.find? lines id with
  | none => .refuse lines .deleteBox id (.noOpener id)
  | some opener =>
    let scope := scopeEnd lines opener
    let results := lines.mapIdx (withoutBox opener scope)
    let opening := "removed opening marker line " ++ Text.ofNat (opener.lineIndex + 1)
    ⟨{ success := true, action := .deleteBox, target := id, lineIndex := some opener.lineIndex
       message := "updated", changes := opening :: results.filterMap (·.2) },
     results.filterMap (·.1)⟩

/-- Texts without blanks around them, without empty ones and without repeats. -/
def distinctTexts (ts : List Text) : List Text :=
  ((ts.map Text.trim).filter fun t => !t.isEmpty).foldl
    (fun seen t => if seen.contains t then seen else seen ++ [t]) []

/-- The definitions of some nodes: the position of the first one of each, with
its identifier, in the order of the lines. -/
def definitionPlaces (lines : List Text) (ids : List Text) : List (Nat × Text) :=
  let firsts := ids.map fun id => (findDefinition? lines id, id)
  (List.range lines.length).filterMap fun i =>
    (firsts.find? fun p => p.1 == some i).map fun p => (i, p.2)

/-- Puts the definitions of nodes into a new box, where the first of them
stood. -/
def groupNodes (lines : List Text) (ids : List Text) (label : Text) : Outcome :=
  let ids := distinctTexts ids
  let places := definitionPlaces lines ids
  if ids.isEmpty then .refuse lines .groupNodes [] .nothingSelected
  else
    match places with
    | [] => .refuse lines .groupNodes (Text.join ", " ids) .nothingToMove
    | (first, _) :: _ =>
      let indexes := places.map (·.1)
      let moved := indexes.map fun i => lines.getD i []
      let kept :=
        (lines.mapIdx fun i raw => if indexes.contains i then none else some raw).filterMap
        fun raw => raw
      let dashes := List.replicate (Box.depthBefore kept first + 2) '-'
      let label := Comment.escape (Text.trim label)
      let label := if label.isEmpty then "Group".toList else label
      let missing := ids.filter fun id => (findDefinition? lines id).isNone
      let skipped : Text :=
        if missing.isEmpty then [] else " Skipped (no definition line): " ++ Text.join ", " missing
      ⟨{ success := true, action := .groupNodes, target := Text.join ", " (places.map (·.2))
         lineIndex := some first
         message := "Grouped " ++ Text.ofNat places.length ++ " node(s)." ++ skipped
         changes := places.map fun p => "moved " ++ p.2 ++ " into '" ++ label ++ "'" },
       kept.take first ++ (dashes ++ label) :: moved ++ dashes :: kept.drop first⟩

/-- Which way new links run. -/
inductive LinkDirection where
  /-- From the old node to the new ones. -/
  | out
  /-- From the new nodes to the old one. -/
  | into
deriving DecidableEq, Repr

/-- The edge between an old and a new node. -/
def LinkDirection.edgeLine (direction : LinkDirection) (old new : Text) : Text :=
  match direction with
  | .out => old ++ " -> " ++ new
  | .into => new ++ " -> " ++ old

/-- The definition of a node with a label. -/
def definitionLine (id label : Text) : Text := id ++ ":: " ++ Comment.escape label

/-- New links from or to a node. -/
structure Links where
  /-- Labels of the new nodes. -/
  labels : List Text
  /-- Which way they run. -/
  direction : LinkDirection := .out
  /-- Label of the links. -/
  label : Text := []
  /-- Border of the links. -/
  border : Text := []

/-- Adds a node for each label and links it. -/
def addLinks (lines : List Text) (source : Text) (links : Links) : Outcome :=
  let source := Text.trim source
  let labels := (links.labels.map Text.trim).filter fun t => !t.isEmpty
  if source.isEmpty then .refuse lines .addLinks [] .noSource
  else if labels.isEmpty then .refuse lines .addLinks source .noNewLabels
  else
    match labels.find? (·.any Text.isBracketBreaker) with
    | some label => .refuse lines .addLinks source (.badNewLabel label)
    | none =>
      if links.label.any Text.isBracketBreaker then
        .refuse lines .addLinks source (.badField "label")
      else if links.border.any Text.isBracketBreaker then
        .refuse lines .addLinks source (.badField "border")
      else
        let inner := EdgeEdit.apply ⟨some (.text links.label), some (.text links.border)⟩ []
        let bracket : Text := if inner.isEmpty then [] else " [" ++ inner ++ "]"
        let ids := Identifier.freshAll (definedNodes lines) labels
        let nodeLines := (ids.zip labels).map fun (id, label) => definitionLine id label
        let edgeLines := ids.map fun id => links.direction.edgeLine source id ++ bracket
        let kept := Document.dropBlankEnd lines
        let added := nodeLines ++ edgeLines
        ⟨{ success := true, action := .addLinks, target := source, lineIndex := some kept.length
           message := "Added " ++ Text.ofNat labels.length ++ " link" ++
             (if labels.length == 1 then [] else ['s'])
           changes := added.map fun line => "added " ++ line },
         kept ++ added ++ [[]]⟩

end LineDiagram.Edit
