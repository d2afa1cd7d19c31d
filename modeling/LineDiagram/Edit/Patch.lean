import LineDiagram.Value.Basic

/-!
# Patches

An editor either changes the lines of a document or refuses and leaves them
alone.  In both cases it reports what it did, to what, and why not.
-/

namespace LineDiagram

/-- The edits. -/
inductive Action where
  /-- Changes the style of a node. -/
  | setNodeStyle
  /-- Changes the label of a node. -/
  | setNodeLabel
  /-- Changes the style of a box. -/
  | setBoxStyle
  /-- Changes the label of a box. -/
  | setBoxLabel
  /-- Changes an edge. -/
  | setEdge
  /-- Deletes an edge line. -/
  | deleteEdge
  /-- Deletes a node. -/
  | deleteNode
  /-- Deletes a box and keeps what is in it. -/
  | deleteBox
  /-- Puts nodes into a new box. -/
  | groupNodes
  /-- Adds linked nodes. -/
  | addLinks
deriving DecidableEq, Repr

/-- The name of an edit. -/
def Action.name : Action → String
  | .setNodeStyle => "set_node_style"
  | .setNodeLabel => "set_node_label"
  | .setBoxStyle => "set_cluster_style"
  | .setBoxLabel => "set_cluster_label"
  | .setEdge => "set_edge"
  | .deleteEdge => "delete_edge"
  | .deleteNode => "delete_node"
  | .deleteBox => "delete_cluster"
  | .groupNodes => "group_nodes"
  | .addLinks => "add_links"

/-- Why an edit is refused. -/
inductive Refusal where
  /-- No line defines the node. -/
  | noDefinition (id : Text)
  /-- The definition has no colons where they are expected. -/
  | noColons
  /-- The value of a field would break the bracket. -/
  | badField (name : String)
  /-- The label would break the line. -/
  | badLabel
  /-- No marker opens the box. -/
  | noOpener (id : Text)
  /-- The edit would open or close other boxes. -/
  | changesBoxes
  /-- The line is no edge. -/
  | notAnEdge (line : Text)
  /-- The edge has no such end. -/
  | noEndpoint (side : String) (id line : Text)
  /-- The node is nowhere. -/
  | notMentioned (id : Text)
  /-- There is nothing to group. -/
  | nothingSelected
  /-- No node to group has a definition. -/
  | nothingToMove
  /-- There is no node to link to. -/
  | noSource
  /-- There is no label for a new node. -/
  | noNewLabels
  /-- The label of a new node would break its line. -/
  | badNewLabel (label : Text)
deriving DecidableEq, Repr

/-- The message of a refusal. -/
def Refusal.message : Refusal → Text
  | .noDefinition id => "no definition line for node '" ++ id ++ "'"
  | .noColons => "definition line has no '::'"
  | .badField name => name.toList ++ ": value cannot contain '|', '[', ']' or line breaks"
  | .badLabel => "label cannot contain '|', '[', ']' or line breaks"
  | .noOpener id => "no opening marker for '" ++ id ++ "'"
  | .changesBoxes => "edit would change the box structure"
  | .notAnEdge line => "line " ++ line ++ " is not an edge line"
  | .noEndpoint side id line => "no " ++ side.toList ++ " '" ++ id ++ "' on line " ++ line
  | .notMentioned id => "node '" ++ id ++ "' does not appear in the document"
  | .nothingSelected => "no nodes selected"
  | .nothingToMove => "none of the nodes has a definition line to move"
  | .noSource => "no source node"
  | .noNewLabels => "enter at least one new node label"
  | .badNewLabel label => "label '" ++ label ++ "' cannot contain '|', '[', ']' or line breaks"

/-- What an edit did. -/
structure Patch where
  /-- Whether it was done. -/
  success : Bool
  /-- The edit. -/
  action : Action
  /-- What was edited. -/
  target : Text
  /-- Position of the first line concerned. -/
  lineIndex : Option Nat := none
  /-- The line before, if one line was changed. -/
  before : Option Text := none
  /-- The line after, if one line was changed. -/
  after : Option Text := none
  /-- What to tell the user. -/
  message : Text := []
  /-- The changes one by one. -/
  changes : List Text := []
deriving DecidableEq, Repr

/-- A patch as a record. -/
def Patch.toValue (p : Patch) : Value := .ofFields [
  ("success", .flag p.success),
  ("action", .ofString p.action.name),
  ("target", .text p.target),
  ("line_index", .ofNat? p.lineIndex),
  ("before", .ofText? p.before),
  ("after", .ofText? p.after),
  ("message", .text p.message),
  ("changes_made", .ofTexts p.changes)]

/-- A patch and the lines after it. -/
structure Outcome where
  /-- What was done. -/
  patch : Patch
  /-- The lines after it. -/
  lines : List Text
deriving DecidableEq, Repr

namespace Outcome

/-- Refuses an edit. -/
def refuse (lines : List Text) (action : Action) (target : Text) (refusal : Refusal) : Outcome :=
  ⟨{ success := false, action, target, message := refusal.message }, lines⟩

/-- Replaces one line. -/
def replaceLine (lines : List Text) (index : Nat) (line : Text) (action : Action) (target : Text)
    (changes : List Text) : Outcome :=
  let before := lines.getD index []
  ⟨{ success := true, action, target, lineIndex := some index, before := some before
     after := some line, message := if before == line then "no change" else "updated", changes },
   lines.set index line⟩

end Outcome

/-- The new value of a field: `none` leaves the field as it is, null or the
empty text removes it. -/
abbrev Field := Option Value

namespace Field

/-- Whether a value removes its field. -/
def removes : Value → Bool
  | .null => true
  | .text [] => true
  | _ => false

/-- The text to write for a field: `none` leaves it as it is, the empty text
removes it. -/
def toText? (convert : Value → Text) (field : Field) : Option Text :=
  field.map fun v => if removes v then [] else convert v

/-- Whether the value of a field would break a bracket; numbers never do. -/
def isBroken (field : Field) : Bool :=
  match field with
  | none => false
  | some .null => false
  | some v => !v.isScalarNumber && v.spell.any Text.isBracketBreaker

/-- The first of some fields whose value would break a bracket. -/
def firstBroken? (fields : List (String × Field)) : Option String :=
  (fields.find? fun f => isBroken f.2).map (·.1)

/-- What an edit does to some fields, in words. -/
def changes (fields : List (String × Field)) : List Text :=
  fields.filterMap fun (name, field) =>
    match field with
    | none => none
    | some (.flag false) => some ("removed " ++ name.toList)
    | some v =>
      some (if removes v then "removed " ++ name.toList
        else "set " ++ name.toList ++ "=" ++ v.spell)

end Field

end LineDiagram
