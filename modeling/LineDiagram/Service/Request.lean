import LineDiagram.Edit.EdgeBracket
import LineDiagram.Edit.Structure
import LineDiagram.Service.Validation

/-!
# Requests

The requests that the service answers.  Each of them carries the whole document.
In a request that edits attributes, a field that is left out leaves its
attribute alone and a null removes it.
-/

namespace LineDiagram.Request

open Validation

/-- A document. -/
structure OnDocument where
  /-- The document. -/
  text : Text

/-- Something about a node. -/
structure OnNode extends OnDocument where
  /-- The node. -/
  id : Text

/-- Something about a box. -/
structure OnBox extends OnDocument where
  /-- The box. -/
  id : Text

/-- Something about an edge line. -/
structure OnEdge extends OnDocument where
  /-- Number of the line, from one. -/
  line : Int

/-- An edit of a node. -/
structure NodePatch extends OnNode where
  /-- Label. -/
  label : Field
  /-- Style. -/
  style : NodeStyleEdit

/-- An edit of a box. -/
structure BoxPatch extends OnBox where
  /-- Label. -/
  label : Field
  /-- Style. -/
  style : BoxStyleEdit

/-- An edit of an edge. -/
structure EdgePatch extends OnEdge where
  /-- Label and border. -/
  edit : EdgeEdit
  /-- The source to replace and the new one. -/
  source : Option (Text × Text)
  /-- The target to replace and the new one. -/
  target : Option (Text × Text)

/-- Nodes to put into a new box. -/
structure Grouping extends OnDocument where
  /-- The nodes. -/
  ids : List Text
  /-- Label of the box. -/
  label : Text

/-- New nodes to link to an old one. -/
structure Linking extends OnDocument where
  /-- The old node. -/
  source : Text
  /-- The links. -/
  links : Edit.Links

/-- New settings. -/
structure SettingsChange extends OnDocument where
  /-- The settings. -/
  settings : Settings

/-- The fields of a request. -/
abbrev Fields := List (Text × Value)

/-- Reads a document. -/
def document (fields : Fields) : Validation OnDocument :=
  OnDocument.mk <$> required "text" text fields

/-- Reads a request about a node. -/
def onNode (fields : Fields) : Validation OnNode :=
  OnNode.mk <$> document fields <*> required "node_id" text fields

/-- Reads a request about a box. -/
def onBox (fields : Fields) : Validation OnBox :=
  OnBox.mk <$> document fields <*> required "cluster_id" text fields

/-- Reads a request about an edge line. -/
def onEdge (fields : Fields) : Validation OnEdge :=
  OnEdge.mk <$> document fields <*> required "line_number" integer fields

/-- Reads an edit of a node. -/
def nodePatch (fields : Fields) : Validation NodePatch :=
  NodePatch.mk <$> onNode fields <*> optional "label" textOrNull fields <*>
    (NodeStyleEdit.mk <$> optional "fill" textOrNull fields <*> optional "border"
      textOrNull fields <*>
      optional "rounded" flagOrNull fields <*> optional "text_size" numberOrNull fields)

/-- Reads an edit of a box. -/
def boxPatch (fields : Fields) : Validation BoxPatch :=
  BoxPatch.mk <$> onBox fields <*> optional "label" textOrNull fields <*>
    (BoxStyleEdit.mk <$> optional "fill" textOrNull fields <*> optional "border"
      textOrNull fields <*>
      optional "text_colour" textOrNull fields <*> optional "text_size" numberOrNull fields)

/-- Reads the replacement of one end of an edge. -/
def endpointChange (v : Value) : Validation (Option (Text × Text)) :=
  match v with
  | .null => .ok none
  | v => (record v).andThen fun fields =>
    (fun old new => some (old, new)) <$> required "old" text fields <*> required "new" text fields

/-- Reads an edit of an edge. -/
def edgePatch (fields : Fields) : Validation EdgePatch :=
  (fun edge label border source target =>
      EdgePatch.mk edge ⟨label, border⟩ (source.getD none) (target.getD none)) <$>
    onEdge fields <*> optional "label" textOrNull fields <*> optional "border" textOrNull fields <*>
    optional "from_node" endpointChange fields <*> optional "to_node" endpointChange fields

/-- Reads nodes to group. -/
def grouping (fields : Fields) : Validation Grouping :=
  (fun doc ids label => ⟨doc, ids, label.getD "Group"⟩) <$> document fields <*>
    required "node_ids" (list text) fields <*> optional "label" text fields

/-- Reads a direction of links. -/
def linkDirection (v : Value) : Validation Edit.LinkDirection :=
  match v with
  | .text t =>
    if t == "out".toList then .ok .out
    else if t == "in".toList then .ok .into
    else fault .noDirection
  | _ => fault .noDirection

/-- Reads new links. -/
def linking (fields : Fields) : Validation Linking :=
  (fun doc source labels direction label border =>
      { text := doc.text, source
        links :=
          { labels, direction := direction.getD .out, label := (label.getD .null).textUnlessNull
            border := (border.getD .null).textUnlessNull } }) <$>
    document fields <*> required "source_id" text fields <*>
    required "labels" (list text) fields <*>
    optional "direction" linkDirection fields <*> optional "label" textOrNull fields <*>
    optional "border" textOrNull fields

/-- Reads new settings. -/
def settingsChange (fields : Fields) : Validation SettingsChange :=
  (fun doc settings => ⟨doc, settings.getD {}⟩) <$> document fields <*>
    optional "settings" Settings.validate fields

end LineDiagram.Request
