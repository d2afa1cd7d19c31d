import LineDiagram.Compilation
import LineDiagram.Edit.Box
import LineDiagram.Edit.Node
import LineDiagram.Graph.Record
import LineDiagram.Inspect
import LineDiagram.Service.Request
import LineDiagram.Settings.Block
import LineDiagram.Value.Json

/-!
# The service

The service answers requests about a document: it compiles, edits and inspects.
It keeps nothing between requests.  An answer has a status code and a body.
-/

namespace LineDiagram.Service

/-- An answer. -/
structure Response where
  /-- Status code. -/
  status : Nat
  /-- Body. -/
  body : Value

/-- What a request may carry. -/
inductive Content where
  /-- Nothing. -/
  | empty
  /-- A value. -/
  | value (v : Value)
  /-- A text that should be JSON. -/
  | raw (t : Text)

/-- The longest document that is taken, in characters. -/
def maxDocument : Nat := 200000

/-- An answer with status 200. -/
def success (fields : List (String × Value)) : Response := ⟨200, .ofFields fields⟩

/-- The answer about something that is not there. -/
def notFound (message : Text) : Response :=
  ⟨404, .ofFields [("status", .ofString "not_found"), ("message", .text message)]⟩

/-- The answer to a document that is too large. -/
def tooLarge : Response := ⟨413, .ofFields [
  ("status", .ofString "error"),
  ("message", .text ("document is larger than " ++ Text.ofNat maxDocument ++ " characters"))]⟩

/-- The status word of a compilation. -/
def statusOf (c : Compilation) : Value :=
  .ofString (if c.issues.isEmpty then "success" else "warning")

/-- The fields about a document after an edit. -/
def compiledFields (text : Text) : List (String × Value) :=
  let c := compile text
  [("status", statusOf c), ("summary", .text c.summary), ("compile", .ofFields c.fields),
    ("text", .text text)]

/-- The answer after some edits, of which the last lines are given. -/
def editResponse (lines : List Text) (patches : List Patch) : Response :=
  let patchesField := ("patches", Value.list (patches.map Patch.toValue))
  match patches.find? fun p => !p.success with
  | some failed => ⟨404, .ofFields [
      ("status", .ofString "unchanged"), ("message", .text failed.message), patchesField]⟩
  | none => success (compiledFields (Document.join lines) ++ [patchesField])

/-- The answer after one edit. -/
def outcomeResponse (o : Outcome) : Response := editResponse o.lines [o.patch]

/-- Compiles. -/
def compileDocument (r : Request.OnDocument) : Response :=
  let c := compile r.text
  success [
    ("status", statusOf c),
    ("summary", .text c.summary),
    ("dot", .text c.dot),
    ("settings", c.settings.toValue),
    ("errors", .list (c.issues.map Issue.toValue)),
    ("stats", c.statsValue),
    ("graph", (c.graph.map Graph.toValue).getD .null)]

/-- Edits a node: first its label, then its style. -/
def patchNode (r : Request.NodePatch) : Response :=
  let lines := Document.split r.text
  let labelled :=
    match r.label with
    | some (.text label) => some (Edit.setNodeLabel lines r.id label)
    | _ => none
  let lines := (labelled.map (·.lines)).getD lines
  let styled := Edit.setNodeStyle lines r.id r.style
  editResponse styled.lines ((labelled.map (·.patch)).toList ++ [styled.patch])

/-- Edits a box: first its label, then its style. -/
def patchBox (r : Request.BoxPatch) : Response :=
  let lines := Document.split r.text
  let labelled := r.label.map fun label => Edit.setBoxLabel lines r.id label.textUnlessNull
  let lines := (labelled.map (·.lines)).getD lines
  let styled := Edit.setBoxStyle lines r.id r.style
  editResponse styled.lines ((labelled.map (·.patch)).toList ++ [styled.patch])

/-- The labels of the nodes of a document. -/
def nodeLabels (text : Text) : Table :=
  match (compile text).graph with
  | some g => g.nodes.map fun n => (n.id, n.label)
  | none => []

/-- Edits an edge. -/
def patchEdge (r : Request.EdgePatch) : Response :=
  let labels := if r.source.isSome || r.target.isSome then nodeLabels r.text else []
  outcomeResponse
    (Edit.setEdge (Document.split r.text) (.ofInt r.line) r.edit ⟨r.source, r.target, labels⟩)

/-- Writes settings. -/
def writeSettings (r : Request.SettingsChange) : Except RoundingFault Response :=
  match SettingsBlock.replace r.text r.settings with
  | .ok text => .ok (success (compiledFields text))
  | .error e => .error e

/-- Looks at a node, which may have a definition or only be mentioned. -/
def inspectNode (r : Request.OnNode) : Response :=
  let c := compile r.text
  let node := c.graph.bind (·.node? r.id)
  let definition := NodeView.find? (Document.split r.text) r.id
  match (node.map (·.label)).orElse fun _ => definition.map (·.label) with
  | none => notFound ("node '" ++ r.id ++ "' does not exist")
  | some label => success [
      ("status", .ofString "success"),
      ("node_id", .text r.id),
      ("label", .text label),
      ("definition", (definition.map NodeView.toValue).getD .null),
      ("defaults", c.settings.nodeDefaults)]

/-- Looks at a box. -/
def inspectBox (r : Request.OnBox) : Response :=
  match Box.find? (Document.split r.text) r.id with
  | none => notFound ("'" ++ r.id ++ "' does not exist")
  | some opener => success [("status", .ofString "success"), ("cluster", opener.viewValue)]

/-- Looks at an edge line. -/
def inspectEdge (r : Request.OnEdge) : Except RoundingFault Response :=
  match EdgeView.find? (Document.split r.text) (.ofInt r.line) with
  | none => .ok (notFound ("line " ++ Text.ofInt r.line ++ " is not an edge line"))
  | some view =>
    match (compile r.text).settings.edgeDefault with
    | .ok border => .ok (success [
        ("status", .ofString "success"), ("edge", view.toValue), ("default_border", .text border)])
    | .error e => .error e

/-- How a request is answered: it is read, and refused when its document is too
large. -/
def answerBy {α : Type} (read : Request.Fields → Validation α) (text : α → Text)
    (answer : α → Except RoundingFault Response) (fields : Request.Fields) :
    Except RoundingFault (Validation Response) :=
  match read fields with
  | .faults fs => .ok (.faults fs)
  | .ok r =>
    if maxDocument < (text r).length then .ok (.ok tooLarge)
    else
      match answer r with
      | .ok response => .ok (.ok response)
      | .error e => .error e

/-- A way to answer the fields of a request. -/
abbrev Handler := Request.Fields → Except RoundingFault (Validation Response)

/-- The paths that take a document, and how they answer. -/
def handlers : List (String × Handler) := [
  ("/compile", answerBy Request.document (·.text) fun r => .ok (compileDocument r)),
  ("/patch/node", answerBy Request.nodePatch (·.text) fun r => .ok (patchNode r)),
  ("/patch/cluster", answerBy Request.boxPatch (·.text) fun r => .ok (patchBox r)),
  ("/patch/edge", answerBy Request.edgePatch (·.text) fun r => .ok (patchEdge r)),
  ("/delete/edge", answerBy Request.onEdge (·.text) fun r =>
    .ok (outcomeResponse (Edit.deleteEdge (Document.split r.text) (.ofInt r.line)))),
  ("/delete/node", answerBy Request.onNode (·.text) fun r =>
    .ok (outcomeResponse (Edit.deleteNode (Document.split r.text) r.id))),
  ("/delete/cluster", answerBy Request.onBox (·.text) fun r =>
    .ok (outcomeResponse (Edit.deleteBox (Document.split r.text) r.id))),
  ("/group", answerBy Request.grouping (·.text) fun r =>
    .ok (outcomeResponse (Edit.groupNodes (Document.split r.text) r.ids r.label))),
  ("/links", answerBy Request.linking (·.text) fun r =>
    .ok (outcomeResponse (Edit.addLinks (Document.split r.text) r.source r.links))),
  ("/settings", answerBy Request.settingsChange (·.text) writeSettings),
  ("/inspect/node", answerBy Request.onNode (·.text) fun r => .ok (inspectNode r)),
  ("/inspect/cluster", answerBy Request.onBox (·.text) fun r => .ok (inspectBox r)),
  ("/inspect/edge", answerBy Request.onEdge (·.text) inspectEdge)]

/-- The value that a request carries. -/
def Content.toValue : Content → Validation Value
  | .empty => Validation.fault .missing
  | .value v => .ok v
  | .raw [] => Validation.fault .missing
  | .raw t =>
    match Value.ofJson t with
    | .ok v => .ok v
    | .error position => .faults [⟨.jsonInvalid, [.index position]⟩]

/-- The answer to a request with faults. -/
def faultResponse (fs : List Fault) : Response :=
  ⟨422, .list (fs.map fun f => { f with path := .field "body" :: f.path }.toValue)⟩

/-- Answers a request by a handler. -/
def handle (handler : Handler) (content : Content) : Except RoundingFault Response :=
  match content.toValue.andThen Validation.record with
  | .faults fs => .ok (faultResponse fs)
  | .ok fields =>
    match handler fields with
    | .ok (.ok response) => .ok response
    | .ok (.faults fs) => .ok (faultResponse fs)
    | .error e => .error e

/-- An answer that only has a detail. -/
def detail (status : Nat) (message : String) : Response :=
  ⟨status, .ofFields [("detail", .ofString message)]⟩

/-- The path that a request goes to: without what follows a question mark or a
number sign, and without slashes at its end, which make no difference. -/
def routeOf (path : Text) : Text :=
  Text.dropEndWhile (· == '/') (path.takeWhile fun c => c != '?' && c != '#')

/-- Answers a request to a path by a method. -/
def respond (path method : Text) (content : Content) : Except RoundingFault Response :=
  let path := routeOf path
  if path == "/health".toList then
    if method == "GET".toList then .ok (success [("status", .ofString "ok")])
    else .ok (detail 405 "Method Not Allowed")
  else
    match handlers.find? fun h => h.1.toList == path with
    | none => .ok (detail 404 "Not Found")
    | some (_, handler) =>
      if method == "POST".toList then handle handler content
      else .ok (detail 405 "Method Not Allowed")

end LineDiagram.Service
