import LineDiagram.Graph.Build
import LineDiagram.Proofs.Graph
import LineDiagram.Proofs.Scanner

/-!
# What the lines of a document add up to

Each line adds edges, mentions nodes, writes labels and may open or close a box.
`Content.edges`, `Content.mentions` and `Content.labelWrites` say which, from
the line alone; one lemma for each says that a draft takes in just that, and the
run lemmas follow for whole documents.

* `ofLines_induction` — what holds at the start and is kept by each line holds
  of every draft;
* `scanner_ofLines` — a draft numbers boxes by the scan of the document;
* `edges_addLines`, `ids_addLines`, `label?_addLines` — edges, identifiers and
  labels of a document.
-/

namespace LineDiagram

/-- The style that the bracket of an edge gives, if there is one. -/
def EdgeStyle.ofInner? (font : Text) : Option Text → EdgeStyle
  | some inner => ofBracket font (.ofText inner)
  | none => {}

namespace Content

/-- The edges that a line with a given number draws: from each source to each
target. -/
def edges (font : Text) (number : Nat) : Content → List Edge
  | .edge sources targets bracket =>
    (splitEndpoints sources).flatMap fun source =>
      (splitEndpoints targets).map fun target =>
        ⟨Identifier.ofToken source, Identifier.ofToken target, number, .ofInner? font bracket⟩
  | _ => []

/-- The tokens that a line mentions: that of a definition, or each source
followed by all targets. -/
def mentions : Content → List Text
  | .node token _ _ => [token]
  | .edge sources targets _ =>
    if (splitEndpoints targets).isEmpty then []
    else (splitEndpoints sources).flatMap fun source => source :: splitEndpoints targets
  | _ => []

/-- The label that a definition writes. -/
def ownLabel : Content → List (Text × Text)
  | .node token label _ => if label.isEmpty then [] else [(Identifier.ofToken token, label)]
  | _ => []

/-- The labels that a line writes for nodes that are there, in order. -/
def labelWrites (content : Content) : List (Text × Text) :=
  Graph.mentionWrites content.mentions ++ content.ownLabel

/-- A line has at most one label of its own. -/
theorem ownLabel_cases (content : Content) :
    content.ownLabel = [] ∨ ∃ id label, content.ownLabel = [(id, label)] := by
  unfold ownLabel
  split
  · split
    · exact Or.inl rfl
    · exact Or.inr ⟨_, _, rfl⟩
  · exact Or.inl rfl

end Content

namespace Draft

variable (font : Text)

/-! ## One line -/

@[simp] theorem scanner_placeNode (d : Draft) (id : Text) :
    (d.placeNode id).scanner = d.scanner := by
  unfold placeNode
  split <;> rfl

@[simp] theorem edges_placeNode (d : Draft) (id : Text) :
    (d.placeNode id).graph.edges = d.graph.edges := by
  unfold placeNode
  split <;> rfl

@[simp] theorem nodes_placeNode (d : Draft) (id : Text) :
    (d.placeNode id).graph.nodes = d.graph.nodes := by
  unfold placeNode
  split <;> rfl

@[simp] theorem settings_placeNode (d : Draft) (id : Text) :
    (d.placeNode id).graph.settings = d.graph.settings := by
  unfold placeNode
  split <;> rfl

/-- A marker changes no more of a graph than its boxes.  Nodes, edges and
settings can be read off without regard to markers. -/
theorem graph_addMarker (d : Draft) (index depth : Nat) (line : Line) :
    ∃ boxes, (d.addMarker index depth line).graph = { d.graph with boxes } := by
  unfold addMarker
  split
  · exact ⟨d.graph.boxes, rfl⟩
  · split
    · split
      · unfold Graph.addBox
        dsimp only
        split <;> exact ⟨_, rfl⟩
      · exact ⟨d.graph.boxes, rfl⟩
    · exact ⟨d.graph.boxes, rfl⟩

/-- A settings line assigns its value to the setting that the table has for its
phrase, and does no more. -/
theorem addSetting_eq (d : Draft) (phrase value : Text) :
    d.addSetting phrase value = { d with graph := { d.graph with
      settings :=
        (Setting.ofKey? phrase).elim d.graph.settings (d.graph.settings.assign · value) } } := by
  unfold addSetting
  split
  · rename_i s hs
    rw [hs, Option.elim_some]
  · rename_i hnone
    rw [hnone, Option.elim_none]

/-- A draft takes a line into its scan, whatever the line is: only markers have
an effect there. -/
theorem scanner_addLine (d : Draft) (index : Nat) (line : Line) :
    (d.addLine font index line).scanner = (d.scanner.feed index line).2 := by
  cases hcontent : line.content with
  | marker depth label bracket =>
      simp only [addLine, hcontent, addMarker]
      split
      · rename_i hodd
        simp [Box.Scanner.feed, hcontent, hodd, report]
      · split
        · rename_i hfeed
          rw [hfeed]
          split <;> rfl
        · rename_i hfeed
          rw [hfeed]
  | node token label bracket =>
      simp only [addLine, hcontent, addNode, scanner_placeNode, Box.Scanner.feed]
      split <;> rfl
  | edge sources targets bracket =>
      simp only [addLine, hcontent, addEdges, Box.Scanner.feed]
      split
      · rfl
      · split <;> rfl
  | blank => simp [addLine, hcontent, Box.Scanner.feed]
  | setting phrase known value => simp [addLine, hcontent, addSetting_eq, Box.Scanner.feed]
  | unrecognised => simp [addLine, hcontent, Box.Scanner.feed, report]

/-- The graph with more edges, mentioned into, is the graph mentioned into, with
more edges. -/
private theorem mention_edges (g : Graph) (edges : List Edge) (token : Text) :
    Graph.mention { g with edges } token = { g.mention token with edges } := by
  unfold Graph.mention Graph.modifyNode Graph.node?
  dsimp only
  split
  · rfl
  · split <;> rfl

/-- The edges from one source: source and targets are mentioned, and then the
edges are there. -/
theorem addEdgesFrom_eq (number : Nat) (style : EdgeStyle) (targets : List Text) (g : Graph)
    (source : Text) :
    addEdgesFrom number style targets g source =
      { g.mentionAll (source :: targets) with
        edges := g.edges ++ targets.map fun target =>
          ⟨Identifier.ofToken source, Identifier.ofToken target, number, style⟩ } := by
  -- The targets are taken in after the source, so the induction is over any graph with its edges.
  have hall : ∀ (h : Graph) (edges : List Edge),
      targets.foldl (fun g target =>
        let g := g.mention target
        { g with edges := g.edges ++
            [⟨Identifier.ofToken source, Identifier.ofToken target, number, style⟩] })
        { h with edges } =
      { h.mentionAll targets with
        edges := edges ++ targets.map fun target =>
          ⟨Identifier.ofToken source, Identifier.ofToken target, number, style⟩ } := by
    induction targets with
    | nil =>
        intro h edges
        simp [Graph.mentionAll]
    | cons target targets ih =>
        intro h edges
        rw [List.foldl_cons, mention_edges]
        dsimp only
        rw [ih (h.mention target), List.map_cons, List.append_assoc, List.singleton_append]
        rfl
  have hstart := hall (g.mention source) (g.mention source).edges
  unfold addEdgesFrom
  rw [show ({ g.mention source with edges := (g.mention source).edges } : Graph) = g.mention source
    from rfl] at hstart
  rw [hstart, Graph.edges_mention]
  rfl

/-- The edges of a whole line: each source is mentioned with all targets behind
it, and the edges are added in the same order. -/
private theorem foldl_addEdgesFrom (number : Nat) (style : EdgeStyle) (targets sources : List Text)
    (g : Graph) :
    sources.foldl (addEdgesFrom number style targets) g =
      { g.mentionAll (sources.flatMap fun source => source :: targets) with
        edges := g.edges ++ sources.flatMap fun source => targets.map fun target =>
          ⟨Identifier.ofToken source, Identifier.ofToken target, number, style⟩ } := by
  induction sources generalizing g with
  | nil => simp [Graph.mentionAll]
  | cons source sources ih =>
      have hmention : ∀ (h : Graph) (edges : List Edge) (tokens : List Text),
          Graph.mentionAll { h with edges } tokens = { h.mentionAll tokens with edges } := by
        intro h edges tokens
        induction tokens generalizing h with
        | nil => rfl
        | cons token tokens ih =>
            show Graph.mentionAll (Graph.mention { h with edges } token) tokens = _
            rw [mention_edges, ih]
            rfl
      rw [List.foldl_cons, ih, addEdgesFrom_eq, hmention, List.flatMap_cons, List.flatMap_cons,
        Graph.mentionAll_append, List.append_assoc]

/-- What an edge line does to the graph: it mentions its tokens and adds its
edges, and nothing else. -/
theorem graph_addEdges (d : Draft) (index : Nat) (raw sources targets : Text)
    (bracket : Option Text) :
    (addEdges font d index raw sources targets bracket).graph =
      { d.graph.mentionAll (Content.mentions (.edge sources targets bracket)) with
        edges :=
          d.graph.edges ++ Content.edges font (index + 1) (.edge sources targets bracket) } := by
  unfold addEdges Content.mentions Content.edges
  dsimp only
  by_cases hsources : (splitEndpoints sources).isEmpty = true
  · rw [if_pos hsources, List.isEmpty_iff.mp hsources]
    simp [report, Graph.mentionAll]
  · by_cases htargets : (splitEndpoints targets).isEmpty = true
    · have hnone : ((splitEndpoints sources).flatMap fun _ => ([] : List Edge)) = [] :=
        List.flatMap_eq_nil_iff.mpr (fun _ _ => rfl)
      rw [if_neg hsources, if_pos htargets, if_pos htargets, List.isEmpty_iff.mp htargets]
      simp [report, Graph.mentionAll, hnone]
    · rw [if_neg hsources, if_neg htargets, if_neg htargets]
      cases bracket with
      | none => exact foldl_addEdgesFrom (index + 1) _ _ _ d.graph
      | some inner => exact foldl_addEdgesFrom (index + 1) _ _ _ d.graph

/-- A draft takes in the edges of a line at the end.  A line that draws none
adds none. -/
theorem edges_addLine (d : Draft) (index : Nat) (line : Line) :
    (d.addLine font index line).graph.edges =
      d.graph.edges ++ line.content.edges font (index + 1) := by
  cases hcontent : line.content with
  | marker depth label bracket =>
      obtain ⟨boxes, hgraph⟩ := graph_addMarker d index depth line
      simp only [addLine, hcontent, hgraph, Content.edges, List.append_nil]
  | node token label bracket =>
      simp only [addLine, hcontent, addNode, edges_placeNode, Content.edges, List.append_nil,
        Graph.modifyNode, Graph.edges_mention]
      split <;> rfl
  | edge sources targets bracket => simp only [addLine, hcontent, graph_addEdges]
  | blank => simp [addLine, hcontent, Content.edges]
  | setting phrase known value => simp [addLine, hcontent, addSetting_eq, Content.edges]
  | unrecognised => simp [addLine, hcontent, Content.edges, report]

/-- A definition mentions its token, and then the label and the style of the
node are set. -/
theorem nodes_addNode (d : Draft) (token label : Text) (bracket : Option Text) :
    ∃ style : NodeStyle → NodeStyle,
      (d.addNode token label bracket).graph.nodes =
        ((d.graph.mention token).modifyNode (Identifier.ofToken token) fun n =>
          { n with label := if label.isEmpty then n.label else label
                   style := style n.style }).nodes := by
  unfold addNode
  simp only [nodes_placeNode]
  cases bracket with
  | none => exact ⟨fun style => style.merge (.applyDefaults d.graph.settings {}), rfl⟩
  | some inner =>
      exact ⟨fun style => style.merge
        ((NodeStyle.applyDefaults d.graph.settings {}).applyBracket (.ofText inner)), rfl⟩

/-- Identifiers and labels are read off the nodes. -/
private theorem ids_congr {g h : Graph} (hnodes : g.nodes = h.nodes) : g.ids = h.ids := by
  unfold Graph.ids
  rw [hnodes]

private theorem label?_congr {g h : Graph} (hnodes : g.nodes = h.nodes) (v : Text) :
    g.label? v = h.label? v := by
  unfold Graph.label? Graph.node?
  rw [hnodes]

/-- A draft takes in the mentions of a line, each at its first occurrence. -/
theorem ids_addLine (d : Draft) (index : Nat) (line : Line) :
    (d.addLine font index line).graph.ids =
      (line.content.mentions.map Identifier.ofToken).foldl Graph.addId d.graph.ids := by
  cases hcontent : line.content with
  | marker depth label bracket =>
      obtain ⟨boxes, hgraph⟩ := graph_addMarker d index depth line
      simp only [addLine, hcontent, hgraph, Content.mentions, List.map_nil, List.foldl_nil]
      rfl
  | node token label bracket =>
      simp only [addLine, hcontent, Content.mentions, List.map_cons, List.map_nil, List.foldl_cons,
        List.foldl_nil]
      have hgraph : ∀ d' : Draft, d'.graph = d.graph →
          (d'.addNode token label bracket).graph.ids =
            Graph.addId d.graph.ids (Identifier.ofToken token) := by
        intro d' hd'
        obtain ⟨style, hnodes⟩ := nodes_addNode d' token label bracket
        rw [ids_congr hnodes, Graph.ids_modifyNode (by intro n; rfl), Graph.ids_mention, hd']
      apply hgraph
      split <;> rfl
  | edge sources targets bracket =>
      simp only [addLine, hcontent, graph_addEdges]
      exact Graph.ids_mentions d.graph _
  | blank => simp [addLine, hcontent, Content.mentions]
  | setting phrase known value =>
      simp only [addLine, hcontent, addSetting_eq, Content.mentions, List.map_nil, List.foldl_nil]
      rfl
  | unrecognised => simp [addLine, hcontent, Content.mentions, report]

/-- The label of a node after its definition, whatever stood there before. -/
theorem label?_addNode (d : Draft) {token label : Text} {bracket : Option Text} (v : Text) :
    (d.addNode token label bracket).graph.label? v =
      if v = Identifier.ofToken token ∧ label ≠ [] then some label
      else (d.graph.mention token).label? v := by
  obtain ⟨style, hnodes⟩ := nodes_addNode d token label bracket
  rw [label?_congr hnodes]
  unfold Graph.label?
  rw [Graph.node?_modifyNode (by intro n; rfl)]
  by_cases hv : v = Identifier.ofToken token
  · subst hv
    obtain ⟨n, hn⟩ :=
      Option.isSome_iff_exists.mp (Graph.node?_isSome.mpr (d.graph.mem_ids_mention token))
    by_cases hlabel : label = []
    · simp [hn, hlabel]
    · simp [hn, hlabel]
  · simp [hv]

/-- The label of a node after a line: its tokens are mentioned, and then the
label of a definition is written. -/
theorem label?_addLine_or (d : Draft) (index : Nat) (line : Line) (v : Text) :
    (d.addLine font index line).graph.label? v =
      (line.content.ownLabel.lookup v).or
        ((d.graph.mentionAll line.content.mentions).label? v) := by
  cases hcontent : line.content with
  | node token text bracket =>
      have hnode : (d.addLine font index line).graph.label? v =
          if v = Identifier.ofToken token ∧ text ≠ [] then some text
          else (d.graph.mention token).label? v := by
        simp only [addLine, hcontent]
        split
        · exact label?_addNode d v
        · exact label?_addNode (d.report _ index _) v
      rw [hnode]
      simp only [Content.ownLabel, List.isEmpty_iff]
      by_cases htext : text = []
      · simp [htext, Content.mentions, Graph.mentionAll]
      · by_cases hv : v = Identifier.ofToken token
        · simp [htext, hv]
        · have hv' : (v == Identifier.ofToken token) = false := by simpa using hv
          simp [htext, hv, hv', Content.mentions, Graph.mentionAll]
  | edge sources targets bracket =>
      simp only [addLine, hcontent, graph_addEdges]
      rfl
  | marker depth text bracket =>
      obtain ⟨boxes, hgraph⟩ := graph_addMarker d index depth line
      simp only [addLine, hcontent, hgraph]
      rfl
  | blank => simp only [addLine, hcontent]; rfl
  | setting phrase known value => simp only [addLine, hcontent, addSetting_eq]; rfl
  | unrecognised => simp only [addLine, hcontent]; rfl

/-- A draft takes in the labels that a line writes for a node that is there; the
last one counts. -/
theorem label?_addLine {d : Draft} {v label : Text} (h : d.graph.label? v = some label)
    (index : Nat) (line : Line) :
    (d.addLine font index line).graph.label? v =
      some (Graph.lastWrite v label line.content.labelWrites) := by
  rw [label?_addLine_or, Graph.label?_mentions h, Content.labelWrites, Graph.lastWrite_append]
  rcases line.content.ownLabel_cases with hnone | ⟨id, own, hone⟩
  · rw [hnone]
    rfl
  · rw [hone]
    by_cases hv : v = id
    · simp [hv, Graph.lastWrite]
    · have hv' : ¬ id = v := fun heq => hv heq.symm
      have hskip : (v == id) = false := by simpa using hv
      simp [hskip, hv', Graph.lastWrite]

/-- The label of a node right after a definition that writes one. -/
theorem label?_addLine_node (d : Draft) (index : Nat) {line : Line} {token label : Text}
    {bracket : Option Text} (h : line.content = .node token label bracket) (hlabel : label ≠ []) :
    (d.addLine font index line).graph.label? (Identifier.ofToken token) = some label := by
  simp only [addLine, h]
  rw [label?_addNode, if_pos ⟨rfl, hlabel⟩]

/-! ## Whole documents -/

/-- **A run over lines goes on** where the run over the first of them has ended,
with the number of the line at which it is. -/
theorem addLines_append (d : Draft) (index : Nat) (first second : List Text) :
    addLines font d index (first ++ second) =
      addLines font (addLines font d index first) (index + first.length) second := by
  induction first generalizing d index with
  | nil => rfl
  | cons raw first ih =>
      rw [List.cons_append, addLines, addLines, ih, List.length_cons]
      congr 1
      omega

/-- The draft of a document with one more line.  This is the step of every
induction over a document from its end. -/
theorem ofLines_concat (lines : List Text) (raw : Text) :
    ofLines font (lines ++ [raw]) =
      (ofLines font lines).addLine font lines.length (.ofText raw) := by
  unfold ofLines
  rw [addLines_append, Nat.zero_add]
  rfl

/-- What holds at the start and is kept by each line holds of the draft of every
document. -/
theorem ofLines_induction {P : List Text → Draft → Prop} (start : P [] {})
    (step : ∀ lines raw d, P lines d →
      P (lines ++ [raw]) (d.addLine font lines.length (.ofText raw)))
    (lines : List Text) : P lines (ofLines font lines) := by
  induction lines using List.reverseRecOn with
  | nil => exact start
  | append_singleton lines raw ih =>
      rw [ofLines_concat]
      exact step lines raw _ ih

/-- The draft of a document, at one of its lines: the lines before it, the line,
the lines after it. -/
theorem ofLines_at {lines : List Text} {index : Nat} {raw : Text} (h : lines[index]? = some raw) :
    ofLines font lines =
      addLines font ((ofLines font (lines.take index)).addLine font index (.ofText raw))
        (index + 1) (lines.drop (index + 1)) := by
  have hlt := (List.getElem?_eq_some_iff.mp h).1
  have hlength : (lines.take index).length = index := by
    rw [List.length_take]
    omega
  conv_lhs => rw [Text.eq_take_cons_drop h]
  unfold ofLines
  rw [addLines_append, hlength, Nat.zero_add, addLines]

/-- A draft numbers its boxes by the scan of the document, which is the scan
that the editors make. -/
theorem scanner_ofLines (lines : List Text) :
    (ofLines font lines).scanner = Box.Scanner.scan lines := by
  apply ofLines_induction font (P := fun lines d => d.scanner = Box.Scanner.scan lines)
  · rfl
  · intro lines raw d hd
    rw [scanner_addLine, Box.Scanner.scan_concat, hd]

/-- A run over lines adds the edges of each line at the end, in the order of the
lines, each with the number of its line. -/
theorem edges_addLines (d : Draft) (index : Nat) (lines : List Text) :
    (addLines font d index lines).graph.edges =
      d.graph.edges ++ (lines.mapIdx fun i raw =>
        (Line.contentOfRaw raw).edges font (index + i + 1)).flatten := by
  induction lines generalizing d index with
  | nil => simp [addLines]
  | cons raw lines ih =>
      rw [addLines, ih, edges_addLine, List.mapIdx_cons, List.flatten_cons, List.append_assoc]
      have hshift : (fun i (raw : Text) => (Line.contentOfRaw raw).edges font (index + 1 + i + 1)) =
          fun i raw => (Line.contentOfRaw raw).edges font (index + (i + 1) + 1) := by
        funext i raw
        congr 1
        omega
      rw [hshift]
      rfl

/-- The edges of a document are those of its lines, which are numbered. -/
theorem edges_ofLines (lines : List Text) :
    (ofLines font lines).graph.edges =
      ((lines.map Line.contentOfRaw).mapIdx fun i content =>
        content.edges font (i + 1)).flatten := by
  have hmap : (lines.map Line.contentOfRaw).mapIdx (fun i content => content.edges font (i + 1)) =
      lines.mapIdx fun i raw => (Line.contentOfRaw raw).edges font (0 + i + 1) := by
    apply List.ext_getElem?
    intro i
    simp [Function.comp_def]
  unfold ofLines
  rw [edges_addLines, hmap]
  rfl

/-- The edges of a document are told by what its lines say, so comments and
blanks have no effect on them. -/
theorem edges_ofLines_congr {first second : List Text}
    (h : first.map Line.contentOfRaw = second.map Line.contentOfRaw) :
    (ofLines font first).graph.edges = (ofLines font second).graph.edges := by
  rw [edges_ofLines, edges_ofLines, h]

/-- Blank lines add nothing. -/
theorem addLines_of_blank (d : Draft) (index : Nat) {lines : List Text}
    (h : ∀ raw ∈ lines, Line.contentOfRaw raw = .blank) : addLines font d index lines = d := by
  induction lines generalizing index with
  | nil => rfl
  | cons raw lines ih =>
      have hraw : (Line.ofText raw).content = .blank := h raw List.mem_cons_self
      have hline : d.addLine font index (.ofText raw) = d := by simp only [addLine, hraw]
      rw [addLines, hline]
      exact ih (index + 1) fun other hother => h other (List.mem_cons_of_mem raw hother)

/-- A run over lines adds a node for each token that is mentioned, at its first
mention, and none twice. -/
theorem ids_addLines (d : Draft) (index : Nat) (lines : List Text) :
    (addLines font d index lines).graph.ids =
      ((lines.flatMap fun raw => (Line.contentOfRaw raw).mentions).map Identifier.ofToken).foldl
        Graph.addId d.graph.ids := by
  induction lines generalizing d index with
  | nil => rfl
  | cons raw lines ih =>
      rw [addLines, ih, ids_addLine, List.flatMap_cons, List.map_append, List.foldl_append]
      rfl

/-- The nodes of a document stand in the order of their first mentions, in
whatever lines these are. -/
theorem ids_ofLines (lines : List Text) : (ofLines font lines).graph.ids =
    ((lines.flatMap fun raw => (Line.contentOfRaw raw).mentions).map
      Identifier.ofToken).eraseDups := by
  unfold ofLines
  rw [ids_addLines, ← Graph.foldl_addId_nil]
  rfl

/-- The nodes of a document are those that its lines mention. -/
theorem mem_ids_ofLines {lines : List Text} {v : Text} :
    v ∈ (ofLines font lines).graph.ids ↔ v ∈ (lines.map Line.contentOfRaw).flatMap fun content =>
      content.mentions.map Identifier.ofToken := by
  rw [ids_ofLines, List.mem_eraseDups, List.map_flatMap, List.flatMap_map]

/-- No two nodes of a document have one identifier. -/
theorem nodup_ids_ofLines (lines : List Text) : (ofLines font lines).graph.ids.Nodup := by
  rw [ids_ofLines, ← Graph.foldl_addId_nil]
  exact Graph.nodup_foldl_addId List.nodup_nil _

/-- The identifiers of a document are told by those that its lines mention. -/
theorem ids_ofLines_congr {first second : List Text}
    (h : (first.map fun raw => (Line.contentOfRaw raw).mentions.map Identifier.ofToken) =
      second.map fun raw => (Line.contentOfRaw raw).mentions.map Identifier.ofToken) :
    (ofLines font first).graph.ids = (ofLines font second).graph.ids := by
  unfold ofLines
  rw [ids_addLines, ids_addLines, List.map_flatMap, List.map_flatMap, List.flatMap_def,
    List.flatMap_def, h]

/-- The label of a node that is there, after more lines: the last one that they
write, or the one it had. -/
theorem label?_addLines {d : Draft} {v label : Text} (h : d.graph.label? v = some label)
    (index : Nat) (lines : List Text) :
    (addLines font d index lines).graph.label? v =
      some (Graph.lastWrite v label
        (lines.flatMap fun raw => (Line.contentOfRaw raw).labelWrites)) := by
  induction lines generalizing d index label with
  | nil => exact h
  | cons raw lines ih =>
      rw [List.flatMap_cons, Graph.lastWrite_append]
      exact ih (label?_addLine font h index (.ofText raw)) (index + 1)

/-! ## The edges of one line -/

/-- The edges of a line carry its number. -/
theorem line_of_mem_edges {content : Content} {number : Nat} {e : Edge}
    (h : e ∈ content.edges font number) : e.line = number := by
  cases content with
  | edge sources targets bracket =>
      simp only [Content.edges, List.mem_flatMap, List.mem_map] at h
      obtain ⟨source, -, target, -, rfl⟩ := h
      rfl
  | _ => simp [Content.edges] at h

/-- Each edge of a document is drawn by the line that it carries the number
of. -/
theorem mem_edges_ofLines {lines : List Text} {e : Edge}
    (h : e ∈ (ofLines font lines).graph.edges) :
    ∃ index raw, lines[index]? = some raw ∧ e.line = index + 1 ∧
      e ∈ (Line.contentOfRaw raw).edges font (index + 1) := by
  unfold ofLines at h
  rw [edges_addLines] at h
  simp only [List.nil_append, Nat.zero_add, List.mem_flatten, List.mem_mapIdx] at h
  obtain ⟨edges, ⟨index, hlt, rfl⟩, he⟩ := h
  exact ⟨index, lines[index], List.getElem?_eq_getElem hlt, line_of_mem_edges font he, he⟩

/-- Each edge of a document goes from a source to a target of an edge line, and
has the style of its bracket. -/
theorem exists_edgeLine {lines : List Text} {e : Edge} (h : e ∈ (ofLines font lines).graph.edges) :
    ∃ index raw sources targets bracket, lines[index]? = some raw ∧
      Line.contentOfRaw raw = .edge sources targets bracket ∧
      ∃ source ∈ splitEndpoints sources, ∃ target ∈ splitEndpoints targets,
        e = ⟨Identifier.ofToken source, Identifier.ofToken target, index + 1,
          .ofInner? font bracket⟩ := by
  obtain ⟨index, raw, hraw, -, hdrawn⟩ := mem_edges_ofLines font h
  cases hcontent : Line.contentOfRaw raw with
  | edge sources targets bracket =>
      simp only [hcontent, Content.edges, List.mem_flatMap, List.mem_map] at hdrawn
      obtain ⟨source, hsource, target, htarget, rfl⟩ := hdrawn
      exact ⟨index, raw, sources, targets, bracket, hraw, hcontent, source, hsource,
        target, htarget, rfl⟩
  | _ => simp [hcontent, Content.edges] at hdrawn

/-- The edges of a document with a given line number are those that the line
draws. -/
theorem edges_of_line {lines : List Text} {index : Nat} {raw : Text}
    (h : lines[index]? = some raw) :
    (ofLines font lines).graph.edges.filter (fun e => e.line == index + 1) =
      (Line.contentOfRaw raw).edges font (index + 1) := by
  have hother : ∀ edges : List Edge, (∀ e ∈ edges, e.line ≠ index + 1) →
      edges.filter (fun e => e.line == index + 1) = [] := by
    intro edges hne
    rw [List.filter_eq_nil_iff]
    intro e he
    simpa using hne e he
  have hbefore : ∀ e ∈ (ofLines font (lines.take index)).graph.edges, e.line ≠ index + 1 := by
    intro e he
    obtain ⟨k, raw, hk, hline, -⟩ := mem_edges_ofLines font he
    have hlt := (List.getElem?_eq_some_iff.mp hk).1
    rw [List.length_take] at hlt
    omega
  rw [ofLines_at font h, edges_addLines, edges_addLine, List.filter_append, List.filter_append,
    hother _ hbefore, List.nil_append]
  rw [hother ((lines.drop (index + 1)).mapIdx _).flatten, List.append_nil]
  · apply List.filter_eq_self.mpr
    intro e he
    simpa using line_of_mem_edges font he
  · intro e he
    simp only [List.mem_flatten, List.mem_mapIdx] at he
    obtain ⟨edges, ⟨k, hk, rfl⟩, he⟩ := he
    have := line_of_mem_edges font he
    omega

/-- A number that is not that of a line has no edges. -/
theorem edges_of_no_line {lines : List Text} {n : Nat}
    (h : ∀ index raw, lines[index]? = some raw → n ≠ index + 1) :
    (ofLines font lines).graph.edges.filter (fun e => e.line == n) = [] := by
  rw [List.filter_eq_nil_iff]
  intro e he heq
  obtain ⟨index, raw, hraw, hline, -⟩ := mem_edges_ofLines font he
  exact h index raw hraw ((beq_iff_eq.mp heq).symm.trans hline)

end Draft

end LineDiagram
