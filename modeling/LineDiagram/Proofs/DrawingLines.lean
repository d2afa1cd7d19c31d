import LineDiagram.Proofs.BoxForest
import LineDiagram.Proofs.Document
import LineDiagram.Proofs.SingleLine

/-!
# The lines of a drawing

No text of a graph holds a line feed, so the statements that the writer puts
together are the lines of the drawing.

* `Draft.oneLine_ofLines` — all texts of the graph of a document are on one
  line;
* `Dot.oneLine_lines` — so is each statement of the drawing;
* `splitOn_dot` — a drawing, divided at its line feeds, is the list of these
  statements.
-/

namespace LineDiagram

open Text

namespace Graph

/-- All texts of a graph that are drawn are on one line. -/
structure OneLine (g : Graph) : Prop where
  settings : ∀ s, ∀ t ∈ g.settings.text s, Text.OneLine t
  nodes : ∀ n ∈ g.nodes, Text.OneLine n.id ∧ Text.OneLine n.label ∧ n.style.OneLine
  edges : ∀ e ∈ g.edges, Text.OneLine e.source ∧ Text.OneLine e.target ∧ e.style.OneLine
  boxes : ∀ b ∈ g.boxes, Text.OneLine b.label ∧ b.style.OneLine

/-- A change to a node that keeps its texts on one line keeps those of the graph
on one line. -/
theorem OneLine.modifyNode {g : Graph} (h : OneLine g) {id : Text} {f : Node → Node}
    (hf : ∀ n ∈ g.nodes,
      Text.OneLine (f n).id ∧ Text.OneLine (f n).label ∧ (f n).style.OneLine) :
    OneLine (g.modifyNode id f) := by
  refine ⟨h.settings, ?_, h.edges, h.boxes⟩
  intro n hn
  obtain ⟨old, hold, rfl⟩ := List.mem_map.mp hn
  split
  · exact hf old hold
  · exact h.nodes old hold

/-- Mentioning a token on one line keeps the texts of the graph on one line. -/
theorem OneLine.mention {g : Graph} (h : OneLine g) {token : Text} (htoken : Text.OneLine token) :
    OneLine (g.mention token) := by
  unfold Graph.mention
  dsimp only
  split
  · refine ⟨h.settings, ?_, h.edges, h.boxes⟩
    intro n hn
    rcases List.mem_append.mp hn with hold | hnew
    · exact h.nodes n hold
    · rw [List.mem_singleton.mp hnew]
      exact ⟨Identifier.oneLine_ofToken _, htoken.trim, NodeStyle.oneLine_empty⟩
  · split
    · exact h
    · apply h.modifyNode
      intro n hn
      obtain ⟨hid, -, hstyle⟩ := h.nodes n hn
      exact ⟨hid, htoken.trim, hstyle⟩

/-- So does mentioning several of them. -/
theorem OneLine.mentionAll {g : Graph} (h : OneLine g) {tokens : List Text}
    (htokens : ∀ token ∈ tokens, Text.OneLine token) : OneLine (g.mentionAll tokens) := by
  induction tokens generalizing g with
  | nil => exact h
  | cons token tokens ih =>
      exact ih (h.mention (htokens token List.mem_cons_self))
        (fun t ht => htokens t (List.mem_cons_of_mem _ ht))

/-- The lists of boxes in boxes hold numbers, not texts. -/
theorem OneLine.addBox {g : Graph} (h : OneLine g) {box : Box}
    (hbox : Text.OneLine box.label ∧ box.style.OneLine) : OneLine (g.addBox box) := by
  have hboxes : ∀ b ∈ (g.addBox box).boxes, Text.OneLine b.label ∧ b.style.OneLine := by
    intro b hb
    obtain ⟨old, hold, hsame⟩ := mem_boxes_addBox hb
    have hold : Text.OneLine old.label ∧ old.style.OneLine := by
      rcases List.mem_append.mp hold with hold | hnew
      · exact h.boxes old hold
      · rw [List.mem_singleton.mp hnew]
        exact hbox
    rcases hsame with rfl | ⟨index, rfl⟩
    · exact hold
    · exact hold
  refine ⟨?_, ?_, ?_, hboxes⟩
  all_goals
    unfold Graph.addBox
    dsimp only
    split
  · exact h.settings
  · exact h.settings
  · exact h.nodes
  · exact h.nodes
  · exact h.edges
  · exact h.edges

end Graph

/-- The endpoints of one side of an edge line are on one line if the side is. -/
theorem oneLine_splitEndpoints {t : Text} (h : OneLine t) :
    ∀ token ∈ splitEndpoints t, OneLine token :=
  oneLine_parts (h.sublist List.filter_sublist)

namespace Draft

variable {font : Text}

/-- Putting a node into a box changes no text. -/
theorem oneLine_placeNode {d : Draft} (h : d.graph.OneLine) (id : Text) :
    (d.placeNode id).graph.OneLine := by
  unfold placeNode
  split
  · refine ⟨h.settings, h.nodes, h.edges, ?_⟩
    intro b hb
    obtain ⟨old, hold, rfl⟩ := List.mem_map.mp hb
    split
    · dsimp only
      unfold Box.addMember
      split <;> exact h.boxes old hold
    · exact h.boxes old hold
  · exact h

/-- A definition whose token, label and bracket are on one line keeps the texts
of the graph on one line. -/
theorem oneLine_addNode {d : Draft} (h : d.graph.OneLine) {token label : Text}
    {bracket : Option Text} (htoken : OneLine token) (hlabel : OneLine label)
    (hbracket : ∀ inner ∈ bracket, OneLine inner) :
    (d.addNode token label bracket).graph.OneLine := by
  have hdefaults : (NodeStyle.applyDefaults d.graph.settings {}).OneLine :=
    NodeStyle.oneLine_empty.applyDefaults h.settings
  apply oneLine_placeNode
  apply (h.mention htoken).modifyNode
  intro n hn
  obtain ⟨hid, hold, hstyle⟩ := (h.mention htoken).nodes n hn
  refine ⟨hid, ?_, hstyle.merge ?_⟩
  · dsimp only
    split
    · exact hold
    · exact hlabel
  · split
    · rename_i inner
      exact hdefaults.applyBracket (Bracket.oneLine_ofText (hbracket inner rfl))
    · exact hdefaults

/-- So does an edge line whose two sides and bracket are on one line, if the
font is. -/
theorem oneLine_addEdges (hfont : OneLine font) {d : Draft} (h : d.graph.OneLine) (index : Nat)
    (raw : Text) {sources targets : Text} {bracket : Option Text} (hsources : OneLine sources)
    (htargets : OneLine targets) (hbracket : ∀ inner ∈ bracket, OneLine inner) :
    (addEdges font d index raw sources targets bracket).graph.OneLine := by
  have hall : (d.graph.mentionAll (Content.mentions (.edge sources targets bracket))).OneLine := by
    apply h.mentionAll
    intro token htoken
    simp only [Content.mentions] at htoken
    split at htoken
    · cases htoken
    · obtain ⟨source, hsource, htoken⟩ := List.mem_flatMap.mp htoken
      rcases List.mem_cons.mp htoken with rfl | htarget
      · exact oneLine_splitEndpoints hsources _ hsource
      · exact oneLine_splitEndpoints htargets _ htarget
  have hstyle : (EdgeStyle.ofInner? font bracket).OneLine := by
    cases bracket with
    | none => exact EdgeStyle.oneLine_empty
    | some inner =>
      exact EdgeStyle.oneLine_ofBracket hfont (Bracket.oneLine_ofText (hbracket inner rfl))
  rw [graph_addEdges]
  refine ⟨hall.settings, hall.nodes, ?_, hall.boxes⟩
  intro e he
  rcases List.mem_append.mp he with hold | hnew
  · exact h.edges e hold
  · obtain ⟨source, -, he⟩ := List.mem_flatMap.mp hnew
    obtain ⟨target, -, rfl⟩ := List.mem_map.mp he
    exact ⟨Identifier.oneLine_ofToken _, Identifier.oneLine_ofToken _, hstyle⟩

/-- So does a marker: it adds at most a box with its own label and bracket. -/
theorem oneLine_addMarker {d : Draft} (h : d.graph.OneLine) (index depth : Nat) {line : Line}
    (hline : line.content.OneLine) : (d.addMarker index depth line).graph.OneLine := by
  unfold addMarker
  split
  · exact h
  · have hfed := Box.Scanner.feed_fed d.scanner index line
    generalize d.scanner.feed index line = result at hfed
    cases hfed with
    | skipped => exact h
    | closed => exact h
    | opened depth label bracket hcontent =>
        rw [hcontent] at hline
        apply h.addBox
        refine ⟨hline.1, BoxStyle.oneLine_ofInner (Text.OneLine.trim ?_)⟩
        cases bracket with
        | none => exact oneLine_nil
        | some inner => exact hline.2 inner rfl

/-- Every line keeps the texts of the graph on one line each, since all of them
are cut out of the line. -/
theorem oneLine_addLine (hfont : OneLine font) {d : Draft} (h : d.graph.OneLine) (index : Nat)
    {raw : Text} (hraw : OneLine raw) : (d.addLine font index (.ofText raw)).graph.OneLine := by
  have hcontent : (Line.ofText raw).content.OneLine :=
    Line.oneLine_contentOf (Line.oneLine_strip hraw)
  generalize Line.ofText raw = line at hcontent
  cases hkind : line.content with
  | blank => simp only [addLine, hkind]; exact h
  | unrecognised => simp only [addLine, hkind]; exact h
  | marker depth label bracket =>
      simp only [addLine, hkind]
      exact oneLine_addMarker h index depth hcontent
  | setting phrase known value =>
      rw [hkind] at hcontent
      simp only [addLine, hkind, addSetting]
      split
      · rename_i assigned _
        refine ⟨?_, h.nodes, h.edges, h.boxes⟩
        intro s t ht
        cases assigned with
        | number n => exact h.settings s t ht
        | text written =>
            simp only [Settings.assign, Settings.setText] at ht
            split at ht
            · exact written.oneLine_read hcontent t ht
            · exact h.settings s t ht
      · exact h
  | node token label bracket =>
      rw [hkind] at hcontent
      simp only [addLine, hkind]
      refine oneLine_addNode ?_ hcontent.1 hcontent.2.1 hcontent.2.2
      split <;> exact h
  | edge sources targets bracket =>
      rw [hkind] at hcontent
      simp only [addLine, hkind]
      exact oneLine_addEdges hfont h index _ hcontent.1 hcontent.2.1 hcontent.2.2

/-- All texts of the graph of some lines are on one line each, by induction over
the lines. -/
theorem oneLine_ofLines (hfont : OneLine font) {lines : List Text}
    (h : ∀ raw ∈ lines, OneLine raw) : (ofLines font lines).graph.OneLine := by
  have hall : ∀ (d : Draft) (index : Nat), d.graph.OneLine →
      (addLines font d index lines).graph.OneLine := by
    induction lines with
    | nil => exact fun d index hd => hd
    | cons raw rest ih =>
        intro d index hd
        exact ih (fun r hr => h r (List.mem_cons_of_mem _ hr)) _ _
          (oneLine_addLine hfont hd index (h raw List.mem_cons_self))
  exact hall {} 0 ⟨by simp, by simp, by simp, by simp⟩

end Draft

/-! ## Drawings -/

namespace Dot

@[simp] theorem valueText_text (t : Text) : valueText (.text t) = t := rfl

@[simp] theorem oneLine_null : OneLine (valueText .null) := (by decide : OneLine "None".toList)

/-- Quoting adds no line feed and takes none away. -/
@[simp] theorem oneLine_quote {t : Text} : OneLine (quote t) ↔ OneLine t := by
  have hchar : ∀ c : Char, '\n' ∈ (if c = '"' then ['\\', '"'] else [c]) ↔ '\n' = c := by
    intro c
    by_cases hc : c = '"'
    · simp [hc]
    · simp [hc]
  simp [quote, OneLine, hchar]

@[simp] theorem oneLine_assignment {name : Text} {v : Value} :
    OneLine (assignment name v) ↔ OneLine name ∧ OneLine (valueText v) := by
  simp [assignment]

/-- A list of attributes is on one line if all names and values are. -/
theorem oneLine_attributesOf {attributes : List (String × Value)}
    (h : ∀ a ∈ attributes, OneLine a.1.toList ∧ OneLine (valueText a.2)) :
    OneLine (attributesOf attributes) := by
  unfold attributesOf attributeList
  dsimp only
  split
  · exact oneLine_nil
  · simp only [oneLine_append]
    refine ⟨⟨by decide, oneLine_join (by decide) ?_⟩, by decide⟩
    intro t ht
    obtain ⟨a, ha, rfl⟩ := List.mem_map.mp ht
    obtain ⟨b, hb, rfl⟩ := List.mem_map.mp (List.mem_filter.mp ha).1
    exact oneLine_assignment.mpr (h b hb)

/-- A statement with attributes is on one line if its head and its attributes
are. -/
theorem oneLine_statement {head : Text} {attributes : List (String × Value)} (hhead : OneLine head)
    (h : ∀ a ∈ attributes, OneLine a.1.toList ∧ OneLine (valueText a.2)) :
    OneLine (head ++ attributesOf attributes ++ ";") := by
  simp [hhead, oneLine_attributesOf h]

/-- A text that may be absent is written on one line if it is on one line when
it is there. -/
theorem oneLine_ofText? {o : Option Text} (h : ∀ t ∈ o, OneLine t) :
    OneLine (valueText (.ofText? o)) := by
  cases o with
  | none => exact oneLine_null
  | some t => exact h t rfl

@[simp] theorem oneLine_whole (n : Int) : OneLine (valueText (.whole n)) := oneLine_ofInt n

@[simp] theorem oneLine_ofInt? (o : Option Int) : OneLine (valueText (.ofInt? o)) := by
  cases o with
  | none => exact oneLine_null
  | some n => exact oneLine_ofInt n

@[simp] theorem oneLine_ofBinary64? (o : Option Binary64) :
    OneLine (valueText (.ofBinary64? o)) := by
  cases o with
  | none => exact oneLine_null
  | some x => exact x.oneLine_compactText

/-- Style words with commas between them are on one line if each of them is. -/
theorem oneLine_joinStyles {styles : List Text} (h : ∀ w ∈ styles, OneLine w) :
    OneLine (joinStyles styles) := oneLine_join (by decide) h

/-- Wrapping keeps a label on one line: the breaks it puts in are written as a
backslash and an n. -/
theorem oneLine_wrap {label : Text} (h : OneLine label) (limit : Option Binary64) :
    OneLine (Label.wrap label limit) := by
  have hfill : ∀ (limit : Binary64) (words done : List Text) (current : Text),
      (∀ w ∈ words, OneLine w) → (∀ l ∈ done, OneLine l) → OneLine current →
      ∀ l ∈ Label.fillLines limit done current words, OneLine l := by
    intro limit words
    induction words with
    | nil =>
        intro done current _ hdone hcurrent l hl
        rw [Label.fillLines, List.mem_reverse] at hl
        rcases List.mem_cons.mp hl with rfl | hl
        · exact hcurrent
        · exact hdone l hl
    | cons word words ih =>
        intro done current hwords hdone hcurrent l hl
        have hword := hwords word List.mem_cons_self
        have hrest : ∀ w ∈ words, OneLine w := fun w hw => hwords w (List.mem_cons_of_mem _ hw)
        rw [Label.fillLines] at hl
        split at hl
        · refine ih done _ hrest hdone ?_ l hl
          simp only [oneLine_append]
          exact ⟨⟨hcurrent, by decide⟩, hword⟩
        · refine ih _ word hrest ?_ hword l hl
          intro k hk
          rcases List.mem_cons.mp hk with rfl | hk
          · exact hcurrent
          · exact hdone k hk
  unfold Label.wrap
  split
  · split
    · split
      · exact h
      · rename_i word rest hwords
        have hall := oneLine_words label
        rw [hwords] at hall
        exact oneLine_join (by decide) (hfill _ rest [] word
          (fun w hw => hall w (List.mem_cons_of_mem _ hw)) (by simp) (hall word List.mem_cons_self))
    · exact h
  · exact h

theorem oneLine_tokenOf (t : Text) : OneLine (Element.tokenOf t) :=
  oneLine_underscoreRuns (by decide) t

@[simp] theorem oneLine_nodeElement (id : Text) : OneLine (Element.ofNodeId id).id :=
  oneLine_append.mpr ⟨by decide, oneLine_tokenOf id⟩

@[simp] theorem oneLine_edgeElement (e : Edge) : OneLine (Element.ofEdge e).id := by
  unfold Element.ofEdge Element.id
  simp only [oneLine_append]
  exact ⟨⟨⟨⟨⟨by decide, oneLine_ofNat e.line⟩, by decide⟩, oneLine_tokenOf _⟩, by decide⟩,
    oneLine_tokenOf _⟩

variable {g : Graph} {font : Text}

/-- The statement of a node is one line. -/
theorem oneLine_nodeStatement (h : g.OneLine) {indent : Text} (hindent : OneLine indent) {n : Node}
    (hn : n ∈ g.nodes) : OneLine (nodeStatement g indent n) := by
  obtain ⟨hid, hlabel, hstyle⟩ := h.nodes n hn
  have hstyle := hstyle.applyDefaults h.settings
  apply oneLine_statement
  · simp [hindent, hid]
  · simp [oneLine_ofText? hstyle.fill, oneLine_joinStyles hstyle.styles, oneLine_wrap hlabel,
      oneLine_ofText? hstyle.borderColour, oneLine_ofText? hstyle.fontSize]

/-- The statement of an edge is one line. -/
theorem oneLine_edgeStatement (h : g.OneLine) {e : Edge} (he : e ∈ g.edges) :
    OneLine (edgeStatement e) := by
  obtain ⟨hsource, htarget, hstyle⟩ := h.edges e he
  apply oneLine_statement
  · simp [hsource, htarget]
  · simp [oneLine_ofText? hstyle.label, oneLine_ofText? hstyle.colour, oneLine_ofText? hstyle.font,
      oneLine_joinStyles hstyle.styles]

/-- The width of the links is written on one line. -/
@[simp] theorem oneLine_linkWidth (settings : Settings) :
    OneLine (valueText (linkWidth settings)) := by
  unfold linkWidth
  split
  · split
    · split
      · exact oneLine_whole _
      · exact oneLine_null
    · exact oneLine_null
  · exact oneLine_null

/-- Each statement that sets a default is one line. -/
theorem oneLine_defaults (h : g.OneLine) (hfont : OneLine font) :
    ∀ l ∈ defaults g.settings font, OneLine l := by
  have hstyle : ∀ t ∈ linkStyle g.settings, OneLine t := by
    intro t ht
    exact h.settings _ t (Option.filter_eq_some_iff.mp ht).1
  have htext := fun s => oneLine_ofText? (h.settings s)
  unfold defaults
  simp only [List.forall_mem_cons]
  refine ⟨oneLine_statement (by decide) ?_, oneLine_statement (by decide) ?_,
    oneLine_statement (by decide) ?_, by simp⟩
  · simp [hfont]
  · simp [hfont, htext, Value.ofString]
  · simp [hfont, htext, oneLine_ofText? hstyle]

/-- The two places of a title are on one line, whatever position is asked
for. -/
theorem oneLine_titlePlace (t : Text) : OneLine (titlePlace t).1 ∧ OneLine (titlePlace t).2 := by
  unfold titlePlace
  dsimp only
  refine ⟨?_, ?_⟩
  · split <;> decide
  · split
    · decide
    · split <;> decide

/-- The statement of the title is one line if the title is. -/
theorem oneLine_titleStatement (settings : Settings) {title : Text} (h : OneLine title) :
    OneLine (titleStatement settings title) := by
  unfold titleStatement
  obtain ⟨hvertical, hhorizontal⟩ := oneLine_titlePlace ((settings.text .titlePosition).getD [])
  generalize titlePlace ((settings.text .titlePosition).getD []) = place at hvertical hhorizontal
  obtain ⟨vertical, horizontal⟩ := place
  have hsize : OneLine (valueText (.real (titleSize settings))) := Binary64.oneLine_compactText _
  simp only at hvertical hhorizontal
  simp [h, hvertical, hhorizontal, hsize]

/-- Each statement about the whole drawing is one line. -/
theorem oneLine_directives (h : g.OneLine) : ∀ l ∈ directives g.settings, OneLine l := by
  have hdirective : ∀ (name : String) v, OneLine name.toList → OneLine (valueText v) →
      OneLine (directive name v) := by
    intro name v hname hv
    simp [directive, hname, hv]
  have htext : ∀ (name : String) s, OneLine name.toList →
      ∀ l ∈ directive? name (g.settings.text s), OneLine l := by
    intro name s hname l hl
    obtain ⟨t, ht, rfl⟩ := Option.map_eq_some_iff.mp (Option.mem_toList.mp hl)
    exact hdirective name _ hname (oneLine_filled? (h.settings s) t ht)
  have hdistance : ∀ (name : String) d, OneLine name.toList →
      ∀ l ∈ separation name d, OneLine l := by
    intro name d hname l hl
    obtain ⟨x, -, rfl⟩ := Option.map_eq_some_iff.mp (Option.mem_toList.mp hl)
    exact hdirective name _ hname (Binary64.oneLine_compactText _)
  intro l hl
  unfold directives at hl
  simp only [List.mem_append] at hl
  rcases hl with ((((hl | hl) | hl) | hl) | hl) | hl
  · exact htext _ _ (by decide) l hl
  · exact htext _ _ (by decide) l hl
  · obtain ⟨title, htitle, rfl⟩ := Option.map_eq_some_iff.mp (Option.mem_toList.mp hl)
    exact oneLine_titleStatement _ (oneLine_filled? (h.settings .title) title htitle)
  · exact htext _ _ (by decide) l hl
  · exact hdistance _ _ (by decide) l hl
  · exact hdistance _ _ (by decide) l hl

/-- Each statement about a box itself is one line. -/
theorem oneLine_boxAttributes (h : g.OneLine) {indent : Text} (hindent : OneLine indent) {b : Box}
    (hb : b ∈ g.boxes) : ∀ l ∈ boxAttributes g indent b, OneLine l := by
  obtain ⟨hlabel, hstyle⟩ := h.boxes b hb
  have hshown : OneLine (valueText (if (trim b.label).isEmpty then .null else .text b.label)) := by
    split
    · exact oneLine_null
    · exact hlabel
  have hcolour : OneLine ((filled? b.style.borderColour).getD "#cccccc") := by
    cases hfilled : filled? b.style.borderColour with
    | none => decide
    | some t => exact oneLine_filled? hstyle.borderColour t hfilled
  have hfont : ∀ t ∈ (filled? b.style.fontColour).orElse fun _ => g.settings.text .boxTextColour,
      OneLine t :=
    oneLine_orElse (oneLine_filled? hstyle.fontColour) (h.settings .boxTextColour)
  intro l hl
  unfold boxAttributes at hl
  obtain ⟨a, ha, rfl⟩ := List.mem_map.mp hl
  have hpair : OneLine a.1.toList ∧ OneLine (valueText a.2) := by
    have hmem := (List.mem_filter.mp ha).1
    clear ha hl
    revert a
    simp only [List.forall_mem_cons]
    exact ⟨⟨by decide, hshown⟩, ⟨by decide, oneLine_joinStyles hstyle.styles⟩,
      ⟨by decide, hcolour⟩, ⟨by decide, oneLine_ofInt? _⟩, ⟨by decide, oneLine_ofText? hstyle.fill⟩,
      ⟨by decide, oneLine_ofText? hfont⟩, ⟨by decide, oneLine_ofText? hstyle.fontSize⟩, by simp⟩
  simp [hindent, hpair]

/-- So is each statement of a node in it. -/
theorem oneLine_memberStatements (h : g.OneLine) {indent : Text} (hindent : OneLine indent)
    (b : Box) : ∀ l ∈ memberStatements g indent b, OneLine l := by
  intro l hl
  obtain ⟨n, hn, rfl⟩ := List.mem_map.mp hl
  obtain ⟨id, -, hnode⟩ := List.mem_filterMap.mp hn
  exact oneLine_nodeStatement h hindent (List.mem_of_find?_eq_some hnode)

@[simp] theorem Part.lines_join_map (boxes : List Box) (part : Box → Part) :
    (Part.join (boxes.map part)).lines = boxes.flatMap fun b => (part b).lines :=
  List.flatMap_map _ _ _

@[simp] theorem Part.boxed_join_map (boxes : List Box) (part : Box → Part) :
    (Part.join (boxes.map part)).boxed = boxes.flatMap fun b => (part b).boxed :=
  List.flatMap_map _ _ _

/-- Each line of the block of a box is one line: the induction is on the levels
that are drawn. -/
theorem oneLine_boxPart (h : g.OneLine) {levels : Nat} {indent : Text} (hindent : OneLine indent)
    {b : Box} (hb : b ∈ g.boxes) : ∀ l ∈ (boxPart g levels indent b).lines, OneLine l := by
  induction levels generalizing indent b with
  | zero =>
      intro l hl
      cases hl
  | succ levels ih =>
      have hdeeper : OneLine (indent ++ "  ") := oneLine_append.mpr ⟨hindent, by decide⟩
      intro l hl
      rw [boxPart] at hl
      simp only [List.mem_append, List.mem_singleton, Part.lines_join_map, List.mem_flatMap] at hl
      rcases hl with (((rfl | hl) | hl) | ⟨c, hc, hl⟩) | rfl
      · simp only [oneLine_append]
        refine ⟨⟨⟨hindent, by decide⟩, ?_⟩, by decide⟩
        exact oneLine_append.mpr ⟨by decide, oneLine_ofNat b.index⟩
      · exact oneLine_boxAttributes h hdeeper hb l hl
      · exact oneLine_memberStatements h hdeeper b l hl
      · exact ih hdeeper (Graph.mem_of_inside hc) l hl
      · exact oneLine_append.mpr ⟨hindent, by decide⟩

/-- Each statement of a drawing is on one line.  So a drawing can be read line
by line. -/
theorem oneLine_lines (h : g.OneLine) (hfont : OneLine font) : ∀ l ∈ lines g font, OneLine l := by
  intro l hl
  unfold lines at hl
  simp only [List.mem_append, List.mem_cons, List.not_mem_nil, or_false] at hl
  rcases hl with (((((rfl | hl) | hl) | hl) | hl) | hl) | rfl
  · decide
  · exact oneLine_defaults h hfont l hl
  · exact oneLine_directives h l hl
  · simp only [boxParts, Part.lines_join_map, List.mem_flatMap] at hl
    obtain ⟨b, hb, hl⟩ := hl
    exact oneLine_boxPart h (by decide) (List.mem_filter.mp hb).1 l hl
  · obtain ⟨n, hn, rfl⟩ := List.mem_map.mp hl
    exact oneLine_nodeStatement h (by decide) (List.mem_filter.mp hn).1
  · obtain ⟨e, he, rfl⟩ := List.mem_map.mp hl
    exact oneLine_edgeStatement h he
  · decide

end Dot

/-- **The lines of a drawing** are the statements that the writer puts
together. -/
theorem splitOn_dot (t : Text) (font : Option Text) (hfont : ∀ f ∈ font, OneLine f) :
    ∃ g, (compile t font).graph = some g ∧ g.WellNested ∧
      (compile t font).dot.splitOn '\n' =
        Dot.lines g ((filled? font).getD Label.defaultFont) := by
  refine ⟨_, graph_compile t font, Draft.wellNested_ofLines _ _, ?_⟩
  have hone : OneLine ((filled? font).getD Label.defaultFont) := by
    cases hfilled : filled? font with
    | none => decide
    | some f => exact oneLine_filled? hfont f hfilled
  have hdot : (compile t font).dot = Text.join "\n" (Dot.lines (Draft.ofLines
      ((filled? font).getD Label.defaultFont) (Document.split t)).graph
      ((filled? font).getD Label.defaultFont)) := rfl
  have hgraph :
      (Draft.ofLines ((filled? font).getD Label.defaultFont) (Document.split t)).graph.OneLine :=
    Draft.oneLine_ofLines hone (fun raw hraw => Document.not_mem_split hraw)
  rw [hdot]
  exact List.splitOn_intercalate _ (Dot.oneLine_lines hgraph hone) (by simp [Dot.lines])

end LineDiagram
