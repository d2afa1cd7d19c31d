import LineDiagram.Proofs.BoxBlocks
import LineDiagram.Proofs.Membership
import LineDiagram.Proofs.QuotedStrings
import Mathlib.Data.List.Nodup

/-!
# The statements of a drawing

A line of a drawing that starts with a quoted name draws a node, or an edge when
an arrow and a second name follow; no other line starts with a quote.
`Dot.readStatements` reads a drawing this way and gives each statement with the
block that it is directly in.

A node can be defined in several boxes, in a box that is never drawn, or in
none.  The writer notes which nodes it has drawn in boxes and draws the others
at the end, so this note has to be right.

* `readStatements_lines` — what is read from the drawing of a graph;
* `compile_statements` — every node is drawn once for each drawn box that lists
  it, or once outside all boxes, and every edge once, for every document.
-/

namespace LineDiagram

namespace Dot

/-- What a statement draws. -/
inductive Drawn where
  /-- A node. -/
  | node (id : Text)
  /-- An edge. -/
  | edge (source target : Text)
deriving DecidableEq, Repr

/-- A statement that draws something. -/
structure Statement where
  /-- Title of the block that it is directly in. -/
  block : Option Text
  /-- The statement itself. -/
  text : Text
  /-- What it draws. -/
  drawn : Drawn
deriving DecidableEq, Repr

/-- Reads what a statement draws, if it draws something. -/
def drawn? (statement : Text) : Option Drawn :=
  match quoted? statement with
  | none => none
  | some (id, rest) =>
    match Text.dropStart? " -> " rest with
    | none => some (.node id)
    | some more => (quoted? more).map fun (target, _) => .edge id target

/-- The statements that draw something, in order, each with the innermost block
around it.  The blocks that are open before are given innermost first.  Like
`readBlocks`, this reads a drawing line by line, as the writer lays it out, and
looks for quoted strings only where a statement starts. -/
def readStatements (titles : List Text) : List Text → List Statement
  | [] => []
  | line :: rest =>
    match blockMark line with
    | .opens title => readStatements (title :: titles) rest
    | .closes => readStatements titles.tail rest
    | .inside =>
      ((drawn? (Text.trimStart line)).map (⟨titles.head?, Text.trimStart line, ·⟩)).toList ++
        readStatements titles rest

/-- The node that a statement draws. -/
def Statement.node? (s : Statement) : Option Text :=
  match s.drawn with
  | .node id => some id
  | .edge _ _ => none

/-- The nodes that are drawn, in the order of the lines. -/
def nodesDrawn (lines : List Text) : List Text :=
  (readStatements [] lines).filterMap Statement.node?

/-- The nodes that are drawn outside all boxes: directly in the block of the
drawing. -/
def nodesOutside (lines : List Text) : List Text :=
  ((readStatements [] lines).filter (·.block = some drawingTitle)).filterMap Statement.node?

/-! ## Reading one statement -/

/-- An identifier in quotes is read again. -/
theorem quoted?_quote {t : Text} (h : ∀ c ∈ t, Text.isWordChar c = true) (rest : Text) :
    quoted? (quote t ++ rest) = some (t, rest) := by
  apply quoted?_quote_append
  intro hlast
  exact absurd (h _ (List.mem_of_getLast? hlast)) (by decide)

/-- No arrow follows where attributes or the end of a statement are.  This tells
nodes from edges. -/
theorem dropStart?_attributesOf (attributes : List (String × Value)) :
    Text.dropStart? " -> " (attributesOf attributes ++ ";") = none := by
  unfold attributesOf attributeList Text.dropStart?
  dsimp only
  split
  · rfl
  · rfl

/-- A quoted word with attributes and a semicolon behind it draws a node. -/
theorem drawn?_node {id : Text} (h : ∀ c ∈ id, Text.isWordChar c = true)
    (attributes : List (String × Value)) :
    drawn? (quote id ++ (attributesOf attributes ++ ";")) = some (.node id) := by
  unfold drawn?
  rw [quoted?_quote h]
  dsimp only
  rw [dropStart?_attributesOf]

/-- Two quoted words with an arrow between them draw an edge, whatever
follows. -/
theorem drawn?_edge {source target : Text} (hsource : ∀ c ∈ source, Text.isWordChar c = true)
    (htarget : ∀ c ∈ target, Text.isWordChar c = true) (rest : Text) :
    drawn? (quote source ++ (" -> " ++ (quote target ++ rest))) = some (.edge source target) := by
  unfold drawn?
  rw [quoted?_quote hsource]
  dsimp only
  rw [Text.dropStart?_append]
  dsimp only
  rw [quoted?_quote htarget]
  rfl

/-- A line that does not start with a quote draws nothing. -/
theorem drawn?_of_front {front : Text} {c : Char} (h : (Text.trimStart front).head? = some c)
    (hc : c ≠ '"') (rest : Text) : drawn? (Text.trimStart (front ++ rest)) = none := by
  have hfront : ¬ Text.AllBlank front := by
    intro hblank
    simp [Text.trimStart_eq_nil.mpr hblank] at h
  rw [Text.trimStart_append hfront]
  obtain ⟨tail, htail⟩ : ∃ tail, Text.trimStart front = c :: tail := List.head?_eq_some_iff.mp h
  rw [htail, List.cons_append]
  unfold drawn? quoted?
  split
  · rfl
  · rename_i hquoted
    split at hquoted
    · rename_i heq
      cases heq
      exact absurd rfl hc
    · cases hquoted

/-- A line that sets an attribute draws nothing, because it does not start with
a quote. -/
theorem drawn?_assignment {indent : Text} (hindent : Text.AllBlank indent)
    {name : String} {c : Char}
    (h : (Text.trimStart name.toList).head? = some c) (hc : c ≠ '"') (v : Value) (rest : Text) :
    drawn? (Text.trimStart (indent ++ assignment name v ++ rest)) = none := by
  unfold assignment
  simp only [List.append_assoc]
  rw [Text.trimStart_of_blank_append hindent]
  exact drawn?_of_front h hc _

/-- The statement of a node, whatever stands before it on its line. -/
theorem trimStart_nodeStatement (g : Graph) {indent : Text} (h : Text.AllBlank indent) (n : Node) :
    Text.trimStart (nodeStatement g indent n) = nodeStatement g [] n := by
  have hline : nodeStatement g indent n = indent ++ nodeStatement g [] n := by
    simp only [nodeStatement, List.nil_append, List.append_assoc]
  rw [hline, Text.trimStart_of_blank_append h]
  exact Text.trimStart_of_head (by decide)

theorem drawn?_nodeStatement (g : Graph) {n : Node} (h : ∀ c ∈ n.id, Text.isWordChar c = true) :
    drawn? (nodeStatement g [] n) = some (.node n.id) := by
  unfold nodeStatement
  rw [List.nil_append, List.append_assoc]
  exact drawn?_node h _

/-- The statement of an edge draws an edge between its two ends. -/
theorem drawn?_edgeStatement {e : Edge} (hsource : ∀ c ∈ e.source, Text.isWordChar c = true)
    (htarget : ∀ c ∈ e.target, Text.isWordChar c = true) :
    drawn? (Text.trimStart (edgeStatement e)) = some (.edge e.source e.target) := by
  unfold edgeStatement
  simp only [List.append_assoc]
  rw [Text.trimStart_of_blank_append (by simp [Text.AllBlank, Text.isBlank])]
  exact (congrArg drawn? (Text.trimStart_of_head (by decide))).trans (drawn?_edge hsource htarget _)

/-! ## Reading a drawing -/

/-- Lines that draw nothing, and neither open nor close a block, are skipped. -/
theorem readStatements_plain {lines : List Text}
    (h : ∀ l ∈ lines, blockMark l = .inside ∧ drawn? (Text.trimStart l) = none)
    (titles rest : List Text) :
    readStatements titles (lines ++ rest) = readStatements titles rest := by
  induction lines with
  | nil => rfl
  | cons line lines ih =>
      obtain ⟨hmark, hnone⟩ := h line List.mem_cons_self
      rw [List.cons_append, readStatements, hmark, hnone]
      exact ih (fun l hl => h l (List.mem_cons_of_mem line hl))

/-- Statements that all draw something are read one after the other, each in the
block that is open. -/
theorem readStatements_map {α : Type} (line : α → Text) (drawn : α → Drawn) {items : List α}
    (h : ∀ a ∈ items, blockMark (line a) = .inside ∧
      drawn? (Text.trimStart (line a)) = some (drawn a)) (titles rest : List Text) :
    readStatements titles (items.map line ++ rest) =
      items.map (fun a => ⟨titles.head?, Text.trimStart (line a), drawn a⟩) ++
        readStatements titles rest := by
  induction items with
  | nil => rfl
  | cons a items ih =>
      obtain ⟨hmark, hdrawn⟩ := h a List.mem_cons_self
      rw [List.map_cons, List.cons_append, readStatements, hmark, hdrawn, List.map_cons,
        List.cons_append]
      exact congrArg (_ :: ·) (ih (fun b hb => h b (List.mem_cons_of_mem a hb)))

end Dot

namespace Graph

/-- All names that a drawing quotes are made of letters, digits and
underscores. -/
structure Worded (g : Graph) : Prop where
  nodes : ∀ n ∈ g.nodes, ∀ c ∈ n.id, Text.isWordChar c = true
  edges : ∀ e ∈ g.edges, (∀ c ∈ e.source, Text.isWordChar c = true) ∧
    ∀ c ∈ e.target, Text.isWordChar c = true

/-- Whether a box that is drawn lists a node. -/
def isListed (g : Graph) (id : Text) : Bool :=
  g.boxes.any fun b => g.isDrawn b && b.members.contains id

/-- How many of the boxes that are drawn list a node. -/
def listings (g : Graph) (id : Text) : Nat :=
  g.boxes.countP fun b => g.isDrawn b && b.members.contains id

theorem isListed_iff {g : Graph} {id : Text} :
    g.isListed id = true ↔ ∃ b ∈ g.boxes, g.isDrawn b = true ∧ id ∈ b.members := by
  simp [isListed]

theorem listings_pos_iff {g : Graph} {id : Text} : 0 < g.listings id ↔ g.isListed id = true := by
  rw [listings, List.countP_pos_iff, isListed, List.any_eq_true]

end Graph

namespace Dot

variable {g : Graph}

/-- The statement of a node in a block. -/
def nodeStated (g : Graph) (block : Text) (n : Node) : Statement :=
  ⟨some block, nodeStatement g [] n, .node n.id⟩

/-- The statements of the members of a box. -/
def membersStated (g : Graph) (b : Box) : List Statement :=
  (b.members.filterMap g.node?).map (nodeStated g (boxTitle b.index))

/-- The statement of an edge. -/
def edgeStated (e : Edge) : Statement :=
  ⟨some drawingTitle, Text.trimStart (edgeStatement e), .edge e.source e.target⟩

/-- The statements of nodes, one after the other in a block. -/
theorem readStatements_nodes (h : g.Worded) {nodes : List Node} (hnodes : ∀ n ∈ nodes, n ∈ g.nodes)
    {indent : Text} (hindent : Text.AllBlank indent) (title : Text) (titles rest : List Text) :
    readStatements (title :: titles) (nodes.map (nodeStatement g indent) ++ rest) =
      nodes.map (nodeStated g title) ++ readStatements (title :: titles) rest := by
  rw [readStatements_map _ (fun n => .node n.id)]
  · congr 1
    apply List.map_congr_left
    intro n _
    rw [trimStart_nodeStatement g hindent]
    rfl
  · intro n hn
    rw [trimStart_nodeStatement g hindent]
    exact ⟨blockMark_statement _, drawn?_nodeStatement g (h.nodes n (hnodes n hn))⟩

theorem mem_nodes_of_member {b : Box} {n : Node} (hn : n ∈ b.members.filterMap g.node?) :
    n ∈ g.nodes := by
  obtain ⟨id, -, hnode⟩ := List.mem_filterMap.mp hn
  exact List.mem_of_find?_eq_some hnode

/-- The statements about a box itself draw nothing, and neither open nor close a
block. -/
theorem boxAttributes_plain (g : Graph) {indent : Text} (hindent : Text.AllBlank indent) (b : Box) :
    ∀ l ∈ boxAttributes g indent b, blockMark l = .inside ∧ drawn? (Text.trimStart l) = none := by
  intro l hl
  refine ⟨boxAttributes_inside g indent b l hl, ?_⟩
  obtain ⟨a, ha, rfl⟩ := List.mem_map.mp hl
  have hname : ∃ c, (Text.trimStart a.1.toList).head? = some c ∧ c ≠ '"' := by
    have hmem := (List.mem_filter.mp ha).1
    clear ha hl
    revert a
    simp only [List.forall_mem_cons]
    exact ⟨⟨'l', by decide⟩, ⟨'s', by decide⟩, ⟨'c', by decide⟩, ⟨'p', by decide⟩, ⟨'f', by decide⟩,
      ⟨'f', by decide⟩, ⟨'f', by decide⟩, by simp⟩
  obtain ⟨c, hhead, hc⟩ := hname
  exact drawn?_assignment hindent hhead hc _ _

/-- Parts that are read one by one are read one after the other, for each leaves
the open blocks as they were. -/
theorem readStatements_join {boxes : List Box} {part : Box → Part} {stated : Box → List Statement}
    {titles : List Text}
    (h : ∀ b ∈ boxes, ∀ rest, readStatements titles ((part b).lines ++ rest) =
      stated b ++ readStatements titles rest) (rest : List Text) :
    readStatements titles ((Part.join (boxes.map part)).lines ++ rest) =
      boxes.flatMap stated ++ readStatements titles rest := by
  rw [Part.lines_join_map]
  induction boxes with
  | nil => rfl
  | cons b boxes ih =>
      rw [List.flatMap_cons, List.append_assoc, h b List.mem_cons_self,
        ih (fun c hc => h c (List.mem_cons_of_mem b hc)), List.flatMap_cons, List.append_assoc]

/-- **The part of a box** is read as the members of the boxes that one meets
below it, box before content. -/
theorem readStatements_boxPart (h : g.Worded) {levels : Nat} {indent : Text}
    (hindent : Text.AllBlank indent) (b : Box) (titles rest : List Text) :
    readStatements titles ((boxPart g levels indent b).lines ++ rest) =
      (g.entered levels b).flatMap (membersStated g) ++ readStatements titles rest := by
  induction levels generalizing indent b titles rest with
  | zero => rfl
  | succ levels ih =>
      have hdeeper : Text.AllBlank (indent ++ "  ") := by
        rw [Text.allBlank_append]
        exact ⟨hindent, by simp [Text.AllBlank, Text.isBlank]⟩
      have hopen := blockMark_box hindent b.index
      have hclose := blockMark_close hindent
      rw [boxPart]
      dsimp only
      generalize indent ++ "subgraph " ++ Box.idOf b.index ++ " \x7b" = first at hopen
      generalize hlast : indent ++ "\x7d" = last
      rw [show indent ++ ['\x7d'] = last from hlast] at hclose
      simp only [List.append_assoc, List.cons_append, List.nil_append]
      rw [readStatements, hopen]
      dsimp only
      rw [readStatements_plain (boxAttributes_plain g hdeeper b), memberStatements,
        readStatements_nodes h (fun _ hn => mem_nodes_of_member hn) hdeeper,
        readStatements_join (fun c _ rest => ih hdeeper c _ rest), readStatements, hclose,
        Graph.entered, List.flatMap_cons, List.flatMap_assoc, List.append_assoc]
      rfl

/-- The nodes that the writer notes for a box are the members of the boxes that
one meets below it. -/
theorem boxed_boxPart (g : Graph) (levels : Nat) (indent : Text) (b : Box) :
    (boxPart g levels indent b).boxed = (g.entered levels b).flatMap (·.members) := by
  induction levels generalizing indent b with
  | zero => rfl
  | succ levels ih =>
      rw [boxPart, Graph.entered, List.flatMap_cons, List.flatMap_assoc]
      simp only [Part.boxed_join_map, ih]

/-- **The note of the writer is right**: it holds the nodes that a drawn box
lists. -/
theorem contains_boxed (h : g.WellNested) (id : Text) :
    (boxParts g).boxed.contains id = g.isListed id := by
  have hboxed : (boxParts g).boxed = (g.boxes.filter g.isDrawn).flatMap (·.members) := by
    unfold boxParts
    simp only [Part.boxed_join_map, boxed_boxPart]
    rw [← List.flatMap_assoc, h.entered_topBoxes]
  rw [hboxed, Bool.eq_iff_iff]
  simp [Graph.isListed, and_assoc]

/-- Nor do the statements that set defaults. -/
theorem defaults_plain (settings : Settings) (font : Text) :
    ∀ l ∈ defaults settings font, blockMark l = .inside ∧ drawn? (Text.trimStart l) = none := by
  have hnothing : ∀ l ∈ defaults settings font, drawn? (Text.trimStart l) = none := by
    unfold defaults
    simp only [List.forall_mem_cons, List.append_assoc]
    exact ⟨drawn?_of_front (c := 'g') (by decide) (by decide) _,
      drawn?_of_front (c := 'n') (by decide) (by decide) _,
      drawn?_of_front (c := 'e') (by decide) (by decide) _, by simp⟩
  exact fun l hl => ⟨blockMark_defaults settings font l hl, hnothing l hl⟩

/-- Nor do the statements about the whole drawing. -/
theorem directives_plain (settings : Settings) :
    ∀ l ∈ directives settings, blockMark l = .inside ∧ drawn? (Text.trimStart l) = none := by
  have hindent : Text.AllBlank "  " := by simp [Text.AllBlank, Text.isBlank]
  intro l hl
  refine ⟨blockMark_directives settings l hl, ?_⟩
  simp only [directives, directive?, separation, List.mem_append, Option.mem_toList,
    Option.map_eq_some_iff] at hl
  rcases hl with ((((hl | hl) | hl) | hl) | hl) | hl
  · obtain ⟨t, -, rfl⟩ := hl
    exact drawn?_assignment (c := 'b') hindent (by decide) (by decide) _ _
  · obtain ⟨t, -, rfl⟩ := hl
    exact drawn?_assignment (c := 'f') hindent (by decide) (by decide) _ _
  · obtain ⟨t, -, rfl⟩ := hl
    unfold titleStatement
    dsimp only
    simp only [List.append_assoc]
    rw [← List.append_assoc]
    exact drawn?_assignment (c := 'l') hindent (by decide) (by decide) _ _
  · obtain ⟨t, -, rfl⟩ := hl
    exact drawn?_assignment (c := 'r') hindent (by decide) (by decide) _ _
  · obtain ⟨d, -, rfl⟩ := hl
    exact drawn?_assignment (c := 'r') hindent (by decide) (by decide) _ _
  · obtain ⟨d, -, rfl⟩ := hl
    exact drawn?_assignment (c := 'n') hindent (by decide) (by decide) _ _

/-- **What is read from a drawing**: the members of the boxes that are drawn,
then the other nodes in their order, then the edges in theirs. -/
theorem readStatements_lines (hnested : g.WellNested) (h : g.Worded) (font : Text) :
    readStatements [] (lines g font) =
      (g.boxes.filter g.isDrawn).flatMap (membersStated g) ++
        ((g.nodes.filter fun n => !g.isListed n.id).map (nodeStated g drawingTitle) ++
          g.edges.map edgeStated) := by
  have hopen : blockMark "digraph G \x7b" = .opens drawingTitle := by decide
  have hclose : blockMark "\x7d" = .closes := by decide
  have hfree : freeNodes g (boxParts g).boxed =
      (g.nodes.filter fun n => !g.isListed n.id).map (nodeStatement g "  ") := by
    simp only [freeNodes, contains_boxed hnested]
  have hboxes : ∀ titles rest, readStatements titles ((boxParts g).lines ++ rest) =
      (g.boxes.filter g.isDrawn).flatMap (membersStated g) ++ readStatements titles rest := by
    intro titles rest
    unfold boxParts
    rw [readStatements_join fun b _ rest =>
      readStatements_boxPart h (by simp [Text.AllBlank, Text.isBlank]) b _ rest,
      ← List.flatMap_assoc, hnested.entered_topBoxes]
  have hedges : ∀ titles rest, readStatements (drawingTitle :: titles)
      (g.edges.map edgeStatement ++ rest) =
        g.edges.map edgeStated ++ readStatements (drawingTitle :: titles) rest := by
    intro titles rest
    rw [readStatements_map edgeStatement (fun e => .edge e.source e.target)]
    · rfl
    · intro e he
      exact ⟨blockMark_statement _, drawn?_edgeStatement (h.edges e he).1 (h.edges e he).2⟩
  unfold lines
  dsimp only
  generalize "digraph G \x7b".toList = first at hopen
  generalize "\x7d".toList = last at hclose
  simp only [List.append_assoc, List.cons_append]
  rw [readStatements, hopen]
  dsimp only
  rw [readStatements_plain (defaults_plain _ font), readStatements_plain (directives_plain _),
    hboxes, hfree,
    readStatements_nodes h (fun n hn => (List.mem_filter.mp hn).1)
      (by simp [Text.AllBlank, Text.isBlank]), hedges, readStatements, hclose]
  simp [readStatements]

/-! ## Counting statements -/

theorem node?_nodesStated (g : Graph) (block : Text) (nodes : List Node) :
    (nodes.map (nodeStated g block)).filterMap Statement.node? = nodes.map (·.id) := by
  rw [List.filterMap_map, ← List.filterMap_eq_map]
  rfl

theorem node?_edgesStated (edges : List Edge) :
    (edges.map edgeStated).filterMap Statement.node? = [] := by
  simp [edgeStated, Statement.node?]

/-- The members of a box are nodes of the graph, so each of them has its
statement. -/
theorem node?_membersStated {b : Box} (h : ∀ id ∈ b.members, id ∈ g.ids) :
    (membersStated g b).filterMap Statement.node? = b.members := by
  unfold membersStated
  rw [node?_nodesStated, List.map_filterMap]
  have hself : ∀ id ∈ b.members, (g.node? id).map (·.id) = some id := by
    intro id hid
    obtain ⟨n, hn⟩ := Option.isSome_iff_exists.mp (Graph.node?_isSome.mpr (h id hid))
    have heq : n.id = id := by simpa using List.find?_some hn
    rw [hn, Option.map_some, heq]
  rw [List.filterMap_congr hself, List.filterMap_some]

/-- The block of a box cannot be taken for that of the drawing, by their
titles. -/
theorem boxTitle_ne_drawingTitle (index : Nat) : boxTitle index ≠ drawingTitle := by
  intro heq
  have htitle := dropStart?_boxTitle index
  have hnone : Text.dropStart? "subgraph " drawingTitle = none := by decide
  rw [heq, hnone] at htitle
  cases htitle

theorem ids_filter_unlisted (g : Graph) :
    (g.nodes.filter fun n => !g.isListed n.id).map
    (·.id) = g.ids.filter fun id => !g.isListed id := by
  rw [Graph.ids, List.filter_map]
  rfl

/-- The nodes that are drawn: the members of the drawn boxes, and then the nodes
that none of them lists. -/
theorem nodesDrawn_lines (hnested : g.WellNested) (hworded : g.Worded)
    (hmembers : ∀ b ∈ g.boxes, ∀ id ∈ b.members, id ∈ g.ids) (font : Text) :
    nodesDrawn (lines g font) =
      (g.boxes.filter g.isDrawn).flatMap (·.members) ++ g.ids.filter fun id => !g.isListed id := by
  have hboxed : ((g.boxes.filter g.isDrawn).flatMap (membersStated g)).filterMap Statement.node? =
      (g.boxes.filter g.isDrawn).flatMap (·.members) := by
    rw [List.filterMap_flatMap, List.flatMap_def, List.flatMap_def]
    congr 1
    apply List.map_congr_left
    intro b hb
    exact node?_membersStated (hmembers b (List.mem_filter.mp hb).1)
  unfold nodesDrawn
  rw [readStatements_lines hnested hworded, List.filterMap_append, List.filterMap_append, hboxed,
    node?_nodesStated, node?_edgesStated, List.append_nil, ids_filter_unlisted]

/-- The nodes that are drawn outside all boxes: those that no drawn box
lists. -/
theorem nodesOutside_lines (hnested : g.WellNested) (hworded : g.Worded) (font : Text) :
    nodesOutside (lines g font) = g.ids.filter fun id => !g.isListed id := by
  have hboxed : ((g.boxes.filter g.isDrawn).flatMap (membersStated g)).filter
      (·.block = some drawingTitle) = [] := by
    rw [List.filter_eq_nil_iff]
    intro s hs
    obtain ⟨b, -, hs⟩ := List.mem_flatMap.mp hs
    obtain ⟨n, -, rfl⟩ := List.mem_map.mp hs
    simp [nodeStated, boxTitle_ne_drawingTitle]
  have hrest : ∀ s ∈ (g.nodes.filter fun n => !g.isListed n.id).map (nodeStated g drawingTitle) ++
      g.edges.map edgeStated, decide (s.block = some drawingTitle) = true := by
    intro s hs
    rcases List.mem_append.mp hs with hnode | hedge
    · obtain ⟨n, -, rfl⟩ := List.mem_map.mp hnode
      simp [nodeStated]
    · obtain ⟨e, -, rfl⟩ := List.mem_map.mp hedge
      simp [edgeStated]
  unfold nodesOutside
  rw [readStatements_lines hnested hworded, List.filter_append, hboxed, List.nil_append,
    List.filter_eq_self.mpr hrest, List.filterMap_append, node?_nodesStated, node?_edgesStated,
    List.append_nil, ids_filter_unlisted]

/-- A node is counted once in each box that lists it, when no box repeats it.
So counting statements is counting boxes. -/
theorem count_flatMap_members {boxes : List Box} (h : ∀ b ∈ boxes, b.members.Nodup) (id : Text) :
    (boxes.flatMap (·.members)).count id = boxes.countP fun b => b.members.contains id := by
  induction boxes with
  | nil => rfl
  | cons b boxes ih =>
      rw [List.flatMap_cons, List.count_append, ih (fun c hc => h c (List.mem_cons_of_mem b hc)),
        List.countP_cons]
      by_cases hmem : id ∈ b.members
      · rw [List.count_eq_one_of_mem (h b List.mem_cons_self) hmem, if_pos (by simpa using hmem)]
        omega
      · rw [List.count_eq_zero.mpr hmem, if_neg (by simpa using hmem)]
        omega

/-- A node is as often a member of drawn boxes as it is listed, if no box has it
twice. -/
theorem count_drawnMembers (h : ∀ b ∈ g.boxes, b.members.Nodup) (id : Text) :
    ((g.boxes.filter g.isDrawn).flatMap (·.members)).count id = g.listings id := by
  rw [count_flatMap_members (fun b hb => h b (List.mem_filter.mp hb).1), List.countP_filter]
  simp only [Graph.listings, Bool.and_comm]

/-- A node that a drawn box lists is not drawn again, and one that no box lists
is drawn once outside. -/
theorem count_unlisted (h : g.ids.Nodup) {id : Text} (hid : id ∈ g.ids) :
    (g.ids.filter fun id => !g.isListed id).count id = 1 - g.listings id := by
  by_cases hlisted : g.isListed id = true
  · have hpos := Graph.listings_pos_iff.mpr hlisted
    rw [List.count_eq_zero.mpr (by simp [hlisted])]
    omega
  · have hnone : ¬ 0 < g.listings id := fun hpos => hlisted (Graph.listings_pos_iff.mp hpos)
    rw [List.count_eq_one_of_mem (h.filter _) (List.mem_filter.mpr ⟨hid, by simp [hlisted]⟩)]
    omega

end Dot

namespace Draft

/-- The names in the graph of a document are identifiers. -/
theorem worded_ofLines (font : Text) (lines : List Text) : (ofLines font lines).graph.Worded := by
  refine ⟨?_, ?_⟩
  · intro n hn c hc
    have hid : n.id ∈ (ofLines font lines).graph.ids := List.mem_map_of_mem hn
    obtain ⟨content, -, hmention⟩ := List.mem_flatMap.mp ((mem_ids_ofLines font).mp hid)
    obtain ⟨token, -, htoken⟩ := List.mem_map.mp hmention
    rw [← htoken] at hc
    exact Identifier.isWordChar_of_mem hc
  · intro e he
    obtain ⟨index, raw, sources, targets, bracket, -, -, source, -, target, -, rfl⟩ :=
      exists_edgeLine font he
    exact ⟨fun c hc => Identifier.isWordChar_of_mem hc, fun c hc => Identifier.isWordChar_of_mem hc⟩

/-- No box lists a node twice. -/
theorem nodup_members (font : Text) {lines : List Text} {b : Box}
    (hb : b ∈ (ofLines font lines).graph.boxes) : b.members.Nodup := by
  rw [members_ofLines font hb, ← Graph.foldl_addId_nil]
  exact Graph.nodup_foldl_addId List.nodup_nil _

end Draft

namespace Graph

/-- Each node and each edge of a graph is drawn by the statements of some lines,
and nothing else is. -/
structure StatedBy (g : Graph) (lines : List Text) : Prop where
  /-- A node has a statement for each drawn box that lists it, and one when
  there is none. -/
  count : ∀ n ∈ g.nodes, (Dot.nodesDrawn lines).count n.id =
    max 1 (g.listings n.id)
  /-- A node has a statement outside all boxes exactly when no drawn box lists
  it. -/
  outside : ∀ n ∈ g.nodes, n.id ∈ Dot.nodesOutside lines ↔
    ∀ b ∈ g.boxes, g.isDrawn b = true → n.id ∉ b.members
  /-- The statements outside boxes are in the order of the nodes. -/
  ordered : (Dot.nodesOutside lines).Sublist (g.nodes.map (·.id))
  /-- The statements of nodes come first, each that of a node of the graph, and
  then the statements of the edges, one for each, in their order. -/
  edges : ∃ nodes, Dot.readStatements [] lines = nodes ++ g.edges.map Dot.edgeStated ∧
    ∀ s ∈ nodes, ∃ n ∈ g.nodes, s.drawn = .node n.id ∧ s.text = Dot.nodeStatement g [] n

/-- The drawing of a graph whose boxes list its nodes, each once, states what
the graph says. -/
theorem statedBy_lines {g : Graph} (hnested : g.WellNested) (hworded : g.Worded)
    (hids : g.ids.Nodup) (hmembers : ∀ b ∈ g.boxes, b.members.Nodup ∧ ∀ id ∈ b.members, id ∈ g.ids)
    (font : Text) : g.StatedBy (Dot.lines g font) := by
  have houtside := Dot.nodesOutside_lines hnested hworded font
  refine ⟨?_, ?_, ?_, ?_⟩
  · intro n hn
    rw [Dot.nodesDrawn_lines hnested hworded (fun b hb => (hmembers b hb).2), List.count_append,
      Dot.count_drawnMembers (fun b hb => (hmembers b hb).1),
      Dot.count_unlisted hids (List.mem_map_of_mem hn)]
    omega
  · intro n hn
    have hid : n.id ∈ g.ids := List.mem_map_of_mem hn
    rw [houtside, List.mem_filter, Bool.not_eq_true', ← Bool.not_eq_true, isListed_iff]
    simp [hid]
  · rw [houtside]
    exact List.filter_sublist
  · refine ⟨(g.boxes.filter g.isDrawn).flatMap (Dot.membersStated g) ++
      (g.nodes.filter fun n => !g.isListed n.id).map (Dot.nodeStated g Dot.drawingTitle), ?_, ?_⟩
    · rw [Dot.readStatements_lines hnested hworded, List.append_assoc]
    · intro s hs
      rcases List.mem_append.mp hs with hboxed | hfree
      · obtain ⟨b, -, hs⟩ := List.mem_flatMap.mp hboxed
        obtain ⟨n, hn, rfl⟩ := List.mem_map.mp hs
        exact ⟨n, Dot.mem_nodes_of_member hn, rfl, rfl⟩
      · obtain ⟨n, hn, rfl⟩ := List.mem_map.mp hfree
        exact ⟨n, (List.mem_filter.mp hn).1, rfl, rfl⟩

end Graph

/-- **Every node and every edge is drawn**, for every document: nothing is lost
and nothing is added.  The nodes stand in the order of their first mentions.
The lines of the drawing are its statements, as long as the font is on one
line. -/
theorem compile_statements (t : Text) (font : Option Text) :
    ∃ g lines, (compile t font).graph = some g ∧
      g.nodes.map (·.id) = (((Document.split t).flatMap fun raw =>
        (Line.contentOfRaw raw).mentions).map Identifier.ofToken).eraseDups ∧
      (compile t font).dot = Text.join "\n" lines ∧
      ((∀ f ∈ font, '\n' ∉ f) → (compile t font).dot.splitOn '\n' = lines) ∧ g.StatedBy lines := by
  refine ⟨_, _, graph_compile t font, Draft.ids_ofLines _ _, rfl, ?_, ?_⟩
  · intro hfont
    obtain ⟨g, hgraph, -, hlines⟩ := splitOn_dot t font hfont
    rw [graph_compile] at hgraph
    rw [hlines, ← Option.some.inj hgraph]
  · exact Graph.statedBy_lines (Draft.wellNested_ofLines _ _) (Draft.worded_ofLines _ _)
      (Draft.nodup_ids_ofLines _ _)
      (fun b hb => ⟨Draft.nodup_members _ hb, fun id hid => Draft.mem_ids_of_member _ hb hid⟩) _

end LineDiagram
