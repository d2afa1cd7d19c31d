import LineDiagram.Compilation
import LineDiagram.Proofs.BoxForest
import LineDiagram.Proofs.Membership

/-!
# Nothing that is looked up is missing

A draft is full of references: edges and boxes name nodes, open boxes and the
boxes in and around others are named by numbers, settings by phrases.  The
phrases that make a settings line stand in one table and what they set in
another.  `Draft.ofLines` and `Dot.render` never fail, whatever is missing.
Here every reference is looked up in its table, and the whole run fails when one
is missing; what is found is what is changed or drawn.

* `Draft.Integral` — every reference leads somewhere;
* `integral_ofLines` — this holds after any lines;
* `addLine?_eq`, `ofLines?_eq` — looking up every reference, a line does what it
  did, and so do all;
* `render?_eq` — and the drawing is the same;
* `compile_integral` — for every document, after each of its lines.
-/

namespace LineDiagram

/-! ## The tables -/

/-- The name of a setting in a record. -/
def Setting.field? (s : Setting) : Option String :=
  (settingNames.find? fun entry => entry.2 == s).map (·.1)

theorem Setting.field?_isSome (s : Setting) : s.field?.isSome = true := by
  cases s with
  | text s => cases s <;> decide
  | number s => cases s <;> decide

/-- **Every phrase that makes a settings line sets something.**  The table of
phrases and the table of what they set are two tables, and this says that
nothing is missing in the second. -/
theorem Setting.exists_ofKey? {phrase : Text} (h : isSettingPhrase phrase = true) :
    ∃ s, ofKey? phrase = some s := by
  have hall : ∀ p ∈ settingPhrases, (ofKey? p.toList).isSome = true := by decide
  obtain ⟨p, hp, heq⟩ := List.any_eq_true.mp h
  rw [← beq_iff_eq.mp heq]
  exact Option.isSome_iff_exists.mp (hall p hp)

/-- No token stands for an empty identifier. -/
theorem Identifier.ofToken_ne_nil (token : Text) : ofToken token ≠ [] := by
  intro h
  unfold ofToken at h
  dsimp only at h
  split at h
  · rename_i hbare
    rw [h] at hbare
    cases hbare
  · unfold slug at h
    dsimp only at h
    split at h
    · cases h
    · rename_i hcut
      exact hcut (List.isEmpty_iff.mpr h)

/-! ## References that lead somewhere -/

namespace Draft

/-- Every reference in a draft leads somewhere. -/
structure Integral (d : Draft) : Prop where
  /-- Edges join nodes. -/
  endpoints : ∀ e ∈ d.graph.edges, e.source ∈ d.graph.ids ∧ e.target ∈ d.graph.ids
  /-- The members of boxes are nodes. -/
  members : ∀ b ∈ d.graph.boxes, ∀ id ∈ b.members, id ∈ d.graph.ids
  /-- An open box is in the graph. -/
  stack : ∀ o ∈ d.scanner.stack, ∃ b, d.graph.box? o.index = some b ∧ b.address = o.address
  /-- The box around another one is in the graph. -/
  parents : ∀ o ∈ d.scanner.openers, ∀ p, o.parent = some p → (d.graph.box? p).isSome = true
  /-- An identifier has letters, digits and underscores of ASCII only, and at
  least one. -/
  worded : ∀ id ∈ d.graph.ids, id ≠ [] ∧ ∀ c ∈ id, Text.isWordChar c = true
  /-- No two nodes have one identifier. -/
  nodup : d.graph.ids.Nodup
  /-- Boxes are numbered in order. -/
  numbered : ∀ (i : Nat) b, d.graph.boxes[i]? = some b → b.index = i

end Draft

namespace Draft

variable (font : Text)

/-- An edge of a document is drawn by a line that mentions both its ends, so
both are nodes. -/
private theorem mem_ids_of_edge {lines : List Text} {e : Edge}
    (h : e ∈ (ofLines font lines).graph.edges) :
    e.source ∈ (ofLines font lines).graph.ids ∧ e.target ∈ (ofLines font lines).graph.ids := by
  obtain ⟨index, raw, sources, targets, bracket, hraw, hcontent, source, hsource,
      target, htarget, rfl⟩ :=
    exists_edgeLine font h
  have hline : Line.contentOfRaw raw ∈ lines.map Line.contentOfRaw :=
    List.mem_map_of_mem (List.mem_of_getElem? hraw)
  have hids : ∀ token ∈ (Line.contentOfRaw raw).mentions,
      Identifier.ofToken token ∈ (ofLines font lines).graph.ids := by
    intro token htoken
    rw [mem_ids_ofLines]
    exact List.mem_flatMap.mpr ⟨_, hline, List.mem_map_of_mem htoken⟩
  have hsome : (splitEndpoints targets).isEmpty = false :=
    List.isEmpty_eq_false_iff_exists_mem.mpr ⟨target, htarget⟩
  simp only [hcontent, Content.mentions, hsome, Bool.false_eq_true, if_false, List.mem_flatMap,
    List.mem_cons] at hids
  exact ⟨hids source ⟨source, hsource, Or.inl rfl⟩, hids target ⟨source, hsource, Or.inr htarget⟩⟩

/-- **After any lines** every reference leads somewhere.  This is the invariant
of the run, so it may be used after every line and not only at the end. -/
theorem integral_ofLines (lines : List Text) : (ofLines font lines).Integral := by
  have hnumbered : ∀ (i : Nat) b, (ofLines font lines).graph.boxes[i]? = some b → b.index = i :=
    fun _ _ hb => index_at hb
  have haddress := inStep_ofLines font lines
  have hlength := length_openers_ofLines font lines
  rw [scanner_ofLines] at hlength
  have hscan := Box.Scanner.before_scan lines
  refine ⟨fun e he => mem_ids_of_edge font he,
    fun b hb id hid => mem_ids_of_member font hb hid, ?_, ?_, ?_,
    nodup_ids_ofLines font lines, hnumbered⟩
  · intro o ho
    rw [scanner_ofLines] at ho
    obtain ⟨listed, hlisted, hsame, -⟩ := hscan.listed o ho
    have hget := congrArg (·[o.index]?) haddress
    simp only [List.getElem?_map, Box.openers, hlisted, Option.map_some] at hget
    obtain ⟨b, hb, hbox⟩ := Option.map_eq_some_iff.mp hget
    exact ⟨b, by rw [Graph.box?_eq_getElem? hnumbered, hb], hbox.trans hsame⟩
  · intro o ho p hp
    rw [scanner_ofLines] at ho
    obtain ⟨k, hk⟩ := List.mem_iff_getElem?.mp ho
    have hlt := (List.getElem?_eq_some_iff.mp hk).1
    have hearlier := hscan.nested.preorder.earlier k p
      (by rw [Box.Scanner.parents, List.getElem?_map, hk, Option.map_some, hp])
    rw [Graph.box?_eq_getElem? hnumbered, List.getElem?_eq_getElem (by omega)]
    rfl
  · intro id hid
    rw [mem_ids_ofLines, List.mem_flatMap] at hid
    obtain ⟨content, -, hcontent⟩ := hid
    obtain ⟨token, -, rfl⟩ := List.mem_map.mp hcontent
    exact ⟨Identifier.ofToken_ne_nil token, fun c hc => Identifier.isWordChar_of_mem hc⟩

/-! ## Taking in lines with every reference looked up -/

/-- Puts a node into the innermost open box, which is looked up. -/
def placeNode? (d : Draft) (id : Text) : Option Draft :=
  match d.scanner.current? with
  | some opener =>
    (d.graph.box? opener.index).map fun box =>
      { d with graph := d.graph.modifyBox opener.index fun _ => box.addMember id }
  | none => some d

/-- Takes in a definition; its node is looked up. -/
def addNode? (d : Draft) (token label : Text) (bracket : Option Text) : Option Draft :=
  let id := Identifier.ofToken token
  let defaults := NodeStyle.applyDefaults d.graph.settings {}
  let style :=
    match bracket with
    | some inner => defaults.applyBracket (.ofText inner)
    | none => defaults
  ((d.graph.mention token).node? id).bind fun n =>
    let new :=
      { n with label := if label.isEmpty then n.label else label, style := n.style.merge style }
    { d with graph := (d.graph.mention token).modifyNode id fun _ => new }.placeNode? id

/-- Takes in a marker; the opener of a new box and the box around it are looked
up, and the new box is added to the list of the one that is found. -/
def addMarker? (d : Draft) (index depth : Nat) (line : Line) : Option Draft :=
  if depth % 2 != 0 then some (d.report .oddMarker index line.raw)
  else
    match d.scanner.feed index line with
    | (.opened, scanner) =>
      scanner.current?.bind fun opener =>
        let graph := { d.graph with boxes := d.graph.boxes ++ [Box.ofOpener opener] }
        match opener.parent with
        | some p =>
          (graph.box? p).map fun around =>
            { d with scanner, graph := graph.modifyBox p fun _ => around.addChild opener.index }
        | none => some { d with scanner, graph }
    | (_, scanner) => some { d with scanner }

/-- Takes in a settings line; what its phrase sets is looked up. -/
def addSetting? (d : Draft) (phrase value : Text) : Option Draft :=
  (Setting.ofKey? phrase).map fun s =>
    { d with graph := { d.graph with settings := d.graph.settings.assign s value } }

/-- Takes in a line at a position, with every reference looked up. -/
def addLine? (d : Draft) (index : Nat) (line : Line) : Option Draft :=
  match line.content with
  | .blank => some d
  | .marker depth _ _ => d.addMarker? index depth line
  | .setting phrase _ value => d.addSetting? phrase value
  | .node token label bracket =>
    let d :=
      if Identifier.isBare token then d
      else d.report (.invalidNodeId token (Identifier.ofToken token)) index line.raw
    d.addNode? token label bracket
  | .edge sources targets bracket => some (addEdges font d index line.raw sources targets bracket)
  | .unrecognised => some (d.report .unrecognised index line.raw)

/-- Takes in lines in order, the first of them at a given position. -/
def addLines? (d : Draft) (index : Nat) : List Text → Option Draft
  | [] => some d
  | raw :: rest => (d.addLine? font index (.ofText raw)).bind fun d => addLines? d (index + 1) rest

/-- The draft of a document, with every reference looked up. -/
def ofLines? (lines : List Text) : Option Draft := addLines? font {} 0 lines

end Draft

/-- A node that was looked up can be changed in place of the one that is found
again. -/
theorem Graph.modifyNode_of_node? {g : Graph} (h : g.ids.Nodup) {id : Text} {n : Node}
    (hn : g.node? id = some n) (f : Node → Node) :
    (g.modifyNode id fun _ => f n) = g.modifyNode id f := by
  unfold modifyNode
  congr 1
  apply List.map_congr_left
  intro m hm
  split
  · rename_i hid
    have hfound := node?_of_mem h hm
    rw [beq_iff_eq.mp hid, hn] at hfound
    rw [Option.some.inj hfound]
  · rfl

/-- A box that was looked up can be changed in place of the one that is found
again. -/
theorem Graph.modifyBox_of_box? {g : Graph} (h : ∀ (i : Nat) b, g.boxes[i]? = some b → b.index = i)
    {index : Nat} {box : Box} (hbox : g.box? index = some box) (f : Box → Box) :
    (g.modifyBox index fun _ => f box) = g.modifyBox index f := by
  unfold modifyBox
  congr 1
  apply List.map_congr_left
  intro b hb
  split
  · rename_i hindex
    obtain ⟨i, hi⟩ := List.mem_iff_getElem?.mp hb
    rw [box?_eq_getElem? h, ← beq_iff_eq.mp hindex, h i b hi, hi] at hbox
    rw [Option.some.inj hbox]
  · rfl

namespace Draft

/-- The box that a node is put into is there, and no other has its number. -/
theorem placeNode?_eq {d : Draft}
    (hstack : ∀ o ∈ d.scanner.stack, (d.graph.box? o.index).isSome = true)
    (hnumbered : ∀ (i : Nat) b, d.graph.boxes[i]? = some b → b.index = i) (id : Text) :
    d.placeNode? id = some (d.placeNode id) := by
  unfold placeNode? placeNode
  cases hcurrent : d.scanner.current? with
  | none => rfl
  | some opener =>
      obtain ⟨box, hbox⟩ := Option.isSome_iff_exists.mp (hstack opener (List.mem_of_head? hcurrent))
      simp only [hbox, Option.map_some, Graph.modifyBox_of_box? hnumbered hbox (·.addMember id)]

/-- A problem that is recorded changes no reference. -/
theorem Integral.report {d : Draft} (h : d.Integral) (problem : Problem)
    (index : Nat) (raw : Text) : (d.report problem index raw).Integral :=
  ⟨h.endpoints, h.members, h.stack, h.parents, h.worded, h.nodup, h.numbered⟩

/-- The node of a definition is there, for the definition itself mentions it. -/
theorem addNode?_eq {d : Draft} (h : d.Integral) (token label : Text) (bracket : Option Text) :
    d.addNode? token label bracket = some (d.addNode token label bracket) := by
  have hids := Graph.ids_mention d.graph token
  have hnodup : (d.graph.mention token).ids.Nodup := by
    rw [hids]
    exact Graph.nodup_foldl_addId h.nodup [Identifier.ofToken token]
  obtain ⟨n, hn⟩ :=
    Option.isSome_iff_exists.mp (Graph.node?_isSome.mpr (d.graph.mem_ids_mention token))
  have hboxes : ∀ f, ((d.graph.mention token).modifyNode (Identifier.ofToken token) f).boxes =
      d.graph.boxes := fun _ => Graph.boxes_mention d.graph token
  have hchange := fun style : NodeStyle => Graph.modifyNode_of_node? hnodup hn fun m =>
    { m with label := if label.isEmpty then m.label else label, style := m.style.merge style }
  unfold addNode? addNode
  simp only [hn, Option.bind_some]
  rw [placeNode?_eq]
  · congr 3
    exact hchange _
  · intro o ho
    obtain ⟨b, hb, -⟩ := h.stack o ho
    unfold Graph.box? at hb ⊢
    rw [hboxes, hb]
    rfl
  · intro i b hb
    rw [hboxes] at hb
    exact h.numbered i b hb

/-- The box around a new one is open, so it is there, and the new box is added
to its list. -/
theorem addMarker?_eq {d : Draft} (h : d.Integral)
    (hlength : d.scanner.openers.length = d.graph.boxes.length) (index depth : Nat) (line : Line) :
    d.addMarker? index depth line = some (d.addMarker index depth line) := by
  unfold addMarker? addMarker
  split
  · rfl
  · cases hfed : d.scanner.feed index line with
    | mk step scanner =>
        have hcases := Box.Scanner.feed_fed d.scanner index line
        rw [hfed] at hcases
        cases hcases with
        | skipped => rfl
        | closed => rfl
        | opened depth label bracket hline heven hnot =>
            simp only [Box.Scanner.openBox, Box.Scanner.current?, List.head?_cons, Option.bind_some]
            cases houter : (d.scanner.stack.dropWhile fun o => depth < o.depth + 2).head? with
            | none => rfl
            | some outer =>
                have hmem : outer ∈ d.scanner.stack :=
                  (List.dropWhile_sublist _).subset (List.mem_of_head? houter)
                obtain ⟨b, hb, -⟩ := h.stack outer hmem
                -- the new box has the next number, so boxes are still numbered in order
                have hnumbered : ∀ (box : Box), box.index = d.graph.boxes.length →
                    ∀ (i : Nat) c, (d.graph.boxes ++ [box])[i]? = some c → c.index = i := by
                  intro box hbox i c hc
                  rcases Box.Scanner.getElem?_concat_cases hc with hold | ⟨rfl, rfl⟩
                  · exact h.numbered i c hold
                  · exact hbox
                have hfound : ∀ box :
                    Box, Graph.box? { d.graph with boxes := d.graph.boxes ++ [box] }
                    outer.index = some b := by
                  intro box
                  unfold Graph.box? at hb ⊢
                  rw [List.find?_append, hb]
                  rfl
                simp only [Option.map_some, hfound]
                rw [Graph.modifyBox_of_box? (hnumbered _ hlength) (hfound _) (·.addChild _)]
                rfl

/-- What the phrase of a settings line sets is in the table. -/
theorem addSetting?_eq (d : Draft) {phrase : Text}
    (h : isSettingPhrase phrase = true) (value : Text) :
    d.addSetting? phrase value = some (d.addSetting phrase value) := by
  obtain ⟨s, hs⟩ := Setting.exists_ofKey? h
  unfold addSetting? addSetting
  rw [hs]
  rfl

/-- **A line does what it did** when every reference is looked up, and none of
the look-ups fails, if all references led somewhere before. -/
theorem addLine?_eq (font : Text) {d : Draft} (h : d.Integral)
    (hlength : d.scanner.openers.length = d.graph.boxes.length) (index : Nat) (line : Line) :
    d.addLine? font index line = some (d.addLine font index line) := by
  unfold addLine? addLine
  cases hcontent : line.content with
  | blank => rfl
  | marker depth label bracket => exact addMarker?_eq h hlength index depth _
  | setting phrase known value => exact addSetting?_eq d known value
  | node token label bracket =>
      dsimp only
      split
      · exact addNode?_eq h token label bracket
      · exact addNode?_eq (h.report _ index _) token label bracket
  | edge sources targets bracket => rfl
  | unrecognised => rfl

/-- **All lines do what they did** when every reference is looked up: by
induction over the lines, with the invariant of the run before each of them. -/
theorem ofLines?_eq (font : Text) (lines : List Text) :
    ofLines? font lines = some (ofLines font lines) := by
  -- The induction is on the lines to come, after any lines before them.
  have hrest : ∀ before rest : List Text,
      addLines? font (ofLines font before) before.length rest =
        some (ofLines font (before ++ rest)) := by
    intro before rest
    induction rest generalizing before with
    | nil => rw [List.append_nil]; rfl
    | cons raw rest ih =>
        unfold addLines?
        rw [addLine?_eq font (integral_ofLines font before) (length_openers_ofLines font before),
          Option.bind_some, ← ofLines_concat]
        have hnext := ih (before ++ [raw])
        rwa [List.length_append, List.length_singleton, List.append_assoc,
          List.singleton_append] at hnext
  exact hrest [] lines

end Draft

/-! ## Drawing with every node looked up -/

namespace Dot

/-- The statement of the node with an identifier. -/
def nodeStatement? (g : Graph) (indent id : Text) : Option Text :=
  (g.node? id).map (nodeStatement g indent)

/-- The block of a box with everything in it.  Nodes and boxes are looked up;
there is no block when one of them is missing, or when the levels run out. -/
def boxPart? (g : Graph) : (levels : Nat) → (indent : Text) → Box → Option Part
  | 0, _, _ => none
  | levels + 1, indent, box =>
    let deeper := indent ++ "  "
    (box.members.mapM (nodeStatement? g deeper)).bind fun members =>
      (box.children.mapM g.box?).bind fun boxes =>
        (boxes.mapM (boxPart? g levels deeper)).map fun parts =>
          { lines := [indent ++ "subgraph " ++ Box.idOf box.index ++ " \x7b"] ++
              boxAttributes g deeper box ++ members ++ (Part.join parts).lines ++ [indent ++ "\x7d"]
            boxed := box.members ++ (Part.join parts).boxed }

/-- The statements of the nodes that are not drawn in boxes. -/
def freeNodes? (g : Graph) (boxed : List Text) : Option (List Text) :=
  (g.ids.filter fun id => !boxed.contains id).mapM (nodeStatement? g "  ")

/-- The drawing of a graph, with every node and every box looked up. -/
def render? (g : Graph) (font : Text) : Option Text :=
  (g.topBoxes.mapM (boxPart? g g.boxes.length "  ")).bind fun parts =>
    (freeNodes? g (Part.join parts).boxed).map fun free =>
      Text.join "\n" ("digraph G \x7b".toList :: defaults g.settings font ++
        directives g.settings ++
        (Part.join parts).lines ++ free ++ g.edges.map edgeStatement ++ ["\x7d".toList])

section

variable {g : Graph}

/-- What is there can be looked up one after the other; the row fails only if
one look-up does. -/
private theorem mapM_of_isSome {α β : Type} {f : α → Option β} {items : List α}
    (h : ∀ a ∈ items, (f a).isSome = true) : items.mapM f = some (items.filterMap f) := by
  induction items with
  | nil => rfl
  | cons a items ih =>
      obtain ⟨b, hb⟩ := Option.isSome_iff_exists.mp (h a List.mem_cons_self)
      have hrest := ih fun other hother => h other (List.mem_cons_of_mem a hother)
      simp [List.mapM_cons, hb, hrest]

/-- Looking up nodes that are all there gives the statement of each, in
order. -/
private theorem mapM_nodeStatement? {ids : List Text} (h : ∀ id ∈ ids, id ∈ g.ids) (indent : Text) :
    ids.mapM (nodeStatement? g indent) =
      some ((ids.filterMap g.node?).map (nodeStatement g indent)) := by
  rw [mapM_of_isSome, List.map_filterMap]
  · rfl
  · intro id hid
    rw [nodeStatement?, Option.isSome_map]
    exact Graph.node?_isSome.mpr (h id hid)

/-- Blocks that are there can be written one after the other. -/
private theorem mapM_boxPart? {levels : Nat} {indent : Text} {boxes : List Box}
    (h : ∀ b ∈ boxes, boxPart? g levels indent b = some (boxPart g levels indent b)) :
    boxes.mapM (boxPart? g levels indent) = some (boxes.map (boxPart g levels indent)) := by
  rw [mapM_of_isSome (fun b hb => by rw [h b hb]; rfl), ← List.filterMap_eq_map]
  exact congrArg some (List.filterMap_congr h)

/-- **A block is written with every node and every box looked up**, and the
levels never run out. -/
theorem boxPart?_eq (hnested : g.WellNested)
    (hmembers : ∀ b ∈ g.boxes, ∀ id ∈ b.members, id ∈ g.ids) {levels : Nat}
    (indent : Text) {b : Box}
    (hb : b ∈ g.boxes) (hlevels : g.boxes.length ≤ b.index + levels) :
    boxPart? g levels indent b = some (boxPart g levels indent b) := by
  induction levels generalizing indent b with
  | zero =>
      have := (List.getElem?_eq_some_iff.mp (hnested.opened.getElem? hb)).1
      omega
  | succ levels ih =>
      have hfound : b.children.mapM g.box? = some (g.inside b) := by
        apply mapM_of_isSome
        intro j hj
        obtain ⟨c, hc, -⟩ := (hnested.mem_children hb).mp hj
        have hindex := hnested.opened.numbered j c hc
        rw [Nat.zero_add] at hindex
        rw [← hindex, hnested.opened.box? (List.mem_of_getElem? hc)]
        rfl
      have hinside : ∀ c ∈ g.inside b, boxPart? g levels (indent ++ "  ") c =
          some (boxPart g levels (indent ++ "  ") c) := by
        intro c hc
        have hlt := (hnested.of_inside hb hc).2
        exact ih _ (Graph.mem_of_inside hc) (by omega)
      unfold boxPart? boxPart
      dsimp only
      rw [mapM_nodeStatement? (hmembers b hb), Option.bind_some, hfound, Option.bind_some,
        mapM_boxPart? hinside]
      rfl

/-- The nodes outside all boxes are those of the graph itself, so looking them
up by their identifiers finds them. -/
private theorem freeNodes?_eq (hnodup : g.ids.Nodup) (boxed : List Text) :
    freeNodes? g boxed = some (freeNodes g boxed) := by
  have hself : ∀ nodes : List Node, (∀ n ∈ nodes, n ∈ g.nodes) →
      (nodes.map (·.id)).filterMap g.node? = nodes := by
    intro nodes hnodes
    rw [List.filterMap_map]
    conv_rhs => rw [← @List.filterMap_some _ nodes]
    exact List.filterMap_congr fun n hn => Graph.node?_of_mem hnodup (hnodes n hn)
  unfold freeNodes? freeNodes
  rw [mapM_nodeStatement? fun id hid => (List.mem_filter.mp hid).1]
  unfold Graph.ids
  rw [List.filter_map, hself _ fun n hn => (List.mem_filter.mp hn).1]
  rfl

/-- **The drawing is the same** when every node and every box is looked up.  As
many levels as there are boxes are enough, since the boxes on a way down have
increasing numbers. -/
theorem render?_eq (hnested : g.WellNested) (hnodup : g.ids.Nodup)
    (hmembers : ∀ b ∈ g.boxes, ∀ id ∈ b.members, id ∈ g.ids) (font : Text) :
    render? g font = some (render g font) := by
  have hparts : g.topBoxes.mapM (boxPart? g g.boxes.length "  ") =
      some (g.topBoxes.map (boxPart g g.boxes.length "  ")) := by
    apply mapM_boxPart?
    intro b hb
    exact boxPart?_eq hnested hmembers _ (List.mem_filter.mp hb).1 (Nat.le_add_left _ _)
  unfold render?
  rw [hparts, Option.bind_some, freeNodes?_eq hnodup]
  rfl

end

end Dot

/-! ## Documents -/

/-- Nothing is missing while lines are taken in and drawn. -/
structure Draft.Complete (font : Text) (lines : List Text) : Prop where
  /-- After the first lines, every reference leads somewhere. -/
  integral : ∀ n, (ofLines font (lines.take n)).Integral
  /-- What the phrase of a settings line sets is in the table, and it has a name
  in records. -/
  settings : ∀ raw ∈ lines, ∀ phrase known value,
    Line.contentOfRaw raw = .setting phrase known value →
      ∃ s, Setting.ofKey? phrase = some s ∧ s.field?.isSome = true
  /-- The first lines can be taken in with every reference looked up. -/
  built : ∀ n, ofLines? font (lines.take n) = some (ofLines font (lines.take n))

/-- **Every document** can be taken in, after any of its lines, and drawn with
every reference looked up, and this gives the same drawing. -/
theorem compile_integral (t : Text) (font : Option Text) :
    Draft.Complete ((filled? font).getD Label.defaultFont) (Document.split t) ∧
      ∃ g, (compile t font).graph = some g ∧
        (Draft.ofLines? ((filled? font).getD Label.defaultFont) (Document.split t)).map
          (·.graph) = some g ∧
        Dot.render? g ((filled? font).getD Label.defaultFont) = some (compile t font).dot := by
  refine ⟨⟨?_, ?_, ?_⟩, _, rfl, ?_, ?_⟩
  · exact fun n => Draft.integral_ofLines _ _
  · intro raw _ phrase known value _
    obtain ⟨s, hs⟩ := Setting.exists_ofKey? known
    exact ⟨s, hs, s.field?_isSome⟩
  · exact fun n => Draft.ofLines?_eq _ _
  · rw [Draft.ofLines?_eq]
    rfl
  · have hintegral :=
      Draft.integral_ofLines ((filled? font).getD Label.defaultFont) (Document.split t)
    exact Dot.render?_eq (Draft.wellNested_ofLines _ _) hintegral.nodup hintegral.members _

end LineDiagram
