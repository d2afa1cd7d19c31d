import LineDiagram.Proofs.ScanInvariant

/-!
# The boxes in a box

A box has the number of the box around it, and the box around it has a list of
the boxes in it.  Both are written when a marker opens the box: the number is
that of the innermost box that stays open, and in the same step the new box is
added to the list of that one.  Nothing else ever writes to a list, so after any
lines the lists say the same as the numbers.

A box is at least two dashes deeper than the one around it, and a marker has two
dashes at least.  So the boxes of depth two are in no box: a drawing that starts
from these does not meet a box twice.

* `listed_addBox` — a new box is added to one list, at its end;
* `listed_ofLines` — after any lines the list of a box has the boxes whose
  parent it is, in order;
* `WellNested.parent_of_top` — boxes of depth two are in no box;
* `compile_addresses` — boxes, their nesting and the lines of boxes and edges
  are found again by the editors, for every document.
-/

namespace LineDiagram

namespace Graph

/-! ## What the lists hold -/

/-- The list of each box has the numbers of the boxes whose parent it is, in
opening order. -/
def Listed (g : Graph) : Prop :=
  ∀ b ∈ g.boxes, b.children = (g.boxes.filter (·.parent == some b.index)).map (·.index)

/-- Numbers, parents and lists are all that matters; labels, members and styles
may change freely. -/
theorem Listed.congr {g h : Graph} (hg : g.Listed)
    (hsame : h.boxes.map (fun b => (b.index, b.parent, b.children)) =
      g.boxes.map fun b => (b.index, b.parent, b.children)) : h.Listed := by
  have hview : ∀ k : Graph, k.Listed ↔
      ∀ v ∈ k.boxes.map fun b => (b.index, b.parent, b.children),
        v.2.2 = ((k.boxes.map fun b => (b.index, b.parent, b.children)).filter
          (·.2.1 == some v.1)).map (·.1) := by
    intro k
    simp [Listed, List.filter_map, Function.comp_def]
  rw [hview] at hg ⊢
  rwa [hsame]

/-- The numbers of the boxes in a box, when one more box is there. -/
private theorem numbers_addBox (g : Graph) (box : Box) (i : Nat) :
    ((g.addBox box).boxes.filter (·.parent == some i)).map (·.index) =
      (g.boxes.filter (·.parent == some i)).map (·.index) ++
        if box.parent == some i then [box.index] else [] := by
  have hview : ∀ boxes : List Box, (boxes.filter (·.parent == some i)).map (·.index) =
      ((boxes.map fun b => (b.parent, b.index)).filter (·.1 == some i)).map (·.2) := by
    intro boxes
    simp [List.filter_map, Function.comp_def]
  rw [hview, hview, map_addBox (fun _ _ => rfl), List.filter_append, List.map_append,
    List.filter_singleton]
  cases box.parent == some i <;> rfl

/-- The list of each box, when one more box is there. -/
private theorem children_addBox {g : Graph} {box b : Box} (h : b ∈ (g.addBox box).boxes) :
    ∃ old ∈ g.boxes ++ [box], b.index = old.index ∧
      b.children = old.children ++ if box.parent == some old.index then [box.index] else [] := by
  unfold addBox at h
  dsimp only at h
  split at h
  · rename_i p hparent
    obtain ⟨old, hold, rfl⟩ := List.mem_map.mp h
    refine ⟨old, hold, ?_⟩
    rw [hparent]
    by_cases hindex : old.index = p
    · simp [hindex, Box.addChild]
    · simp [hindex, Ne.symm hindex]
  · rename_i hparent
    exact ⟨b, h, rfl, by simp [hparent]⟩

/-- **A new box is added to one list**, that of its parent, at the end.  No box
has the new one as its parent yet, so the lists of all other boxes are still
complete. -/
theorem listed_addBox {g : Graph} (h : g.Listed) {box : Box} (hempty : box.children = [])
    (hself : box.parent ≠ some box.index) (hnew : ∀ b ∈ g.boxes, b.parent ≠ some box.index) :
    (g.addBox box).Listed := by
  intro b hb
  obtain ⟨old, hold, hindex, hchildren⟩ := children_addBox hb
  rw [hchildren, hindex, numbers_addBox]
  congr 1
  rcases List.mem_append.mp hold with hmem | hlast
  · exact h old hmem
  · -- the new box has an empty list, and no box has it for its parent
    obtain rfl : old = box := List.mem_singleton.mp hlast
    have hnone : g.boxes.filter (·.parent == some old.index) = [] := by
      rw [List.filter_eq_nil_iff]
      intro c hc
      simpa using hnew c hc
    rw [hempty, hnone, List.map_nil]

end Graph

namespace Draft

variable (font : Text)

/-- A definition writes to no list. -/
theorem listed_placeNode {d : Draft} (h : d.graph.Listed) (id : Text) :
    (d.placeNode id).graph.Listed := by
  unfold placeNode
  split
  · refine h.congr (Graph.map_modifyBox ?_ _ _)
    intro b
    unfold Box.addMember
    split <;> rfl
  · exact h

/-- A marker that opens a box writes to the list of its parent, and any other
one writes to none. -/
theorem listed_addMarker {d : Draft} (h : d.graph.Listed)
    (hparents : ∀ b ∈ d.graph.boxes, b.parent ≠ some d.scanner.openers.length)
    (hopen : ∀ o ∈ d.scanner.stack, o.index < d.scanner.openers.length)
    (index depth : Nat) (line : Line) : (d.addMarker index depth line).graph.Listed := by
  unfold addMarker
  split
  · exact h
  · have hfed := Box.Scanner.feed_fed d.scanner index line
    generalize d.scanner.feed index line = result at hfed
    cases hfed with
    | skipped => exact h
    | closed => exact h
    | opened depth label bracket hline heven hnot =>
        refine Graph.listed_addBox h rfl ?_ hparents
        -- the parent is open, so its number is smaller than that of the new box
        intro hself
        obtain ⟨top, htop, hindex⟩ := Option.map_eq_some_iff.mp hself
        have hlt := hopen top ((List.dropWhile_sublist _).subset (List.mem_of_mem_head? htop))
        exact absurd hindex (Nat.ne_of_lt hlt)

/-- Every line keeps the lists.  A marker may add a box, whose parent is open
and therefore there, and all other lines add none. -/
theorem listed_addLine {d : Draft} (h : d.graph.Listed)
    (hparents : ∀ b ∈ d.graph.boxes, b.parent ≠ some d.scanner.openers.length)
    (hopen : ∀ o ∈ d.scanner.stack, o.index < d.scanner.openers.length)
    (index : Nat) (line : Line) : (d.addLine font index line).graph.Listed := by
  have hboxes : ∀ {g : Graph}, g.boxes = d.graph.boxes → g.Listed :=
    fun hsame => h.congr (by rw [hsame])
  cases hcontent : line.content with
  | marker depth label bracket =>
      simp only [addLine, hcontent]
      exact listed_addMarker h hparents hopen index depth line
  | node token label bracket =>
      simp only [addLine, hcontent, addNode]
      apply listed_placeNode
      apply hboxes
      simp only [Graph.modifyNode, Graph.boxes_mention]
      split <;> rfl
  | edge sources targets bracket =>
      simp only [addLine, hcontent]
      apply hboxes
      rw [graph_addEdges]
      exact Graph.boxes_mentionAll d.graph _
  | setting phrase known value =>
      simp only [addLine, hcontent, addSetting_eq]
      exact hboxes rfl
  | blank => simp only [addLine, hcontent]; exact h
  | unrecognised => simp only [addLine, hcontent]; exact hboxes rfl

/-- **The lists after any lines.**  Each box lists the boxes that name it as
their parent, in the order in which they were opened: one step of the run adds a
box or leaves all lists alone. -/
theorem listed_ofLines (lines : List Text) : (ofLines font lines).graph.Listed := by
  induction lines using List.reverseRecOn with
  | nil =>
      intro b hb
      cases hb
  | append_singleton lines raw ih =>
      have hopened := opened_ofLines font lines
      have hlength := length_openers_ofLines font lines
      rw [ofLines_concat]
      apply listed_addLine font ih
      · intro b hb hparent
        have hearlier := hopened.earlier b hb _ hparent
        have hlt := (List.getElem?_eq_some_iff.mp (hopened.getElem? hb)).1
        omega
      · rw [scanner_ofLines]
        exact (Box.Scanner.nested_scan lines).numbered

end Draft

/-! ## The boxes of a document -/

namespace Graph

/-- What is true of the boxes of every document. -/
structure WellNested (g : Graph) : Prop where
  /-- They are in opening order. -/
  opened : Opened 0 g.boxes
  /-- The list of each box has the boxes whose parent it is. -/
  listed : g.Listed
  /-- A marker has two dashes at least. -/
  marked : ∀ b ∈ g.boxes, 2 ≤ b.depth
  /-- A box is two dashes deeper than its parent, at least. -/
  deeper : ∀ b ∈ g.boxes, ∀ p, b.parent = some p →
    ∃ outer ∈ g.boxes, outer.index = p ∧ outer.depth + 2 ≤ b.depth

/-- **Boxes of depth two are in no box.**  A box around one is two dashes
shallower at least, and no box has depth zero. -/
theorem WellNested.parent_of_top {g : Graph} (h : g.WellNested) {b : Box} (hb : b ∈ g.boxes)
    (hdepth : b.depth = 2) : b.parent = none := by
  cases hparent : b.parent with
  | none => rfl
  | some p =>
      obtain ⟨outer, houter, -, hdeeper⟩ := h.deeper b hb p hparent
      have := h.marked outer houter
      omega

/-- The boxes in a box, found by the numbers of its list, are those whose parent
it is. -/
theorem WellNested.inside_eq {g : Graph} (h : g.WellNested) {b : Box} (hb : b ∈ g.boxes) :
    g.inside b = g.boxes.filter (·.parent == some b.index) := by
  have hfound : ∀ c ∈ g.boxes.filter (·.parent == some b.index), g.box? c.index = some c :=
    fun c hc => h.opened.box? (List.mem_filter.mp hc).1
  unfold inside
  rw [h.listed b hb, List.filterMap_map]
  exact (List.filterMap_congr hfound).trans List.filterMap_some

end Graph

/-- **The boxes of every document** are well nested.  Numbers and depths are
those of the scan, and the lists of children are kept along with them. -/
theorem Draft.wellNested_ofLines (font : Text) (lines : List Text) :
    (ofLines font lines).graph.WellNested := by
  have hopener : ∀ b ∈ (ofLines font lines).graph.boxes,
      ∃ o, (Box.openers lines)[b.index]? = some o ∧ b.address = o.address := by
    intro b hb
    exact address_at ((opened_ofLines font lines).getElem? hb)
  refine ⟨opened_ofLines font lines, listed_ofLines font lines, ?_, ?_⟩
  · intro b hb
    obtain ⟨o, ho, haddress⟩ := hopener b hb
    obtain ⟨raw, label, bracket, -, hmarker⟩ :=
      (Box.Scanner.sound_scan lines).opening o (List.mem_of_getElem? ho)
    have hdepth : b.depth = o.depth := congrArg Box.Address.depth haddress
    rw [hdepth]
    exact (Line.contentOf_eq_marker_iff.mp hmarker).1
  · intro b hb p hp
    obtain ⟨o, ho, haddress⟩ := hopener b hb
    have hparent : o.parent = some p := (congrArg Box.Address.parent haddress).symm.trans hp
    obtain ⟨-, outer, houter, hdeeper⟩ := Box.Scanner.exists_around ho hparent
    have hget : ((ofLines font lines).graph.boxes.map Box.address)[p]? = some outer.address := by
      rw [inStep_ofLines, List.getElem?_map]
      exact congrArg (Option.map Box.Opener.address) houter
    rw [List.getElem?_map, Option.map_eq_some_iff] at hget
    obtain ⟨c, hc, hsame⟩ := hget
    have hdepth : b.depth = o.depth := congrArg Box.Address.depth haddress
    have houterDepth : c.depth = outer.depth := congrArg Box.Address.depth hsame
    exact ⟨c, List.mem_of_getElem? hc, index_at hc, by omega⟩

/-! ## Addresses -/

namespace Graph

/-- Every address that a graph gives is one that the editors find again in the
lines. -/
structure AddressedIn (lines : List Text) (g : Graph) : Prop where
  /-- There is a box for each opener. -/
  length_eq : g.boxes.length = (Box.openers lines).length
  /-- The box and the opener at a position have this position as their number,
  the same label, depth and bracket, and the same line. -/
  boxes_eq : ∀ (i : Nat) b (o : Box.Opener), g.boxes[i]? = some b →
    (Box.openers lines)[i]? = some o → b.index = i ∧ o.index = i ∧ b.label = o.label ∧
      b.depth = o.depth ∧ b.inner = o.inner ∧ b.line = o.lineIndex + 1
  /-- A box is on the list of another one exactly when its opener says so. -/
  children_iff : ∀ (i j : Nat) (o : Box.Opener), (Box.openers lines)[j]? = some o →
    ((∃ b, g.boxes[i]? = some b ∧ j ∈ b.children) ↔ o.parent = some i)
  /-- The list of a box has boxes only, in the order of their numbers. -/
  children_ordered : ∀ b ∈ g.boxes, b.children.Pairwise (· < ·) ∧
    ∀ j ∈ b.children, j < g.boxes.length
  /-- A box is found by its name, on its line. -/
  box_found : ∀ b ∈ g.boxes, ∃ o, Box.find? lines (Box.idOf b.index) = some o ∧
    b.line = o.lineIndex + 1
  /-- An edge is found by its line. -/
  edge_found : ∀ e ∈ g.edges, ∃ index, e.line = index + 1 ∧
    (LineRef.ofInt e.line).edgeIndex? lines = some index

/-- What is on the list of a box: the numbers of the boxes whose parent it is,
and nothing else. -/
theorem WellNested.mem_children {g : Graph} (h : g.WellNested) {b : Box} (hb : b ∈ g.boxes)
    {j : Nat} : j ∈ b.children ↔ ∃ c, g.boxes[j]? = some c ∧ c.parent = some b.index := by
  rw [h.listed b hb, List.mem_map]
  constructor
  · rintro ⟨c, hc, rfl⟩
    obtain ⟨hmem, hparent⟩ := List.mem_filter.mp hc
    exact ⟨c, h.opened.getElem? hmem, by simpa using hparent⟩
  · rintro ⟨c, hc, hparent⟩
    refine ⟨c, List.mem_filter.mpr ⟨List.mem_of_getElem? hc, by simpa using hparent⟩, ?_⟩
    rw [h.opened.numbered j c hc, Nat.zero_add]

/-- A box is on the list of another one exactly if that one is its parent. -/
theorem WellNested.on_list_iff {g : Graph} (h : g.WellNested) {i j : Nat} {c : Box}
    (hc : g.boxes[j]? = some c) :
    (∃ b, g.boxes[i]? = some b ∧ j ∈ b.children) ↔ c.parent = some i := by
  have hnumbered : ∀ {b}, g.boxes[i]? = some b → b.index = i := by
    intro b hb
    rw [h.opened.numbered i b hb, Nat.zero_add]
  constructor
  · rintro ⟨b, hb, hmem⟩
    obtain ⟨found, hfound, hparent⟩ := (h.mem_children (List.mem_of_getElem? hb)).mp hmem
    obtain rfl := Option.some.inj (hfound.symm.trans hc)
    rwa [hnumbered hb] at hparent
  · intro hparent
    obtain ⟨b, hb, hindex, -⟩ := h.deeper c (List.mem_of_getElem? hc) i hparent
    have hget := h.opened.getElem? hb
    rw [hindex] at hget
    exact ⟨b, hget, (h.mem_children hb).mpr ⟨c, hc, by rw [hindex, hparent]⟩⟩

/-- A list is in the order of the numbers, since boxes are numbered as they are
opened, and it has numbers of boxes only. -/
theorem WellNested.children_ordered {g : Graph} (h : g.WellNested) {b : Box} (hb : b ∈ g.boxes) :
    b.children.Pairwise (· < ·) ∧ ∀ j ∈ b.children, j < g.boxes.length := by
  refine ⟨?_, ?_⟩
  · rw [h.listed b hb, List.pairwise_map]
    exact (h.opened.ordered.imp And.right).filter _
  · intro j hj
    obtain ⟨c, hc, -⟩ := (h.mem_children hb).mp hj
    exact (List.getElem?_eq_some_iff.mp hc).1

end Graph

/-- An edge of a document is found again by the number of its line: the line
draws it, so it is read as an edge by an editor, too. -/
theorem Draft.edgeIndex?_of_mem_edges (font : Text) {lines : List Text} {e : Edge}
    (he : e ∈ (ofLines font lines).graph.edges) :
    ∃ index, e.line = index + 1 ∧ (LineRef.ofInt e.line).edgeIndex? lines = some index := by
  obtain ⟨index, raw, hraw, hline, hdrawn⟩ := mem_edges_ofLines font he
  refine ⟨index, hline, LineRef.edgeIndex?_eq_some.mpr ⟨?_, raw, ?_⟩⟩
  · rw [hline]
    rfl
  · cases hcontent : Line.contentOfRaw raw with
    | edge sources targets bracket => exact ⟨sources, targets, bracket, hraw, rfl⟩
    | _ => simp [hcontent, Content.edges] at hdrawn

/-- **The compiler and the editors agree on every address**, for every document:
on boxes and on the lists of boxes in boxes, position by position, and on the
lines of boxes and edges. -/
theorem compile_addresses (t : Text) (font : Option Text) :
    ∃ g, (compile t font).graph = some g ∧ g.AddressedIn (Document.split t) := by
  refine ⟨_, graph_compile t font, ?_⟩
  generalize (filled? font).getD Label.defaultFont = font
  generalize Document.split t = lines
  have hnested := Draft.wellNested_ofLines font lines
  have hlength : (Draft.ofLines font lines).graph.boxes.length = (Box.openers lines).length := by
    simpa using congrArg List.length (Draft.inStep_ofLines font lines)
  refine ⟨hlength, ?_, ?_, fun b hb => hnested.children_ordered hb, ?_,
    fun e he => Draft.edgeIndex?_of_mem_edges font he⟩
  · intro i b o hb ho
    obtain ⟨o', ho', haddress⟩ := address_at hb
    obtain rfl : o' = o := Option.some.inj (ho'.symm.trans ho)
    have hindex : b.index = i := index_at hb
    simp only [Box.address, Box.Opener.address, Box.Address.mk.injEq] at haddress
    obtain ⟨hnumber, hlabel, hdepth, hinner, hline, -⟩ := haddress
    exact ⟨hindex, hnumber.symm.trans hindex, hlabel, hdepth, hinner, hline⟩
  · intro i j o ho
    have hj : j < (Draft.ofLines font lines).graph.boxes.length := by
      rw [hlength]
      exact (List.getElem?_eq_some_iff.mp ho).1
    have hc := List.getElem?_eq_getElem hj
    obtain ⟨o', ho', haddress⟩ := address_at hc
    obtain rfl : o' = o := Option.some.inj (ho'.symm.trans ho)
    rw [hnested.on_list_iff hc]
    exact iff_of_eq (congrArg (· = some i) (congrArg Box.Address.parent haddress))
  · intro b hb
    obtain ⟨i, hget⟩ := List.mem_iff_getElem?.mp hb
    obtain ⟨o, ho, haddress⟩ := address_at hget
    refine ⟨o, ?_, congrArg Box.Address.line haddress⟩
    rw [index_at hget]
    exact find?_idOf ho

end LineDiagram
