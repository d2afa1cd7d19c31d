import LineDiagram.Proofs.Nesting

/-!
# What lines say about boxes

Which boxes there are, how they are nested and which nodes are in them does not
depend on where the lines stand.  A nest is what the lines say about this: the
boxes in opening order, those that are open, and the nodes that were defined in
a box.  It takes in what a line says and nothing else, so two documents can be
compared line by line.

* `shows_ofLines` — the boxes of the graph of a document and their members, from
  its nest.
-/

namespace LineDiagram

/-- A box without its place in the source. -/
structure Outline where
  /-- Label. -/
  label : Text
  /-- Inside of the bracket. -/
  inner : Text
  /-- The box around it. -/
  parent : Option Nat

/-- The outline of a box. -/
def Box.outline (b : Box) : Outline := ⟨b.label, b.inner, b.parent⟩

/-- What lines say about boxes. -/
structure Nest where
  /-- The boxes in opening order. -/
  boxes : List Outline := []
  /-- Number and depth of the open ones, innermost first. -/
  stack : List (Nat × Nat) := []
  /-- The nodes that were defined in a box, with the number of the box. -/
  placed : List (Nat × Text) := []

namespace Nest

/-- The number of the innermost open box. -/
def innermost? (n : Nest) : Option Nat := n.stack.head?.map (·.1)

/-- Whether an empty marker of some depth closes a box. -/
def closesAt (n : Nest) (depth : Nat) : Bool := n.stack.head?.any fun f => depth ≤ f.2

/-- Closes everything of some depth and deeper. -/
def close (n : Nest) (depth : Nat) : Nest :=
  { n with stack := n.stack.dropWhile fun f => depth ≤ f.2 }

/-- The boxes that stay open around a new one of some depth. -/
def around (n : Nest) (depth : Nat) : List (Nat × Nat) :=
  n.stack.dropWhile fun f => depth < f.2 + 2

/-- Opens a box. -/
def openBox (n : Nest) (depth : Nat) (label inner : Text) : Nest :=
  { n with
    boxes := n.boxes ++ [⟨label, inner, (n.around depth).head?.map (·.1)⟩]
    stack := (n.boxes.length, depth) :: n.around depth }

/-- Puts a node into the innermost open box. -/
def place (n : Nest) (id : Text) : Nest :=
  { n with placed := n.placed ++ (n.innermost?.map (·, id)).toList }

/-- Takes in what a line says. -/
def feed (n : Nest) : Content → Nest
  | .marker depth label bracket =>
    if depth % 2 != 0 then n
    else if label.isEmpty && bracket.isNone && n.closesAt depth then n.close depth
    else n.openBox depth label (Text.trim (bracket.getD []))
  | .node token _ _ => n.place (Identifier.ofToken token)
  | _ => n

/-- The nest of what some lines say. -/
def ofContents (contents : List Content) : Nest := contents.foldl feed {}

/-- The nodes of a box, each once, in the order of their definitions. -/
def membersOf (n : Nest) (k : Nat) : List Text :=
  ((n.placed.filter (·.1 == k)).map (·.2)).foldl Graph.addId []

theorem ofContents_concat (contents : List Content) (content : Content) :
    ofContents (contents ++ [content]) = (ofContents contents).feed content := by
  simp [ofContents]

/-- All numbers in a nest are those of its boxes. -/
structure Bounded (n : Nest) : Prop where
  stack : ∀ f ∈ n.stack, f.1 < n.boxes.length
  placed : ∀ e ∈ n.placed, e.1 < n.boxes.length

/-- A line keeps all numbers in a nest those of its boxes: a box is numbered
when it is opened, and only open boxes get members. -/
theorem Bounded.feed {n : Nest} (h : Bounded n) (content : Content) : Bounded (n.feed content) := by
  have hdrop : ∀ p : Nat × Nat → Bool, ∀ f ∈ n.stack.dropWhile p, f.1 < n.boxes.length :=
    fun p f hf => h.stack f ((List.dropWhile_sublist p).subset hf)
  cases content with
  | marker depth label bracket =>
      simp only [Nest.feed]
      split
      · exact h
      · split
        · exact ⟨hdrop _, h.placed⟩
        · refine ⟨?_, ?_⟩
          · intro f hf
            simp only [openBox, List.length_append, List.length_singleton]
            rcases List.mem_cons.mp hf with rfl | hf
            · exact Nat.lt_succ_self _
            · exact Nat.lt_succ_of_lt (hdrop _ f hf)
          · intro e he
            simp only [openBox, List.length_append, List.length_singleton]
            exact Nat.lt_succ_of_lt (h.placed e he)
  | node token label bracket =>
      refine ⟨h.stack, ?_⟩
      intro e he
      rcases List.mem_append.mp he with hold | hnew
      · exact h.placed e hold
      · obtain ⟨k, hk, rfl⟩ := Option.map_eq_some_iff.mp (Option.mem_toList.mp hnew)
        obtain ⟨f, hf, rfl⟩ := Option.map_eq_some_iff.mp hk
        exact h.stack f (List.mem_of_mem_head? hf)
  | blank => exact h
  | setting phrase known value => exact h
  | edge sources targets bracket => exact h
  | unrecognised => exact h

/-- So they are after any lines. -/
theorem bounded_ofContents (contents : List Content) : Bounded (ofContents contents) := by
  induction contents using List.reverseRecOn with
  | nil => exact ⟨by simp [ofContents], by simp [ofContents]⟩
  | append_singleton contents content ih =>
      rw [ofContents_concat]
      exact ih.feed content

end Nest

namespace Draft

/-- A nest shows what a draft knows of boxes. -/
structure Shows (d : Draft) (n : Nest) : Prop where
  boxes : d.graph.boxes.map Box.outline = n.boxes
  numbered : ∀ (k : Nat) b, d.graph.boxes[k]? = some b → b.index = k
  members : ∀ (k : Nat) b, d.graph.boxes[k]? = some b → b.members = n.membersOf k
  length_eq : d.scanner.openers.length = d.graph.boxes.length
  stack : d.scanner.stack.map (fun o => (o.index, o.depth)) = n.stack

/-- A nest does not see the lists of boxes in boxes, so what fills these lists
cannot disturb it. -/
theorem Shows.congr_shown {d e : Draft} {n : Nest} (h : d.Shows n)
    (hboxes : e.graph.boxes.map (fun b => (b.outline, b.index, b.members)) =
      d.graph.boxes.map fun b => (b.outline, b.index, b.members))
    (hscanner : e.scanner = d.scanner) : e.Shows n := by
  have hget : ∀ (k : Nat) b, e.graph.boxes[k]? = some b →
      ∃ c, d.graph.boxes[k]? = some c ∧ b.index = c.index ∧ b.members = c.members := by
    intro k b hb
    have hmap := congrArg (·[k]?) hboxes
    simp only [List.getElem?_map, hb, Option.map_some] at hmap
    obtain ⟨c, hc, hsame⟩ := Option.map_eq_some_iff.mp hmap.symm
    simp only [Prod.mk.injEq] at hsame
    exact ⟨c, hc, hsame.2.1.symm, hsame.2.2.symm⟩
  refine ⟨?_, ?_, ?_, ?_, by rw [hscanner]; exact h.stack⟩
  · have houtline := congrArg (List.map (·.1)) hboxes
    rw [List.map_map, List.map_map] at houtline
    exact houtline.trans h.boxes
  · intro k b hb
    obtain ⟨c, hc, hindex, -⟩ := hget k b hb
    rw [hindex]
    exact h.numbered k c hc
  · intro k b hb
    obtain ⟨c, hc, -, hmembers⟩ := hget k b hb
    rw [hmembers]
    exact h.members k c hc
  · rw [hscanner, h.length_eq]
    simpa using (congrArg List.length hboxes).symm

/-- A nest that shows a draft shows every other one with the same boxes and the
same scan. -/
theorem Shows.congr {d e : Draft} {n : Nest} (h : d.Shows n)
    (hboxes : e.graph.boxes = d.graph.boxes)
    (hscanner : e.scanner = d.scanner) : e.Shows n := h.congr_shown (by rw [hboxes]) hscanner

theorem Shows.innermost? {d : Draft} {n : Nest} (h : d.Shows n) :
    n.innermost? = d.scanner.current?.map (·.index) := by
  unfold Nest.innermost? Box.Scanner.current?
  rw [← h.stack, List.head?_map, Option.map_map]
  rfl

theorem Shows.closesAt {d : Draft} {n : Nest} (h : d.Shows n) (depth : Nat) :
    n.closesAt depth = d.scanner.closesAt depth := by
  unfold Nest.closesAt Box.Scanner.closesAt
  rw [← h.stack]
  cases d.scanner.stack <;> rfl

/-- If it does, the nest after it shows the draft after it: the same boxes are
closed in both. -/
theorem Shows.close {d : Draft} {n : Nest} (h : d.Shows n) (depth index : Nat) :
    Shows { d with scanner := d.scanner.close depth index } (n.close depth) := by
  refine ⟨h.boxes, h.numbered, h.members, ?_, ?_⟩
  · exact (List.length_map _).trans h.length_eq
  · rw [Box.Scanner.stack_close]
    unfold Nest.close
    rw [← h.stack, List.dropWhile_map]
    rfl

/-- The boxes that stay open around a new one are the same in both. -/
theorem Shows.around_eq {d : Draft} {n : Nest} (h : d.Shows n) (depth : Nat) :
    n.around depth = (d.scanner.around depth).map fun o => (o.index, o.depth) := by
  unfold Nest.around Box.Scanner.around
  rw [← h.stack, List.dropWhile_map]
  rfl

/-- A new box is shown last, directly in the innermost box that stays open, and
with no members. -/
theorem Shows.openBox {d : Draft} {n : Nest} (h : d.Shows n) (hbounded : n.Bounded)
    (index depth : Nat) (label inner comment : Text) {opener : Box.Opener}
    (hopener : (d.scanner.openBox index depth label inner comment).current? = some opener) :
    Shows { d with
      scanner := d.scanner.openBox index depth label inner comment
      graph := d.graph.addBox (.ofOpener opener) } (n.openBox depth label inner) := by
  have hlength : n.boxes.length = d.graph.boxes.length := by
    rw [← h.boxes, List.length_map]
  have haround := h.around_eq depth
  have hparent : (n.around depth).head?.map (·.1) =
      (d.scanner.around depth).head?.map (·.index) := by
    rw [haround, List.head?_map, Option.map_map]
    rfl
  have hopened : (d.scanner.openBox index depth label inner comment).openers.length =
      (d.graph.boxes ++ [Box.ofOpener opener]).length := by
    simp [Box.Scanner.openBox, h.length_eq]
  have hlast : Shows { d with
      scanner := d.scanner.openBox index depth label inner comment
      graph := { d.graph with boxes := d.graph.boxes ++ [Box.ofOpener opener] } }
      (n.openBox depth label inner) := by
    cases hopener
    refine ⟨?_, ?_, ?_, hopened, ?_⟩
    · simp only [Nest.openBox, List.map_append, h.boxes, hparent]
      rfl
    · intro k b hb
      rcases Box.Scanner.getElem?_concat_cases hb with hold | ⟨rfl, rfl⟩
      · exact h.numbered k b hold
      · exact h.length_eq
    · intro k b hb
      rcases Box.Scanner.getElem?_concat_cases hb with hold | ⟨rfl, rfl⟩
      · exact h.members k b hold
      · -- nothing was placed in the new box yet
        have hnone : n.placed.filter (·.1 == d.graph.boxes.length) = [] := by
          rw [List.filter_eq_nil_iff]
          intro e he
          have := hbounded.placed e he
          simp only [beq_iff_eq]
          omega
        simp only [Nest.membersOf, Nest.openBox, hnone]
        rfl
    · simp only [Nest.openBox, haround, hlength, ← h.length_eq]
      rfl
  refine hlast.congr_shown ?_ rfl
  rw [Graph.map_addBox (fun _ _ => rfl), List.map_append]
  rfl

/-- A node is added at the end of the members of a box, unless it is there. -/
theorem addMember_members (b : Box) (id : Text) :
    (b.addMember id).members = Graph.addId b.members id := by
  unfold Box.addMember Graph.addId
  by_cases hmem : id ∈ b.members
  · simp [hmem]
  · simp [hmem]

/-- The box at a position after one box was changed: its number is its position,
so it is the changed one only at the position of that. -/
theorem Shows.getElem?_modifyBox {d : Draft} {n : Nest} (h : d.Shows n) {f : Box → Box}
    {index k : Nat} {b : Box} (hb : (d.graph.modifyBox index f).boxes[k]? = some b) :
    ∃ old, d.graph.boxes[k]? = some old ∧ old.index = k ∧ b = if k = index then f old else old := by
  unfold Graph.modifyBox at hb
  rw [List.getElem?_map, Option.map_eq_some_iff] at hb
  obtain ⟨old, hold, rfl⟩ := hb
  have hindex := h.numbered k old hold
  refine ⟨old, hold, hindex, ?_⟩
  simp [hindex]

/-- A node that is put into the innermost box of both is shown there, and
nowhere where no box is open. -/
theorem Shows.placeNode {d : Draft} {n : Nest} (h : d.Shows n) (id : Text) :
    (d.placeNode id).Shows (n.place id) := by
  have hinner := h.innermost?
  unfold Draft.placeNode Nest.place
  cases hcurrent : d.scanner.current? with
  | none =>
      rw [hcurrent] at hinner
      simp only [hinner, Option.map_none, Option.toList_none, List.append_nil]
      exact h
  | some opener =>
      rw [hcurrent] at hinner
      simp only [hinner, Option.map_some, Option.toList_some]
      refine ⟨?_, ?_, ?_, ?_, h.stack⟩
      · rw [← h.boxes]
        apply Graph.map_modifyBox
        intro b
        unfold Box.addMember
        split <;> rfl
      · intro k b hb
        obtain ⟨old, -, hindex, rfl⟩ := h.getElem?_modifyBox hb
        split
        · unfold Box.addMember
          split <;> exact hindex
        · exact hindex
      · intro k b hb
        obtain ⟨old, hget, -, rfl⟩ := h.getElem?_modifyBox hb
        have hmembers := h.members k old hget
        unfold Nest.membersOf at hmembers ⊢
        rw [List.filter_append, List.map_append, List.foldl_append]
        split
        · rename_i heq
          subst heq
          rw [addMember_members, hmembers]
          simp
        · rename_i hne
          have hskip : ([(opener.index, id)] : List (Nat × Text)).filter (·.1 == k) = [] := by
            simp [Ne.symm hne]
          rw [hskip]
          exact hmembers
      · exact h.length_eq.trans (List.length_map _).symm

/-- Each line keeps the nest in step with the draft, whatever it says. -/
theorem Shows.addLine {font : Text} {d : Draft} {n : Nest} (h : d.Shows n) (hbounded : n.Bounded)
    (index : Nat) (line : Line) : (d.addLine font index line).Shows (n.feed line.content) := by
  cases hcontent : line.content with
  | blank => simp only [Draft.addLine, hcontent]; exact h
  | unrecognised => simp only [Draft.addLine, hcontent]; exact h.congr rfl rfl
  | setting phrase known value =>
      simp only [Draft.addLine, hcontent, addSetting_eq]
      exact h.congr rfl rfl
  | edge sources targets bracket =>
      refine h.congr ?_ ?_
      · simp only [Draft.addLine, hcontent, graph_addEdges, Graph.boxes_mentionAll]
      · rw [scanner_addLine]
        simp [Box.Scanner.feed, hcontent]
  | node token label bracket =>
      simp only [Draft.addLine, hcontent, Draft.addNode]
      apply Shows.placeNode
      refine h.congr ?_ ?_
      · simp only [Graph.modifyNode, Graph.boxes_mention]
        split <;> rfl
      · dsimp only
        split <;> rfl
  | marker depth label bracket =>
      simp only [Draft.addLine, hcontent, Draft.addMarker, Box.Scanner.feed, Nest.feed,
        h.closesAt depth]
      by_cases hodd : (depth % 2 != 0) = true
      · rw [if_pos hodd, if_pos hodd]
        exact h.congr rfl rfl
      · rw [if_neg hodd, if_neg hodd, if_neg hodd]
        by_cases hclose : (label.isEmpty && bracket.isNone && d.scanner.closesAt depth) = true
        · rw [if_pos hclose, if_pos hclose]
          exact h.close depth index
        · rw [if_neg hclose, if_neg hclose]
          exact h.openBox hbounded index depth label _ line.comment rfl

/-- **Boxes and members of a document**, from what its lines say.  The nest
forgets where a box stands in the source, so it can be compared across edits. -/
theorem shows_ofLines (font : Text) (lines : List Text) :
    (ofLines font lines).Shows (Nest.ofContents (lines.map Line.contentOfRaw)) := by
  apply ofLines_induction font
    (P := fun lines d => d.Shows (Nest.ofContents (lines.map Line.contentOfRaw)))
  · exact ⟨rfl, by simp, by simp, rfl, rfl⟩
  · intro lines raw d h
    rw [List.map_append, List.map_singleton, Nest.ofContents_concat]
    exact h.addLine (Nest.bounded_ofContents _) lines.length (.ofText raw)

end Draft

end LineDiagram
