import LineDiagram.Compilation
import LineDiagram.Line.Locate
import LineDiagram.Proofs.Draft

/-!
# Addresses

The compiler and the editors each scan a document for themselves: the compiler
while it takes in nodes, edges and malformed lines, the editors on their own.  A
box is addressed by its number and an edge by its line, so the two scans must
never drift apart.

The draft of a document and its scan are in step: `Box.address` of the boxes is
`Opener.address` of the openers, position by position, after every line.

* `inStep_ofLines` — the boxes of a document are the openers of its scan;
* `address_at`, `index_at` — the box at a position has the address of the opener
  there;
* `find?_idOf` — an opener is found by its name.
-/

namespace LineDiagram

namespace Box

/-- What the compiler and the editors both know of a box. -/
structure Address where
  /-- Number, in opening order. -/
  index : Nat
  /-- Label. -/
  label : Text
  /-- Number of dashes of the marker. -/
  depth : Nat
  /-- Inside of the bracket. -/
  inner : Text
  /-- Line of the marker, from one. -/
  line : Nat
  /-- The box around it. -/
  parent : Option Nat

/-- The address of a box of a graph. -/
def address (b : Box) : Address := ⟨b.index, b.label, b.depth, b.inner, b.line, b.parent⟩

/-- The address of an opener. -/
def Opener.address (o : Opener) : Address :=
  ⟨o.index, o.label, o.depth, o.inner, o.lineIndex + 1, o.parent⟩

theorem address_ofOpener (o : Opener) : (ofOpener o).address = o.address := rfl

/-- The list of the boxes in a box is no part of its address, so a longer list
leaves the address as it is. -/
theorem address_addChild (b : Box) (index : Nat) : (b.addChild index).address = b.address := rfl

/-- Nor are the members of a box, so the address stays when a node is put into
it. -/
theorem address_addMember (b : Box) (id : Text) : (b.addMember id).address = b.address := by
  unfold addMember
  split <;> rfl

/-- Closing boxes keeps the addresses of all openers. -/
theorem Scanner.address_close (s : Scanner) (depth index : Nat) :
    (s.close depth index).openers.map Opener.address = s.openers.map Opener.address := by
  unfold Scanner.close
  rw [List.map_map]
  apply List.map_congr_left
  intro o _
  simp only [Function.comp]
  split <;> rfl

/-- Different boxes have different names. -/
theorem idOf_injective {i j : Nat} (h : idOf i = idOf j) : i = j := by
  have hdigits : Nat.toDigits 10 i = Nat.toDigits 10 j := List.append_cancel_left h
  rw [← Nat.ofDigitChars_ten_toDigits (n := i), hdigits, Nat.ofDigitChars_ten_toDigits]

end Box

namespace Draft

variable (font : Text)

/-- The boxes of a draft are the openers of its scan. -/
def InStep (d : Draft) : Prop :=
  d.graph.boxes.map Box.address = d.scanner.openers.map Box.Opener.address

/-- Putting a node into a box keeps boxes and openers in step: only members
change. -/
theorem inStep_placeNode {d : Draft} (h : d.InStep) (id : Text) : (d.placeNode id).InStep := by
  unfold placeNode
  split
  · exact (Graph.map_modifyBox (fun b => Box.address_addMember b id) _ _).trans h
  · exact h

/-- A marker that opens a box adds it to both sides, and one that closes boxes
changes neither. -/
theorem inStep_addMarker {d : Draft} (h : d.InStep) (index depth : Nat) (line : Line) :
    (d.addMarker index depth line).InStep := by
  unfold addMarker
  split
  · exact h
  · have hfed := Box.Scanner.feed_fed d.scanner index line
    generalize d.scanner.feed index line = result at hfed
    cases hfed with
    | skipped => exact h
    | closed depth hline heven hopen =>
        exact h.trans (Box.Scanner.address_close d.scanner depth index).symm
    | opened depth label bracket hline heven =>
        unfold InStep at h ⊢
        simp only [Box.Scanner.openBox, Box.Scanner.current?, List.head?_cons, List.map_cons,
          List.map_nil, List.map_append, Graph.map_addBox Box.address_addChild, h,
          Box.address_ofOpener]

/-- Every line keeps the two sides in step.  A marker that opens a box adds one
on each side, and every other line changes neither numbers nor depths. -/
theorem inStep_addLine {d : Draft} (h : d.InStep) (index : Nat) (line : Line) :
    (d.addLine font index line).InStep := by
  cases hcontent : line.content with
  | marker depth label bracket =>
      simp only [addLine, hcontent]
      exact inStep_addMarker h index depth line
  | node token label bracket =>
      simp only [addLine, hcontent, addNode]
      apply inStep_placeNode
      unfold InStep
      simp only [Graph.modifyNode, Graph.boxes_mention]
      split <;> exact h
  | edge sources targets bracket =>
      have hscanner : (addEdges font d index line.raw sources targets bracket).scanner =
          d.scanner := by
        unfold addEdges
        dsimp only
        split
        · rfl
        · split <;> rfl
      simp only [addLine, hcontent, InStep, hscanner, graph_addEdges, Graph.boxes_mentionAll]
      exact h
  | blank => simp only [addLine, hcontent]; exact h
  | setting phrase known value => simp only [addLine, hcontent, addSetting_eq]; exact h
  | unrecognised => simp only [addLine, hcontent]; exact h

/-- The boxes of a document are the openers of its scan, position by
position. -/
theorem inStep_ofLines (lines : List Text) :
    (ofLines font lines).graph.boxes.map Box.address =
      (Box.openers lines).map Box.Opener.address := by
  have hstep : (ofLines font lines).InStep :=
    ofLines_induction font (P := fun _ d => d.InStep) rfl
      (fun lines raw d h => inStep_addLine font h lines.length (.ofText raw)) lines
  unfold InStep at hstep
  rw [hstep, scanner_ofLines]
  rfl

/-- There are as many boxes as openers. -/
theorem length_openers_ofLines (lines : List Text) :
    (ofLines font lines).scanner.openers.length = (ofLines font lines).graph.boxes.length := by
  have hlength := congrArg List.length (inStep_ofLines font lines)
  rw [List.length_map, List.length_map] at hlength
  rw [scanner_ofLines]
  exact hlength.symm

end Draft

/-- The first definition of a node is a definition of it.  The editors start
from this line and the compiler from what it says. -/
theorem findDefinition?_eq_some {lines : List Text} {id : Text} {index : Nat}
    (h : findDefinition? lines id = some index) :
    ∃ raw, lines[index]? = some raw ∧ (Line.ofText raw).definedNode? = some (Text.trim id) := by
  unfold findDefinition? at h
  dsimp only at h
  split at h
  · cases h
  · obtain ⟨hlt, hdefines, -⟩ := List.findIdx?_eq_some_iff_getElem.mp h
    exact ⟨lines[index], List.getElem?_eq_getElem hlt, beq_iff_eq.mp hdefines⟩

/-- A number refers to an edge when the line of that number is one.  Lines are
counted from one and positions from zero. -/
theorem LineRef.edgeIndex?_eq_some {lines : List Text} {ref : LineRef} {index : Nat} :
    ref.edgeIndex? lines = some index ↔ ref.number = some (index + 1 : Nat) ∧
      ∃ raw sources targets bracket, lines[index]? = some raw ∧
        Line.contentOfRaw raw = .edge sources targets bracket := by
  constructor
  · intro h
    unfold edgeIndex? at h
    split at h
    · rename_i position hnumber
      split at h
      · rename_i raw hraw
        split at h
        · rename_i sources targets bracket hedge
          cases h
          exact ⟨hnumber, raw, sources, targets, bracket, hraw, hedge⟩
        · cases h
      · cases h
    · cases h
  · rintro ⟨hnumber, raw, sources, targets, bracket, hraw, hedge⟩
    have hofNat : ref.number = some (.ofNat (index + 1)) := hnumber
    simp only [edgeIndex?, hofNat, hraw, hedge]

/-- The box at a position has the address of the opener there, so a box of the
graph can be looked up in the source. -/
theorem address_at {lines : List Text} {font : Text} {i : Nat} {b : Box}
    (hb : (Draft.ofLines font lines).graph.boxes[i]? = some b) :
    ∃ o, (Box.openers lines)[i]? = some o ∧ b.address = o.address := by
  have hmap : ((Box.openers lines).map Box.Opener.address)[i]? = some b.address := by
    rw [← Draft.inStep_ofLines font lines, List.getElem?_map, hb]
    rfl
  rw [List.getElem?_map, Option.map_eq_some_iff] at hmap
  obtain ⟨o, ho, haddress⟩ := hmap
  exact ⟨o, ho, haddress.symm⟩

/-- The boxes of a document are numbered in order. -/
theorem index_at {lines : List Text} {font : Text} {i : Nat} {b : Box}
    (hb : (Draft.ofLines font lines).graph.boxes[i]? = some b) : b.index = i := by
  obtain ⟨o, ho, haddress⟩ := address_at hb
  have hindex : o.index = i := (Box.Scanner.sound_scan lines).numbered i o ho
  rw [← hindex]
  exact congrArg Box.Address.index haddress

/-- An opener is found by its name: no other opener has its number, and
different numbers make different names. -/
theorem find?_idOf {lines : List Text} {i : Nat} {o : Box.Opener}
    (ho : (Box.openers lines)[i]? = some o) : Box.find? lines (Box.idOf i) = some o := by
  have hnumbered := (Box.Scanner.sound_scan lines).numbered
  obtain ⟨hlt, hget⟩ := List.getElem?_eq_some_iff.mp ho
  unfold Box.find?
  rw [List.find?_eq_some_iff_getElem]
  refine ⟨by simp [hnumbered i o ho], i, hlt, hget, ?_⟩
  intro j hj
  have hindex : ((Box.openers lines)[j]).index = j :=
    hnumbered j _ (List.getElem?_eq_getElem (Nat.lt_trans hj hlt))
  have hne : ¬ Box.idOf j = Box.idOf i := fun heq => Nat.ne_of_lt hj (Box.idOf_injective heq)
  simp [hindex, hne]

/-- The graph of a compilation is that of the draft of its lines.  There always
is one, so a claim about it is never empty. -/
theorem graph_compile (t : Text) (font : Option Text) :
    (compile t font).graph =
      some (Draft.ofLines ((filled? font).getD Label.defaultFont) (Document.split t)).graph := rfl

end LineDiagram
