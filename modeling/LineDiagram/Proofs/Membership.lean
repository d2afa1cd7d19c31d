import LineDiagram.Proofs.Outline
import LineDiagram.Proofs.ScanOrder

/-!
# Members of boxes

A node becomes a member of the box that is innermost when its definition is met.
The compiler asks the scan that it carries along; a depth query scans the lines
before a position afresh.  Both see the same box: the scan of the first lines is
what the compiler had when it came to the next one.

* `definedIn_concat` — what one more line adds to the nodes that are defined
  directly in a box;
* `members_ofLines` — the members of a box are these nodes, each once, in the
  order of the lines;
* `compile_members` — for every document, with the depth before each line.
-/

namespace LineDiagram

namespace Box

/-- The number of the innermost box that is open before a line. -/
def innermostBefore? (lines : List Text) (lineIndex : Nat) : Option Nat :=
  (Scanner.scan (lines.take lineIndex)).current?.map (·.index)

/-- The nodes that are defined directly in a box, in the order of the
definitions. -/
def definedIn (lines : List Text) (k : Nat) : List Text :=
  (lines.mapIdx fun i raw =>
    if innermostBefore? lines i = some k then (Line.ofText raw).definedNode?.toList else []).flatten

/-- A line defines a node directly in the box that is innermost after the lines
before it. -/
theorem definedIn_concat (lines : List Text) (raw : Text) (k : Nat) :
    definedIn (lines ++ [raw]) k = definedIn lines k ++
      if innermostBefore? lines lines.length = some k then (Line.ofText raw).definedNode?.toList
      else [] := by
  have hbefore : ∀ i, i ≤ lines.length →
      innermostBefore? (lines ++ [raw]) i = innermostBefore? lines i := by
    intro i hi
    unfold innermostBefore?
    rw [List.take_append_of_le_length hi]
  have hold : (lines.mapIdx fun i raw' =>
      if innermostBefore? (lines ++ [raw]) i = some k then (Line.ofText raw').definedNode?.toList
      else []) =
      lines.mapIdx fun i raw' =>
        if innermostBefore? lines i = some k
          then (Line.ofText raw').definedNode?.toList else [] := by
    apply List.ext_getElem
    · simp
    · intro i hi _
      have hlt : i < lines.length := by simpa using hi
      simp only [List.getElem_mapIdx, hbefore i (by omega)]
  unfold definedIn
  rw [List.mapIdx_concat, hold, hbefore lines.length (Nat.le_refl _), List.flatten_append,
    List.flatten_singleton]

/-- A node that is defined directly in a box is defined on a line. -/
theorem exists_definition {lines : List Text} {k : Nat} {id : Text} (h : id ∈ definedIn lines k) :
    ∃ raw ∈ lines, (Line.ofText raw).definedNode? = some id := by
  simp only [definedIn, List.mem_flatten, List.mem_mapIdx] at h
  obtain ⟨ids, ⟨i, hi, rfl⟩, hid⟩ := h
  split at hid
  · exact ⟨lines[i], List.getElem_mem hi, Option.mem_toList.mp hid⟩
  · cases hid

end Box

namespace Nest

/-- A line places the node that it defines in the innermost open box, and any
other line places none. -/
theorem placed_feed (n : Nest) (line : Line) :
    (n.feed line.content).placed =
      n.placed ++ (n.innermost?.bind fun k => line.definedNode?.map (k, ·)).toList := by
  cases hcontent : line.content with
  | marker depth label bracket =>
      simp only [feed, Line.definedNode?, hcontent]
      split
      · simp
      · split
        · simp [close]
        · simp [openBox]
  | node token label bracket =>
      simp only [feed, place, Line.definedNode?, hcontent]
      cases n.innermost? <;> rfl
  | _ => simp [feed, Line.definedNode?, hcontent]

end Nest

namespace Draft

/-- The innermost box of the nest of some lines is the one that the scan has. -/
theorem innermost?_ofContents (lines : List Text) :
    (Nest.ofContents (lines.map Line.contentOfRaw)).innermost? =
      Box.innermostBefore? lines lines.length := by
  have hshows := (shows_ofLines [] lines).innermost?
  rw [scanner_ofLines] at hshows
  unfold Box.innermostBefore?
  rw [List.take_length]
  exact hshows

/-- The nodes that the nest of a document has placed in a box are those defined
directly in it. -/
theorem placed_ofContents (lines : List Text) (k : Nat) :
    ((Nest.ofContents (lines.map Line.contentOfRaw)).placed.filter (·.1 == k)).map (·.2) =
      Box.definedIn lines k := by
  induction lines using List.reverseRecOn with
  | nil => rfl
  | append_singleton lines raw ih =>
      have hlast : Nest.ofContents ((lines ++ [raw]).map Line.contentOfRaw) =
          (Nest.ofContents (lines.map Line.contentOfRaw)).feed (Line.ofText raw).content := by
        rw [List.map_append, List.map_singleton, Nest.ofContents_concat]
        rfl
      rw [hlast, Nest.placed_feed, List.filter_append, List.map_append, ih, Box.definedIn_concat,
        innermost?_ofContents]
      congr 1
      cases Box.innermostBefore? lines lines.length with
      | none => rfl
      | some j =>
          cases (Line.ofText raw).definedNode? with
          | none => simp
          | some id => by_cases hj : j = k <;> simp [hj]

/-- **The members of a box** are the nodes that are defined directly in it, each
once, in order. -/
theorem members_ofLines (font : Text) {lines : List Text} {b : Box}
    (hb : b ∈ (ofLines font lines).graph.boxes) :
    b.members = (Box.definedIn lines b.index).eraseDups := by
  obtain ⟨k, hget⟩ := List.mem_iff_getElem?.mp hb
  have hshows := shows_ofLines font lines
  rw [hshows.members k b hget, hshows.numbered k b hget, Nest.membersOf, placed_ofContents,
    Graph.foldl_addId_nil]

/-- The members of boxes are nodes of the graph, for a definition mentions the
node that it places. -/
theorem mem_ids_of_member (font : Text) {lines : List Text} {b : Box} {id : Text}
    (hb : b ∈ (ofLines font lines).graph.boxes) (hid : id ∈ b.members) :
    id ∈ (ofLines font lines).graph.ids := by
  rw [members_ofLines font hb, List.mem_eraseDups] at hid
  obtain ⟨raw, hraw, hdefines⟩ := Box.exists_definition hid
  rw [mem_ids_ofLines]
  refine List.mem_flatMap.mpr ⟨_, List.mem_map_of_mem hraw, ?_⟩
  change id ∈ (Line.ofText raw).content.mentions.map Identifier.ofToken
  unfold Line.definedNode? at hdefines
  split at hdefines
  · rename_i token label bracket hcontent
    cases hdefines
    simp [hcontent, Content.mentions]
  · cases hdefines

end Draft

namespace Box

/-- The box that is innermost before a line is a box of the graph, and the depth
there is its depth. -/
theorem depthBefore_of_some (font : Text) {lines : List Text} {i k : Nat}
    (h : innermostBefore? lines i = some k) :
    ∃ b, (Draft.ofLines font lines).graph.boxes[k]? = some b ∧ b.depth = depthBefore lines i := by
  -- a position after the last line sees the scan of all lines
  have hcut : lines.take i = lines.take (min i lines.length) := by simp [List.take_eq_take_iff]
  obtain ⟨top, htop, rfl⟩ := Option.map_eq_some_iff.mp h
  have hdepth : depthBefore lines i = top.depth := by
    unfold depthBefore Scanner.depth
    unfold Scanner.current? at htop
    split
    · rename_i hnil
      simp [hnil] at htop
    · rename_i hcons
      simp only [hcons, List.head?_cons, Option.some.injEq] at htop
      rw [htop]
  have hmem : top ∈ (Scanner.scan (lines.take (min i lines.length))).stack := by
    rw [← hcut]
    exact List.mem_of_mem_head? htop
  obtain ⟨listed, hlisted, hsame, -⟩ :=
    (Scanner.before_take (Nat.min_le_right i lines.length)).listed top hmem
  obtain ⟨o, ho, haddress⟩ := Scanner.opener_later (Nat.min_le_right i lines.length) hlisted
  have hlength := congrArg List.length (Draft.inStep_ofLines font lines)
  simp only [List.length_map] at hlength
  have hlt : top.index < (Draft.ofLines font lines).graph.boxes.length := by
    rw [hlength]
    exact (List.getElem?_eq_some_iff.mp ho).1
  refine ⟨_, List.getElem?_eq_getElem hlt, ?_⟩
  obtain ⟨o', ho', hbox⟩ := address_at (List.getElem?_eq_getElem hlt)
  obtain rfl : o' = o := Option.some.inj (ho'.symm.trans ho)
  rw [hdepth]
  exact congrArg Address.depth (hbox.trans (haddress.trans hsame))

/-- The depth before a line is zero when no box is open, and only then. -/
theorem depthBefore_eq_zero_iff (lines : List Text) (i : Nat) :
    depthBefore lines i = 0 ↔ innermostBefore? lines i = none := by
  have hnested := Scanner.nested_scan (lines.take i)
  unfold depthBefore innermostBefore? Scanner.depth Scanner.current?
  cases hstack : (Scanner.scan (lines.take i)).stack with
  | nil => simp
  | cons top below =>
      have htwo := (hnested.even top (by simp [hstack])).2
      simp only [List.head?_cons, Option.map_some, reduceCtorEq, iff_false]
      omega

end Box

namespace Graph

/-- The members of the boxes of a graph are those that the lines put there. -/
structure PlacedIn (lines : List Text) (g : Graph) : Prop where
  /-- The members of a box are the nodes of the definitions before which it is
  the innermost open box, in the order of the lines, without repeats. -/
  members : ∀ b ∈ g.boxes, b.members = (Box.definedIn lines b.index).eraseDups
  /-- The depth before a line is that of the innermost box that is open
  there. -/
  depth : ∀ i k, Box.innermostBefore? lines i = some k →
    ∃ b, g.boxes[k]? = some b ∧ b.index = k ∧ b.depth = Box.depthBefore lines i
  /-- The depth is zero exactly when none is open. -/
  depth_zero : ∀ i, Box.depthBefore lines i = 0 ↔ Box.innermostBefore? lines i = none

end Graph

/-- **Members and depths agree with the scan**, for every document.  The
compiler and the editors scan for boxes separately, and this is where the two
meet. -/
theorem compile_members (t : Text) (font : Option Text) :
    ∃ g, (compile t font).graph = some g ∧ g.PlacedIn (Document.split t) := by
  refine ⟨_, graph_compile t font, ?_, ?_, ?_⟩
  · intro b hb
    exact Draft.members_ofLines _ hb
  · intro i k hk
    obtain ⟨b, hb, hdepth⟩ := Box.depthBefore_of_some _ hk
    exact ⟨b, hb, index_at hb, hdepth⟩
  · exact Box.depthBefore_eq_zero_iff _

end LineDiagram
