import LineDiagram.Proofs.DrawingLines

/-!
# The blocks of a drawing

A block of a drawing is opened by a line that ends in a brace and is closed by a
brace on a line of its own; all other lines end in a semicolon.
`Dot.readBlocks` reads a drawing this way and gives every block with the block
around it, and nothing when the braces do not match.

* `readBlocks_lines` — what is read from the drawing of a graph;
* `compile_blocks` — the boxes of every document are drawn in opening order,
  each once, in the block of the box around it, and none whose outermost box is
  not at the top.
-/

namespace LineDiagram

namespace Dot

/-- What a line does to the blocks of a drawing. -/
inductive BlockMark where
  /-- It opens a block with a title. -/
  | opens (title : Text)
  /-- It closes the innermost block. -/
  | closes
  /-- It stands in a block. -/
  | inside
deriving DecidableEq, Repr

/-- Reads a line of a drawing. -/
def blockMark (line : Text) : BlockMark :=
  if Text.trim line == ['\x7d'] then .closes
  else
    match line.reverse with
    | '\x7b' :: before => .opens (Text.trim before.reverse)
    | _ => .inside

/-- The blocks that some lines open, each with the block around it, in order.
The blocks that are open before are given innermost first; there is nothing when
a line closes what is not open, or when a block is open at the end.  This reads
a drawing line by line, as the writer lays it out: a brace counts at the end of
a line, whether or not it is in a quoted string.  It is no parser of drawings
that are written in another way. -/
def readBlocks (titles : List Text) : List Text → Option (List (Text × Option Text))
  | [] => if titles.isEmpty then some [] else none
  | line :: rest =>
    match blockMark line with
    | .opens title => (readBlocks (title :: titles) rest).map ((title, titles.head?) :: ·)
    | .closes => if titles.isEmpty then none else readBlocks titles.tail rest
    | .inside => readBlocks titles rest

/-- The title of the block of the whole drawing. -/
def drawingTitle : Text := "digraph G"

/-- The title of the block of a box. -/
def boxTitle (index : Nat) : Text := "subgraph " ++ Box.idOf index

/-- The title of the block in which the block of a box belongs. -/
def titleAround (b : Box) : Text := (b.parent.map boxTitle).getD drawingTitle

/-- The names of the boxes that have a block, in the order of the lines. -/
def blockNames (lines : List Text) : List Text :=
  lines.filterMap fun line =>
    match blockMark line with
    | .opens title => Text.dropStart? "subgraph " title
    | _ => none

/-! ## Reading one line -/

/-- A line that ends in a semicolon neither opens nor closes a block. -/
theorem blockMark_statement (t : Text) : blockMark (t ++ [';']) = .inside := by
  have hclose : Text.trim (t ++ [';']) ≠ ['\x7d'] := by
    intro heq
    have hmem : ';' ∈ Text.trim (t ++ [';']) := Text.mem_trim (by decide) (by simp)
    rw [heq] at hmem
    exact absurd hmem (by decide)
  unfold blockMark
  simp [hclose]

/-- A brace on a line of its own closes the innermost block, however far it is
indented. -/
theorem blockMark_close {indent : Text} (h : Text.AllBlank indent) :
    blockMark (indent ++ ['\x7d']) = .closes := by
  have htrim : Text.trim (indent ++ ['\x7d']) = ['\x7d'] := by
    have hblanks := Text.trim_of_blanks_around h Text.allBlank_nil ['\x7d']
    rw [List.append_nil] at hblanks
    rw [hblanks]
    decide
  unfold blockMark
  simp [htrim]

/-- The title of a block starts and ends with no blank, so it is found again
when the line around it is trimmed. -/
theorem tight_boxTitle (index : Nat) : Text.Tight (boxTitle index) := by
  have hfront : Text.Tight ("subgraph " ++ "cluster_") := by
    constructor
    · intro c hc
      cases hc
      decide
    · intro c hc
      cases hc
      decide
  have hwhole : boxTitle index = ("subgraph " ++ "cluster_") ++ Text.ofNat index := by
    rw [List.append_assoc]
    rfl
  rw [hwhole]
  refine hfront.append (by simp) ?_
  intro c hc
  exact Text.not_blank_of_mem_ofNat (List.mem_of_getLast? hc)

/-- The first line of the block of a box opens a block with the title of the
box. -/
theorem blockMark_box {indent : Text} (h : Text.AllBlank indent) (index : Nat) :
    blockMark (indent ++ "subgraph " ++ Box.idOf index ++ " \x7b") = .opens (boxTitle index) := by
  have hline : indent ++ "subgraph " ++ Box.idOf index ++ " \x7b" =
      (indent ++ boxTitle index ++ [' ']) ++ ['\x7b'] := by
    unfold boxTitle
    rw [← List.append_assoc indent, List.append_assoc _ [' ']]
    rfl
  have htitle : Text.trim (indent ++ boxTitle index ++ [' ']) = boxTitle index := by
    rw [Text.trim_of_blanks_around h (Text.allBlank_singleton (by decide)),
      Text.trim_of_tight (tight_boxTitle index)]
  have hclose : Text.trim ((indent ++ boxTitle index ++ [' ']) ++ ['\x7b']) ≠ ['\x7d'] := by
    intro heq
    have hmem : '\x7b' ∈ Text.trim ((indent ++ boxTitle index ++ [' ']) ++ ['\x7b']) :=
      Text.mem_trim (by decide) (by simp)
    rw [heq] at hmem
    exact absurd hmem (by decide)
  rw [hline]
  unfold blockMark
  rw [if_neg (by simpa using hclose), List.reverse_append, List.reverse_singleton,
    List.singleton_append]
  simp only [List.reverse_reverse, htitle]

/-! ## Reading a drawing -/

/-- Lines that neither open nor close a block are skipped when the blocks are
read. -/
theorem readBlocks_inside {lines : List Text} (h : ∀ l ∈ lines, blockMark l = .inside)
    (titles rest : List Text) : readBlocks titles (lines ++ rest) = readBlocks titles rest := by
  induction lines with
  | nil => rfl
  | cons line lines ih =>
      rw [List.cons_append, readBlocks, h line List.mem_cons_self]
      dsimp only
      exact ih (fun l hl => h l (List.mem_cons_of_mem _ hl))

/-- The block of a box, with the block that its parent says. -/
def blockOf (b : Box) : Text × Option Text := (boxTitle b.index, some (titleAround b))

theorem boxAttributes_inside (g : Graph) (indent : Text) (b : Box) :
    ∀ l ∈ boxAttributes g indent b, blockMark l = .inside := by
  intro l hl
  obtain ⟨a, -, rfl⟩ := List.mem_map.mp hl
  exact blockMark_statement _

theorem memberStatements_inside (g : Graph) (indent : Text) (b : Box) :
    ∀ l ∈ memberStatements g indent b, blockMark l = .inside := by
  intro l hl
  obtain ⟨n, -, rfl⟩ := List.mem_map.mp hl
  exact blockMark_statement _

/-- Parts that are read one by one are read one after the other: each of them
leaves the open blocks as it found them. -/
theorem readBlocks_join {boxes : List Box} {part : Box → Part}
    {blocks : Box → List (Text × Option Text)} {titles : List Text}
    (h : ∀ b ∈ boxes, ∀ rest, readBlocks titles ((part b).lines ++ rest) =
      (readBlocks titles rest).map (blocks b ++ ·)) (rest : List Text) :
    readBlocks titles ((Part.join (boxes.map part)).lines ++ rest) =
      (readBlocks titles rest).map (boxes.flatMap blocks ++ ·) := by
  rw [Part.lines_join_map]
  induction boxes with
  | nil => simp
  | cons b boxes ih =>
      rw [List.flatMap_cons, List.append_assoc, h b List.mem_cons_self,
        ih (fun c hc => h c (List.mem_cons_of_mem b hc)), Option.map_map]
      congr 1
      funext found
      simp

/-- **The part of a box** is read as the blocks of the boxes that one meets
below it, each in the block of its parent, and leaves open what was open
before. -/
theorem readBlocks_boxPart {g : Graph} (h : g.WellNested) {levels : Nat} {indent : Text}
    (hindent : Text.AllBlank indent) {b : Box} (hb : b ∈ g.boxes) {titles : List Text}
    (haround : titles.head? = some (titleAround b)) (rest : List Text) :
    readBlocks titles ((boxPart g levels indent b).lines ++ rest) =
      (readBlocks titles rest).map ((g.entered levels b).map blockOf ++ ·) := by
  induction levels generalizing indent b titles rest with
  | zero => simp [boxPart, Graph.entered]
  | succ levels ih =>
      have hdeeper : Text.AllBlank (indent ++ "  ") := by
        rw [Text.allBlank_append]
        exact ⟨hindent, by simp [Text.AllBlank, Text.isBlank]⟩
      have hinside : ∀ c ∈ g.inside b, ∀ rest, readBlocks (boxTitle b.index :: titles)
          ((boxPart g levels (indent ++ "  ") c).lines ++ rest) =
            (readBlocks (boxTitle b.index :: titles) rest).map
              ((g.entered levels c).map blockOf ++ ·) := by
        intro c hc rest
        refine ih hdeeper (Graph.mem_of_inside hc) ?_ rest
        rw [titleAround, (h.of_inside hb hc).1]
        rfl
      have hopen := blockMark_box hindent b.index
      have hclose := blockMark_close hindent
      rw [boxPart]
      dsimp only
      generalize indent ++ "subgraph " ++ Box.idOf b.index ++ " \x7b" = first at hopen
      generalize hlast : indent ++ "\x7d" = last
      rw [show indent ++ ['\x7d'] = last from hlast] at hclose
      simp only [List.append_assoc, List.cons_append, List.nil_append]
      rw [readBlocks, hopen]
      dsimp only
      rw [readBlocks_inside (boxAttributes_inside g _ b),
        readBlocks_inside (memberStatements_inside g _ b), readBlocks_join hinside,
        readBlocks, hclose,
        haround]
      simp [Graph.entered, blockOf, List.map_flatMap, Function.comp_def]

/-- Statements that set defaults neither open nor close a block. -/
theorem blockMark_defaults (settings : Settings) (font : Text) :
    ∀ l ∈ defaults settings font, blockMark l = .inside := by
  unfold defaults
  simp only [List.forall_mem_cons]
  exact ⟨blockMark_statement _, blockMark_statement _, blockMark_statement _, by simp⟩

/-- Nor do the statements about the whole drawing. -/
theorem blockMark_directives (settings : Settings) :
    ∀ l ∈ directives settings, blockMark l = .inside := by
  intro l hl
  simp only [directives, directive?, separation, List.mem_append, Option.mem_toList,
    Option.map_eq_some_iff] at hl
  rcases hl with ((((hl | hl) | hl) | hl) | hl) | hl
  all_goals
    obtain ⟨_, -, rfl⟩ := hl
    exact blockMark_statement _

/-- **What is read from a drawing**: the block of the drawing, and in it the
blocks of the boxes that are drawn, each in the block of its parent. -/
theorem readBlocks_lines {g : Graph} (h : g.WellNested) (font : Text) :
    readBlocks [] (lines g font) =
      some ((drawingTitle, none) :: (g.boxes.filter g.isDrawn).map blockOf) := by
  have hfree : ∀ boxed, ∀ l ∈ freeNodes g boxed, blockMark l = .inside := by
    intro boxed l hl
    obtain ⟨n, -, rfl⟩ := List.mem_map.mp hl
    exact blockMark_statement _
  have hedges : ∀ l ∈ g.edges.map edgeStatement, blockMark l = .inside := by
    intro l hl
    obtain ⟨e, -, rfl⟩ := List.mem_map.mp hl
    exact blockMark_statement _
  have hopen : blockMark "digraph G \x7b" = .opens drawingTitle := by decide
  have hclose : blockMark "\x7d" = .closes := by decide
  -- boxes of depth two are in no box, so their blocks are directly in that of the drawing
  have htop : ∀ b ∈ g.topBoxes, ∀ rest, readBlocks [drawingTitle]
      ((boxPart g g.boxes.length "  " b).lines ++ rest) =
        (readBlocks [drawingTitle] rest).map ((g.entered g.boxes.length b).map blockOf ++ ·) := by
    intro b hb rest
    obtain ⟨hmem, hdepth⟩ := List.mem_filter.mp hb
    have hnone := h.parent_of_top hmem (by simpa using hdepth)
    refine readBlocks_boxPart h (by simp [Text.AllBlank, Text.isBlank]) hmem ?_ rest
    rw [titleAround, hnone]
    rfl
  unfold lines boxParts
  dsimp only
  generalize "digraph G \x7b".toList = first at hopen
  generalize "\x7d".toList = last at hclose
  simp only [List.append_assoc, List.cons_append]
  rw [readBlocks, hopen]
  dsimp only
  rw [readBlocks_inside (blockMark_defaults g.settings font),
    readBlocks_inside (blockMark_directives g.settings), readBlocks_join htop,
    readBlocks_inside (hfree _), readBlocks_inside hedges, readBlocks, hclose, ← List.map_flatMap,
    h.entered_topBoxes]
  simp [readBlocks]

/-- The blocks that are read are those that the lines open, in their order; none
is left out and none is added. -/
theorem titles_readBlocks {titles lines : List Text} {blocks : List (Text × Option Text)}
    (h : readBlocks titles lines = some blocks) :
    (lines.filterMap fun line =>
      match blockMark line with
      | .opens title => some title
      | _ => none) = blocks.map (·.1) := by
  induction lines generalizing titles blocks with
  | nil =>
      rw [readBlocks] at h
      split at h
      · cases h
        rfl
      · cases h
  | cons line lines ih =>
      rw [readBlocks] at h
      cases hmark : blockMark line with
      | opens title =>
          rw [hmark] at h
          obtain ⟨rest, hrest, rfl⟩ := Option.map_eq_some_iff.mp h
          simp [hmark, ih hrest]
      | closes =>
          rw [hmark] at h
          dsimp only at h
          split at h
          · cases h
          · simp [hmark, ih h]
      | inside =>
          rw [hmark] at h
          simp [hmark, ih h]

/-- The names of the blocks of boxes are found in what is read. -/
theorem blockNames_of_readBlocks {lines : List Text} {blocks : List (Text × Option Text)}
    (h : readBlocks [] lines = some blocks) :
    blockNames lines = (blocks.map (·.1)).filterMap (Text.dropStart? "subgraph ") := by
  rw [← titles_readBlocks h, List.filterMap_filterMap]
  unfold blockNames
  congr 1
  funext line
  cases blockMark line <;> rfl

theorem dropStart?_boxTitle (index : Nat) :
    Text.dropStart? "subgraph " (boxTitle index) = some (Box.idOf index) :=
  Text.dropStart?_append _ _

end Dot

namespace Graph

/-- The boxes of a graph are drawn by the blocks of some lines. -/
structure DrawnBy (g : Graph) (lines : List Text) : Prop where
  /-- The names of the blocks are those of the drawn boxes, in opening order. -/
  written : Dot.blockNames lines = (g.boxes.filter g.isDrawn).map fun b => Box.idOf b.index
  /-- No box is written twice. -/
  once : (Dot.blockNames lines).Nodup
  /-- Blocks are nested and closed, and the block of a box is directly in that
  of its parent. -/
  nested : Dot.readBlocks [] lines = some ((Dot.drawingTitle, none) ::
    (g.boxes.filter g.isDrawn).map fun b => (Dot.boxTitle b.index, some (Dot.titleAround b)))
  /-- A box is written when the outermost box around it has depth two, and only
  then. -/
  outermost : ∀ b ∈ g.boxes, ∃ r ∈ g.boxes, g.outermost? b.index = some r ∧ r.parent = none ∧
    (Box.idOf b.index ∈ Dot.blockNames lines ↔ r.depth = 2)

end Graph

/-- **The boxes of a drawing.**  Every document is drawn, and reading the blocks
of the drawing gives its boxes back, each one in the block of the box that it is
in. -/
theorem compile_blocks (t : Text) (font : Option Text) (hfont : ∀ f ∈ font, '\n' ∉ f) :
    ∃ g, (compile t font).graph = some g ∧ g.DrawnBy ((compile t font).dot.splitOn '\n') := by
  obtain ⟨g, hgraph, hnested, hlines⟩ := splitOn_dot t font hfont
  have hopened := hnested.opened
  refine ⟨g, hgraph, ?_⟩
  rw [hlines]
  generalize (filled? font).getD Label.defaultFont = font
  have hread := Dot.readBlocks_lines hnested font
  have hwritten : Dot.blockNames (Dot.lines g font) =
      (g.boxes.filter g.isDrawn).map fun b => Box.idOf b.index := by
    have hskip : Text.dropStart? "subgraph " Dot.drawingTitle = none := by decide
    rw [Dot.blockNames_of_readBlocks hread, List.map_cons, List.filterMap_cons_none hskip,
      List.map_map, List.filterMap_map, ← List.filterMap_eq_map]
    refine List.filterMap_congr ?_
    intro b _
    exact Dot.dropStart?_boxTitle b.index
  refine ⟨hwritten, ?_, hread, ?_⟩
  · rw [hwritten, List.Nodup, List.pairwise_map]
    refine (hopened.ordered.filter g.isDrawn).imp ?_
    rintro a b ⟨-, hlt⟩ heq
    exact Nat.ne_of_lt hlt (Box.idOf_injective heq)
  · intro b hb
    obtain ⟨tree, htree, hin⟩ := Graph.exists_tree hopened hb
    have hout := Graph.outermost?_forest hopened htree b hin
    refine ⟨tree.root, Graph.mem_of_forest hopened htree _ tree.root_mem_boxes, hout,
      Graph.root_forest hopened htree, ?_⟩
    have hname : Box.idOf b.index ∈ (g.boxes.filter g.isDrawn).map (fun b => Box.idOf b.index) ↔
        g.isDrawn b = true := by
      rw [List.mem_map]
      constructor
      · rintro ⟨c, hc, heq⟩
        obtain ⟨hmem, hdrawn⟩ := List.mem_filter.mp hc
        unfold Graph.isDrawn at hdrawn ⊢
        rwa [← Box.idOf_injective heq]
      · intro hdrawn
        exact ⟨b, List.mem_filter.mpr ⟨hb, hdrawn⟩, rfl⟩
    rw [hwritten, hname]
    simp [Graph.isDrawn, hout]

/-- A box of depth six at the top is never written; the two boxes after it are,
one in the other. -/
theorem compile_blocks_of_deep_box :
    Dot.blockNames ((compile "------D\n--A\n----B\nX:: 1" (some "Inter")).dot.splitOn '\n') =
        ["cluster_1".toList, "cluster_2".toList] ∧
      (∀ f ∈ some "Inter".toList, '\n' ∉ f) ∧
      ∃ g, (compile "------D\n--A\n----B\nX:: 1" (some "Inter")).graph = some g ∧
        g.DrawnBy ((compile "------D\n--A\n----B\nX:: 1" (some "Inter")).dot.splitOn '\n') :=
  ⟨by decide +kernel, by decide, compile_blocks _ _ (by decide)⟩

end LineDiagram
