import LineDiagram.Proofs.BoxLists

/-!
# Boxes as trees

A drawing starts from the boxes of depth two, wherever they stand in the list of
all boxes, and goes on from a box to the boxes on its list.  That it meets each
box once at most, and in opening order, is a fact about trees: opening order is
a preorder of the nesting, so the boxes of a document can be read as trees, a
box before its content, and the roots of these trees are the boxes that are in
no box.  Boxes of depth two are such boxes, and the trees below them are all
that is drawn.

* `boxesAll_treesOf` — the trees, read box before content, are the boxes in
  opening order;
* `boxesAll_drawnForest` — the drawn trees hold the boxes whose outermost box
  has depth two;
* `entered_root` — going from list to list below a box, one meets the boxes of
  its tree;
* `flatMap_entered` — the boxes that a drawing meets are those of the drawn
  trees;
* `entered_topBoxes` — so they are those whose outermost box has depth two, each
  once, in opening order.
-/

namespace LineDiagram

/-- A box with the boxes in it. -/
inductive BoxTree where
  /-- A box and the trees of the boxes directly in it. -/
  | branch (box : Box) (children : List BoxTree)

namespace BoxTree

/-- The outermost box of a tree. -/
def root : BoxTree → Box
  | .branch box _ => box

mutual

/-- The boxes of a tree, each before those in it. -/
def boxes : BoxTree → List Box
  | .branch box children => box :: boxesAll children

/-- The boxes of several trees. -/
def boxesAll : List BoxTree → List Box
  | [] => []
  | tree :: rest => boxes tree ++ boxesAll rest

end

mutual

/-- Below every box of a tree stand the trees of all the boxes that are directly
in it, in order. -/
def Grown (all : List Box) : BoxTree → Prop
  | .branch box children =>
    children.map root = all.filter (·.parent == some box.index) ∧ GrownAll all children

/-- The same for several trees. -/
def GrownAll (all : List Box) : List BoxTree → Prop
  | [] => True
  | tree :: rest => Grown all tree ∧ GrownAll all rest

end

theorem boxesAll_eq_flatMap (trees : List BoxTree) : boxesAll trees = trees.flatMap boxes := by
  induction trees with
  | nil => rfl
  | cons tree trees ih => rw [boxesAll, ih, List.flatMap_cons]

theorem boxesAll_append (first second : List BoxTree) :
    boxesAll (first ++ second) = boxesAll first ++ boxesAll second := by
  simp [boxesAll_eq_flatMap]

theorem grownAll_iff {all : List Box} {trees : List BoxTree} :
    GrownAll all trees ↔ ∀ t ∈ trees, Grown all t := by
  induction trees with
  | nil => simp [GrownAll]
  | cons tree trees ih => simp [GrownAll, ih]

theorem root_mem_boxes (tree : BoxTree) : tree.root ∈ tree.boxes := by
  cases tree with
  | branch box children => simp [root, boxes]

theorem mem_boxesAll {b : Box} {trees : List BoxTree} :
    b ∈ boxesAll trees ↔ ∃ t ∈ trees, b ∈ t.boxes := by
  rw [boxesAll_eq_flatMap, List.mem_flatMap]

/-- In a grown tree the box above a box is its parent. -/
theorem Grown.parent_of_child {all : List Box} {box : Box} {children : List BoxTree}
    (h : Grown all (.branch box children)) {t : BoxTree} (ht : t ∈ children) :
    t.root.parent = some box.index := by
  have hmem : t.root ∈ children.map root := List.mem_map_of_mem ht
  rw [h.1] at hmem
  simpa using (List.mem_filter.mp hmem).2

mutual

/-- Boxes that are in no box of a tree do not matter to it.  So a tree may be
grown in part of the list and stay grown in all of it. -/
theorem Grown.congr {all all' : List Box} : ∀ t : BoxTree, (∀ b ∈ t.boxes,
    all'.filter (·.parent == some b.index) = all.filter (·.parent == some b.index)) →
      Grown all t → Grown all' t
  | .branch box children, hsame, hgrown => by
      rw [boxes, List.forall_mem_cons] at hsame
      exact ⟨hgrown.1.trans hsame.1.symm, GrownAll.congr children hsame.2 hgrown.2⟩

/-- The same for several trees. -/
theorem GrownAll.congr {all all' : List Box} : ∀ trees : List BoxTree, (∀ b ∈ boxesAll trees,
    all'.filter (·.parent == some b.index) = all.filter (·.parent == some b.index)) →
      GrownAll all trees → GrownAll all' trees
  | [], _, _ => trivial
  | tree :: rest, hsame, hgrown => by
      rw [boxesAll, List.forall_mem_append] at hsame
      exact ⟨Grown.congr tree hsame.1 hgrown.1, GrownAll.congr rest hsame.2 hgrown.2⟩

end

end BoxTree

namespace Graph

open BoxTree

/-- Boxes in opening order as trees: a box takes the later trees whose root is
directly in it. -/
def treesOf (boxes : List Box) : List BoxTree :=
  boxes.foldr (fun box later =>
    let (inside, outside) := later.partition (·.root.parent == some box.index)
    .branch box inside :: outside) []

/-- The boxes as trees. -/
def forest (g : Graph) : List BoxTree := treesOf g.boxes

/-- The trees whose outermost box has the depth of the top. -/
def drawnForest (g : Graph) : List BoxTree := g.forest.filter (·.root.depth == 2)

/-- One box more in front: it takes the trees whose roots are directly in it,
and the others stand beside it. -/
theorem treesOf_cons (box : Box) (boxes : List Box) :
    treesOf (box :: boxes) =
      .branch box ((treesOf boxes).filter (·.root.parent == some box.index)) ::
        (treesOf boxes).filter (fun t => !(t.root.parent == some box.index)) := by
  unfold treesOf
  rw [List.foldr_cons]
  simp only [List.partition_eq_filter_filter]
  rfl

private theorem map_root_filter (p : Option Nat → Bool) (trees : List BoxTree) :
    (trees.filter fun t => p t.root.parent).map root =
      (trees.map root).filter fun b => p b.parent := by
  rw [List.filter_map]
  rfl

/-- **The roots of the trees** are the boxes that are directly in no box of the
list: in an earlier one, or in none. -/
theorem roots_treesOf {first : Nat} {boxes : List Box} (h : Opened first boxes) :
    (treesOf boxes).map root = boxes.filter fun b => b.parent.all (· < first) := by
  induction boxes generalizing first with
  | nil => rfl
  | cons box boxes ih =>
      have hhead := h.head
      have hfirst : box.parent.all (· < first) = true := by
        rw [Option.all_eq_true]
        intro p hp
        have := h.earlier box List.mem_cons_self p hp
        simpa [hhead] using this
      rw [treesOf_cons, List.map_cons, map_root_filter (fun p => !(p == some box.index)), ih h.tail,
        List.filter_filter,
        List.filter_cons_of_pos (p := fun b : Box => b.parent.all (· < first)) hfirst]
      -- the boxes directly in `box` are roots no more
      refine congrArg (box :: ·) (List.filter_congr ?_)
      intro b _
      cases hparent : b.parent with
      | none => rfl
      | some p =>
          rw [hhead, Bool.eq_iff_iff]
          simp only [Option.all_some, Bool.and_eq_true, Bool.not_eq_true',
            beq_eq_false_iff_ne, ne_eq, Option.some.injEq, decide_eq_true_eq]
          omega

/-- A root is directly in no box of the list: its parent, if there is one, was
opened before the first of them. -/
theorem root_treesOf {first : Nat} {boxes : List Box} (h : Opened first boxes) :
    ∀ t ∈ treesOf boxes, t.root ∈ boxes ∧ ∀ p, t.root.parent = some p → p < first := by
  intro t ht
  have hmem : t.root ∈ (treesOf boxes).map root := List.mem_map_of_mem ht
  rw [roots_treesOf h, List.mem_filter, Option.all_eq_true] at hmem
  exact ⟨hmem.1, fun p hp => by simpa using hmem.2 p hp⟩

/-- Where no chosen element comes after one that is not, choosing cuts the list
in two. -/
private theorem filter_append_filter_not {α : Type} (p : α → Bool) {l : List α}
    (h : l.Pairwise fun a b => p b = true → p a = true) :
    l.filter p ++ l.filter (fun a => !p a) = l := by
  induction l with
  | nil => rfl
  | cons a l ih =>
      rw [List.pairwise_cons] at h
      by_cases ha : p a = true
      · simp [ha, ih h.2]
      · have hnone : l.filter p = [] := by
          rw [List.filter_eq_nil_iff]
          intro b hb hpb
          exact ha (h.1 b hb hpb)
        have hall : l.filter (fun a => !p a) = l := by
          have := ih h.2
          rwa [hnone, List.nil_append] at this
        simp [ha, hnone, hall]

/-- **Opening order is a preorder.**  The trees, read box before content, are
the boxes. -/
theorem boxesAll_treesOf {first : Nat} {boxes : List Box} (h : Opened first boxes) :
    boxesAll (treesOf boxes) = boxes := by
  induction boxes generalizing first with
  | nil => rfl
  | cons box boxes ih =>
      -- a root before one that is directly in `box` is inside `box`, and is a root only if it is
      -- directly in it
      have hcut : (treesOf boxes).Pairwise fun s t =>
          (t.root.parent == some box.index) = true → (s.root.parent == some box.index) = true := by
        have hordered : ((treesOf boxes).map root).Pairwise fun a b =>
            first + 1 ≤ a.index ∧ a.index < b.index := by
          rw [roots_treesOf h.tail]
          exact h.tail.ordered.filter _
        refine (List.pairwise_map.mp hordered).imp_of_mem ?_
        intro s t hs ht ⟨hfirst, hlt⟩ hparent
        obtain ⟨hsmem, hsroot⟩ := root_treesOf h.tail s hs
        obtain ⟨htmem, -⟩ := root_treesOf h.tail t ht
        have hhead := h.head
        have hparent : t.root.parent = some box.index := by simpa using hparent
        obtain ⟨p, hp, hle⟩ := h.within s.root (List.mem_cons_of_mem box hsmem) t.root
          (List.mem_cons_of_mem box htmem) box.index (by omega) hparent (by omega) hlt
        have hroot := hsroot p hp
        have heq : p = box.index := by omega
        simp [hp, heq]
      rw [treesOf_cons, boxesAll, BoxTree.boxes, List.cons_append, ← boxesAll_append,
        filter_append_filter_not _ hcut, ih h.tail]

/-- **The trees are grown**: each box has all the boxes below it that are
directly in it. -/
theorem grownAll_treesOf {first : Nat} {boxes : List Box} (h : Opened first boxes) :
    GrownAll boxes (treesOf boxes) := by
  induction boxes generalizing first with
  | nil => trivial
  | cons box boxes ih =>
      have hhead := h.head
      -- the first box is in none of the later ones
      have hskip : ∀ i, first ≤ i → (box :: boxes).filter (·.parent == some i) =
          boxes.filter (·.parent == some i) := by
        intro i hi
        apply List.filter_cons_of_neg
        intro hparent
        have := h.earlier box List.mem_cons_self i (by simpa using hparent)
        omega
      have hlater : GrownAll (box :: boxes) (treesOf boxes) := by
        refine GrownAll.congr _ ?_ (ih h.tail)
        intro b hb
        rw [boxesAll_treesOf h.tail] at hb
        have hge := (List.pairwise_cons.mp h.ordered).1 b hb
        exact hskip b.index (by omega)
      have hinside : ((treesOf boxes).filter (·.root.parent == some box.index)).map root =
          (box :: boxes).filter (·.parent == some box.index) := by
        rw [map_root_filter (· == some box.index), roots_treesOf h.tail, List.filter_filter,
          hskip box.index (by omega)]
        apply List.filter_congr
        intro b _
        by_cases hparent : b.parent = some box.index
        · simp [hparent, hhead]
        · simp [hparent]
      rw [grownAll_iff] at hlater
      rw [treesOf_cons]
      refine ⟨⟨hinside, ?_⟩, ?_⟩
      · rw [grownAll_iff]
        intro t ht
        exact hlater t (List.mem_filter.mp ht).1
      · rw [grownAll_iff]
        intro t ht
        exact hlater t (List.mem_filter.mp ht).1

/-! ## Outermost boxes -/

/-- The outermost box around the box with a number: the box itself when nothing
is around it. -/
def outermost? (g : Graph) (index : Nat) : Option Box :=
  match g.boxes[index]? with
  | none => none
  | some box =>
    match box.parent with
    | none => some box
    | some p => if p < index then g.outermost? p else none
termination_by index

/-- Whether a box is drawn: the outermost box around it has the depth of the
top. -/
def isDrawn (g : Graph) (box : Box) : Bool := (g.outermost? box.index).any (·.depth == 2)

theorem outermost?_root {g : Graph} {index : Nat} {box : Box} (hget : g.boxes[index]? = some box)
    (hparent : box.parent = none) : g.outermost? index = some box := by
  rw [outermost?]
  simp [hget, hparent]

theorem outermost?_inner {g : Graph} {index p : Nat} {box : Box}
    (hget : g.boxes[index]? = some box) (hparent : box.parent = some p) (hlt : p < index) :
    g.outermost? index = g.outermost? p := by
  rw [outermost?]
  simp [hget, hparent, hlt]

variable {g : Graph}

mutual

/-- All boxes of a tree have the outermost box of its root, by induction over
the tree. -/
theorem outermost?_boxes (h : Opened 0 g.boxes) {r : Option Box} :
    ∀ t : BoxTree, t.Grown g.boxes → (∀ b ∈ t.boxes, b ∈ g.boxes) →
      g.outermost? t.root.index = r → ∀ b ∈ t.boxes, g.outermost? b.index = r
  | .branch box children, hgrown, hmem, hroot, b, hb => by
      rw [BoxTree.boxes, List.mem_cons] at hb
      rcases hb with rfl | hinside
      · exact hroot
      · refine outermost?_boxesAll h children hgrown.2 ?_ ?_ b hinside
        · intro c hc
          exact hmem c (by rw [BoxTree.boxes]; exact List.mem_cons_of_mem box hc)
        · intro t ht
          have hchild : t.root ∈ g.boxes := hmem t.root (by
            rw [BoxTree.boxes]
            exact List.mem_cons_of_mem box (mem_boxesAll.mpr ⟨t, ht, root_mem_boxes t⟩))
          have hparent := hgrown.parent_of_child ht
          rw [outermost?_inner (h.getElem? hchild) hparent (h.earlier _ hchild _ hparent)]
          exact hroot

/-- All boxes of some trees have the outermost box that their roots have in
common. -/
theorem outermost?_boxesAll (h : Opened 0 g.boxes) {r : Option Box} :
    ∀ trees : List BoxTree, GrownAll g.boxes trees → (∀ b ∈ boxesAll trees, b ∈ g.boxes) →
      (∀ t ∈ trees, g.outermost? t.root.index = r) →
      ∀ b ∈ boxesAll trees, g.outermost? b.index = r
  | [], _, _, _, b, hb => by simp [boxesAll] at hb
  | tree :: rest, hgrown, hmem, hroots, b, hb => by
      rw [boxesAll, List.mem_append] at hb
      rcases hb with htree | hrest
      · refine outermost?_boxes h tree hgrown.1 ?_ (hroots tree List.mem_cons_self) b htree
        intro c hc
        exact hmem c (by rw [boxesAll]; exact List.mem_append_left _ hc)
      · refine outermost?_boxesAll h rest hgrown.2 ?_ ?_ b hrest
        · intro c hc
          exact hmem c (by rw [boxesAll]; exact List.mem_append_right _ hc)
        · intro t ht
          exact hroots t (List.mem_cons_of_mem tree ht)

end

/-- Leaving out trees whose boxes are not chosen, and no others, chooses
boxes. -/
private theorem boxesAll_filter {p : BoxTree → Bool} {q : Box → Bool} {trees : List BoxTree}
    (h : ∀ t ∈ trees, ∀ b ∈ t.boxes, q b = p t) :
    boxesAll (trees.filter p) = (boxesAll trees).filter q := by
  induction trees with
  | nil => rfl
  | cons tree trees ih =>
      have hrest := ih (fun t ht => h t (List.mem_cons_of_mem tree ht))
      have htree := h tree List.mem_cons_self
      rw [boxesAll, List.filter_append, ← hrest, List.filter_cons]
      split
      · rename_i hp
        rw [boxesAll, List.filter_eq_self.mpr (fun b hb => (htree b hb).trans hp)]
      · rename_i hp
        have hnone : tree.boxes.filter q = [] := by
          rw [List.filter_eq_nil_iff]
          intro b hb
          rwa [htree b hb]
        rw [hnone, List.nil_append]

/-- The roots of the forest are the boxes that are in no box, in the order in
which they were opened. -/
theorem roots_forest (h : Opened 0 g.boxes) :
    g.forest.map root = g.boxes.filter (·.parent == none) := by
  unfold forest
  rw [roots_treesOf h]
  apply List.filter_congr
  intro b _
  cases b.parent <;> rfl

/-- The root of a tree of the forest is in no box. -/
theorem root_forest (h : Opened 0 g.boxes) {t : BoxTree} (ht : t ∈ g.forest) :
    t.root.parent = none := by
  have hmem : t.root ∈ g.forest.map root := List.mem_map_of_mem ht
  rw [roots_forest h] at hmem
  simpa using (List.mem_filter.mp hmem).2

theorem mem_of_forest (h : Opened 0 g.boxes) {t : BoxTree} (ht : t ∈ g.forest) :
    ∀ b ∈ t.boxes, b ∈ g.boxes := by
  intro b hb
  rw [← boxesAll_treesOf h]
  exact mem_boxesAll.mpr ⟨t, ht, hb⟩

theorem exists_tree (h : Opened 0 g.boxes) {b : Box} (hb : b ∈ g.boxes) :
    ∃ t ∈ g.forest, b ∈ t.boxes := by
  rw [← boxesAll_treesOf h] at hb
  exact mem_boxesAll.mp hb

/-- The root of a tree of the forest is the outermost box of all boxes of the
tree. -/
theorem outermost?_forest (h : Opened 0 g.boxes) {t : BoxTree} (ht : t ∈ g.forest) :
    ∀ b ∈ t.boxes, g.outermost? b.index = some t.root := by
  have hmem := mem_of_forest h ht
  have hroot := outermost?_root (h.getElem? (hmem _ (root_mem_boxes t))) (root_forest h ht)
  exact outermost?_boxes h t (grownAll_iff.mp (grownAll_treesOf h) t ht) hmem hroot

/-- **The boxes of the drawn trees** are those whose outermost box has the depth
of the top, in opening order. -/
theorem boxesAll_drawnForest (h : Opened 0 g.boxes) :
    boxesAll g.drawnForest = g.boxes.filter g.isDrawn := by
  have hall : boxesAll g.forest = g.boxes := boxesAll_treesOf h
  unfold drawnForest
  rw [boxesAll_filter (q := g.isDrawn), hall]
  intro t ht b hb
  unfold isDrawn
  rw [outermost?_forest h ht b hb]
  rfl

/-! ## From list to list -/

/-- The boxes that one meets going from list to list below a box, no more than
some levels down. -/
def entered (g : Graph) : (levels : Nat) → Box → List Box
  | 0, _ => []
  | levels + 1, box => box :: (g.inside box).flatMap (entered g levels)

/-- A box that is found on a list is one of the graph. -/
theorem mem_of_inside {b c : Box} (h : c ∈ g.inside b) : c ∈ g.boxes := by
  obtain ⟨index, -, hfound⟩ := List.mem_filterMap.mp h
  exact List.mem_of_find?_eq_some hfound

/-- A box on the list of another one has a greater number and that one for its
parent. -/
theorem WellNested.of_inside (h : g.WellNested) {b c : Box} (hb : b ∈ g.boxes)
    (hc : c ∈ g.inside b) : c.parent = some b.index ∧ b.index < c.index := by
  rw [h.inside_eq hb] at hc
  obtain ⟨hmem, hparent⟩ := List.mem_filter.mp hc
  have hparent : c.parent = some b.index := by simpa using hparent
  exact ⟨hparent, h.opened.earlier c hmem _ hparent⟩

/-- **Below a box one meets its tree.**  The numbers grow on the way down, so
there are enough levels when there are as many as numbers left. -/
theorem WellNested.entered_root (h : g.WellNested) {levels : Nat} {t : BoxTree}
    (hgrown : t.Grown g.boxes) (hroot : t.root ∈ g.boxes)
    (hlevels : g.boxes.length ≤ t.root.index + levels) : g.entered levels t.root = t.boxes := by
  induction levels generalizing t with
  | zero =>
      have := (List.getElem?_eq_some_iff.mp (h.opened.getElem? hroot)).1
      omega
  | succ levels ih =>
      cases t with
      | branch box children =>
          have hinside : g.inside box = children.map root := (h.inside_eq hroot).trans hgrown.1.symm
          rw [root, entered, hinside, List.flatMap_map, BoxTree.boxes, boxesAll_eq_flatMap]
          congr 1
          apply List.flatMap_congr
          intro t ht
          have hlisted : t.root ∈ g.inside box := by
            rw [hinside]
            exact List.mem_map_of_mem ht
          have hlt : box.index < t.root.index := (h.of_inside hroot hlisted).2
          rw [root] at hlevels
          exact ih (grownAll_iff.mp hgrown.2 t ht) (mem_of_inside hlisted) (by omega)

/-- **The boxes at the top are the roots of the drawn trees**: those of depth
two are in no box. -/
theorem WellNested.topBoxes_eq (h : g.WellNested) : g.topBoxes = g.drawnForest.map root := by
  have hroots : g.drawnForest.map root = (g.forest.map root).filter (·.depth == 2) := by
    rw [List.filter_map]
    rfl
  rw [hroots, roots_forest h.opened, List.filter_filter]
  apply List.filter_congr
  intro b hb
  by_cases hdepth : b.depth = 2
  · simp [hdepth, h.parent_of_top hb hdepth]
  · simp [hdepth]

/-- **The boxes that a drawing meets**, from the boxes of depth two on, are
those of the drawn trees. -/
theorem WellNested.flatMap_entered (h : g.WellNested) :
    g.topBoxes.flatMap (g.entered g.boxes.length) = boxesAll g.drawnForest := by
  rw [h.topBoxes_eq, List.flatMap_map, boxesAll_eq_flatMap]
  apply List.flatMap_congr
  intro t ht
  have hforest : t ∈ g.forest := (List.mem_filter.mp ht).1
  exact h.entered_root (grownAll_iff.mp (grownAll_treesOf h.opened) t hforest)
    (mem_of_forest h.opened hforest _ (root_mem_boxes t)) (Nat.le_add_left _ _)

/-- **A drawing meets the boxes whose outermost box has depth two**, each once
and in opening order. -/
theorem WellNested.entered_topBoxes (h : g.WellNested) :
    g.topBoxes.flatMap (g.entered g.boxes.length) = g.boxes.filter g.isDrawn :=
  h.flatMap_entered.trans (boxesAll_drawnForest h.opened)

end Graph

end LineDiagram
