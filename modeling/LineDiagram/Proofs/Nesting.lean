import LineDiagram.Proofs.Addresses
import LineDiagram.Proofs.Reading

/-!
# How boxes are nested

The open boxes of a scan stand in each other: each is deeper than the one around
it and was opened after it.  Whatever is opened while a box is open is inside
that box.  So opening order is a preorder of the nesting, for every sequence of
markers.

* `nested_scan` — what is true of the open boxes after every line;
* `Graph.Opened` — numbers and parents of boxes in opening order;
* `Draft.opened_ofLines` — the boxes of every document are in opening order.
-/

namespace LineDiagram

namespace Box

/-- Numbers of surrounding boxes in opening order: each is smaller than the own
number, and what is opened between a box and a later one directly in it is
inside it too. -/
structure InPreorder (parents : List (Option Nat)) : Prop where
  earlier : ∀ (k p : Nat), parents[k]? = some (some p) → p < k
  within : ∀ (i j k : Nat) q, parents[j]? = some (some i) → i < k → k < j → parents[k]? = some q →
    ∃ p, q = some p ∧ i ≤ p

namespace Scanner

/-- The number of the box around each opener. -/
def parents (s : Scanner) : List (Option Nat) := s.openers.map (·.parent)

/-- The boxes that stay open around a new one of some depth. -/
def around (s : Scanner) (depth : Nat) : List Opener :=
  s.stack.dropWhile fun o => depth < o.depth + 2

/-- Each open box is directly in the next one. -/
def Chained : List Opener → Prop
  | [] => True
  | o :: outer => o.parent = outer.head?.map (·.index) ∧ Chained outer

/-- What is true of the open boxes of a scan. -/
structure Nested (s : Scanner) : Prop where
  even : ∀ o ∈ s.stack, o.depth % 2 = 0 ∧ 2 ≤ o.depth
  ordered : s.stack.Pairwise fun a b => b.index < a.index ∧ b.depth < a.depth
  chained : Chained s.stack
  numbered : ∀ o ∈ s.stack, o.index < s.openers.length
  inside : ∀ o ∈ s.stack, ∀ (k : Nat) q, s.parents[k]? = some q → o.index < k →
    ∃ p, q = some p ∧ o.index ≤ p
  preorder : InPreorder s.parents

theorem length_parents (s : Scanner) : s.parents.length = s.openers.length := List.length_map _

/-- Closing boxes changes no opener's place. -/
theorem parents_close (s : Scanner) (depth index : Nat) :
    (s.close depth index).parents = s.parents := by
  unfold parents close
  rw [List.map_map]
  apply List.map_congr_left
  intro o _
  simp only [Function.comp]
  split <;> rfl

/-- A marker closes all boxes that are as deep as it is, or deeper. -/
theorem stack_close (s : Scanner) (depth index : Nat) :
    (s.close depth index).stack = s.stack.dropWhile fun o => depth ≤ o.depth := by
  unfold close
  dsimp only
  generalize s.stack = stack
  induction stack with
  | nil => rfl
  | cons o stack ih =>
      by_cases hdeep : depth ≤ o.depth
      · simp [hdeep, ih]
      · simp [hdeep]

/-- Each of the outer boxes is still directly in the next one when the inner
ones are left out. -/
theorem Chained.suffix {inner stack : List Opener} (h : Chained (inner ++ stack)) :
    Chained stack := by
  induction inner with
  | nil => exact h
  | cons o inner ih => exact ih h.2

/-- Where no element that goes comes after one that stays, the front that goes
is all that goes. -/
private theorem dropWhile_eq_filter {α : Type} (p : α → Bool) {l : List α}
    (h : l.Pairwise fun a b => p b = true → p a = true) :
    l.dropWhile p = l.filter fun a => !p a := by
  induction l with
  | nil => rfl
  | cons a l ih =>
      rw [List.pairwise_cons] at h
      by_cases ha : p a = true
      · simp [ha, ih h.2]
      · have hall : l.filter (fun b => !p b) = l := by
          rw [List.filter_eq_self]
          intro b hb
          have hpb : ¬ p b = true := fun hpb => ha (h.1 b hb hpb)
          simpa using hpb
        simp [ha, hall]

/-- A closing marker leaves the boxes that are shallower.  Since depths go up
from the outermost to the innermost box, dropping from the inside is the same as
choosing. -/
theorem Nested.stack_close {s : Scanner} (h : Nested s) (depth index : Nat) :
    (s.close depth index).stack = s.stack.filter fun o => o.depth < depth := by
  rw [Scanner.stack_close, dropWhile_eq_filter]
  · apply List.filter_congr
    intro o _
    rw [← decide_not, decide_eq_decide]
    omega
  · refine h.ordered.imp ?_
    intro a b hab hb
    simp only [decide_eq_true_eq] at hb ⊢
    omega

/-- A box of some depth is opened inside the boxes that are two dashes
shallower. -/
theorem Nested.around_eq {s : Scanner} (h : Nested s) (depth : Nat) :
    s.around depth = s.stack.filter fun o => o.depth + 2 ≤ depth := by
  unfold around
  rw [dropWhile_eq_filter]
  · apply List.filter_congr
    intro o _
    rw [← decide_not, decide_eq_decide]
    omega
  · refine h.ordered.imp ?_
    intro a b hab hb
    simp only [decide_eq_true_eq] at hb ⊢
    omega

/-- Closing some of the innermost boxes keeps what is true of the open ones. -/
theorem Nested.shrink {s t : Scanner} (h : Nested s) (hparents : t.parents = s.parents)
    (hstack : t.stack <:+ s.stack) : Nested t := by
  obtain ⟨inner, hinner⟩ := hstack
  have hmem : ∀ o ∈ t.stack, o ∈ s.stack := by
    intro o ho
    rw [← hinner]
    exact List.mem_append_right inner ho
  have hlength : t.openers.length = s.openers.length := by
    rw [← length_parents, ← length_parents, hparents]
  refine ⟨?_, ?_, ?_, ?_, ?_, ?_⟩
  · intro o ho
    exact h.even o (hmem o ho)
  · have hordered := h.ordered
    rw [← hinner] at hordered
    exact (List.pairwise_append.mp hordered).2.1
  · have hchained := h.chained
    rw [← hinner] at hchained
    exact hchained.suffix
  · intro o ho
    rw [hlength]
    exact h.numbered o (hmem o ho)
  · intro o ho
    rw [hparents]
    exact h.inside o (hmem o ho)
  · rw [hparents]
    exact h.preorder

/-- The new last entry of a list is at its length. -/
theorem getElem?_concat_cases {α : Type} {l : List α} {a b : α} {k : Nat}
    (h : (l ++ [a])[k]? = some b) : l[k]? = some b ∨ k = l.length ∧ b = a := by
  rw [List.getElem?_append] at h
  split at h
  · exact Or.inl h
  · rename_i hlt
    obtain ⟨hk, rfl⟩ := List.getElem?_eq_some_iff.mp h
    simp only [List.length_singleton] at hk
    exact Or.inr ⟨by omega, by simp⟩

/-- A new box is directly in the innermost one that stays open around it. -/
theorem parents_openBox (s : Scanner) (index depth : Nat) (label inner comment : Text) :
    (s.openBox index depth label inner comment).parents =
      s.parents ++ [(s.around depth).head?.map (·.index)] := by
  simp [openBox, parents, around]

/-- After a box is opened, the open boxes are this one, with the next number,
and those that stay open around it. -/
theorem mem_stack_openBox {s : Scanner} {index depth : Nat} {label inner comment : Text}
    {o : Opener} (h : o ∈ (s.openBox index depth label inner comment).stack) :
    o.index = s.openers.length ∧ o.depth = depth ∨ o ∈ s.around depth := by
  simp only [openBox, List.mem_cons] at h
  rcases h with rfl | h
  · exact Or.inl ⟨rfl, rfl⟩
  · exact Or.inr h

/-- An open box is the innermost one or around it, so its number is at most that
of the innermost. -/
theorem Nested.le_head {s : Scanner} (h : Nested s) {o : Opener} (ho : o ∈ s.stack) :
    ∃ p, s.stack.head?.map (·.index) = some p ∧ o.index ≤ p := by
  have hordered := h.ordered
  cases hcase : s.stack with
  | nil => simp [hcase] at ho
  | cons top below =>
      simp only [hcase, List.pairwise_cons, List.mem_cons] at hordered ho
      refine ⟨top.index, rfl, ?_⟩
      rcases ho with rfl | hbelow
      · exact Nat.le_refl _
      · exact Nat.le_of_lt (hordered.1 o hbelow).1

/-- Opening a box at an even depth keeps what is true of the open ones.  The new
box is inside all that are still open, because its number is the largest and the
innermost of them is its parent. -/
theorem Nested.openBox {s : Scanner} (h : Nested s) {depth : Nat} (heven : depth % 2 = 0)
    (htwo : 2 ≤ depth) (index : Nat) (label inner comment : Text) :
    Nested (s.openBox index depth label inner comment) := by
  have hkept : Nested { s with stack := s.around depth } :=
    h.shrink rfl (List.dropWhile_suffix _)
  have hshallow : ∀ o ∈ s.around depth, o.depth + 2 ≤ depth := by
    intro o ho
    rw [h.around_eq] at ho
    simpa using (List.mem_filter.mp ho).2
  have hlength := length_parents s
  have hbound : ∀ (k : Nat) q, (s.openBox index depth label inner comment).parents[k]? = some q →
      s.parents[k]? = some q ∨
        k = s.openers.length ∧ q = (s.around depth).head?.map (·.index) := by
    intro k q hk
    rw [parents_openBox] at hk
    rw [← hlength]
    exact getElem?_concat_cases hk
  have hold : ∀ (k : Nat) q, s.parents[k]? = some q → k < s.openers.length := by
    intro k q hk
    rw [← hlength]
    exact (List.getElem?_eq_some_iff.mp hk).1
  refine ⟨?_, ?_, ⟨rfl, hkept.chained⟩, ?_, ?_, ⟨?_, ?_⟩⟩
  · intro o ho
    rcases mem_stack_openBox ho with ⟨-, hdepth⟩ | hmem
    · omega
    · exact hkept.even o hmem
  · refine List.pairwise_cons.mpr ⟨?_, hkept.ordered⟩
    intro o ho
    have hdepth := hshallow o ho
    exact ⟨hkept.numbered o ho, by dsimp only; omega⟩
  · intro o ho
    simp only [Scanner.openBox, List.length_append, List.length_singleton]
    rcases mem_stack_openBox ho with ⟨hindex, -⟩ | hmem
    · omega
    · have hlt : o.index < s.openers.length := hkept.numbered o hmem
      omega
  · intro o ho k q hk hlt
    rcases hbound k q hk with hk | ⟨rfl, rfl⟩
    · have := hold k q hk
      rcases mem_stack_openBox ho with ⟨hindex, -⟩ | hmem
      · omega
      · exact hkept.inside o hmem k q hk hlt
    · rcases mem_stack_openBox ho with ⟨hindex, -⟩ | hmem
      · omega
      · exact hkept.le_head hmem
  · intro k p hk
    rcases hbound k _ hk with hk | ⟨rfl, hnew⟩
    · exact h.preorder.earlier k p hk
    · obtain ⟨top, htop, rfl⟩ := Option.map_eq_some_iff.mp hnew.symm
      exact hkept.numbered top (List.mem_of_mem_head? htop)
  · intro i j k q hj hik hkj hk
    have hjk : k < s.openers.length := by
      rcases hbound j _ hj with hj | ⟨rfl, -⟩
      · have := hold j _ hj
        omega
      · exact hkj
    rcases hbound k q hk with hk | ⟨rfl, -⟩
    · rcases hbound j _ hj with hj | ⟨-, hnew⟩
      · exact h.preorder.within i j k q hj hik hkj hk
      · obtain ⟨top, htop, rfl⟩ := Option.map_eq_some_iff.mp hnew.symm
        exact hkept.inside top (List.mem_of_mem_head? htop) k q hk hik
    · omega

/-- One more line keeps what is true of the open boxes: it leaves them, closes
some, or opens one. -/
theorem nested_feed {s : Scanner} (h : Nested s) (index : Nat) (raw : Text) :
    Nested (s.feed index (.ofText raw)).2 := by
  have hfed := feed_fed s index (.ofText raw)
  generalize s.feed index (.ofText raw) = result at hfed
  cases hfed with
  | skipped => exact h
  | closed depth hline heven hopen =>
      refine h.shrink (parents_close s depth index) ?_
      rw [Scanner.stack_close]
      exact List.dropWhile_suffix _
  | opened depth label bracket hline heven =>
      exact h.openBox heven (Line.contentOf_eq_marker_iff.mp hline).1 _ _ _ _

/-- **Open boxes.**  After every document each open box is directly in the next
one, deeper and opened later, and all that was opened after an open box is
inside it. -/
theorem nested_scan (lines : List Text) : Nested (scan lines) := by
  apply scan_induction (P := fun _ s => Nested s)
  · exact ⟨by simp, by simp, trivial, by simp, by simp, by simp [parents], by simp [parents]⟩
  · intro lines raw s h
    exact nested_feed h lines.length raw

end Scanner

end Box

namespace Graph

/-- Boxes from a number on, in opening order. -/
structure Opened (first : Nat) (boxes : List Box) : Prop where
  numbered : ∀ (i : Nat) b, boxes[i]? = some b → b.index = first + i
  earlier : ∀ b ∈ boxes, ∀ p, b.parent = some p → p < b.index
  within : ∀ b ∈ boxes, ∀ c ∈ boxes, ∀ i, first ≤ i → c.parent = some i → i < b.index →
    b.index < c.index → ∃ p, b.parent = some p ∧ i ≤ p

/-- Without the first of them, boxes in opening order are still in opening
order. -/
theorem Opened.tail {first : Nat} {box : Box} {boxes : List Box} (h : Opened first (box :: boxes)) :
    Opened (first + 1) boxes := by
  refine ⟨?_, ?_, ?_⟩
  · intro i b hb
    have := h.numbered (i + 1) b (by simpa using hb)
    omega
  · intro b hb
    exact h.earlier b (List.mem_cons_of_mem box hb)
  · intro b hb c hc i hi
    exact h.within b (List.mem_cons_of_mem box hb) c (List.mem_cons_of_mem box hc) i (by omega)

theorem Opened.head {first : Nat} {box : Box} {boxes : List Box} (h : Opened first (box :: boxes)) :
    box.index = first := h.numbered 0 box rfl

/-- Their numbers go up. -/
theorem Opened.ordered {first : Nat} {boxes : List Box} (h : Opened first boxes) :
    boxes.Pairwise fun a b => first ≤ a.index ∧ a.index < b.index := by
  rw [List.pairwise_iff_getElem]
  intro i j hi hj hij
  have hleft := h.numbered i _ (List.getElem?_eq_getElem hi)
  have hright := h.numbered j _ (List.getElem?_eq_getElem hj)
  omega

/-- A box of a graph stands at the position of its number. -/
theorem Opened.getElem? {g : Graph} (h : Opened 0 g.boxes) {b : Box} (hb : b ∈ g.boxes) :
    g.boxes[b.index]? = some b := by
  obtain ⟨i, hi⟩ := List.mem_iff_getElem?.mp hb
  have := h.numbered i b hi
  rw [this, Nat.zero_add]
  exact hi

/-- Where boxes are numbered in order, the box with a number is the one at this
position. -/
theorem box?_eq_getElem? {g : Graph}
    (h : ∀ (i : Nat) b, g.boxes[i]? = some b → b.index = i) (index : Nat) :
    g.box? index = g.boxes[index]? := by
  unfold box?
  cases hfind : g.boxes.find? (·.index == index) with
  | none =>
      cases hget : g.boxes[index]? with
      | none => rfl
      | some b =>
          have hne := List.find?_eq_none.mp hfind b (List.mem_of_getElem? hget)
          exact absurd (h index b hget) (by simpa using hne)
  | some b =>
      obtain ⟨i, hi⟩ := List.mem_iff_getElem?.mp (List.mem_of_find?_eq_some hfind)
      have hindex : b.index = index := by simpa using List.find?_some hfind
      rw [← hindex, h i b hi, hi]

/-- A box is found by its number. -/
theorem Opened.box? {g : Graph} (h : Opened 0 g.boxes) {b : Box} (hb : b ∈ g.boxes) :
    g.box? b.index = some b := by
  have hnumbered : ∀ (i : Nat) b, g.boxes[i]? = some b → b.index = i := by
    intro i b hi
    rw [h.numbered i b hi, Nat.zero_add]
  rw [box?_eq_getElem? hnumbered, h.getElem? hb]

end Graph

namespace Draft

/-- The boxes of a document are in opening order: numbered in a row, each after
the box that it is in. -/
theorem opened_ofLines (font : Text) (lines : List Text) :
    Graph.Opened 0 (ofLines font lines).graph.boxes := by
  have hpre := (Box.Scanner.nested_scan lines).preorder
  have hparents : (Box.Scanner.scan lines).parents =
      (ofLines font lines).graph.boxes.map (·.parent) := by
    have haddress := congrArg (List.map Box.Address.parent) (inStep_ofLines font lines)
    rw [List.map_map, List.map_map] at haddress
    exact haddress.symm
  rw [hparents] at hpre
  have hnumbered : ∀ (i : Nat) b, (ofLines font lines).graph.boxes[i]? = some b → b.index = i :=
    fun _ _ hb => index_at hb
  have hparent : ∀ b ∈ (ofLines font lines).graph.boxes,
      ((ofLines font lines).graph.boxes.map (·.parent))[b.index]? = some b.parent := by
    intro b hb
    obtain ⟨i, hi⟩ := List.mem_iff_getElem?.mp hb
    rw [hnumbered i b hi, List.getElem?_map, hi]
    rfl
  refine ⟨?_, ?_, ?_⟩
  · intro i b hb
    rw [hnumbered i b hb, Nat.zero_add]
  · intro b hb p hp
    refine hpre.earlier b.index p ?_
    rw [hparent b hb, hp]
  · intro b hb c hc i _ hi hib hbc
    refine hpre.within i c.index b.index b.parent ?_ hib hbc (hparent b hb)
    rw [hparent c hc, hi]

end Draft

end LineDiagram
