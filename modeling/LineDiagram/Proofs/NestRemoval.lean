import LineDiagram.Proofs.Outline

/-!
# A nest without one of its boxes

Two nests are read side by side: one of a document, and one of the same document
without one of its boxes.  What was in that box is in the box around it, and
later boxes have a smaller number.  While the content of the box is read its
inner boxes are one level higher in the second nest; after that the two nests
take in the same lines.

* `Without` — what is the same in both nests, but for the box that is gone;
* `Inside`, `Past` — the open boxes of both, inside the box and after it;
* `Inside.feed_deeper`, `Inside.feed_closing`, `Inside.feed_opening`,
  `Past.feed` — what a marker does to both.
-/

namespace LineDiagram

namespace Nest

/-- The number of a box when the box `k` is gone. -/
def shifted (k i : Nat) : Nat := if i < k then i else i - 1

/-- The box that holds what was in box `i`, when the box `k` is gone and `outer`
was around it. -/
def heldBy (k : Nat) (outer : Option Nat) (i : Nat) : Option Nat :=
  if i = k then outer else some (shifted k i)

theorem shifted_of_lt {k i : Nat} (h : i < k) : shifted k i = i := if_pos h

theorem shifted_of_gt {k i : Nat} (h : k < i) : shifted k i = i - 1 := if_neg (by omega)

/-- What was in the box that is gone is in the box around it, if there is
one. -/
theorem heldBy_self (k : Nat) (outer : Option Nat) : heldBy k outer k = outer := if_pos rfl

theorem heldBy_of_ne {k i : Nat} (outer : Option Nat) (h : i ≠ k) :
    heldBy k outer i = some (shifted k i) := if_neg h

theorem heldBy_of_lt {k i : Nat} (outer : Option Nat) (h : i < k) : heldBy k outer i = some i := by
  rw [heldBy_of_ne outer (Nat.ne_of_lt h), shifted_of_lt h]

/-- Boxes that are still there stay in their order and keep different
numbers. -/
theorem shifted_eq_iff {k i j : Nat} (hi : i ≠ k) (hj : j ≠ k) :
    shifted k i = shifted k j ↔ i = j := by
  unfold shifted
  split <;> split <;> omega

/-- The outline of a box when another one is gone. -/
def outlineWithout (k : Nat) (outer : Option Nat) (o : Outline) : Outline :=
  { o with parent := o.parent.bind (heldBy k outer) }

/-- A nest without one of the boxes of another: what was in the box `k` is in
the box around it. -/
structure Without (k : Nat) (outer : Option Nat) (n n' : Nest) : Prop where
  there : k < n.boxes.length
  boxes : n'.boxes = (n.boxes.eraseIdx k).map (outlineWithout k outer)
  placed : n'.placed = n.placed.filterMap fun e => (heldBy k outer e.1).map (·, e.2)

/-- The innermost boxes of two stacks of open boxes hold the same. -/
def SameHolder (k : Nat) (outer : Option Nat) (stack stack' : List (Nat × Nat)) : Prop :=
  stack'.head?.map (·.1) = (stack.head?.map (·.1)).bind (heldBy k outer)

section Without

variable {k : Nat} {outer : Option Nat} {n n' : Nest}

theorem Without.length_eq (h : Without k outer n n') : n'.boxes.length + 1 = n.boxes.length := by
  have hthere := h.there
  rw [h.boxes, List.length_map, List.length_eraseIdx_of_lt hthere]
  omega

/-- What a nest has open is of no matter: only its boxes and what is placed in
them are compared. -/
theorem Without.congr {m m' : Nest} (h : Without k outer n n') (hboxes : m.boxes = n.boxes)
    (hplaced : m.placed = n.placed) (hboxes' : m'.boxes = n'.boxes)
    (hplaced' : m'.placed = n'.placed) : Without k outer m m' :=
  ⟨by rw [hboxes]; exact h.there, by rw [hboxes, hboxes']; exact h.boxes,
    by rw [hplaced, hplaced']; exact h.placed⟩

/-- A box that was just opened holds nothing yet: without it the nest is as
before. -/
theorem Bounded.without_openBox (h : Bounded n)
    (hparents : ∀ o ∈ n.boxes, ∀ p, o.parent = some p → p < n.boxes.length) (depth : Nat)
    (label inner : Text) : Without n.boxes.length outer (n.openBox depth label inner) n := by
  refine ⟨?_, ?_, ?_⟩
  · simp only [Nest.openBox, List.length_append, List.length_singleton]
    omega
  · simp only [Nest.openBox]
    rw [List.eraseIdx_append_of_length_le (Nat.le_refl _), Nat.sub_self, List.eraseIdx_cons_zero,
      List.append_nil]
    have hid : n.boxes.map (outlineWithout n.boxes.length outer) = n.boxes.map id := by
      apply List.map_congr_left
      intro o ho
      have hsame : o.parent.bind (heldBy n.boxes.length outer) = o.parent := by
        cases hp : o.parent with
        | none => rfl
        | some p => exact heldBy_of_lt outer (hparents o ho p hp)
      unfold outlineWithout
      rw [hsame]
      rfl
    rw [hid, List.map_id]
  · have hid : n.placed.filterMap (fun e => (heldBy n.boxes.length outer e.1).map (·, e.2)) =
        n.placed.filterMap some := by
      apply List.filterMap_congr
      intro e he
      rw [heldBy_of_lt outer (h.placed e he)]
      rfl
    simp only [Nest.openBox]
    rw [hid, List.filterMap_some]

/-- A node that is put into the innermost open box of both nests keeps them one
box apart, if these boxes hold the same. -/
theorem Without.place (h : Without k outer n n') (hsame : SameHolder k outer n.stack n'.stack)
    (id : Text) : Without k outer (n.place id) (n'.place id) := by
  refine ⟨h.there, h.boxes, ?_⟩
  have hinner : n'.innermost? = n.innermost?.bind (heldBy k outer) := hsame
  simp only [Nest.place]
  rw [List.filterMap_append, ← h.placed, hinner]
  congr 1
  cases n.innermost? with
  | none => rfl
  | some i =>
      simp only [Option.bind_some, Option.map_some, Option.toList_some]
      cases hheld : heldBy k outer i with
      | none => simp [hheld]
      | some j => simp [hheld]

/-- So does a new box, if the boxes around it hold the same.  Its depths in the
two nests may differ, for the outline of a box has no depth. -/
theorem Without.openBox {depth depth' : Nat} (h : Without k outer n n')
    (hsame : SameHolder k outer (n.around depth) (n'.around depth')) (label inner : Text) :
    Without k outer (n.openBox depth label inner) (n'.openBox depth' label inner) := by
  refine ⟨?_, ?_, h.placed⟩
  · have hthere := h.there
    simp only [Nest.openBox, List.length_append, List.length_singleton]
    omega
  · simp only [Nest.openBox]
    rw [List.eraseIdx_append_of_lt_length h.there, List.map_append, ← h.boxes]
    unfold SameHolder at hsame
    simp only [List.map_singleton, outlineWithout, hsame]

theorem feed_odd (n : Nest) {depth : Nat} (hodd : depth % 2 ≠ 0) (label : Text)
    (bracket : Option Text) : n.feed (.marker depth label bracket) = n := by
  have hskip : (depth % 2 != 0) = true := by simpa using hodd
  simp only [Nest.feed, if_pos hskip]

/-- What is no marker of an even depth changes no stack. -/
theorem stack_feed {content : Content} (n : Nest)
    (h : ∀ depth label bracket, content = .marker depth label bracket → depth % 2 ≠ 0) :
    (n.feed content).stack = n.stack := by
  cases content with
  | marker depth label bracket =>
      rw [feed_odd n (h depth label bracket rfl)]
  | node token label bracket => rfl
  | _ => rfl

/-- What is no marker of an even depth has the same effect on both nests: at
most it places a node in the innermost box. -/
theorem Without.feed_other {content : Content} (h : Without k outer n n')
    (hsame : SameHolder k outer n.stack n'.stack)
    (hother : ∀ depth label bracket, content = .marker depth label bracket → depth % 2 ≠ 0) :
    Without k outer (n.feed content) (n'.feed content) := by
  cases content with
  | marker depth label bracket =>
      have hodd := hother depth label bracket rfl
      rw [feed_odd n hodd, feed_odd n' hodd]
      exact h
  | node token label bracket => exact h.place hsame _
  | _ => exact h

end Without

/-! ## The open boxes inside the box -/

/-- A box one level higher, when a box before it is gone. -/
def raised (f : Nat × Nat) : Nat × Nat := (f.1 - 1, f.2 - 2)

/-- The open boxes of both nests while the content of a box of some depth is
read: those in the box, the box itself, which may be closed already, and those
around it. -/
structure Parted (k depth : Nat) (outer : Option Nat)
    (inner own around : List (Nat × Nat)) : Prop where
  inner : ∀ f ∈ inner, k < f.1 ∧ depth + 2 ≤ f.2
  own : own = [(k, depth)] ∧ outer = around.head?.map (·.1) ∨ own = []
  around : ∀ f ∈ around, f.1 < k ∧ f.2 + 2 ≤ depth

/-- The open boxes of both nests while the content of the box is read. -/
def Inside (k depth : Nat) (outer : Option Nat) (stack stack' : List (Nat × Nat)) : Prop :=
  ∃ inner own around, Parted k depth outer inner own around ∧
    stack = inner ++ (own ++ around) ∧ stack' = inner.map raised ++ around

/-- Dropping from the front of a list whose end stays. -/
private theorem dropWhile_append_stays {α : Type} {p : α → Bool} {a b : List α}
    (hb : ∀ x ∈ b, p x = false) : (a ++ b).dropWhile p = a.dropWhile p ++ b := by
  induction a with
  | nil =>
      cases b with
      | nil => rfl
      | cons x b => simp [hb x List.mem_cons_self]
  | cons x a ih =>
      by_cases hx : p x = true
      · simp [hx, ih]
      · simp [hx]

/-- Dropping a front that goes. -/
private theorem dropWhile_append_goes {α : Type} {p : α → Bool} {a b : List α}
    (ha : ∀ x ∈ a, p x = true) : (a ++ b).dropWhile p = b.dropWhile p := by
  induction a with
  | nil => rfl
  | cons x a ih =>
      rw [List.cons_append, List.dropWhile_cons, if_pos (ha x List.mem_cons_self)]
      exact ih (fun y hy => ha y (List.mem_cons_of_mem x hy))

section Inside

variable {k depth : Nat} {outer : Option Nat} {stack stack' : List (Nat × Nat)}

/-- While the content of the box is read, the innermost open boxes of both nests
hold the same. -/
theorem Inside.sameHolder (h : Inside k depth outer stack stack') :
    SameHolder k outer stack stack' := by
  obtain ⟨inner, own, around, hparts, rfl, rfl⟩ := h
  unfold SameHolder
  cases inner with
  | cons f inner =>
      have hlater := (hparts.inner f List.mem_cons_self).1
      have hheld := heldBy_of_ne outer (Nat.ne_of_gt hlater)
      simp [hheld, shifted_of_gt hlater, raised]
  | nil =>
      rcases hparts.own with ⟨rfl, houter⟩ | rfl
      · simp [heldBy_self, houter]
      · cases around with
        | nil => rfl
        | cons f around =>
            have hheld := heldBy_of_lt outer (hparts.around f List.mem_cons_self).1
            simp [hheld]

/-- A box that is opened in the box is on top of both stacks, one level higher
in the second. -/
theorem Inside.cons {i d : Nat} (h : Inside k depth outer stack stack') (hi : k < i)
    (hd : depth + 2 ≤ d) : Inside k depth outer ((i, d) :: stack) ((i - 1, d - 2) :: stack') := by
  obtain ⟨inner, own, around, hparts, rfl, rfl⟩ := h
  refine ⟨(i, d) :: inner, own, around, ⟨?_, hparts.own, hparts.around⟩, rfl, rfl⟩
  intro f hf
  rcases List.mem_cons.mp hf with rfl | hf
  · exact ⟨hi, hd⟩
  · exact hparts.inner f hf

/-- A test that only boxes in the box pass, each together with its raised
one. -/
structure Deep (depth k : Nat) (p p' : Nat × Nat → Bool) : Prop where
  raised : ∀ f, depth + 2 ≤ f.2 → p' (Nest.raised f) = p f
  own : p (k, depth) = false
  around : ∀ f, f.2 + 2 ≤ depth → p f = false ∧ p' f = false

/-- Closing boxes in the box by such a test keeps the stacks of this form: in
both of them the same boxes are closed. -/
theorem Inside.dropWhile {p p' : Nat × Nat → Bool} (h : Inside k depth outer stack stack')
    (hp : Deep depth k p p') : Inside k depth outer (stack.dropWhile p) (stack'.dropWhile p') := by
  obtain ⟨inner, own, around, hparts, rfl, rfl⟩ := h
  have hrest : ∀ f ∈ own ++ around, p f = false := by
    intro f hf
    rcases List.mem_append.mp hf with hown | haround
    · rcases hparts.own with ⟨rfl, -⟩ | rfl
      · rw [List.mem_singleton.mp hown]
        exact hp.own
      · cases hown
    · exact (hp.around f (hparts.around f haround).2).1
  have hrest' : ∀ f ∈ around, p' f = false := fun f hf => (hp.around f (hparts.around f hf).2).2
  have hraised : (inner.map Nest.raised).dropWhile p' = (inner.dropWhile p).map Nest.raised := by
    have hinner := hparts.inner
    clear hparts
    induction inner with
    | nil => rfl
    | cons f inner ih =>
        have hf := hp.raised f (hinner f List.mem_cons_self).2
        rw [List.map_cons, List.dropWhile_cons, List.dropWhile_cons, hf]
        split
        · exact ih (fun g hg => hinner g (List.mem_cons_of_mem f hg))
        · rfl
  refine ⟨inner.dropWhile p, own, around, ⟨?_, hparts.own, hparts.around⟩, ?_, ?_⟩
  · intro f hf
    exact hparts.inner f ((List.dropWhile_sublist p).subset hf)
  · exact dropWhile_append_stays hrest
  · rw [dropWhile_append_stays hrest', hraised]

/-- Such a test says the same of the innermost open boxes of both nests. -/
theorem Inside.any_head {p p' : Nat × Nat → Bool} (h : Inside k depth outer stack stack')
    (hp : Deep depth k p p') : stack'.head?.any p' = stack.head?.any p := by
  obtain ⟨inner, own, around, hparts, rfl, rfl⟩ := h
  cases inner with
  | cons f inner =>
      have hf := hp.raised f (hparts.inner f List.mem_cons_self).2
      simpa using hf
  | nil =>
      have haround : around.head?.any p' = false ∧ around.head?.any p = false := by
        cases around with
        | nil => exact ⟨rfl, rfl⟩
        | cons f around =>
            have hf := hp.around f (hparts.around f List.mem_cons_self).2
            exact ⟨hf.2, hf.1⟩
      rcases hparts.own with ⟨rfl, -⟩ | rfl
      · simpa [hp.own] using haround.1
      · simpa [haround.2] using haround.1

/-- A test that all boxes in the box pass, raised or not, and the box itself
leaves of both stacks the same boxes around it. -/
theorem Inside.dropWhile_shallow {p : Nat × Nat → Bool} (h : Inside k depth outer stack stack')
    (hdeep : ∀ f, depth ≤ f.2 → p f = true) :
    ∃ around, stack.dropWhile p = around ∧ stack'.dropWhile p = around ∧
      ∀ f ∈ around, f.1 < k ∧ f.2 + 2 ≤ depth := by
  obtain ⟨inner, own, around, hparts, rfl, rfl⟩ := h
  refine ⟨around.dropWhile p, ?_, ?_, ?_⟩
  · rw [← List.append_assoc]
    apply dropWhile_append_goes
    intro f hf
    rcases List.mem_append.mp hf with hinner | hown
    · have := (hparts.inner f hinner).2
      exact hdeep f (by omega)
    · rcases hparts.own with ⟨rfl, -⟩ | rfl
      · rw [List.mem_singleton.mp hown]
        exact hdeep _ (Nat.le_refl _)
      · cases hown
  · apply dropWhile_append_goes
    intro f hf
    obtain ⟨g, hg, rfl⟩ := List.mem_map.mp hf
    have := (hparts.inner g hg).2
    refine hdeep _ ?_
    simp only [raised]
    omega
  · intro f hf
    exact hparts.around f ((List.dropWhile_sublist p).subset hf)

/-- A closing marker that is not deeper than the box closes something in the
second nest too, unless the box was all that it closed. -/
theorem Inside.closes {d : Nat} (h : Inside k depth outer stack stack') (hd : d ≤ depth)
    (hordered : stack.Pairwise fun a b => b.2 < a.2)
    (hclose : stack.head?.any (fun f => d ≤ f.2) = true)
    (hmore : stack.head?.map (·.1) = some k → ∃ f ∈ stack, f.1 ≠ k ∧ d ≤ f.2) :
    stack'.head?.any (fun f => d ≤ f.2) = true := by
  obtain ⟨inner, own, around, hparts, rfl, rfl⟩ := h
  cases inner with
  | cons f inner =>
      have := (hparts.inner f List.mem_cons_self).2
      simp only [List.map_cons, List.cons_append, List.head?_cons, Option.any_some, raised,
        decide_eq_true_eq]
      omega
  | nil =>
      rcases hparts.own with ⟨rfl, -⟩ | rfl
      · obtain ⟨f, hf, hne, hdf⟩ := hmore rfl
        cases around with
        | nil =>
            simp only [List.nil_append, List.append_nil, List.mem_singleton] at hf
            exact absurd (congrArg Prod.fst hf) hne
        | cons g around =>
            -- the next box around is at least as deep as any of them
            simp only [List.nil_append, List.singleton_append, List.mem_cons, List.pairwise_cons]
              at hf hordered
            have hdg : d ≤ g.2 := by
              rcases hf with rfl | rfl | hf
              · exact absurd rfl hne
              · exact hdf
              · have := hordered.2.1 f hf
                omega
            simpa using hdg
      · simpa using hclose

/-- A marker that is not deeper than the box and finds nothing to close finds
nothing in the second nest either. -/
theorem Inside.not_closes {d : Nat} (h : Inside k depth outer stack stack') (hd : d ≤ depth)
    (hclose : stack.head?.any (fun f => d ≤ f.2) = false) :
    stack'.head?.any (fun f => d ≤ f.2) = false := by
  obtain ⟨inner, own, around, hparts, rfl, rfl⟩ := h
  cases inner with
  | cons f inner =>
      have hdeep := (hparts.inner f List.mem_cons_self).2
      simp only [List.cons_append, List.head?_cons, Option.any_some,
        decide_eq_false_iff_not] at hclose
      omega
  | nil =>
      rcases hparts.own with ⟨rfl, -⟩ | rfl
      · simp only [List.nil_append, List.cons_append, List.head?_cons, Option.any_some,
          decide_eq_false_iff_not] at hclose
        omega
      · exact hclose

/-- When the box is the innermost open one, closing it leaves what the second
nest has open. -/
theorem Inside.close_own (h : Inside k depth outer stack stack')
    (hhead : stack.head?.map (·.2) = some depth) (hopen : ∃ f ∈ stack, f.1 = k) :
    stack.dropWhile (fun f => depth ≤ f.2) = stack' ∧ ∀ f ∈ stack', f.1 < k := by
  obtain ⟨inner, own, around, hparts, rfl, rfl⟩ := h
  have hinner : inner = [] := by
    cases inner with
    | nil => rfl
    | cons f inner =>
        have hdeep := (hparts.inner f List.mem_cons_self).2
        have hsame : f.2 = depth := by simpa using hhead
        omega
  subst hinner
  rcases hparts.own with ⟨rfl, -⟩ | rfl
  · have hstays : ∀ f ∈ around, decide (depth ≤ f.2) = false := by
      intro f hf
      have := (hparts.around f hf).2
      rw [decide_eq_false_iff_not]
      omega
    refine ⟨?_, fun f hf => (hparts.around f hf).1⟩
    rw [List.nil_append, List.map_nil, List.nil_append, dropWhile_append_stays hstays]
    simp
  · obtain ⟨f, hf, rfl⟩ := hopen
    exact absurd (hparts.around f hf).1 (Nat.lt_irrefl _)

end Inside

/-! ## The open boxes after the box -/

/-- The open boxes of both nests after the content of the box. -/
structure Past (k : Nat) (stack stack' : List (Nat × Nat)) : Prop where
  gone : ∀ f ∈ stack, f.1 ≠ k
  renumbered : stack' = stack.map fun f => (shifted k f.1, f.2)

section Past

variable {k : Nat} {outer : Option Nat} {stack stack' : List (Nat × Nat)}

/-- If all open boxes are before the one that is gone, both nests have the same
ones open. -/
theorem past_of_earlier (h : ∀ f ∈ stack, f.1 < k) : Past k stack stack := by
  refine ⟨fun f hf => Nat.ne_of_lt (h f hf), ?_⟩
  have hsame : stack.map (fun f => (shifted k f.1, f.2)) = stack.map id := by
    apply List.map_congr_left
    intro f hf
    rw [shifted_of_lt (h f hf)]
    rfl
  rw [hsame, List.map_id]

/-- After the content of the box, too, the innermost open boxes of both nests
hold the same. -/
theorem Past.sameHolder (h : Past k stack stack') : SameHolder k outer stack stack' := by
  unfold SameHolder
  rw [h.renumbered]
  cases stack with
  | nil => rfl
  | cons f stack =>
      have hheld := heldBy_of_ne outer (h.gone f List.mem_cons_self)
      simp [hheld]

/-- Closing boxes by their depths keeps the stacks of this form: depths are not
changed any more. -/
theorem Past.dropWhile (h : Past k stack stack') (p : Nat → Bool) :
    Past k (stack.dropWhile fun f => p f.2) (stack'.dropWhile fun f => p f.2) := by
  refine ⟨fun f hf => h.gone f ((List.dropWhile_sublist _).subset hf), ?_⟩
  rw [h.renumbered, List.dropWhile_map]
  rfl

/-- So does opening a box behind the one that is gone. -/
theorem Past.cons {i d : Nat} (h : Past k stack stack') (hi : k < i) :
    Past k ((i, d) :: stack) ((i - 1, d) :: stack') := by
  refine ⟨?_, ?_⟩
  · intro f hf
    rcases List.mem_cons.mp hf with rfl | hf
    · exact Nat.ne_of_gt hi
    · exact h.gone f hf
  · rw [List.map_cons, ← h.renumbered, shifted_of_gt hi]

end Past

/-! ## Markers -/

section Markers

variable {k depth : Nat} {outer : Option Nat} {n n' : Nest}

/-- A marker of an even depth, with its condition for closing: it is empty, and
a box as deep as it is open. -/
theorem feed_marker (n : Nest) {d : Nat} (heven : d % 2 = 0) (label : Text)
    (bracket : Option Text) :
    n.feed (.marker d label bracket) =
      if label.isEmpty && bracket.isNone && n.closesAt d then n.close d
      else n.openBox d label (Text.trim (bracket.getD [])) := by
  simp [Nest.feed, heven]

/-- **Inside the box**, a deeper marker does the same when it is one level
higher. -/
theorem Inside.feed_deeper (h : Without k outer n n')
    (hinside : Inside k depth outer n.stack n'.stack) {d : Nat} (hd : depth + 2 ≤ d)
    (heven : d % 2 = 0) (label : Text) (bracket : Option Text) :
    Without k outer (n.feed (.marker d label bracket)) (n'.feed (.marker (d - 2) label bracket)) ∧
      Inside k depth outer (n.feed (.marker d label bracket)).stack
        (n'.feed (.marker (d - 2) label bracket)).stack := by
  have hclosing : Deep depth k (fun f => d ≤ f.2) (fun f => d - 2 ≤ f.2) := by
    refine ⟨?_, ?_, ?_⟩
    · intro f hf
      refine decide_eq_decide.mpr ?_
      simp only [Nest.raised]
      omega
    · simp only [decide_eq_false_iff_not]
      omega
    · intro f hf
      simp only [decide_eq_false_iff_not]
      omega
  have hopening : Deep depth k (fun f => d < f.2 + 2) (fun f => d - 2 < f.2 + 2) := by
    refine ⟨?_, ?_, ?_⟩
    · intro f hf
      refine decide_eq_decide.mpr ?_
      simp only [Nest.raised]
      omega
    · simp only [decide_eq_false_iff_not]
      omega
    · intro f hf
      simp only [decide_eq_false_iff_not]
      omega
  have hcloses : n'.closesAt (d - 2) = n.closesAt d := hinside.any_head hclosing
  rw [feed_marker n heven, feed_marker n' (by omega), hcloses]
  split
  · exact ⟨h.congr rfl rfl rfl rfl, hinside.dropWhile hclosing⟩
  · have haround := hinside.dropWhile hopening
    refine ⟨h.openBox haround.sameHolder label _, ?_⟩
    have hlength := h.length_eq
    have hnew : n'.boxes.length = n.boxes.length - 1 := by omega
    simp only [Nest.openBox, hnew]
    exact haround.cons h.there hd

/-- **Inside the box**, a marker that is not deeper closes the same boxes,
unless the box was all that it closed. -/
theorem Inside.feed_closing (h : Without k outer n n')
    (hinside : Inside k depth outer n.stack n'.stack) {d : Nat} (hd : d ≤ depth) (heven : d % 2 = 0)
    (hclose : n.closesAt d = true) (hordered : n.stack.Pairwise fun a b => b.2 < a.2)
    (hmore : n.innermost? = some k → ∃ f ∈ n.stack, f.1 ≠ k ∧ d ≤ f.2) :
    Without k outer (n.feed (.marker d [] none)) (n'.feed (.marker d [] none)) ∧
      Inside k depth outer (n.feed (.marker d [] none)).stack
        (n'.feed (.marker d [] none)).stack := by
  have hclose' : n'.closesAt d = true := hinside.closes hd hordered hclose hmore
  have hdeep : ∀ f : Nat × Nat, depth ≤ f.2 → decide (d ≤ f.2) = true := by
    intro f hf
    rw [decide_eq_true_eq]
    omega
  obtain ⟨around, hstack, hstack', hbefore⟩ := hinside.dropWhile_shallow hdeep
  rw [feed_marker n heven, feed_marker n' heven, hclose, hclose']
  refine ⟨h.congr rfl rfl rfl rfl, [], [], around, ⟨by simp, Or.inr rfl, hbefore⟩, ?_, ?_⟩
  · exact hstack
  · exact hstack'

/-- **Inside the box**, a box that is opened at its depth or above ends its
content. -/
theorem Inside.feed_opening (h : Without k outer n n')
    (hinside : Inside k depth outer n.stack n'.stack) {d : Nat} (hd : d ≤ depth) (heven : d % 2 = 0)
    {label : Text} {bracket : Option Text}
    (hnot : (label.isEmpty && bracket.isNone && n.closesAt d) = false) :
    Without k outer (n.feed (.marker d label bracket)) (n'.feed (.marker d label bracket)) ∧
      Past k (n.feed (.marker d label bracket)).stack
        (n'.feed (.marker d label bracket)).stack := by
  have hnot' : (label.isEmpty && bracket.isNone && n'.closesAt d) = false := by
    cases hempty : label.isEmpty && bracket.isNone with
    | false => rfl
    | true =>
        rw [hempty] at hnot
        exact hinside.not_closes hd hnot
  have hdeep : ∀ f : Nat × Nat, depth ≤ f.2 → decide (d < f.2 + 2) = true := by
    intro f hf
    rw [decide_eq_true_eq]
    omega
  obtain ⟨around, hstack, hstack', hbefore⟩ := hinside.dropWhile_shallow hdeep
  have hearlier : Past k around around := past_of_earlier (fun f hf => (hbefore f hf).1)
  have haround : n.around d = around := hstack
  have haround' : n'.around d = around := hstack'
  have hlength := h.length_eq
  have hnew : n'.boxes.length = n.boxes.length - 1 := by omega
  rw [feed_marker n heven, feed_marker n' heven, hnot, hnot']
  refine ⟨h.openBox ?_ label _, ?_⟩
  · rw [haround, haround']
    exact hearlier.sameHolder
  · simp only [Bool.false_eq_true, if_false, Nest.openBox, haround, haround', hnew]
    exact hearlier.cons h.there

/-- **After the box** a marker has the same effect in both nests: its depth is
not changed, and the open boxes differ in their numbers only. -/
theorem Past.feed (h : Without k outer n n') (hpast : Past k n.stack n'.stack) {d : Nat}
    (heven : d % 2 = 0) (label : Text) (bracket : Option Text) :
    Without k outer (n.feed (.marker d label bracket)) (n'.feed (.marker d label bracket)) ∧
      Past k (n.feed (.marker d label bracket)).stack
        (n'.feed (.marker d label bracket)).stack := by
  have hcloses : n'.closesAt d = n.closesAt d := by
    unfold Nest.closesAt
    rw [hpast.renumbered]
    cases n.stack <;> rfl
  rw [feed_marker n heven, feed_marker n' heven, hcloses]
  split
  · exact ⟨h.congr rfl rfl rfl rfl, hpast.dropWhile fun e => d ≤ e⟩
  · have haround : Past k (n.around d) (n'.around d) := hpast.dropWhile fun e => d < e + 2
    refine ⟨h.openBox haround.sameHolder label _, ?_⟩
    have hlength := h.length_eq
    have hnew : n'.boxes.length = n.boxes.length - 1 := by omega
    simp only [Nest.openBox, hnew]
    exact haround.cons h.there

end Markers

/-! ## Members -/

theorem mem_membersOf {n : Nest} {i : Nat} {v : Text} : v ∈ n.membersOf i ↔ (i, v) ∈ n.placed := by
  unfold membersOf
  rw [Graph.mem_foldl_addId]
  simp

/-- **The members of a box when another one is gone**: those it had, and those
of the other when that was directly in it. -/
theorem Without.mem_membersOf {k i : Nat} {outer : Option Nat} {n n' : Nest}
    (h : Without k outer n n') (hi : i ≠ k) (houter : ∀ j, outer = some j → j < k) (v : Text) :
    v ∈ n'.membersOf (shifted k i) ↔ v ∈ n.membersOf i ∨ outer = some i ∧ v ∈ n.membersOf k := by
  simp only [Nest.mem_membersOf, h.placed, List.mem_filterMap,
    Option.map_eq_some_iff, Prod.mk.injEq]
  constructor
  · rintro ⟨⟨j, w⟩, hplaced, held, hheld, rfl, rfl⟩
    by_cases hj : j = k
    · subst hj
      rw [heldBy_self] at hheld
      have hlt := houter _ hheld
      have hsame : i = shifted j i := by
        unfold shifted at hlt ⊢
        split at hlt <;> split <;> omega
      rw [← hsame] at hheld
      exact Or.inr ⟨hheld, hplaced⟩
    · rw [heldBy_of_ne outer hj, Option.some.injEq, shifted_eq_iff hj hi] at hheld
      subst hheld
      exact Or.inl hplaced
  · rintro (hplaced | ⟨rfl, hplaced⟩)
    · exact ⟨(i, v), hplaced, shifted k i, heldBy_of_ne outer hi, rfl, rfl⟩
    · exact ⟨(k, v), hplaced, i, heldBy_self k _, (shifted_of_lt (houter i rfl)).symm, rfl⟩

end Nest

end LineDiagram
