import LineDiagram.Proofs.ScanOrder

/-!
# What every line of a scan keeps

A scanner has a list of all openers and a stack of those that are open.  Two
kinds of markers take boxes from the stack, under different conditions: an empty
one those of its depth and deeper, one that opens a box those that are not two
dashes shallower.  Which of the two an empty marker is depends on the stack.
Whatever the markers are, what is left is a chain of boxes, each directly in the
next one and two dashes deeper at least.

* `Shared` — an open box is the opener with its number;
* `exists_around` — a box is opened inside an open one that is two dashes
  shallower at least;
* `eq_of_closeLine` — an empty marker closes one box at most;
* `scan_invariant` — all that is true of openers and stack after every line.
-/

namespace LineDiagram.Box.Scanner

/-! ## Open boxes are openers -/

/-- The stack holds openers: an open box is the opener with its number. -/
def Shared (s : Scanner) : Prop := ∀ o ∈ s.stack, s.openers[o.index]? = some o

/-- The boxes that stay open are not the one that a marker closes, which is as
deep as the marker. -/
theorem shared_close {index depth : Nat} {s : Scanner} (h : Before index s) (hs : Shared s) :
    Shared (s.close depth index) := by
  intro o ho
  rw [h.nested.stack_close] at ho
  obtain ⟨hmem, hdepth⟩ := List.mem_filter.mp ho
  rcases getElem?_close (hs o hmem) rfl with hsame | ⟨⟨top, htop, hindex, hclosed⟩, -⟩
  · exact hsame
  · rw [h.nested.eq_of_index htop hmem hindex] at hclosed
    simp only [decide_eq_true_eq] at hdepth
    omega

/-- A new box is the last opener and the innermost open box, and the others stay
where they are. -/
theorem shared_openBox {s : Scanner} (hs : Shared s) (index depth : Nat)
    (label inner comment : Text) :
    Shared (s.openBox index depth label inner comment) := by
  intro o ho
  simp only [openBox, List.mem_cons] at ho ⊢
  rcases ho with rfl | hmem
  · exact List.getElem?_concat_length
  · have hold := hs o ((List.dropWhile_sublist _).subset hmem)
    rw [List.getElem?_append_left (List.getElem?_eq_some_iff.mp hold).1]
    exact hold

/-- One line keeps the open boxes among the openers: it closes some, opens one,
or does neither. -/
theorem shared_feed {index : Nat} {s : Scanner} (h : Before index s) (hs : Shared s) (raw : Text) :
    Shared (s.feed index (.ofText raw)).2 := by
  have hfed := feed_fed s index (.ofText raw)
  generalize s.feed index (.ofText raw) = result at hfed
  cases hfed with
  | skipped => exact hs
  | closed depth hline heven hopen => exact shared_close h hs
  | opened depth label bracket hline heven => exact shared_openBox hs _ _ _ _ _

/-- So after any lines the open boxes are openers. -/
theorem shared_scan (lines : List Text) : Shared (scan lines) := by
  have hall : Before lines.length (scan lines) ∧ Shared (scan lines) := by
    apply scan_induction (P := fun lines s => Before lines.length s ∧ Shared s)
    · exact ⟨before_scan [], nofun⟩
    · intro lines raw s ⟨hbefore, hs⟩
      rw [List.length_append, List.length_singleton]
      exact ⟨(before_feed hbefore raw).1, shared_feed hbefore hs raw⟩
  exact hall.2

/-! ## The stack as a chain -/

/-- A box is directly in the one below it on the stack, and the last one is in
none. -/
theorem Chained.parent_at {stack : List Opener} (h : Chained stack) {i : Nat} {o : Opener}
    (ho : stack[i]? = some o) : o.parent = stack[i + 1]?.map (·.index) := by
  induction stack generalizing i with
  | nil => cases ho
  | cons top below ih =>
      cases i with
      | zero =>
          cases ho
          rw [h.1, List.head?_eq_getElem?]
          rfl
      | succ i => exact ih h.2 ho

variable {lines : List Text}

/-- **The box around a box** was open when it was opened, and is two dashes
shallower at least. -/
theorem exists_around {k p : Nat} {o : Opener} (h : (scan lines).openers[k]? = some o)
    (hparent : o.parent = some p) :
    p < k ∧ ∃ outer, (scan lines).openers[p]? = some outer ∧ outer.depth + 2 ≤ o.depth := by
  obtain ⟨raw, label, bracket, hraw, -, -, -, rfl, hstep⟩ := opened_at h
  have hline := (List.getElem?_eq_some_iff.mp hraw).1
  have hbefore := before_take (Nat.le_of_lt hline)
  have hnew := later_openers hline
  rw [hstep] at hnew
  obtain ⟨o', ho', haddress, -⟩ := hnew.kept _ _ List.getElem?_concat_length
  obtain rfl : o' = o := Option.some.inj (ho'.symm.trans h)
  have hsame : o'.parent = ((scan (lines.take o'.lineIndex)).around o'.depth).head?.map (·.index) :=
    congrArg Address.parent haddress
  rw [hparent] at hsame
  obtain ⟨top, htop, rfl⟩ := Option.map_eq_some_iff.mp hsame.symm
  have hmem := List.mem_of_mem_head? htop
  rw [hbefore.nested.around_eq] at hmem
  obtain ⟨hopen, hdepth⟩ := List.mem_filter.mp hmem
  obtain ⟨outer, houter, houterAddress⟩ :=
    opener_later (Nat.le_of_lt hline) (shared_scan _ top hopen)
  refine ⟨hbefore.nested.numbered top hopen, outer, houter, ?_⟩
  have houterDepth : outer.depth = top.depth := congrArg Address.depth houterAddress
  simp only [decide_eq_true_eq] at hdepth
  omega

/-- **A marker closes one box at most.**  It ends all boxes that are as deep or
deeper, but it is noted for the one of its own depth only. -/
theorem eq_of_closeLine {j k l : Nat} {a b : Opener} (ha : (scan lines).openers[k]? = some a)
    (hb : (scan lines).openers[l]? = some b) (hclose : a.closeLine = some j)
    (hclose' : b.closeLine = some j) :
    k = l := by
  obtain ⟨raw, hraw, hmarker, top, htop, rfl, hdepth⟩ := closed_at ha hclose
  obtain ⟨raw', hraw', hmarker', top', htop', rfl, hdepth'⟩ := closed_at hb hclose'
  cases hraw.symm.trans hraw'
  have hsame : a.depth = b.depth := by
    rw [hmarker] at hmarker'
    exact (Content.marker.inj hmarker').1
  have hj := Nat.le_of_lt (List.getElem?_eq_some_iff.mp hraw).1
  rw [(before_take hj).nested.eq_of_level htop htop' (Or.inr (by omega))]

/-! ## The invariant -/

/-- What is true of a scanner after every line. -/
structure Invariant (s : Scanner) : Prop where
  /-- An open box is the opener with its number, and no marker has closed it. -/
  shared : ∀ o ∈ s.stack, s.openers[o.index]? = some o ∧ o.closeLine = none
  /-- An open box has an even number of dashes, two at least. -/
  even : ∀ o ∈ s.stack, o.depth % 2 = 0 ∧ 2 ≤ o.depth
  /-- Upwards on the stack, on which the innermost box is the first, the depths
  increase. -/
  deeper : s.stack.Pairwise fun upper lower => lower.depth < upper.depth
  /-- An open box is directly in the one below it, and the lowest one is in
  none. -/
  linked : ∀ (i : Nat) o, s.stack[i]? = some o → o.parent = s.stack[i + 1]?.map (·.index)
  /-- Openers are numbered in order. -/
  numbered : ∀ (n : Nat) o, s.openers[n]? = some o → o.index = n
  /-- They stand in the order of their lines. -/
  ordered : s.openers.Pairwise fun earlier later => earlier.lineIndex < later.lineIndex
  /-- The box around a box is an earlier one, and two dashes shallower at
  least. -/
  inside : ∀ o ∈ s.openers, ∀ p, o.parent = some p →
    p < o.index ∧ ∃ outer, s.openers[p]? = some outer ∧ outer.depth + 2 ≤ o.depth
  /-- A box is closed after its line, and is not open then. -/
  closed : ∀ o ∈ s.openers, ∀ j, o.closeLine = some j →
    o.lineIndex < j ∧ ∀ top ∈ s.stack, top.index ≠ o.index
  /-- No two boxes are closed on one line. -/
  apart : ∀ a ∈ s.openers, ∀ b ∈ s.openers, ∀ j, a.closeLine = some j → b.closeLine = some j → a = b

/-- **What every scan keeps.**  Feed a scanner lines in order, each with its
position.  Then all this is true of it after any number of them. -/
theorem scan_invariant (lines : List Text) (n : Nat) : Invariant (scan (lines.take n)) := by
  generalize lines.take n = fed
  have hbefore := before_scan fed
  have hshared : ∀ o ∈ (scan fed).stack, (scan fed).openers[o.index]? = some o ∧
      o.closeLine = none := by
    intro o ho
    obtain ⟨o', ho', -, hopen⟩ := hbefore.listed o ho
    cases (shared_scan fed o ho).symm.trans ho'
    exact ⟨ho', hopen⟩
  have hget : ∀ o ∈ (scan fed).openers, (scan fed).openers[o.index]? = some o := by
    intro o ho
    obtain ⟨k, hk⟩ := List.mem_iff_getElem?.mp ho
    rwa [hbefore.numbered k o hk]
  exact {
    shared := hshared
    even := hbefore.nested.even
    deeper := hbefore.nested.ordered.imp And.right
    linked := fun i o ho => hbefore.nested.chained.parent_at ho
    numbered := hbefore.numbered
    ordered := by
      rw [List.pairwise_iff_getElem]
      intro i j hi hj hij
      exact lineIndex_lt (List.getElem?_eq_getElem hi) (List.getElem?_eq_getElem hj) hij
    inside := fun o ho p hp => exists_around (hget o ho) hp
    closed := by
      intro o ho j hj
      refine ⟨lineIndex_lt_closeLine (hget o ho) hj, ?_⟩
      intro top htop hindex
      have hopen := hshared top htop
      rw [hindex, hget o ho] at hopen
      cases hopen.1
      exact absurd (hj.symm.trans hopen.2) nofun
    apart := by
      intro a ha b hb j hclose hclose'
      have hsame := eq_of_closeLine (hget a ha) (hget b hb) hclose hclose'
      exact Option.some.inj ((hget a ha).symm.trans (hsame ▸ hget b hb)) }

end LineDiagram.Box.Scanner
