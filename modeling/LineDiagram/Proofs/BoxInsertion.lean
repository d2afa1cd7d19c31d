import LineDiagram.Proofs.Frame
import LineDiagram.Proofs.Membership
import Mathlib.Data.List.InsertIdx

/-!
# A scan with one more box

Two markers are put into a document, one that opens a box inside the innermost
open one and one that closes it again, with lines between them that are no
markers.  Nothing else is closed by them and the stack is as before, so the
lines that follow do to the openers what they did without them: boxes that are
opened later have the next number, and all positions are those of the moved
lines.

* `With.feed` — one line, fed to both scans;
* `With.feedAll` — the lines after the new box, some of which may have been
  taken out;
* `scan_box`, `with_box` — the scan after the closing marker;
* `definedIn_box` — the nodes in the new box are those defined between its
  markers.
-/

namespace LineDiagram.Box

/-- The number of a box after one was put in with a given number. -/
def renumber (k i : Nat) : Nat := if i < k then i else i + 1

theorem renumber_ne (k i : Nat) : renumber k i ≠ k := by
  unfold renumber
  split <;> omega

theorem renumber_inj {k i j : Nat} : renumber k i = renumber k j ↔ i = j := by
  unfold renumber
  split <;> split <;> omega

/-- An opener after a box was put in with a given number and its lines have
moved. -/
def Opener.shift (k : Nat) (place : Nat → Nat) (o : Opener) : Opener :=
  { o with
    index := renumber k o.index
    lineIndex := place o.lineIndex
    parent := o.parent.map (renumber k)
    closeLine := o.closeLine.map place }

/-- An opener of one of the first boxes, all whose positions are before a
line. -/
structure Opener.Within (k n : Nat) (o : Opener) : Prop where
  index : o.index < k
  opened : o.lineIndex < n
  parent : ∀ p, o.parent = some p → p < k
  closed : ∀ j, o.closeLine = some j → j < n

theorem Opener.Within.mono {k n k' n' : Nat} {o : Opener} (h : o.Within k n) (hk : k ≤ k')
    (hn : n ≤ n') : o.Within k' n' :=
  ⟨Nat.lt_of_lt_of_le h.index hk, Nat.lt_of_lt_of_le h.opened hn,
    fun p hp => Nat.lt_of_lt_of_le (h.parent p hp) hk,
      fun j hj => Nat.lt_of_lt_of_le (h.closed j hj) hn⟩

/-- An opener before the new box stays as it is: neither its number nor its
lines are moved. -/
theorem Opener.Within.shift {k n : Nat} {o : Opener} (h : o.Within k n) {place : Nat → Nat}
    (hplace : ∀ i < n, place i = i) : o.shift k place = o := by
  have hnumber : ∀ i < k, renumber k i = i := fun i hi => if_pos hi
  obtain ⟨hindex, hopened, hparent, hclosed⟩ := h
  obtain ⟨index, lineIndex, depth, label, inner, comment, parent, closeLine⟩ := o
  unfold Opener.shift
  have hsame : parent.map (renumber k) = parent := by
    cases parent with
    | none => rfl
    | some p => exact congrArg some (hnumber p (hparent p rfl))
  have hsame' : closeLine.map place = closeLine := by
    cases closeLine with
    | none => rfl
    | some j => exact congrArg some (hplace j (hclosed j rfl))
  simp only [hnumber index hindex, hplace lineIndex hopened, hsame, hsame']

namespace Scanner

/-- What a scan has after some lines: openers of these lines. -/
structure Within (n : Nat) (s : Scanner) : Prop where
  openers : ∀ o ∈ s.openers, o.Within s.openers.length n
  stack : ∀ o ∈ s.stack, o.Within s.openers.length n

/-- The openers of a scan are numbered below their count and stand on lines of
the document. -/
theorem within_scan (lines : List Text) : Within lines.length (scan lines) := by
  apply scan_induction (P := fun lines s => Within lines.length s)
  · exact ⟨by simp, by simp⟩
  · intro lines raw s h
    rw [List.length_append, List.length_singleton]
    have hfed := feed_fed s lines.length (.ofText raw)
    generalize s.feed lines.length (.ofText raw) = result at hfed
    cases hfed with
    | skipped =>
        exact ⟨fun o ho => (h.openers o ho).mono (Nat.le_refl _) (Nat.le_succ _),
          fun o ho => (h.stack o ho).mono (Nat.le_refl _) (Nat.le_succ _)⟩
    | closed depth hline heven hopen =>
        have hlength : (s.close depth lines.length).openers.length = s.openers.length :=
          List.length_map _
        refine ⟨fun o ho => ?_, fun o ho => ?_⟩
        · rw [hlength]
          obtain ⟨old, hold, rfl | rfl⟩ := mem_openers_close ho
          · exact (h.openers o hold).mono (Nat.le_refl _) (Nat.le_succ _)
          · obtain ⟨hindex, hopened, hparent, -⟩ := h.openers old hold
            refine ⟨hindex, Nat.lt_succ_of_lt hopened, hparent, fun j hj => ?_⟩
            cases hj
            exact Nat.lt_succ_self _
        · rw [stack_close] at ho
          rw [hlength]
          exact (h.stack o ((List.dropWhile_sublist _).subset ho)).mono
            (Nat.le_refl _) (Nat.le_succ _)
    | opened depth label bracket hline heven hnot =>
        have hlength : (s.openBox lines.length depth label (Text.trim (bracket.getD []))
            (Line.ofText raw).comment).openers.length = s.openers.length + 1 := by
          simp [openBox]
        have hopener : Opener.Within (s.openers.length + 1) (lines.length + 1)
            ⟨s.openers.length, lines.length, depth, label, Text.trim (bracket.getD []),
              (Line.ofText raw).comment,
              (s.stack.dropWhile fun o => decide (depth < o.depth + 2)).head?.map (·.index),
                none⟩ := by
          refine ⟨Nat.lt_succ_self _, Nat.lt_succ_self _, fun p hp => ?_, fun j hj => ?_⟩
          · obtain ⟨o, ho, rfl⟩ := Option.map_eq_some_iff.mp hp
            have hmem := (List.dropWhile_sublist _).subset (List.mem_of_head? ho)
            exact Nat.lt_succ_of_lt (h.stack o hmem).index
          · cases hj
        refine ⟨fun o ho => ?_, fun o ho => ?_⟩
        · rw [hlength]
          rcases List.mem_append.mp ho with hold | hnew
          · exact (h.openers o hold).mono (Nat.le_succ _) (Nat.le_succ _)
          · rw [List.mem_singleton.mp hnew]
            exact hopener
        · rw [hlength]
          rcases List.mem_cons.mp ho with rfl | hold
          · exact hopener
          · exact (h.stack o ((List.dropWhile_sublist _).subset hold)).mono (Nat.le_succ _)
              (Nat.le_succ _)

/-- A scan, and a scan of the same boxes with a new one among them that is
closed. -/
structure With (new : Opener) (place : Nat → Nat) (s s' : Scanner) : Prop where
  /-- The new box has a number of its own. -/
  index_le : new.index ≤ s.openers.length
  /-- The other openers are those of the first scan. -/
  openers : s'.openers = (s.openers.map (Opener.shift new.index place)).insertIdx new.index new
  /-- The new box is not open. -/
  stack : s'.stack = s.stack.map (Opener.shift new.index place)

/-- An element that is put into a list does not mind what is added behind. -/
theorem insertIdx_concat {α : Type} {l : List α} {k : Nat} (h : k ≤ l.length) (a b : α) :
    (l ++ [b]).insertIdx k a = l.insertIdx k a ++ [b] := by
  induction l generalizing k with
  | nil =>
      obtain rfl : k = 0 := by simpa using h
      rfl
  | cons c l ih =>
      cases k with
      | zero => rfl
      | succ k =>
          simp only [List.cons_append, List.insertIdx_succ_cons]
          rw [ih (by simpa using h)]

/-- Only markers do something to a scan. -/
theorem feed_of_other {s : Scanner} {index : Nat} {line : Line}
    (h : ∀ depth label bracket, line.content ≠ .marker depth label bracket) :
    s.feed index line = (.skipped, s) := by
  have hfed := feed_fed s index line
  generalize s.feed index line = result at hfed
  cases hfed with
  | skipped => rfl
  | closed depth hline => exact absurd hline (h _ _ _)
  | opened depth label bracket hline => exact absurd hline (h _ _ _)

namespace With

variable {new : Opener} {place : Nat → Nat} {s s' : Scanner}

/-- With a new box in it, a scan closes a box at a marker when it did before. -/
theorem closesAt (h : With new place s s') (depth : Nat) :
    s'.closesAt depth = s.closesAt depth := by
  unfold Scanner.closesAt
  rw [h.stack]
  cases s.stack with
  | nil => rfl
  | cons o outer => rfl

/-- Closing boxes leaves the new one as it is.  It is not open, and all others
are closed in both scans at corresponding lines. -/
theorem close (h : With new place s s') (depth index : Nat) :
    With new place (s.close depth index) (s'.close depth (place index)) := by
  have hclosed : (s'.stack.takeWhile fun o => decide (depth ≤ o.depth)) =
      (s.stack.takeWhile fun o => decide (depth ≤ o.depth)).map (Opener.shift new.index place) := by
    rw [h.stack, List.takeWhile_map]
    rfl
  unfold Scanner.close
  dsimp only
  rw [hclosed]
  generalize s.stack.takeWhile (fun o => decide (depth ≤ o.depth)) = closed
  have hmarked :
      ((closed.map (Opener.shift new.index place)).filter (·.depth == depth)).map (·.index) =
      ((closed.filter (·.depth == depth)).map (·.index)).map (renumber new.index) := by
    rw [List.filter_map, List.map_map, List.map_map]
    rfl
  rw [hmarked]
  generalize (closed.filter (·.depth == depth)).map (·.index) = marked
  have hcontains : ∀ i, (marked.map (renumber new.index)).contains (renumber new.index i) =
      marked.contains i := by
    intro i
    rw [Bool.eq_iff_iff, List.contains_iff_mem, List.contains_iff_mem, List.mem_map]
    simp only [renumber_inj, exists_eq_right]
  have hnew : (marked.map (renumber new.index)).contains new.index = false := by
    rw [← Bool.not_eq_true, List.contains_iff_mem, List.mem_map]
    rintro ⟨i, -, hi⟩
    exact renumber_ne _ _ hi
  refine ⟨by simpa using h.index_le, ?_, ?_⟩
  · rw [h.openers, List.map_insertIdx,
      if_neg (by rw [hnew]; exact Bool.false_ne_true), List.map_map, List.map_map]
    refine congrArg (fun openers => openers.insertIdx new.index new) (List.map_congr_left ?_)
    intro o _
    have hindex : (Opener.shift new.index place o).index = renumber new.index o.index := rfl
    simp only [Function.comp, hindex, hcontains]
    split <;> rfl
  · rw [h.stack, List.length_map, List.map_drop]

/-- A box that is opened has the next number in its scan, and these numbers
correspond because the new box was counted. -/
theorem openBox (h : With new place s s') (index depth : Nat) (label inner comment : Text) :
    With new place (s.openBox index depth label inner comment)
      (s'.openBox (place index) depth label inner comment) := by
  have hlength : s'.openers.length = renumber new.index s.openers.length := by
    rw [h.openers, List.length_insertIdx_of_le_length (by simpa using h.index_le), List.length_map]
    unfold renumber
    rw [if_neg (Nat.not_lt.mpr h.index_le)]
  have houter : (s'.stack.dropWhile fun o => decide (depth < o.depth + 2)) =
      (s.stack.dropWhile fun o => decide (depth < o.depth + 2)).map
        (Opener.shift new.index place) := by
    rw [h.stack, List.dropWhile_map]
    rfl
  unfold Scanner.openBox
  dsimp only
  rw [hlength, houter, h.openers]
  generalize s.stack.dropWhile (fun o => decide (depth < o.depth + 2)) = outer
  have hopener : (⟨renumber new.index s.openers.length, place index, depth, label, inner, comment,
      (outer.map (Opener.shift new.index place)).head?.map (·.index), none⟩ : Opener) =
      Opener.shift new.index place ⟨s.openers.length, index, depth, label, inner, comment,
        outer.head?.map (·.index), none⟩ := by
    cases outer with
    | nil => rfl
    | cons o outer => rfl
  refine ⟨?_, ?_, ?_⟩
  · simp only [List.length_append, List.length_singleton]
    have := h.index_le
    omega
  · rw [List.map_append, List.map_singleton, insertIdx_concat (by simpa using h.index_le), hopener]
  · rw [List.map_cons, hopener]

/-- **One line**, fed to both scans, keeps them one box apart.  The new box is
closed before the line, so the same boxes are open in both, under their old and
their new numbers. -/
theorem feed (h : With new place s s') (index : Nat) (line : Line) :
    With new place (s.feed index line).2 (s'.feed (place index) line).2 := by
  unfold Scanner.feed
  cases line.content with
  | marker depth label bracket =>
      simp only [h.closesAt]
      split
      · exact h
      · split
        · exact h.close _ _
        · exact h.openBox _ _ _ _ _
  | _ => exact h

/-- **The lines after the new box.**  The lines at some positions have been
taken out; none of them is a marker.  Each other line has its new place. -/
theorem feedAll (isTaken : Nat → Bool) (lines : List Text)
    (htaken : ∀ (r : Nat) raw, lines[r]? = some raw → isTaken r = true →
      ∀ depth label bracket, (Line.ofText raw).content ≠ .marker depth label bracket)
    {i j : Nat}
    (hplace : ∀ r < lines.length, isTaken r = false →
      place (i + r) = j + (Edit.leftLines isTaken (lines.take r)).length)
    (h : With new place s s') :
    With new place (s.feedAll i lines) (s'.feedAll j (Edit.leftLines isTaken lines)) := by
  induction lines generalizing isTaken s s' i j with
  | nil => exact h
  | cons raw lines ih =>
      have hnext : ∀ (r : Nat) next, lines[r]? = some next → isTaken (r + 1) = true →
          ∀ depth label bracket, (Line.ofText next).content ≠ .marker depth label bracket :=
        fun r next hget => htaken (r + 1) next hget
      have hlater : ∀ r < lines.length, isTaken (r + 1) = false → place (i + 1 + r) =
          j + (if isTaken 0 then [] else [raw]).length +
            (Edit.leftLines (fun r => isTaken (r + 1)) (lines.take r)).length := by
        intro r hr hleft
        have hmoved := hplace (r + 1) (by simpa using hr) hleft
        rw [List.take_succ_cons, Edit.leftLines_cons, List.length_append] at hmoved
        rw [Nat.add_right_comm i 1 r, Nat.add_assoc i r 1, hmoved, Nat.add_assoc]
      rw [Edit.leftLines_cons, Scanner.feedAll]
      cases hzero : isTaken 0 with
      | true =>
          -- the line is taken out: it is no marker, so the first scan skips it
          rw [feed_of_other (htaken 0 raw rfl hzero)]
          rw [hzero] at hlater
          exact ih _ hnext hlater h
      | false =>
          rw [hzero] at hlater
          have hhere : place i = j := hplace 0 (Nat.succ_pos _) hzero
          refine ih _ hnext hlater ?_
          rw [← hhere]
          exact h.feed i _

end With

/-! ## The new box -/

/-- The opener of a box that is put in after some lines and holds a number of
others. -/
def newBox (s : Scanner) (index held : Nat) (label inner comment : Text) : Opener :=
  ⟨s.openers.length, index, s.depth + 2, label, inner, comment, s.current?.map (·.index),
    some (index + held + 1)⟩

theorem scan_append (lines more : List Text) :
    scan (lines ++ more) = (scan lines).feedAll lines.length more := by
  unfold scan
  rw [feedAll_append, Nat.zero_add]

/-- Lines without a marker leave a scan alone. -/
theorem feedAll_of_others {s : Scanner} {index : Nat} {lines : List Text}
    (h : ∀ raw ∈ lines, ∀ depth label bracket,
      (Line.ofText raw).content ≠ .marker depth label bracket) : s.feedAll index lines = s := by
  induction lines generalizing index with
  | nil => rfl
  | cons raw lines ih =>
      rw [feedAll, feed_of_other (h raw List.mem_cons_self)]
      exact ih fun other hother => h other (List.mem_cons_of_mem raw hother)

/-- The depth that a scan has reached is even, since odd markers are skipped. -/
theorem even_depth (lines : List Text) : (scan lines).depth % 2 = 0 := by
  have hnested := nested_scan lines
  unfold depth
  cases hstack : (scan lines).stack with
  | nil => rfl
  | cons top below => exact (hnested.even top (by simp [hstack])).1

/-- A box two dashes deeper than the innermost one is opened inside all open
boxes. -/
theorem openBox_deeper (s : Scanner) (index : Nat) (label inner comment : Text) :
    s.openBox index (s.depth + 2) label inner comment =
      let opener := { s.newBox index 0 label inner comment with closeLine := none }
      ⟨s.openers ++ [opener], opener :: s.stack⟩ := by
  have hkept : (s.stack.dropWhile fun o => decide (s.depth + 2 < o.depth + 2)) = s.stack := by
    unfold depth
    cases s.stack with
    | nil => rfl
    | cons top below => simp
  unfold openBox newBox
  dsimp only
  rw [hkept]
  rfl

/-- An empty marker of its depth closes the box that was just opened, and no
other. -/
theorem close_deeper {s : Scanner} {n : Nat} (hwithin : Within n s) (o : Opener)
    (hindex : o.index = s.openers.length) (hdepth : o.depth = s.depth + 2) (index : Nat) :
    (⟨s.openers ++ [o], o :: s.stack⟩ : Scanner).close (s.depth + 2) index =
      ⟨s.openers ++ [{ o with closeLine := some index }], s.stack⟩ := by
  have hstack : (s.stack.takeWhile fun o => decide (s.depth + 2 ≤ o.depth)) = [] := by
    unfold depth
    cases s.stack with
    | nil => rfl
    | cons top below => simp
  have hothers : (s.openers.map fun old =>
      if [o.index].contains old.index then { old with closeLine := some index } else old) =
        s.openers := by
    conv_rhs => rw [← List.map_id s.openers]
    apply List.map_congr_left
    intro old hold
    have hlt := (hwithin.openers old hold).index
    rw [if_neg (by simp; omega)]
    rfl
  unfold close
  dsimp only
  rw [List.takeWhile_cons_of_pos (by simp [hdepth]), hstack,
    List.filter_cons_of_pos (by simp [hdepth]),
    List.filter_nil, List.map_singleton, List.map_append, hothers]
  simp

/-- A marker with a title, two dashes deeper than the innermost box, opens a box
inside it. -/
theorem feed_opening {s : Scanner} {opening label : Text} {bracket : Option Text}
    (heven : s.depth % 2 = 0)
    (hopening : (Line.ofText opening).content = .marker (s.depth + 2) label bracket)
    (htitled : label ≠ [] ∨ bracket ≠ none) (index : Nat) :
    (s.feed index (.ofText opening)).2 =
      let opener :=
        { s.newBox index 0 label (Text.trim (bracket.getD [])) (Line.ofText opening).comment
        with closeLine := none }
      ⟨s.openers ++ [opener], opener :: s.stack⟩ := by
  have htitle : (label.isEmpty && bracket.isNone) = false := by
    rcases htitled with hlabel | hbracket
    · simp [hlabel]
    · simp [Option.isSome_iff_ne_none.mpr hbracket]
  have heven' : (s.depth + 2) % 2 = 0 := by omega
  rw [← openBox_deeper]
  unfold feed
  rw [hopening]
  simp [heven', htitle]

/-- **The scan with a new box.**  Nothing else is closed, and the same boxes are
open. -/
theorem scan_box {lines held : List Text} {opening closing label : Text} {bracket : Option Text}
    (hopening : (Line.ofText opening).content = .marker ((scan lines).depth + 2) label bracket)
    (htitled : label ≠ [] ∨ bracket ≠ none)
    (hheld : ∀ raw ∈ held, ∀ depth label bracket,
      (Line.ofText raw).content ≠ .marker depth label bracket)
    (hclosing : (Line.ofText closing).content = .marker ((scan lines).depth + 2) [] none) :
    scan (lines ++ opening :: (held ++ [closing])) =
      ⟨(scan lines).openers ++ [(scan lines).newBox lines.length held.length label
        (Text.trim (bracket.getD [])) (Line.ofText opening).comment], (scan lines).stack⟩ := by
  have heven := even_depth lines
  have hwithin := within_scan lines
  rw [scan_append]
  generalize scan lines = s at hopening hclosing heven hwithin ⊢
  have hcloses : ∀ (t : Scanner) index, t.closesAt (s.depth + 2) = true →
      t.feed index (.ofText closing) = (.closed, t.close (s.depth + 2) index) := by
    intro t index hcloses
    have heven' : (s.depth + 2) % 2 = 0 := by omega
    unfold feed
    rw [hclosing]
    simp [heven', hcloses]
  rw [feedAll, feed_opening heven hopening htitled, feedAll_append,
    feedAll_of_others hheld, feedAll,
    hcloses _ _ (by simp [closesAt, newBox]), feedAll, close_deeper hwithin _ rfl rfl]
  simp only [newBox]
  rw [Nat.add_right_comm lines.length 1]

/-- The scan with a new box has the boxes of the scan without it, if the lines
before it stay where they are. -/
theorem with_box (lines : List Text) {new : Opener}
    (hindex : new.index = (scan lines).openers.length)
    {place : Nat → Nat} (hplace : ∀ i < lines.length, place i = i) :
    With new place (scan lines) ⟨(scan lines).openers ++ [new], (scan lines).stack⟩ := by
  have hwithin := within_scan lines
  have hsame : ∀ {l : List Opener}, (∀ o ∈ l, o.Within (scan lines).openers.length lines.length) →
      l.map (Opener.shift new.index place) = l := by
    intro l hl
    conv_rhs => rw [← List.map_id l]
    refine List.map_congr_left fun o ho => ?_
    rw [hindex]
    exact (hl o ho).shift hplace
  refine ⟨Nat.le_of_eq hindex, ?_, (hsame hwithin.stack).symm⟩
  rw [hsame hwithin.openers, hindex, List.insertIdx_length_self]

end Scanner

/-! ## The nodes in the new box -/

/-- The nodes that are defined directly in a box on lines that are fed to a
scan. -/
def definedFrom (k : Nat) (s : Scanner) (index : Nat) : List Text → List Text
  | [] => []
  | raw :: rest =>
    (if s.current?.map (·.index) = some k then (Line.ofText raw).definedNode?.toList else []) ++
      definedFrom k (s.feed index (.ofText raw)).2 (index + 1) rest

/-- The nodes that lines define in a box are those of the first lines and those
of the rest. -/
theorem definedFrom_append (k : Nat) (s : Scanner) (index : Nat) (first second : List Text) :
    definedFrom k s index (first ++ second) = definedFrom k s index first ++
      definedFrom k (s.feedAll index first) (index + first.length) second := by
  induction first generalizing s index with
  | nil => rfl
  | cons raw first ih =>
      simp only [List.cons_append, definedFrom, Scanner.feedAll, ih, List.length_cons,
        List.append_assoc]
      rw [Nat.add_right_comm index 1, Nat.add_assoc index]

/-- Lines after others define in a box what they define when they are fed to the
scan of the others. -/
theorem definedIn_append (k : Nat) (lines more : List Text) :
    definedIn (lines ++ more) k =
      definedIn lines k ++ definedFrom k (Scanner.scan lines) lines.length more := by
  induction more using List.reverseRecOn with
  | nil => simp [definedFrom]
  | append_singleton more raw ih =>
      have hinnermost : innermostBefore? (lines ++ more) (lines ++ more).length =
          ((Scanner.scan lines).feedAll lines.length more).current?.map (·.index) := by
        unfold innermostBefore?
        rw [List.take_length, Scanner.scan_append]
      rw [← List.append_assoc, definedIn_concat, ih, definedFrom_append,
        hinnermost, List.append_assoc]
      simp [definedFrom]

/-- Nothing is defined in a box that was not opened yet, since nodes are put
into open boxes only. -/
theorem definedIn_of_later {lines : List Text} {k : Nat} (h : (openers lines).length ≤ k) :
    definedIn lines k = [] := by
  induction lines using List.reverseRecOn with
  | nil => rfl
  | append_singleton lines raw ih =>
      have hlength : (openers lines).length ≤ (openers (lines ++ [raw])).length := by
        unfold openers
        rw [Scanner.scan_concat]
        exact (Scanner.before_feed (Scanner.before_scan lines) raw).2.length_le
      rw [definedIn_concat, ih (by omega), if_neg, List.append_nil]
      intro hinnermost
      unfold innermostBefore? at hinnermost
      rw [List.take_length] at hinnermost
      obtain ⟨top, htop, rfl⟩ := Option.map_eq_some_iff.mp hinnermost
      have := ((Scanner.within_scan lines).stack top (List.mem_of_head? htop)).index
      unfold openers at hlength h
      omega

/-- Nothing is defined in a box that is not open any more: a closed box is never
opened again. -/
theorem definedFrom_of_closed {k : Nat} {s : Scanner} (hk : k < s.openers.length)
    (hstack : ∀ o ∈ s.stack, o.index ≠ k) (index : Nat) (lines : List Text) :
    definedFrom k s index lines = [] := by
  induction lines generalizing s index with
  | nil => rfl
  | cons raw lines ih =>
      have hnone : s.current?.map (·.index) ≠ some k := by
        intro hcurrent
        obtain ⟨top, htop, hindex⟩ := Option.map_eq_some_iff.mp hcurrent
        exact hstack top (List.mem_of_head? htop) hindex
      rw [definedFrom, if_neg hnone, List.nil_append]
      have hfed := Scanner.feed_fed s index (.ofText raw)
      generalize s.feed index (.ofText raw) = result at hfed ⊢
      cases hfed with
      | skipped => exact ih hk hstack _
      | closed depth =>
          refine ih ?_ ?_ _
          · rwa [Scanner.length_close]
          · intro o ho
            rw [Scanner.stack_close] at ho
            exact hstack o ((List.dropWhile_sublist _).subset ho)
      | opened depth label bracket =>
          refine ih ?_ ?_ _
          · simp only [Scanner.openBox, List.length_append]
            omega
          · intro o ho
            rcases List.mem_cons.mp ho with rfl | hold
            · exact Nat.ne_of_gt hk
            · exact hstack o ((List.dropWhile_sublist _).subset hold)

/-- Lines that are no markers define their nodes in the innermost box, which
stays the same over all of them. -/
theorem definedFrom_of_others {k : Nat} {s : Scanner} (hcurrent : s.current?.map (·.index) = some k)
    (index : Nat) {lines : List Text}
    (h : ∀ raw ∈ lines, ∀ depth label bracket,
      (Line.ofText raw).content ≠ .marker depth label bracket) :
    definedFrom k s index lines =
      lines.flatMap fun raw => (Line.ofText raw).definedNode?.toList := by
  induction lines generalizing index with
  | nil => rfl
  | cons raw lines ih =>
      rw [definedFrom, if_pos hcurrent,
        Scanner.feed_of_other (h raw List.mem_cons_self), List.flatMap_cons,
        ih _ fun other hother => h other (List.mem_cons_of_mem raw hother)]

/-- **The nodes in a new box** are those defined between its markers.  Before
its opening line the box is not there, behind its closing line it is closed, and
no marker stands between. -/
theorem definedIn_box {lines held rest : List Text} {opening closing label : Text}
    {bracket : Option Text} (hopening : (Line.ofText opening).content =
      .marker ((Scanner.scan lines).depth + 2) label bracket)
    (htitled : label ≠ [] ∨ bracket ≠ none)
    (hheld : ∀ raw ∈ held, ∀ depth label bracket,
      (Line.ofText raw).content ≠ .marker depth label bracket)
    (hclosing : (Line.ofText closing).content = .marker ((Scanner.scan lines).depth + 2) [] none) :
    definedIn ((lines ++ opening :: (held ++ [closing])) ++ rest) (openers lines).length =
      held.flatMap fun raw => (Line.ofText raw).definedNode?.toList := by
  have hwithin := Scanner.within_scan lines
  have hclosed : definedFrom (openers lines).length
      (Scanner.scan (lines ++ opening :: (held ++ [closing])))
      (lines ++ opening :: (held ++ [closing])).length rest = [] := by
    rw [Scanner.scan_box hopening htitled hheld hclosing]
    refine definedFrom_of_closed ?_ ?_ _ _
    · simp [openers]
    · exact fun o ho => Nat.ne_of_lt (hwithin.stack o ho).index
  have hbefore : (Scanner.scan lines).current?.map (·.index) ≠ some (openers lines).length := by
    intro hcurrent
    obtain ⟨top, htop, hindex⟩ := Option.map_eq_some_iff.mp hcurrent
    exact absurd hindex (Nat.ne_of_lt (hwithin.stack top (List.mem_of_head? htop)).index)
  have hdefines : (Line.ofText closing).definedNode? = none := by
    simp [Line.definedNode?, hclosing]
  rw [definedIn_append, hclosed, List.append_nil, definedIn_append,
    definedIn_of_later (Nat.le_refl _),
    List.nil_append, definedFrom, if_neg hbefore, List.nil_append,
    Scanner.feed_opening (Scanner.even_depth lines) hopening htitled, definedFrom_append,
    definedFrom_of_others rfl _ hheld]
  simp [definedFrom, hdefines]

end LineDiagram.Box
