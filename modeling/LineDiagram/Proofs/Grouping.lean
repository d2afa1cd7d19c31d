import LineDiagram.Proofs.BoxInsertion
import LineDiagram.Proofs.BoxLabel
import LineDiagram.Proofs.BoxRemoval

/-!
# Putting nodes into a new box

The definitions of some nodes are taken out of a document and put between two
new markers, where the first of them stood.  Definitions are no markers, so the
scan of the other lines does not miss them, and the new box changes nothing else
about boxes.

* `newPlace_of_lt`, `newPlace_of_ge`, `getElem?_groupedLines` — where the other
  lines are now;
* `content_opening`, `content_closing` — the new markers are read as markers of
  one box;
* `with_groupedLines` — the scan afterwards is the old one with the new box;
* `definedIn_groupedLines` — the moved nodes are in it;
* `groupNodes_adds_box` — all of it, for every document and every choice of
  nodes.
-/

namespace LineDiagram

namespace Edit

/-! ## Places of lines -/

variable {lines : List Text} {isTaken : Nat → Bool}

/-- What is left of two groups of lines is what is left of the first, and then
what is left of the second, whose positions count on. -/
theorem leftLines_append (isTaken : Nat → Bool) (first second : List Text) :
    leftLines isTaken (first ++ second) =
      leftLines isTaken first ++ leftLines (fun i => isTaken (first.length + i)) second := by
  induction first generalizing isTaken with
  | nil => simp [leftLines]
  | cons raw first ih =>
      rw [List.cons_append, leftLines_cons, leftLines_cons, ih, List.append_assoc, List.length_cons]
      simp only [Nat.add_right_comm]

/-- All lines are left if none is taken. -/
theorem leftLines_of_none (h : ∀ i < lines.length, isTaken i = false) :
    leftLines isTaken lines = lines := by
  induction lines generalizing isTaken with
  | nil => rfl
  | cons raw lines ih =>
      rw [leftLines_cons, h 0 (Nat.succ_pos _), ih fun i hi => h (i + 1) (Nat.succ_lt_succ hi)]
      rfl

/-- The lines that are left and the positions that are taken add up to all
lines. -/
theorem length_leftLines (isTaken : Nat → Bool) (lines : List Text) :
    (leftLines isTaken lines).length + ((List.range lines.length).filter isTaken).length =
      lines.length := by
  have hlength := (separate_perm isTaken lines).length_eq
  rw [List.length_append, takenLines, List.length_map] at hlength
  omega

/-- The lines that are left before a line count its place among them. -/
theorem getElem?_leftLines {i : Nat} {raw : Text} (h : lines[i]? = some raw)
    (hleft : isTaken i = false) :
    (leftLines isTaken lines)[(leftLines isTaken (lines.take i)).length]? = some raw := by
  have hlength : (lines.take i).length = i :=
    List.length_take_of_le (Nat.le_of_lt (List.getElem?_eq_some_iff.mp h).1)
  have hsplit := Text.eq_take_cons_drop h
  conv_lhs => rw [hsplit]
  rw [leftLines_append, leftLines_cons, hlength, Nat.add_zero, hleft, ← hsplit]
  simp

/-- The positions of the lines that are moved. -/
def movedPlaces (lines ids : List Text) : List Nat :=
  (List.range lines.length).filter (isMoved lines ids)

/-- The place of a line after others were moved together between two new lines,
where the first of them stood. -/
def newPlace (moved : List Nat) (i : Nat) : Nat :=
  if moved.all (i < ·) then i else i + 2 + moved.countP (i < ·)

section Places

variable {ids : List Text} {first : Nat} {rest : List Nat}
  (hmoved : movedPlaces lines ids = first :: rest)

include hmoved

theorem first_lt : first < lines.length ∧ isMoved lines ids first = true := by
  have hmem : first ∈ movedPlaces lines ids := by rw [hmoved]; exact List.mem_cons_self
  simpa [movedPlaces] using hmem

/-- No line before it is moved. -/
theorem not_moved_before {i : Nat} (hi : i < first) : isMoved lines ids i = false := by
  cases hcase : isMoved lines ids i with
  | false => rfl
  | true =>
      have hlt := (first_lt hmoved).1
      have hmem : i ∈ movedPlaces lines ids := by
        simp only [movedPlaces, List.mem_filter, List.mem_range]
        exact ⟨by omega, hcase⟩
      have hsorted : (movedPlaces lines ids).Pairwise (· < ·) :=
        List.pairwise_lt_range.filter _
      rw [hmoved, List.pairwise_cons] at hsorted
      rw [hmoved] at hmem
      rcases List.mem_cons.mp hmem with rfl | hin
      · exact absurd hi (Nat.lt_irrefl _)
      · have := hsorted.1 i hin
        omega

/-- So the lines before it stay in their places. -/
theorem newPlace_of_lt {i : Nat} (hi : i < first) : newPlace (movedPlaces lines ids) i = i := by
  refine if_pos (List.all_eq_true.mpr fun j hj => ?_)
  have hle : first ≤ j := by
    by_contra hlt
    have hnone := not_moved_before hmoved (Nat.not_le.mp hlt)
    simp [movedPlaces, hnone] at hj
  exact decide_eq_true (by omega)

/-- The moved lines before and behind a line, of which the first ones are
counted from the first moved line on. -/
theorem movedPlaces_split {r : Nat} (hr : first + r < lines.length) :
    ∃ behind : List Nat, movedPlaces lines ids =
        ((List.range r).filter fun j => isMoved lines ids (first + j)).map (first + ·) ++ behind ∧
      ∀ j ∈ behind, first + r ≤ j ∧ isMoved lines ids j = true := by
  obtain ⟨m, hm⟩ : ∃ m, lines.length = first + (r + m) := ⟨lines.length - (first + r), by omega⟩
  have hnone : (List.range first).filter (isMoved lines ids) = [] := by
    rw [List.filter_eq_nil_iff]
    intro i hi
    simp [not_moved_before hmoved (List.mem_range.mp hi)]
  refine ⟨((List.range m).map fun j => first + (r + j)).filter (isMoved lines ids), ?_, ?_⟩
  · unfold movedPlaces
    rw [hm, List.range_add, List.range_add, List.map_append, List.map_map,
      List.filter_append, hnone, List.nil_append, List.filter_append, List.filter_map]
    rfl
  · intro j hj
    obtain ⟨hmem, hin⟩ := List.mem_filter.mp hj
    obtain ⟨k, -, rfl⟩ := List.mem_map.mp hmem
    exact ⟨by omega, hin⟩

/-- A line behind the first of the moved ones comes behind both new lines and
all moved ones. -/
theorem newPlace_of_ge {r : Nat} (hr : first + r < lines.length)
    (hleft : isMoved lines ids (first + r) = false) :
    newPlace (movedPlaces lines ids) (first + r) =
      first + (movedPlaces lines ids).length + 2 +
        (leftLines (fun j => isMoved lines ids (first + j))
          ((lines.drop first).take r)).length := by
  have hlength : ((lines.drop first).take r).length = r := by
    rw [List.length_take, List.length_drop]
    omega
  have htaken :=
    length_leftLines (fun j => isMoved lines ids (first + j)) ((lines.drop first).take r)
  rw [hlength] at htaken
  obtain ⟨behind, hsplit, hbehind⟩ := movedPlaces_split hmoved hr
  have hsome : (movedPlaces lines ids).all (first + r < ·) = false := by
    rw [hmoved, List.all_cons, decide_eq_false (by omega), Bool.false_and]
  have hcount : (movedPlaces lines ids).countP (first + r < ·) = behind.length := by
    rw [hsplit, List.countP_append, List.countP_eq_zero.mpr,
      List.countP_eq_length.mpr, Nat.zero_add]
    · intro j hj
      obtain ⟨hle, hin⟩ := hbehind j hj
      have hne : j ≠ first + r := fun heq => by simp [heq, hleft] at hin
      exact decide_eq_true (by omega)
    · intro j hj
      obtain ⟨k, hk, rfl⟩ := List.mem_map.mp hj
      have := List.mem_range.mp (List.mem_filter.mp hk).1
      simp
      omega
  unfold newPlace
  rw [hsome, hcount, hsplit, List.length_append, List.length_map]
  simp only [Bool.false_eq_true, if_false]
  omega

end Places

/-! ## The new markers -/

/-- What dashes with a title say: a marker of their number, which is empty only
if the title is. -/
theorem content_dashes {depth : Nat} {title : Text} (hdepth : 2 ≤ depth) (htight : Text.Tight title)
    (hplain : Comment.Plain title) (hdash : title.head? ≠ some '-') (hline : '\n' ∉ title) :
    ∃ label bracket,
      Line.contentOfRaw (List.replicate depth '-' ++ title) = .marker depth label bracket ∧
        (title = [] ↔ label = [] ∧ bracket = none) := by
  have hsign : '#' ∉ List.replicate depth '-' := by simp [List.mem_replicate]
  have hstop : (List.replicate depth '-').getLast? = some '\\' →
      title.head? ≠ some '#' := by
    intro hlast
    exact absurd (List.eq_of_mem_replicate (List.mem_of_getLast? hlast)) (by decide)
  have hstrip : Comment.strip (List.replicate depth '-' ++ title) =
      List.replicate depth '-' ++ Comment.unescape title := by
    rw [Comment.strip_of_plain ((Comment.plain_of_not_mem hsign).append hplain),
      Comment.unescape_append hstop, Comment.unescape_of_not_mem hsign,
      Text.trim_of_tight (Line.tight_dashes (by omega) (Comment.tight_unescape htight))]
  have htight' := Comment.tight_unescape htight
  have hnil : title = [] ↔ Comment.unescape title = [] := Comment.unescape_eq_nil.symm
  have hhead : (Comment.unescape title).head? ≠ some '-' := by
    intro hhead
    rcases Comment.head_unescape hhead with htitle | hother
    · exact hdash htitle
    · exact absurd hother (by decide)
  have hline' : '\n' ∉ Comment.unescape title := by rwa [Comment.mem_unescape (by decide)]
  rw [hnil]
  unfold Line.contentOfRaw
  rw [hstrip]
  generalize Comment.unescape title = code at htight' hhead hline' ⊢
  have hdashes : ∀ c ∈ List.replicate depth '-', (c == '-') = true := by
    intro c hc
    rw [List.eq_of_mem_replicate hc]
    rfl
  have hcode : code.takeWhile (· == '-') = [] ∧ code.dropWhile (· == '-') = code := by
    cases code with
    | nil => exact ⟨rfl, rfl⟩
    | cons c rest =>
        have hc : (c == '-') = false := by simpa using hhead
        exact ⟨List.takeWhile_cons_of_neg (by simp [hc]), List.dropWhile_cons_of_neg (by simp [hc])⟩
  refine ⟨_, _, Line.contentOf_eq_marker_iff.mpr ⟨hdepth, ?_, ?_, rfl, rfl⟩, ?_⟩
  · rw [List.takeWhile_append_of_pos hdashes, hcode.1, List.append_nil, List.length_replicate]
  · rwa [List.dropWhile_append_of_pos hdashes, hcode.2]
  · rw [List.dropWhile_append_of_pos hdashes, hcode.2, Text.trim_of_tight htight']
    constructor
    · rintro rfl
      exact ⟨rfl, rfl⟩
    · rintro ⟨hlabel, hbracket⟩
      rwa [Bracket.splitTrailing_of_none hbracket, Text.trim_trimEnd,
        Text.trim_of_tight htight'] at hlabel

/-! ## What grouping does -/

/-- Blanks around the identifiers and repeats of them do not matter to which
lines are moved. -/
theorem isMoved_distinctTexts (lines ids : List Text) :
    isMoved lines (distinctTexts ids) = isMoved lines ids := by
  have htrim : ∀ id, findDefinition? lines (Text.trim id) = findDefinition? lines id := by
    intro id
    unfold findDefinition?
    rw [Text.trim_trim]
  funext i
  rw [Bool.eq_iff_iff]
  simp only [isMoved, List.any_eq_true, beq_iff_eq, mem_distinctTexts]
  constructor
  · rintro ⟨_, ⟨-, id, hid, rfl⟩, hfind⟩
    exact ⟨id, hid, htrim id ▸ hfind⟩
  · rintro ⟨id, hid, hfind⟩
    refine ⟨Text.trim id, ⟨?_, id, hid, rfl⟩, (htrim id).trans hfind⟩
    intro hnil
    rw [← htrim, hnil] at hfind
    cases hfind

/-- The title of the new box, as it is written. -/
def groupTitle (label : Text) : Text :=
  if (Comment.escape (Text.trim label)).isEmpty then "Group" else Comment.escape (Text.trim label)

/-- The lines before the new box, and the box with the definitions of the
nodes. -/
def groupFront (lines ids : List Text) (label : Text) (first : Nat) : List Text :=
  let dashes := List.replicate (Box.depthBefore lines first + 2) '-'
  lines.take first ++ (dashes ++ groupTitle label) ::
    (takenLines (isMoved lines ids) lines ++ [dashes])

/-- The lines with the definitions of nodes in a new box, where the first of
them stood. -/
def groupedLines (lines ids : List Text) (label : Text) (first : Nat) : List Text :=
  groupFront lines ids label first ++
    leftLines (fun i => isMoved lines ids (first + i)) (lines.drop first)

/-- What is left when the definitions are moved: the lines before the first of
them, and what is left of the others. -/
theorem leftLines_moved {ids : List Text} {first : Nat} {rest : List Nat}
    (hmoved : movedPlaces lines ids = first :: rest) :
    leftLines (isMoved lines ids) lines =
      lines.take first ++
        leftLines (fun i => isMoved lines ids (first + i)) (lines.drop first) := by
  have hlength : (lines.take first).length = first :=
    List.length_take_of_le (Nat.le_of_lt (first_lt hmoved).1)
  conv_lhs => rw [← List.take_append_drop first lines]
  rw [leftLines_append, hlength, List.take_append_drop]
  congr 1
  apply leftLines_of_none
  intro i hi
  rw [hlength] at hi
  exact not_moved_before hmoved hi

/-- **Grouping** is done when one of the nodes is defined, and then it reports
the line of the first definition that is moved. -/
theorem groupNodes_done {ids : List Text} {first : Nat} {rest : List Nat}
    (hmoved : movedPlaces lines ids = first :: rest) (label : Text) :
    (groupNodes lines ids label).patch.success = true ∧
      (groupNodes lines ids label).patch.lineIndex = some first ∧
      (groupNodes lines ids label).lines = groupedLines lines ids label first := by
  have hplaces := map_definitionPlaces lines (distinctTexts ids)
  have hkept := leftLines_definitionPlaces lines (distinctTexts ids)
  rw [isMoved_distinctTexts] at hplaces hkept
  have hlength : (lines.take first).length = first :=
    List.length_take_of_le (Nat.le_of_lt (first_lt hmoved).1)
  have hids : (distinctTexts ids).isEmpty = false := by
    cases hcase : distinctTexts ids with
    | nil =>
        have hnone := isMoved_distinctTexts lines ids
        rw [hcase] at hnone
        have hfirst := (first_lt hmoved).2
        rw [← hnone] at hfirst
        cases hfirst
    | cons id ids => rfl
  have htake : (leftLines (isMoved lines ids) lines).take first = lines.take first := by
    rw [leftLines_moved hmoved, List.take_left' hlength]
  have hdrop : (leftLines (isMoved lines ids) lines).drop first =
      leftLines (fun i => isMoved lines ids (first + i)) (lines.drop first) := by
    rw [leftLines_moved hmoved, List.drop_left' hlength]
  have hdepth : Box.depthBefore (leftLines (isMoved lines ids) lines) first =
      Box.depthBefore lines first := by
    unfold Box.depthBefore
    rw [htake]
  unfold groupNodes
  dsimp only
  rw [hids]
  cases hcase : definitionPlaces lines (distinctTexts ids) with
  | nil =>
      rw [hcase] at hplaces
      cases hplaces.trans hmoved
  | cons place places =>
      obtain ⟨index, id⟩ := place
      rw [hcase] at hplaces hkept
      obtain rfl : index = first := (List.cons.inj (hplaces.trans hmoved)).1
      refine ⟨rfl, rfl, ?_⟩
      simp only [Bool.false_eq_true, if_false]
      rw [hkept, hplaces, htake, hdrop, hdepth]
      simp only [groupedLines, groupFront, groupTitle, takenLines,
        List.append_assoc, List.cons_append, List.nil_append]

/-- A line that is moved defines one of the nodes, and no line before it
does. -/
theorem exists_moved {ids : List Text} {i : Nat} (h : isMoved lines ids i = true) :
    ∃ raw id, lines[i]? = some raw ∧ (Line.ofText raw).definedNode? = some id ∧
      findDefinition? lines id = some i := by
  obtain ⟨id, -, hfind⟩ := List.any_eq_true.mp h
  rw [beq_iff_eq] at hfind
  obtain ⟨raw, hraw, hdefines⟩ := findDefinition?_eq_some hfind
  refine ⟨raw, Text.trim id, hraw, hdefines, ?_⟩
  unfold findDefinition? at hfind ⊢
  rwa [Text.trim_trim]

/-- A line that is moved is a definition, and so no marker. -/
theorem not_marker_of_moved {ids : List Text} {i : Nat} {raw : Text}
    (h : isMoved lines ids i = true)
    (hraw : lines[i]? = some raw) (depth : Nat) (label : Text) (bracket : Option Text) :
    (Line.ofText raw).content ≠ .marker depth label bracket := by
  obtain ⟨found, id, hfound, hdefines, -⟩ := exists_moved h
  obtain rfl : found = raw := Option.some.inj (hfound.symm.trans hraw)
  intro hcontent
  simp [Line.definedNode?, hcontent] at hdefines

/-- A line that is taken stands at one of the positions. -/
theorem mem_takenLines {raw : Text} (h : raw ∈ takenLines isTaken lines) :
    ∃ i, isTaken i = true ∧ lines[i]? = some raw := by
  obtain ⟨i, hi, rfl⟩ := List.mem_map.mp h
  obtain ⟨hrange, htaken⟩ := List.mem_filter.mp hi
  have hlt := List.mem_range.mp hrange
  exact ⟨i, htaken, by simp [hlt]⟩

theorem not_marker_of_taken {ids : List Text} {raw : Text}
    (h : raw ∈ takenLines (isMoved lines ids) lines) (depth : Nat) (label : Text)
    (bracket : Option Text) : (Line.ofText raw).content ≠ .marker depth label bracket := by
  obtain ⟨i, hi, hget⟩ := mem_takenLines h
  exact not_marker_of_moved hi hget depth label bracket

section Grouped

variable {ids : List Text} {label : Text} {first : Nat} {rest : List Nat}

/-- The title of the new box is written on one line, behind the dashes, and it
is not empty: a box without a title would be a closing marker. -/
theorem groupTitle_spec (hdash : (Text.trim label).head? ≠ some '-') (hline : '\n' ∉ label) :
    Text.Tight (groupTitle label) ∧ Comment.Plain (groupTitle label) ∧
      (groupTitle label).head? ≠ some '-' ∧ '\n' ∉ groupTitle label ∧ groupTitle label ≠ [] := by
  unfold groupTitle
  split
  · have htight : Text.Tight "Group".toList := Text.tight_of_all (by decide)
    exact ⟨htight, Comment.plain_of_not_mem (by decide), by decide, by decide, by decide⟩
  · rename_i hne
    refine ⟨Comment.tight_escape (Text.tight_trim label), Comment.plain_escape _, ?_, ?_,
      by simpa using hne⟩
    · intro hhead
      rcases Comment.head_escape hhead with htitle | hother
      · exact hdash htitle
      · exact absurd hother (by decide)
    · rw [Comment.mem_escape (by decide)]
      exact fun hmem => hline (Text.mem_of_mem_trim hmem)

/-- The marker in front of the new box opens one, since it has a title or a
bracket. -/
theorem content_opening (hdash : (Text.trim label).head? ≠ some '-') (hline : '\n' ∉ label)
    (depth : Nat) : ∃ title bracket,
      (Line.ofText (List.replicate (depth + 2) '-' ++ groupTitle label)).content =
        .marker (depth + 2) title bracket ∧ (title ≠ [] ∨ bracket ≠ none) := by
  obtain ⟨htight, hplain, hhead, hfree, hne⟩ := groupTitle_spec hdash hline
  obtain ⟨title, bracket, hcontent, hempty⟩ :=
    content_dashes (Nat.le_add_left 2 depth) htight hplain hhead hfree
  exact ⟨title, bracket, hcontent, not_and_or.mp fun h => hne (hempty.mpr h)⟩

/-- The marker behind it is empty, so it closes the box and opens none. -/
theorem content_closing (depth : Nat) :
    (Line.ofText (List.replicate (depth + 2) '-')).content = .marker (depth + 2) [] none := by
  obtain ⟨title, bracket, hcontent, hempty⟩ := content_dashes (Nat.le_add_left 2 depth)
    (⟨nofun, nofun⟩ : Text.Tight []) (Comment.plain_of_not_mem List.not_mem_nil) nofun
    List.not_mem_nil
  obtain ⟨rfl, rfl⟩ := hempty.mp rfl
  rwa [List.append_nil] at hcontent

/-- What is said of the opener of the new box. -/
structure NewBox (lines : List Text) (first held : Nat) (o : Box.Opener) : Prop where
  /-- Its number is that of the boxes before it. -/
  index : o.index = (Box.openers (lines.take first)).length
  /-- It stands where the first of the moved lines stood. -/
  lineIndex : o.lineIndex = first
  /-- It is one level deeper than the innermost box there. -/
  depth : o.depth = Box.depthBefore lines first + 2
  /-- It is in that box. -/
  parent : o.parent = Box.innermostBefore? lines first
  /-- It is closed behind the moved lines. -/
  closeLine : o.closeLine = some (first + held + 1)

variable (hmoved : movedPlaces lines ids = first :: rest)

include hmoved

/-- As many lines stand before the first of the moved lines as its position
says. -/
theorem length_take : (lines.take first).length = first :=
  List.length_take_of_le (Nat.le_of_lt (first_lt hmoved).1)

/-- Up to the end of the new box there are the lines before it, the moved lines
and two markers. -/
theorem length_groupFront :
    (groupFront lines ids label first).length = first + (movedPlaces lines ids).length + 2 := by
  have htaken : (takenLines (isMoved lines ids) lines).length = (movedPlaces lines ids).length :=
    List.length_map _
  simp only [groupFront, List.length_append, List.length_cons, List.length_nil, length_take hmoved,
    htaken]
  omega

/-- The scan after the new box: one opener more, and the same boxes open as
before it. -/
theorem scan_groupFront (hdash : (Text.trim label).head? ≠ some '-') (hline : '\n' ∉ label) :
    ∃ o, NewBox lines first (movedPlaces lines ids).length o ∧
      Box.Scanner.scan (groupFront lines ids label first) =
        ⟨(Box.Scanner.scan (lines.take first)).openers ++ [o],
          (Box.Scanner.scan (lines.take first)).stack⟩ := by
  obtain ⟨title, bracket, hopening, htitled⟩ :=
    content_opening hdash hline (Box.depthBefore lines first)
  refine ⟨_, ?_,
    Box.Scanner.scan_box hopening htitled (fun _ => not_marker_of_taken) (content_closing _)⟩
  refine ⟨rfl, length_take hmoved, rfl, rfl, ?_⟩
  simp only [Box.Scanner.newBox, length_take hmoved, takenLines, List.length_map]
  rfl

/-- **The scan after grouping** is the old one with the new box.  Moved lines
are no markers, so taking them out of their places changes nothing for the
scan. -/
theorem with_groupedLines (hdash : (Text.trim label).head? ≠ some '-') (hline : '\n' ∉ label) :
    ∃ o, NewBox lines first (movedPlaces lines ids).length o ∧
      Box.Scanner.With o (newPlace (movedPlaces lines ids)) (Box.Scanner.scan lines)
        (Box.Scanner.scan (groupedLines lines ids label first)) := by
  obtain ⟨o, hnew, hfront⟩ := scan_groupFront hmoved hdash hline
  have hstart := Box.Scanner.with_box (lines.take first) hnew.index
    (fun i hi => newPlace_of_lt hmoved (by rwa [length_take hmoved] at hi))
  rw [← hfront] at hstart
  have hrun := hstart.feedAll (fun i => isMoved lines ids (first + i)) (lines.drop first)
    (i := (lines.take first).length) (j := (groupFront lines ids label first).length) ?_ ?_
  · rw [← Box.Scanner.scan_append, ← Box.Scanner.scan_append, List.take_append_drop] at hrun
    exact ⟨o, hnew, hrun⟩
  · intro r raw hget hin
    rw [List.getElem?_drop] at hget
    exact not_marker_of_moved hin hget
  · intro r hr hleft
    rw [List.length_drop] at hr
    rw [length_take hmoved, length_groupFront hmoved]
    exact newPlace_of_ge hmoved (by omega) hleft

end Grouped

/-! ## What is in the new box -/

/-- The nodes whose definitions are moved, in the order of the lines. -/
def movedNodes (lines ids : List Text) : List Text :=
  (takenLines (isMoved lines ids) lines).filterMap fun raw => (Line.ofText raw).definedNode?

/-- No node is moved twice: only its first definition is. -/
theorem nodup_movedNodes (lines ids : List Text) : (movedNodes lines ids).Nodup := by
  have hdefined : ∀ i ∈ (List.range lines.length).filter (isMoved lines ids), ∀ id,
      (Line.ofText (lines.getD i [])).definedNode? = some id →
      findDefinition? lines id = some i := by
    intro i hi id hid
    obtain ⟨raw, found, hraw, hdefines, hfind⟩ := exists_moved (List.mem_filter.mp hi).2
    rw [Text.getD_of_getElem? hraw, hdefines] at hid
    exact Option.some.inj hid ▸ hfind
  unfold movedNodes takenLines
  rw [List.filterMap_map, List.Nodup, List.pairwise_filterMap]
  refine List.Pairwise.imp_of_mem ?_ (List.nodup_range.filter _)
  intro i j hi hj hij id hid id' hid' heq
  have hfirst := hdefined i hi id hid
  have hsecond := hdefined j hj id' hid'
  rw [heq, hsecond] at hfirst
  exact hij (Option.some.inj hfirst).symm

/-- Identifiers that are all different stay as they are when repeated ones are
dropped. -/
theorem eraseDups_of_nodup {ids : List Text} (h : ids.Nodup) : ids.eraseDups = ids := by
  induction ids with
  | nil => rfl
  | cons id ids ih =>
      rw [List.nodup_cons] at h
      have hothers : ids.filter (fun other => !other == id) = ids := by
        rw [List.filter_eq_self]
        intro other hother
        have hne : other ≠ id := fun heq => h.1 (heq ▸ hother)
        simp [hne]
      rw [List.eraseDups_cons, hothers, ih h.2]

end Edit

/-- A box of the graph of lines that are written and read again, with the nodes
that the scan finds in it. -/
theorem Draft.exists_box_of_join (font : Text) {lines : List Text}
    (hlines : ∀ raw ∈ lines, '\n' ∉ raw) {k : Nat} (hk : k < (Box.openers lines).length) :
    ∃ b, (ofLines font (Document.split (Document.join lines))).graph.boxes[k]? = some b ∧
      b.members = (Box.definedIn lines k).eraseDups := by
  have hshows := shows_ofLines font lines
  have hagain := shows_ofLines font (Document.split (Document.join lines))
  rw [Edit.nest_split_join hlines] at hagain
  have hlength : (ofLines font lines).graph.boxes.length = (Box.openers lines).length := by
    rw [← hshows.length_eq, scanner_ofLines]
    rfl
  have hsame : (ofLines font (Document.split (Document.join lines))).graph.boxes.length =
      (ofLines font lines).graph.boxes.length := by
    have houtlines := congrArg List.length (hagain.boxes.trans hshows.boxes.symm)
    simpa using houtlines
  have hold := List.getElem?_eq_getElem (hlength ▸ hk)
  have hnew := List.getElem?_eq_getElem (hsame ▸ hlength ▸ hk)
  refine ⟨_, hnew, ?_⟩
  rw [hagain.members k _ hnew, ← hshows.members k _ hold,
    members_ofLines font (List.mem_of_getElem? hold), hshows.numbered k _ hold]

namespace Edit

section Grouped

variable {ids : List Text} {label : Text} {first : Nat} {rest : List Nat}
  (hmoved : movedPlaces lines ids = first :: rest)

include hmoved

/-- The lines that are not moved are all there, each at its new place and
unchanged. -/
theorem getElem?_groupedLines {i : Nat} {raw : Text} (hraw : lines[i]? = some raw)
    (hleft : isMoved lines ids i = false) :
    (groupedLines lines ids label first)[newPlace (movedPlaces lines ids) i]? = some raw := by
  have hlt := (List.getElem?_eq_some_iff.mp hraw).1
  by_cases hi : i < first
  · rw [newPlace_of_lt hmoved hi, groupedLines, groupFront, List.append_assoc,
      List.getElem?_append_left
      (by rw [length_take hmoved]; exact hi), List.getElem?_take_of_lt hi]
    exact hraw
  · obtain ⟨r, rfl⟩ := Nat.exists_eq_add_of_le (Nat.not_lt.mp hi)
    rw [newPlace_of_ge hmoved hlt hleft, groupedLines, ← length_groupFront hmoved,
      List.getElem?_append_right (Nat.le_add_right _ _), Nat.add_sub_cancel_left]
    exact getElem?_leftLines (by rw [List.getElem?_drop]; exact hraw) hleft

end Grouped

/-- The lines with the new box are lines, if the old ones are and the label is
on one line. -/
theorem lineFeed_not_mem_groupedLines {label : Text} (ids : List Text) (first : Nat)
    (hlines : ∀ raw ∈ lines, '\n' ∉ raw) (hdash : (Text.trim label).head? ≠ some '-')
    (hline : '\n' ∉ label) :
    ∀ raw ∈ groupedLines lines ids label first, '\n' ∉ raw := by
  have hdashes : ∀ depth, '\n' ∉ List.replicate depth '-' := by simp [List.mem_replicate]
  obtain ⟨-, -, -, htitle, -⟩ := groupTitle_spec hdash hline
  intro raw hraw
  simp only [groupedLines, groupFront, List.mem_append, List.mem_cons,
    List.not_mem_nil, or_false] at hraw
  rcases hraw with (hbefore | rfl | hheld | rfl) | hbehind
  · exact hlines raw (List.mem_of_mem_take hbefore)
  · simp [hdashes, htitle]
  · obtain ⟨i, -, hget⟩ := mem_takenLines hheld
    exact hlines raw (List.mem_of_getElem? hget)
  · exact hdashes _
  · exact hlines raw (List.mem_of_mem_drop ((leftLines_sublist _ _).subset hbehind))

/-- **The nodes in the new box** are the moved ones, in the order of their
definitions. -/
theorem definedIn_groupedLines {label : Text} (ids : List Text) (first : Nat)
    (hdash : (Text.trim label).head? ≠ some '-') (hline : '\n' ∉ label) :
    Box.definedIn (groupedLines lines ids label first) (Box.openers (lines.take first)).length =
      movedNodes lines ids := by
  obtain ⟨title, bracket, hopening, htitled⟩ :=
    content_opening hdash hline (Box.depthBefore lines first)
  refine (Box.definedIn_box hopening htitled (fun _ => not_marker_of_taken)
    (content_closing _)).trans ?_
  unfold movedNodes
  rw [List.filterMap_eq_flatMap_toList]

/-- What is said of the lines with a new box: nothing else about boxes has
changed. -/
structure BoxAdded (lines ids after : List Text) (o : Box.Opener) : Prop where
  /-- The openers are the old ones and the new one; the old ones are renumbered,
  and their lines have their new places. -/
  openers : Box.openers after =
    ((Box.openers lines).map
      (Box.Opener.shift o.index (newPlace (movedPlaces lines ids)))).insertIdx
      o.index o
  /-- The lines that are not moved are there, at their new places. -/
  kept : ∀ (i : Nat) raw, lines[i]? = some raw → isMoved lines ids i = false →
    after[newPlace (movedPlaces lines ids) i]? = some raw
  /-- The marker of an opener is not moved. -/
  marker : ∀ p ∈ Box.openers lines, isMoved lines ids p.lineIndex = false
  /-- Nor is a marker that closes a box, nor any other marker: all stand at
  their new places. -/
  markers : ∀ (i : Nat) raw depth label bracket, lines[i]? = some raw →
    Line.contentOfRaw raw = .marker depth label bracket →
      isMoved lines ids i = false ∧ after[newPlace (movedPlaces lines ids) i]? = some raw

/-- If one of the nodes is defined, there is a first line to be moved. -/
theorem movedPlaces_ne_nil {ids : List Text}
    (h : ∃ id ∈ ids, (findDefinition? lines id).isSome = true) :
    ∃ first rest, movedPlaces lines ids = first :: rest := by
  obtain ⟨id, hid, hsome⟩ := h
  obtain ⟨i, hi⟩ := Option.isSome_iff_exists.mp hsome
  obtain ⟨raw, hraw, -⟩ := findDefinition?_eq_some hi
  have hmem : i ∈ movedPlaces lines ids := by
    simp only [movedPlaces, List.mem_filter, List.mem_range, isMoved, List.any_eq_true, beq_iff_eq]
    exact ⟨(List.getElem?_eq_some_iff.mp hraw).1, id, hid, hi⟩
  exact List.exists_cons_of_ne_nil (List.ne_nil_of_mem hmem)

/-- A line that opens or closes a box defines no node, so it is not moved. -/
theorem not_moved_of_marker {ids : List Text} {i depth : Nat} {raw label : Text}
    {bracket : Option Text} (hraw : lines[i]? = some raw)
    (hcontent : Line.contentOfRaw raw = .marker depth label bracket) :
    isMoved lines ids i = false := by
  cases hcase : isMoved lines ids i with
  | false => rfl
  | true => exact absurd hcontent (not_marker_of_moved hcase hraw depth label bracket)

/-- **Grouping puts in exactly one box.**  When one of the nodes is defined,
there is a new box where the first of their definitions stood, one level deeper
than the box around it; the other boxes are what they were, and the nodes in the
new box are the moved ones, in the order of the lines. -/
theorem groupNodes_adds_box {lines ids : List Text} {label : Text}
    (hlines : ∀ raw ∈ lines, '\n' ∉ raw)
    (hdefined : ∃ id ∈ ids, (findDefinition? lines id).isSome = true) (hline : '\n' ∉ label)
    (hdash : (Text.trim label).head? ≠ some '-') (font : Option Text) :
    ∃ first o g b, (groupNodes lines ids label).patch.success = true ∧
      (groupNodes lines ids label).patch.lineIndex = some first ∧
      (movedPlaces lines ids).head? = some first ∧
      NewBox lines first (movedPlaces lines ids).length o ∧
      BoxAdded lines ids (groupNodes lines ids label).lines o ∧
      (compile (Document.join (groupNodes lines ids label).lines) font).graph = some g ∧
      g.boxes[o.index]? = some b ∧ b.members = movedNodes lines ids := by
  obtain ⟨first, rest, hmoved⟩ := movedPlaces_ne_nil hdefined
  obtain ⟨hsuccess, hfirst, hafter⟩ := groupNodes_done hmoved label
  obtain ⟨o, hnew, hwith⟩ := with_groupedLines hmoved hdash hline
  rw [hafter]
  have hindex : o.index < (Box.openers (groupedLines lines ids label first)).length := by
    have hle := hwith.index_le
    unfold Box.openers
    rw [hwith.openers, List.length_insertIdx_of_le_length (by simpa using hle), List.length_map]
    omega
  obtain ⟨b, hb, hmembers⟩ := Draft.exists_box_of_join _
    (lineFeed_not_mem_groupedLines ids first hlines hdash hline) hindex
  refine ⟨first, o, _, b, hsuccess, hfirst, by rw [hmoved]; rfl, hnew, ?_,
    graph_compile _ font, hb, ?_⟩
  · refine ⟨hwith.openers, fun i raw hraw hleft => getElem?_groupedLines hmoved hraw hleft, ?_, ?_⟩
    · intro p hp
      obtain ⟨raw, label, bracket, hraw, hcontent⟩ := (Box.Scanner.sound_scan lines).opening p hp
      exact not_moved_of_marker hraw hcontent
    · intro i raw depth label bracket hraw hcontent
      have hleft : isMoved lines ids i = false := not_moved_of_marker hraw hcontent
      exact ⟨hleft, getElem?_groupedLines hmoved hraw hleft⟩
  · rw [hmembers, hnew.index, definedIn_groupedLines ids first hdash hline,
      eraseDups_of_nodup (nodup_movedNodes lines ids)]

/-- A box around a definition inside another box, and one far behind it: the new
box is nested in the one around the first of them, and the boxes behind it have
the next numbers. -/
theorem groupNodes_adds_box_in_box :
    ∃ o g b,
      NewBox ["--P", "X:: 1", "----Q", "Y:: 2", "----", "--R", "Z:: 3"] 1 2 o ∧
      BoxAdded ["--P", "X:: 1", "----Q", "Y:: 2", "----", "--R", "Z:: 3"] ["Z", " X ", "nowhere"]
        ["--P", "----New \\# 1", "X:: 1", "Z:: 3", "----", "----Q", "Y:: 2", "----", "--R"] o ∧
      (compile "--P\n----New \\# 1\nX:: 1\nZ:: 3\n----\n----Q\nY:: 2\n----\n--R").graph = some g ∧
      g.boxes[1]? = some b ∧ b.members = ["X".toList, "Z".toList] := by
  obtain ⟨first, o, g, b, -, -, hfirst, hnew, hadded, hg, hb, hmembers⟩ :=
    @groupNodes_adds_box ["--P", "X:: 1", "----Q", "Y:: 2", "----", "--R", "Z:: 3"]
      ["Z", " X ", "nowhere"] "New # 1" (by decide) ⟨"Z", by decide,
        by decide⟩ (by decide) (by decide)
      none
  obtain rfl : 1 = first := Option.some.inj (Eq.trans (by decide) hfirst)
  have hindex : o.index = 1 := hnew.index.trans (by decide)
  rw [hindex] at hb
  refine ⟨o, g, b, hnew, ?_, hg, hb, hmembers.trans (by decide)⟩
  exact hadded

end Edit

end LineDiagram
