import LineDiagram.Proofs.Grouping

/-!
# Deleting a box that was just made

Nodes are put into a new box, and the box is deleted.  Only its two markers go:
the lines between them are definitions, so no marker is moved up.  What is left
is the document with the moved definitions gathered where the first of them
stood, and the old document if they stood together.

* `deleteBox_groupedLines` — the lines that are left;
* `gathered_of_consecutive` — lines that stand together are gathered already;
* `deleteBox_undoes_groupNodes` — both edits, one after the other.
-/

namespace LineDiagram.Edit

variable {lines ids : List Text} {label : Text} {first : Nat} {rest : List Nat}

/-- A document with the definitions of nodes gathered at the place of the first
of them. -/
def gathered (lines ids : List Text) (first : Nat) : List Text :=
  lines.take first ++ takenLines (isMoved lines ids) lines ++
    leftLines (fun i => isMoved lines ids (first + i)) (lines.drop first)

/-! ## Deleting the box -/

/-- A line stays when it is no marker of the box, and no deeper one inside
it. -/
theorem withoutBox_of_ne {o : Box.Opener} {scope index : Nat} {raw : Text}
    (hopen : index ≠ o.lineIndex) (hclose : o.closeLine ≠ some index)
    (hinside : o.lineIndex < index → index < scope → isDeeperMarker o.depth raw = false) :
    (withoutBox o scope index raw).1 = some raw := by
  unfold withoutBox
  rw [if_neg (by simpa using hopen), if_neg (by simpa using hclose), if_neg]
  simp only [Bool.and_eq_true, decide_eq_true_eq, not_and, Bool.not_eq_true, and_imp]
  exact hinside

/-- Nothing is left of the line that opens the box. -/
theorem withoutBox_opening (o : Box.Opener) (scope : Nat) (raw : Text) :
    (withoutBox o scope o.lineIndex raw).1 = none := by
  simp [withoutBox]

/-- Nor is anything left of the line that closes it. -/
theorem withoutBox_closing {o : Box.Opener} {index : Nat}
    (h : o.closeLine = some index) (scope : Nat)
    (raw : Text) : (withoutBox o scope index raw).1 = none := by
  unfold withoutBox
  rw [h]
  split <;> simp

/-- A line that is no marker is no deeper one. -/
theorem isDeeperMarker_of_other {raw : Text}
    (h : ∀ depth label bracket, (Line.ofText raw).content ≠ .marker depth label bracket)
    (depth : Nat) :
    isDeeperMarker depth raw = false := by
  unfold isDeeperMarker
  split
  · rename_i d label bracket hcontent
    exact absurd hcontent (h d label bracket)
  · rfl

/-- Lines that all stay. -/
theorem filterMap_mapIdx_of_kept {f : Nat → Text → Option Text × Option Text} {segment : List Text}
    (h : ∀ (i : Nat) raw, segment[i]? = some raw → (f i raw).1 = some raw) :
    (segment.mapIdx f).filterMap (·.1) = segment := by
  induction segment generalizing f with
  | nil => rfl
  | cons raw segment ih =>
      rw [List.mapIdx_cons, List.filterMap_cons_some (h 0 raw rfl),
        ih fun i next hnext => h (i + 1) next hnext]

/-- Two lines go, and those before, between and behind them stay.  So a box that
is deleted leaves what was around and in it. -/
theorem filterMap_mapIdx_of_two {f : Nat → Text → Option Text × Option Text}
    {before between behind : List Text} {opening closing : Text}
    (hbefore : ∀ (i : Nat) raw, before[i]? = some raw → (f i raw).1 = some raw)
    (hopening : (f before.length opening).1 = none)
    (hbetween : ∀ (i : Nat) raw, between[i]? = some raw →
      (f (i + 1 + before.length) raw).1 = some raw)
    (hclosing : (f (between.length + 1 + before.length) closing).1 = none)
    (hbehind : ∀ (i : Nat) raw, behind[i]? = some raw →
      (f (i + 1 + between.length + 1 + before.length) raw).1 = some raw) :
    ((before ++ opening :: (between ++ [closing]) ++ behind).mapIdx f).filterMap (·.1) =
      before ++ between ++ behind := by
  rw [List.append_assoc, List.cons_append, List.append_assoc, List.singleton_append,
    List.mapIdx_append,
    List.mapIdx_cons, List.mapIdx_append, List.mapIdx_cons, List.filterMap_append,
    List.filterMap_cons_none (by rwa [Nat.zero_add]), List.filterMap_append,
    List.filterMap_cons_none (by rwa [Nat.zero_add]), filterMap_mapIdx_of_kept hbefore,
    filterMap_mapIdx_of_kept hbetween, filterMap_mapIdx_of_kept hbehind, List.append_assoc]

/-- **The new box is deleted** with its two markers and nothing else, so the
definitions stay where they were gathered. -/
theorem deleteBox_groupedLines (hmoved : movedPlaces lines ids = first :: rest) {o : Box.Opener}
    (hnew : NewBox lines first (movedPlaces lines ids).length o)
    (hfind : Box.find? (groupedLines lines ids label first) (Box.idOf o.index) = some o) :
    (deleteBox (groupedLines lines ids label first) (Box.idOf o.index)).patch.success = true ∧
      (deleteBox (groupedLines lines ids label first) (Box.idOf o.index)).lines =
        gathered lines ids first := by
  have htaken : (takenLines (isMoved lines ids) lines).length = (movedPlaces lines ids).length :=
    List.length_map _
  have hscope : scopeEnd (groupedLines lines ids label first) o =
      first + (movedPlaces lines ids).length + 1 := by
    unfold scopeEnd
    rw [hnew.closeLine]
  have hlength := length_take hmoved
  have hkept : ∀ {index : Nat} {raw : Text}, index ≠ first →
      index ≠ first + (movedPlaces lines ids).length + 1 →
      (first < index → index < first + (movedPlaces lines ids).length + 1 →
        isDeeperMarker o.depth raw = false) →
      (withoutBox o (first + (movedPlaces lines ids).length + 1) index raw).1 = some raw := by
    intro index raw hopen hclose hinside
    apply withoutBox_of_ne
    · rwa [hnew.lineIndex]
    · rw [hnew.closeLine]
      exact fun heq => hclose (Option.some.inj heq).symm
    · rwa [hnew.lineIndex]
  unfold deleteBox
  rw [hfind]
  refine ⟨rfl, ?_⟩
  dsimp only
  rw [hscope, groupedLines, groupFront, gathered]
  apply filterMap_mapIdx_of_two
  · intro i raw hraw
    have hlt := (List.getElem?_eq_some_iff.mp hraw).1
    exact hkept (by omega) (by omega) (by omega)
  · rw [hlength, ← hnew.lineIndex]
    exact withoutBox_opening o _ _
  · intro i raw hraw
    have hlt := (List.getElem?_eq_some_iff.mp hraw).1
    exact hkept (by omega) (by omega) fun _ _ =>
      isDeeperMarker_of_other (not_marker_of_taken (List.mem_of_getElem? hraw)) _
  · have hindex : (takenLines (isMoved lines ids) lines).length + 1 + (lines.take first).length =
        first + (movedPlaces lines ids).length + 1 := by omega
    exact withoutBox_closing (hnew.closeLine.trans (congrArg some hindex.symm)) _ _
  · intro i raw hraw
    exact hkept (by omega) (by omega) (by omega)

/-! ## Lines that stand together -/

/-- No line is left if all are taken. -/
theorem leftLines_of_all {isTaken : Nat → Bool} (h : ∀ i < lines.length, isTaken i = true) :
    leftLines isTaken lines = [] := by
  induction lines generalizing isTaken with
  | nil => rfl
  | cons raw lines ih =>
      rw [leftLines_cons, h 0 (Nat.succ_pos _), ih fun i hi => h (i + 1) (Nat.succ_lt_succ hi)]
      rfl

/-- Lines that stand together are gathered already, so that grouping them moves
none. -/
theorem gathered_of_consecutive {m : Nat} (h : movedPlaces lines ids = List.range' first m) :
    gathered lines ids first = lines := by
  have hmem : ∀ i, i < lines.length ∧ isMoved lines ids i = true ↔ first ≤ i ∧ i < first + m := by
    intro i
    rw [← List.mem_range'_1, ← h]
    simp [movedPlaces]
  have hlength : ((lines.drop first).take m).length = m := by
    rw [List.length_take, List.length_drop]
    cases m with
    | zero => simp
    | succ m =>
        have := ((hmem (first + m)).mpr (by omega)).1
        omega
  have htaken : takenLines (isMoved lines ids) lines = (lines.drop first).take m := by
    unfold takenLines
    rw [← movedPlaces, h]
    apply List.ext_getElem?
    intro j
    by_cases hj : j < m
    · have hlt := ((hmem (first + j)).mpr (by omega)).1
      rw [List.getElem?_take_of_lt hj, List.getElem?_drop, List.getElem?_map,
        List.getElem?_range' hj]
      simp [hlt]
    · rw [List.getElem?_eq_none (by simpa using Nat.not_lt.mp hj),
        List.getElem?_eq_none (by rw [hlength]; exact Nat.not_lt.mp hj)]
  have hleft : leftLines (fun i => isMoved lines ids (first + i)) (lines.drop first) =
      (lines.drop first).drop m := by
    conv_lhs => rw [← List.take_append_drop m (lines.drop first)]
    rw [leftLines_append, hlength, leftLines_of_all, leftLines_of_none, List.nil_append]
    · intro i hi
      rw [List.length_drop, List.length_drop] at hi
      cases hcase : isMoved lines ids (first + (m + i)) with
      | false => rfl
      | true =>
          have := ((hmem (first + (m + i))).mp ⟨by omega, hcase⟩).2
          omega
    · intro i hi
      rw [hlength] at hi
      exact ((hmem (first + i)).mpr (by omega)).2
  rw [gathered, htaken, hleft, List.append_assoc, List.take_append_drop, List.take_append_drop]

/-- A call that moves nothing is refused, so where it succeeds there is a first
line that is moved. -/
theorem exists_moved_of_success (h : (groupNodes lines ids label).patch.success = true) :
    ∃ first rest, movedPlaces lines ids = first :: rest := by
  have hplaces := map_definitionPlaces lines (distinctTexts ids)
  rw [isMoved_distinctTexts] at hplaces
  unfold groupNodes at h
  dsimp only at h
  split at h
  · cases h
  · split at h
    · cases h
    · rename_i hcase
      rw [hcase] at hplaces
      exact ⟨_, _, hplaces.symm⟩

/-- **Deleting the new box undoes the grouping.**  The box that grouping made is
found by its number, and when it is deleted the definitions that were moved are
left, gathered where the first of them stood; if they stood together, nothing
has changed. -/
theorem deleteBox_undoes_groupNodes {lines ids : List Text} {label : Text} (hline : '\n' ∉ label)
    (hdash : (Text.trim label).head? ≠ some '-')
    (hdone : (groupNodes lines ids label).patch.success = true) :
    ∃ first o, (movedPlaces lines ids).head? = some first ∧
      (groupNodes lines ids label).patch.lineIndex = some first ∧
      Box.find? (groupNodes lines ids label).lines (Box.idOf o.index) = some o ∧
      NewBox lines first (movedPlaces lines ids).length o ∧
      (deleteBox (groupNodes lines ids label).lines (Box.idOf o.index)).patch.success = true ∧
      (deleteBox (groupNodes lines ids label).lines (Box.idOf o.index)).lines =
        gathered lines ids first ∧
      ∀ m, movedPlaces lines ids = List.range' first m →
        (deleteBox (groupNodes lines ids label).lines (Box.idOf o.index)).lines = lines := by
  obtain ⟨first, rest, hmoved⟩ := exists_moved_of_success hdone
  obtain ⟨-, hfirst, hafter⟩ := groupNodes_done hmoved label
  obtain ⟨o, hnew, hwith⟩ := with_groupedLines hmoved hdash hline
  have hget : (Box.openers (groupedLines lines ids label first))[o.index]? = some o := by
    unfold Box.openers
    rw [hwith.openers, List.getElem?_insertIdx_self, if_pos (by simpa using hwith.index_le)]
  have hfind := find?_idOf hget
  obtain ⟨hdeleted, hleft⟩ := deleteBox_groupedLines hmoved hnew hfind
  rw [hafter]
  refine ⟨first, o, by rw [hmoved]; rfl, hfirst, hfind, hnew, hdeleted, hleft, fun m hm => ?_⟩
  rw [hleft]
  exact gathered_of_consecutive hm

/-- Two definitions that stand together in a box, with a box behind them that
skips a level: the new box comes and goes. -/
theorem deleteBox_undoes_groupNodes_in_box :
    (groupNodes ["--P", "X:: 1", "Y:: 2", "------Q", "Z:: 3"] ["Y",
      "X"] "New [red]").patch.success =
        true ∧
      (deleteBox ["--P", "----New [red]", "X:: 1", "Y:: 2", "----", "------Q", "Z:: 3"]
        (Box.idOf 1)).lines = ["--P", "X:: 1", "Y:: 2", "------Q", "Z:: 3"].map String.toList := by
  have hdone : (groupNodes ["--P", "X:: 1", "Y:: 2", "------Q", "Z:: 3"] ["Y", "X"]
      "New [red]").patch.success = true := by decide
  obtain ⟨first, o, hfirst, -, -, hnew, -, -, hsame⟩ :=
    deleteBox_undoes_groupNodes (by decide) (by decide) hdone
  obtain rfl : 1 = first := Option.some.inj (Eq.trans (by decide) hfirst)
  have hindex : o.index = 1 := hnew.index.trans (by decide)
  rw [hindex] at hsame
  exact ⟨hdone, hsame 2 (by decide)⟩

end LineDiagram.Edit
