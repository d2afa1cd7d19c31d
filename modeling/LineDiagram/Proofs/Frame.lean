import LineDiagram.Edit.Box
import LineDiagram.Edit.Node
import LineDiagram.Edit.Structure
import LineDiagram.Proofs.Addresses
import LineDiagram.Proofs.Document

/-!
# What an edit leaves alone

An edit that is refused leaves the lines as they are, and one that is done
changes only lines of its own kind.  `Call` is a call of any of the ten editors
and `Call.Done` what it may do to the lines; the lemma of each editor follows
its branches, where `framed_refuse` closes the refusals.

* `Rewrites` — lines that are changed or dropped one by one, the others verbatim
  and in order;
* `separate_perm` — lines taken out by their positions, with those left, are the
  lines that were there;
* `run_framed` — every call of every editor.
-/

namespace LineDiagram.Edit

/-! ## Shapes of changes -/

/-- One line is replaced, the one that the patch reports, and the patch has its
old and new text. -/
def ReplacesLine (lines : List Text) (out : Outcome) : Prop :=
  ∃ (index : Nat) (old new : Text), lines[index]? = some old ∧
    out.patch.lineIndex = some index ∧ out.patch.before = some old ∧ out.patch.after = some new ∧
    out.lines = lines.set index new

/-- One line is removed, and it is an edge line. -/
def RemovesEdgeLine (lines : List Text) (out : Outcome) : Prop :=
  ∃ (index : Nat) (raw sources targets : Text) (bracket : Option Text),
    lines[index]? = some raw ∧ Line.contentOfRaw raw = .edge sources targets bracket ∧
    out.lines = lines.eraseIdx index

/-- Some lines concerned are changed or dropped; all other lines stay verbatim
and in order. -/
inductive Rewrites (concerned : Content → Prop) : List Text → List Text → Prop
  | nil : Rewrites concerned [] []
  | keep (raw : Text) {old new : List Text} (rest : Rewrites concerned old new) :
      Rewrites concerned (raw :: old) (raw :: new)
  | change (raw line : Text) {old new : List Text} (h : concerned (Line.contentOfRaw raw))
      (rest : Rewrites concerned old new) : Rewrites concerned (raw :: old) (line :: new)
  | drop (raw : Text) {old new : List Text} (h : concerned (Line.contentOfRaw raw))
      (rest : Rewrites concerned old new) : Rewrites concerned (raw :: old) new

/-- A definition or an edge. -/
def IsNodeOrEdge : Content → Prop
  | .node _ _ _ => True
  | .edge _ _ _ => True
  | _ => False

/-- A marker. -/
def IsMarker : Content → Prop
  | .marker _ _ _ => True
  | _ => False

/-- Definitions of some nodes are taken out and put back together, between two
new lines; the lines that stay keep their order. -/
def GroupsLines (ids lines : List Text) (out : Outcome) : Prop :=
  ∃ (before moved after : List Text) (opening closing : Text),
    out.lines = before ++ opening :: moved ++ closing :: after ∧
    (before ++ moved ++ after).Perm lines ∧ (before ++ after).Sublist lines ∧
    ∀ raw ∈ moved, ∃ id ∈ ids, (Line.ofText raw).definedNode? = some (Text.trim id)

/-- Lines are added behind the last line that is not blank. -/
def AppendsLines (lines : List Text) (out : Outcome) : Prop :=
  ∃ kept blanks added : List Text, lines = kept ++ blanks ∧ (∀ raw ∈ blanks, Text.trim raw = []) ∧
    (∀ raw, kept.getLast? = some raw → Text.trim raw ≠ []) ∧ out.lines = kept ++ added

/-- A call of an editor. -/
inductive Call where
  /-- Changes the style of a node. -/
  | setNodeStyle (id : Text) (edit : NodeStyleEdit)
  /-- Changes the label of a node. -/
  | setNodeLabel (id label : Text)
  /-- Changes the style of a box. -/
  | setBoxStyle (id : Text) (edit : BoxStyleEdit)
  /-- Changes the label of a box. -/
  | setBoxLabel (id label : Text)
  /-- Changes an edge. -/
  | setEdge (line : LineRef) (edit : EdgeEdit) (ends : Endpoints)
  /-- Deletes an edge line. -/
  | deleteEdge (line : LineRef)
  /-- Deletes a node. -/
  | deleteNode (id : Text)
  /-- Deletes a box. -/
  | deleteBox (id : Text)
  /-- Puts nodes into a new box. -/
  | groupNodes (ids : List Text) (label : Text)
  /-- Adds linked nodes. -/
  | addLinks (source : Text) (links : Links)

/-- The outcome of a call. -/
def Call.run (lines : List Text) : Call → Outcome
  | .setNodeStyle id edit => Edit.setNodeStyle lines id edit
  | .setNodeLabel id label => Edit.setNodeLabel lines id label
  | .setBoxStyle id edit => Edit.setBoxStyle lines id edit
  | .setBoxLabel id label => Edit.setBoxLabel lines id label
  | .setEdge line edit ends => Edit.setEdge lines line edit ends
  | .deleteEdge line => Edit.deleteEdge lines line
  | .deleteNode id => Edit.deleteNode lines id
  | .deleteBox id => Edit.deleteBox lines id
  | .groupNodes ids label => Edit.groupNodes lines ids label
  | .addLinks source links => Edit.addLinks lines source links

/-- What a call that is done may do to the lines. -/
def Call.Done (lines : List Text) : Call → Outcome → Prop
  | .setNodeStyle _ _ => ReplacesLine lines
  | .setNodeLabel _ _ => ReplacesLine lines
  | .setBoxStyle _ _ => ReplacesLine lines
  | .setBoxLabel _ _ => ReplacesLine lines
  | .setEdge _ _ _ => ReplacesLine lines
  | .deleteEdge _ => RemovesEdgeLine lines
  | .deleteNode _ => fun out => Rewrites IsNodeOrEdge lines out.lines
  | .deleteBox _ => fun out => Rewrites IsMarker lines out.lines ∧
      lines.length ≤ out.lines.length + 2
  | .groupNodes ids _ => GroupsLines ids lines
  | .addLinks _ _ => AppendsLines lines

/-- A refusal leaves the lines as they are, and a success does no more to them
than it may. -/
def Framed (lines : List Text) (Done : Outcome → Prop) (out : Outcome) : Prop :=
  (out.patch.success = false → out.lines = lines) ∧ (out.patch.success = true → Done out)

theorem framed_refuse {lines : List Text} {Done : Outcome → Prop} (action : Action) (target : Text)
    (refusal : Refusal) : Framed lines Done (.refuse lines action target refusal) :=
  ⟨fun _ => rfl, fun h => absurd (h : false = true) Bool.false_ne_true⟩

/-- Replacing a line that is there is within the frame of a replacement: the
patch reports the line, and what it was and is. -/
theorem framed_replaceLine {lines : List Text} {index : Nat} {old : Text}
    (hold : lines[index]? = some old) (new : Text) (action : Action) (target : Text)
    (changes : List Text) :
    Framed lines (ReplacesLine lines)
      (.replaceLine lines index new action target changes) := by
  have hbefore : lines.getD index [] = old := Text.getD_of_getElem? hold
  exact ⟨fun h => absurd (h : true = false).symm Bool.false_ne_true,
    fun _ => ⟨index, old, new, hold, rfl, congrArg some hbefore, rfl, rfl⟩⟩

/-! ## One line -/

/-- Changing the style of a node replaces one line or refuses. -/
private theorem setNodeStyle_framed (lines : List Text) (id : Text) (edit : NodeStyleEdit) :
    Framed lines (ReplacesLine lines) (setNodeStyle lines id edit) := by
  unfold setNodeStyle
  split
  · exact framed_refuse _ _ _
  · rename_i index hindex
    obtain ⟨raw, hraw, -⟩ := findDefinition?_eq_some hindex
    split
    · exact framed_refuse _ _ _
    · exact framed_replaceLine hraw _ _ _ _

/-- Changing the label of a node replaces one line or refuses. -/
private theorem setNodeLabel_framed (lines : List Text) (id label : Text) :
    Framed lines (ReplacesLine lines) (setNodeLabel lines id label) := by
  unfold setNodeLabel
  split
  · exact framed_refuse _ _ _
  · rename_i index hindex
    obtain ⟨raw, hraw, -⟩ := findDefinition?_eq_some hindex
    dsimp only
    generalize (if (Comment.escape (Text.trim label)).isEmpty = true then id
      else Comment.escape (Text.trim label)) = written
    split
    · exact framed_refuse _ _ _
    · split
      · exact framed_refuse _ _ _
      · exact framed_replaceLine hraw _ _ _ _

/-- The opener of a box with a given name stands on a marker line, so an edit of
it changes a marker. -/
private theorem markerAt_find? {lines : List Text} {id : Text} {opener : Box.Opener}
    (h : Box.find? lines id = some opener) :
    Box.Scanner.MarkerAt lines opener.lineIndex opener.depth :=
  (Box.Scanner.sound_scan lines).opening opener (List.mem_of_find?_eq_some h)

/-- Replacing the opening line of a box replaces one line or refuses, whatever
the new line is. -/
private theorem replaceOpener_framed (lines : List Text) (id : Text) (action : Action)
    (newLine : Box.Opener → Text) (changes : List Text) :
    Framed lines (ReplacesLine lines) (replaceOpener lines id action newLine changes) := by
  unfold replaceOpener
  split
  · exact framed_refuse _ _ _
  · rename_i opener hfind
    obtain ⟨raw, -, -, hraw, -⟩ := markerAt_find? hfind
    dsimp only
    split
    · exact framed_replaceLine hraw _ _ _ _
    · exact framed_refuse _ _ _

/-- Changing the style of a box replaces one line or refuses. -/
private theorem setBoxStyle_framed (lines : List Text) (id : Text) (edit : BoxStyleEdit) :
    Framed lines (ReplacesLine lines) (setBoxStyle lines id edit) := by
  unfold setBoxStyle
  split
  · exact framed_refuse _ _ _
  · exact replaceOpener_framed _ _ _ _ _

/-- Changing the label of a box replaces one line or refuses. -/
private theorem setBoxLabel_framed (lines : List Text) (id label : Text) :
    Framed lines (ReplacesLine lines) (setBoxLabel lines id label) := by
  unfold setBoxLabel
  dsimp only
  split
  · exact framed_refuse _ _ _
  · exact replaceOpener_framed _ _ _ _ _

/-- Changing an edge line replaces one line or refuses. -/
private theorem setEdge_framed (lines : List Text) (line : LineRef) (edit : EdgeEdit)
    (ends : Endpoints) : Framed lines (ReplacesLine lines) (setEdge lines line edit ends) := by
  unfold setEdge
  split
  · exact framed_refuse _ _ _
  · rename_i index hindex
    obtain ⟨-, raw, -, -, -, hraw, -⟩ := LineRef.edgeIndex?_eq_some.mp hindex
    split
    · exact framed_refuse _ _ _
    · dsimp only
      split
      · exact framed_refuse _ _ _
      · exact framed_replaceLine hraw _ _ _ _

/-- Deleting an edge removes one edge line or refuses. -/
private theorem deleteEdge_framed (lines : List Text) (line : LineRef) :
    Framed lines (RemovesEdgeLine lines) (deleteEdge lines line) := by
  unfold deleteEdge
  split
  · exact framed_refuse _ _ _
  · rename_i index hindex
    obtain ⟨-, raw, sources, targets, bracket, hraw, hedge⟩ := LineRef.edgeIndex?_eq_some.mp hindex
    exact ⟨fun h => absurd (h : true = false).symm Bool.false_ne_true,
      fun _ => ⟨index, raw, sources, targets, bracket, hraw, hedge, rfl⟩⟩

/-! ## Lines one by one -/

/-- Lines that are kept, changed or dropped by their position are rewritten, if
all that do not stay are concerned. -/
private theorem rewrites_mapIdx {concerned : Content → Prop} (left : Nat → Text → Option Text)
    (lines : List Text)
    (h : ∀ index raw, lines[index]? = some raw →
      left index raw = some raw ∨ concerned (Line.contentOfRaw raw)) :
    Rewrites concerned lines ((lines.mapIdx left).filterMap fun line => line) := by
  induction lines generalizing left with
  | nil => exact .nil
  | cons raw lines ih =>
      have hrest :=
        ih (fun index => left (index + 1)) (fun index raw hraw => h (index + 1) raw hraw)
      rw [List.mapIdx_cons, List.filterMap_cons]
      rcases h 0 raw rfl with hkeep | hconcerned
      · rw [hkeep]
        exact .keep raw hrest
      · cases left 0 raw with
        | none => exact .drop raw hconcerned hrest
        | some line => exact .change raw line hconcerned hrest

/-- Only as many lines go as there are positions where they may. -/
private theorem length_le_mapIdx (left : Nat → Text → Option Text) (lines : List Text)
    (dropped : List Nat)
    (h : ∀ index raw, lines[index]? = some raw → left index raw = none → index ∈ dropped) :
    lines.length ≤ ((lines.mapIdx left).filterMap fun line => line).length + dropped.length := by
  induction lines using List.reverseRecOn generalizing dropped with
  | nil => exact Nat.zero_le _
  | append_singleton lines raw ih =>
      have hget : ∀ {index : Nat} {old : Text}, lines[index]? = some old →
          (lines ++ [raw])[index]? = some old := by
        intro index old hold
        rw [List.getElem?_append_left (List.getElem?_eq_some_iff.mp hold).1]
        exact hold
      rw [List.mapIdx_concat, List.filterMap_append, List.length_append, List.length_append]
      cases hlast : left lines.length raw with
      | some line =>
          have hle := ih dropped (fun index old hold hnone => h index old (hget hold) hnone)
          simp only [List.filterMap_cons, List.filterMap_nil, List.length_singleton]
          omega
      | none =>
          -- This line uses up its own position, which none of the lines before it needs.
          have hmem : lines.length ∈ dropped := h lines.length raw (by simp) hlast
          have hle := ih (dropped.erase lines.length) (by
            intro index old hold hnone
            have hlt := (List.getElem?_eq_some_iff.mp hold).1
            exact (List.mem_erase_of_ne (by omega)).mpr (h index old (hget hold) hnone))
          have hpos : 0 < dropped.length := List.length_pos_of_mem hmem
          rw [List.length_erase_of_mem hmem] at hle
          simp only [List.filterMap_cons, List.filterMap_nil, List.length_nil,
            List.length_singleton]
          omega

/-- A line that neither defines a node nor draws an edge stays when a node is
deleted. -/
private theorem rewrites_deletions (id : Text) (lines : List Text) :
    Rewrites IsNodeOrEdge lines
      ((lines.zip (lines.map (NodeDeletion.ofLine id))).flatMap fun (raw, d) =>
        d.linesLeft raw) := by
  induction lines with
  | nil => exact .nil
  | cons raw lines ih =>
      have hother : NodeDeletion.ofLine id raw = .keep ∨ IsNodeOrEdge (Line.contentOfRaw raw) := by
        cases hcontent : Line.contentOfRaw raw with
        | node token label bracket => exact Or.inr trivial
        | edge sources targets bracket => exact Or.inr trivial
        | _ => exact Or.inl (by simp [NodeDeletion.ofLine, hcontent])
      rw [List.map_cons, List.zip_cons_cons, List.flatMap_cons]
      rcases hother with hkeep | hconcerned
      · rw [hkeep]
        exact .keep raw ih
      · cases NodeDeletion.ofLine id raw with
        | keep => exact .keep raw ih
        | dropDefinition => exact .drop raw hconcerned ih
        | dropEdge => exact .drop raw hconcerned ih
        | shorten line => exact .change raw line hconcerned ih

/-- Deleting a node changes or drops definitions and edges, and leaves all other
lines verbatim and in order. -/
private theorem deleteNode_framed (lines : List Text) (id : Text) :
    Framed lines (fun out => Rewrites IsNodeOrEdge lines out.lines) (deleteNode lines id) := by
  unfold deleteNode
  dsimp only
  split
  · exact framed_refuse _ _ _
  · exact ⟨fun h => absurd (h : true = false).symm Bool.false_ne_true,
      fun _ => rewrites_deletions (Text.trim id) lines⟩

/-- A line that is no marker stays when a box is deleted, inside the box and
outside. -/
private theorem withoutBox_keep {lines : List Text} {opener : Box.Opener}
    (hopener : opener ∈ Box.openers lines) (scope : Nat) {index : Nat} {raw : Text}
    (hraw : lines[index]? = some raw) :
    (withoutBox opener scope index raw).1 = some raw ∨ IsMarker (Line.contentOfRaw raw) := by
  have hmarker : ∀ {depth}, Box.Scanner.MarkerAt lines index depth →
      IsMarker (Line.contentOfRaw raw) := by
    rintro depth ⟨found, label, bracket, hfound, hcontent⟩
    obtain rfl : found = raw := Option.some.inj (hfound.symm.trans hraw)
    rw [hcontent]
    trivial
  have hsound := Box.Scanner.sound_scan lines
  unfold withoutBox
  split
  · rename_i hopening
    rw [beq_iff_eq.mp hopening] at hmarker
    exact Or.inr (hmarker (hsound.opening opener hopener))
  · split
    · rename_i hclosing
      obtain ⟨depth, hclosed⟩ := hsound.closing opener hopener index (beq_iff_eq.mp hclosing)
      exact Or.inr (hmarker hclosed)
    · split
      · rename_i hdeeper
        refine Or.inr ?_
        simp only [isDeeperMarker, Bool.and_eq_true] at hdeeper
        cases hcontent : Line.contentOfRaw raw with
        | marker depth label bracket => trivial
        | _ => simp [hcontent] at hdeeper
      · exact Or.inl rfl

/-- Only the two markers of a box go when it is deleted; all other lines are
kept or raised. -/
private theorem withoutBox_drop {opener : Box.Opener} {scope index : Nat} {raw : Text}
    (h : (withoutBox opener scope index raw).1 = none) :
    index ∈ [opener.lineIndex, opener.closeLine.getD 0] := by
  unfold withoutBox at h
  split at h
  · rename_i hopening
    simp [beq_iff_eq.mp hopening]
  · split at h
    · rename_i hclosing
      simp [beq_iff_eq.mp hclosing]
    · split at h <;> cases h

/-- Deleting a box changes or drops markers, at most two of them are dropped,
and all other lines are left verbatim and in order. -/
private theorem deleteBox_framed (lines : List Text) (id : Text) :
    Framed lines
      (fun out => Rewrites IsMarker lines out.lines ∧ lines.length ≤ out.lines.length + 2)
      (deleteBox lines id) := by
  unfold deleteBox
  split
  · exact framed_refuse _ _ _
  · rename_i opener hfind
    have hopener : opener ∈ Box.openers lines := List.mem_of_find?_eq_some hfind
    refine ⟨fun h => absurd (h : true = false).symm Bool.false_ne_true, fun _ => ?_⟩
    dsimp only
    have hlines : (lines.mapIdx (withoutBox opener (scopeEnd lines opener))).filterMap (·.1) =
        (lines.mapIdx fun index raw =>
          (withoutBox opener (scopeEnd lines opener) index raw).1).filterMap fun line => line := by
      have hmap : (lines.mapIdx fun index raw =>
          (withoutBox opener (scopeEnd lines opener) index raw).1) =
            (lines.mapIdx (withoutBox opener (scopeEnd lines opener))).map (·.1) := by
        apply List.ext_getElem?
        intro index
        simp only [List.getElem?_mapIdx, List.getElem?_map, Option.map_map]
        rfl
      rw [hmap, List.filterMap_map]
      rfl
    rw [hlines]
    constructor
    · exact rewrites_mapIdx _ lines (fun index raw hraw => withoutBox_keep hopener _ hraw)
    · exact length_le_mapIdx _ lines [opener.lineIndex, opener.closeLine.getD 0]
        (fun index raw _ hnone => withoutBox_drop hnone)

/-! ## Moved and added lines -/

/-- The lines at some positions. -/
def takenLines (isTaken : Nat → Bool) (lines : List Text) : List Text :=
  ((List.range lines.length).filter isTaken).map fun i => lines.getD i []

/-- The lines at all other positions. -/
def leftLines (isTaken : Nat → Bool) (lines : List Text) : List Text :=
  (lines.mapIdx fun i raw => if isTaken i then none else some raw).filterMap fun raw => raw

/-- The lines that are taken out of one line and the rest: the first one, if it
is taken, and those of the rest. -/
theorem takenLines_cons (isTaken : Nat → Bool) (raw : Text) (lines : List Text) :
    takenLines isTaken (raw :: lines) =
      (if isTaken 0 then [raw] else []) ++ takenLines (fun i => isTaken (i + 1)) lines := by
  unfold takenLines
  rw [List.length_cons, List.range_succ_eq_map, List.filter_cons]
  split <;> simp [List.filter_map, Function.comp_def]

/-- The lines that are left of one line and the rest: the first one, unless it
is taken, and those of the rest. -/
theorem leftLines_cons (isTaken : Nat → Bool) (raw : Text) (lines : List Text) :
    leftLines isTaken (raw :: lines) =
      (if isTaken 0 then [] else [raw]) ++ leftLines (fun i => isTaken (i + 1)) lines := by
  unfold leftLines
  rw [List.mapIdx_cons, List.filterMap_cons]
  cases isTaken 0 <;> rfl

/-- Lines taken out, with those left, are the lines that were there: none is
lost and none is doubled. -/
theorem separate_perm (isTaken : Nat → Bool) (lines : List Text) :
    (takenLines isTaken lines ++ leftLines isTaken lines).Perm lines := by
  induction lines generalizing isTaken with
  | nil => exact .refl _
  | cons raw lines ih =>
      rw [takenLines_cons, leftLines_cons]
      cases isTaken 0 with
      | true => exact (ih _).cons raw
      | false => exact List.perm_middle.trans ((ih _).cons raw)

/-- The lines left are in order, and none of them is changed. -/
theorem leftLines_sublist (isTaken : Nat → Bool) (lines : List Text) :
    (leftLines isTaken lines).Sublist lines := by
  induction lines generalizing isTaken with
  | nil => exact .refl _
  | cons raw lines ih =>
      rw [leftLines_cons]
      cases isTaken 0 with
      | true => exact (ih _).cons raw
      | false => exact (ih _).cons_cons raw

/-- The identifiers to group are those that were given, without blanks around
them. -/
theorem mem_distinctTexts {id : Text} {ids : List Text} :
    id ∈ distinctTexts ids ↔ id ≠ [] ∧ ∃ given ∈ ids, Text.trim given = id := by
  have hseen : ∀ (texts seen : List Text),
      id ∈ texts.foldl (fun seen t => if seen.contains t then seen else seen ++ [t]) seen ↔
        id ∈ seen ∨ id ∈ texts := by
    intro texts
    induction texts with
    | nil => simp
    | cons t texts ih =>
        intro seen
        have hstep : id ∈ (if seen.contains t then seen else seen ++ [t]) ↔ id ∈ seen ∨ id = t := by
          split
          · rename_i hmem
            rw [List.contains_iff_mem] at hmem
            constructor
            · exact Or.inl
            · rintro (h | rfl)
              · exact h
              · exact hmem
          · simp
        rw [List.foldl_cons, ih, hstep, List.mem_cons, or_assoc]
  unfold distinctTexts
  rw [hseen]
  simp only [List.not_mem_nil, false_or, List.mem_filter, List.mem_map, Bool.not_eq_true',
    List.isEmpty_eq_false_iff]
  exact and_comm

/-- Whether the line at a position is the first definition of one of some
nodes. -/
def isMoved (lines ids : List Text) (i : Nat) : Bool :=
  ids.any fun id => findDefinition? lines id == some i

/-- The positions of the definitions of some nodes. -/
theorem map_definitionPlaces (lines ids : List Text) :
    (definitionPlaces lines ids).map (·.1) =
      (List.range lines.length).filter (isMoved lines ids) := by
  unfold definitionPlaces
  dsimp only
  rw [List.map_filterMap, ← List.filterMap_eq_filter]
  apply List.filterMap_congr
  intro i _
  have hmoved : ((ids.map fun id => (findDefinition? lines id, id)).find?
      fun p => p.1 == some i).isSome = isMoved lines ids i := by
    rw [List.isSome_find?, List.any_map]
    rfl
  cases hfind : (ids.map fun id => (findDefinition? lines id, id)).find?
      fun p => p.1 == some i with
  | none =>
      rw [hfind] at hmoved
      simp [Option.guard, ← hmoved]
  | some p =>
      rw [hfind] at hmoved
      simp [Option.guard, ← hmoved]

/-- The lines that stay when the definitions of some nodes are taken out. -/
theorem leftLines_definitionPlaces (lines ids : List Text) :
    ((lines.mapIdx fun i raw => if ((definitionPlaces lines ids).map (·.1)).contains i then none
      else some raw).filterMap fun raw => raw) = leftLines (isMoved lines ids) lines := by
  unfold leftLines
  congr 1
  apply List.ext_getElem
  · simp
  · intro i hi _
    simp only [List.length_mapIdx] at hi
    have hcontains : ((definitionPlaces lines ids).map (·.1)).contains i = isMoved lines ids i := by
      rw [map_definitionPlaces, Bool.eq_iff_iff]
      simp [hi]
    simp only [List.getElem_mapIdx, hcontains]

/-- Grouping nodes moves their definitions together between two new lines, or
refuses. -/
private theorem groupNodes_framed (lines ids : List Text) (label : Text) :
    Framed lines (GroupsLines ids lines) (groupNodes lines ids label) := by
  unfold groupNodes
  dsimp only
  split
  · exact framed_refuse _ _ _
  · split
    · exact framed_refuse _ _ _
    · rename_i first _ _ _
      refine ⟨fun h => absurd (h : true = false).symm Bool.false_ne_true, fun _ => ?_⟩
      rw [leftLines_definitionPlaces, map_definitionPlaces]
      generalize hisTaken : isMoved lines (distinctTexts ids) = isTaken
      refine ⟨(leftLines isTaken lines).take first, takenLines isTaken lines,
        (leftLines isTaken lines).drop first, _, _, rfl, ?_, ?_, ?_⟩
      · have hback : ((leftLines isTaken lines).take first ++ takenLines isTaken lines).Perm
            (takenLines isTaken lines ++ (leftLines isTaken lines).take first) :=
              List.perm_append_comm
        have hall := hback.append_right ((leftLines isTaken lines).drop first)
        rw [List.append_assoc (takenLines isTaken lines), List.take_append_drop] at hall
        exact hall.trans (separate_perm isTaken lines)
      · rw [List.take_append_drop]
        exact leftLines_sublist isTaken lines
      · intro raw hraw
        obtain ⟨i, hi, rfl⟩ := List.mem_map.mp hraw
        have hmoved := (List.mem_filter.mp hi).2
        rw [← hisTaken, isMoved, List.any_eq_true] at hmoved
        obtain ⟨id, hid, hfirst⟩ := hmoved
        obtain ⟨-, given, hgiven, rfl⟩ := mem_distinctTexts.mp hid
        obtain ⟨found, hfound, hdefines⟩ := findDefinition?_eq_some (beq_iff_eq.mp hfirst)
        refine ⟨given, hgiven, ?_⟩
        rw [Text.getD_of_getElem? hfound, hdefines, Text.trim_trim]

/-- Adding links adds lines behind the last line that is not blank, or
refuses. -/
private theorem addLinks_framed (lines : List Text) (source : Text) (links : Links) :
    Framed lines (AppendsLines lines) (addLinks lines source links) := by
  unfold addLinks
  dsimp only
  split
  · exact framed_refuse _ _ _
  · split
    · exact framed_refuse _ _ _
    · split
      · exact framed_refuse _ _ _
      · split
        · exact framed_refuse _ _ _
        · split
          · exact framed_refuse _ _ _
          · refine ⟨fun h => absurd (h : true = false).symm Bool.false_ne_true, fun _ => ?_⟩
            obtain ⟨blanks, hlines, hblanks, hlast⟩ := Document.dropBlankEnd_spec lines
            exact ⟨_, blanks, _, hlines, hblanks, hlast, List.append_assoc _ _ _⟩

/-- **What an edit leaves alone.**  Every call of every editor leaves the lines
as they are when it is refused, and does no more to them than its kind of edit
may when it is done. -/
theorem run_framed (call : Call) (lines : List Text) :
    Framed lines (call.Done lines) (call.run lines) := by
  cases call with
  | setNodeStyle id edit => exact setNodeStyle_framed lines id edit
  | setNodeLabel id label => exact setNodeLabel_framed lines id label
  | setBoxStyle id edit => exact setBoxStyle_framed lines id edit
  | setBoxLabel id label => exact setBoxLabel_framed lines id label
  | setEdge line edit ends => exact setEdge_framed lines line edit ends
  | deleteEdge line => exact deleteEdge_framed lines line
  | deleteNode id => exact deleteNode_framed lines id
  | deleteBox id => exact deleteBox_framed lines id
  | groupNodes ids label => exact groupNodes_framed lines ids label
  | addLinks source links => exact addLinks_framed lines source links

end LineDiagram.Edit
