import LineDiagram.Proofs.EdgeBorder
import LineDiagram.Proofs.StyleBracket

/-!
# Setting and clearing the fields of an edge

Label and border of an edge may be keyed or loose, and which loose part counts
as what depends on where it stands.  An editor that changes one of them takes
out keyed parts that do not count, and puts the new part where the old one
stood.

A new label or border is read back, and nothing else changes.  When one is taken
away, a loose part that did not count before may come to count in its place.

* `update_clear_label`, `labelOf_cleared` — the parts after the label was taken
  out, and what counts then;
* `setField_sets` — a field that is set is read back, and the others stay;
* `clearField_clears_iff` — when a field that is cleared is gone.
-/

namespace LineDiagram

open LineDiagram.Bracket

namespace EdgeLayout

/-! ## The label set or cleared -/

/-- A selection that holds no label: no part keyed as one, and no loose part
that draws nothing. -/
structure IgnoresLabels (q : Text → Bool) : Prop where
  keyed : ∀ p, hasKey "label" p = true → q p = false
  loose : ∀ p, key? p = none → Border.isPart p = false → q p = false

/-- The parts keyed as a border hold no label. -/
theorem ignoresLabels_border : IgnoresLabels (hasKey "border") where
  keyed p h := by
    rw [hasKey_iff] at h
    unfold hasKey
    rw [h]
    decide
  loose p h _ := by
    unfold hasKey
    rw [h]
    rfl

/-- Nor do the loose parts that draw, for a label never draws. -/
theorem ignoresLabels_drawsLoose : IgnoresLabels drawsLoose where
  keyed p h := by
    rw [hasKey_iff] at h
    simp [drawsLoose, h]
  loose p _ h := by simp [drawsLoose, h]

/-- Nor do the parts with other keys than those of label and border. -/
theorem ignoresLabels_keyedBeside : IgnoresLabels (keyedBeside EdgeStyle.fieldKeys) where
  keyed p h := by
    rw [hasKey_iff] at h
    unfold keyedBeside
    rw [h]
    decide
  loose p h _ := by
    unfold keyedBeside
    rw [h]
    rfl

/-- A part of a selection that holds no label stays when the label is
changed. -/
theorem IgnoresLabels.isOther {q : Text → Bool} (hq : IgnoresLabels q) (p : Text) (h : q p = true) :
    isOther p = true := by
  unfold EdgeLayout.isOther
  cases hkey : hasKey "label" p with
  | false => rfl
  | true =>
      rw [hq.keyed p hkey] at h
      cases h

/-- Taking out the label changes no selection that holds none. -/
theorem LabelAt.filter_withoutAt {parts : List Text} {at? : Option Nat} (hat : LabelAt parts at?)
    {q : Text → Bool} (hq : IgnoresLabels q) : (withoutAt parts at?).filter q = parts.filter q := by
  cases hat with
  | keyed i p hp hkey hvalue hlast => exact filter_eraseIdx hp (hq.keyed p hkey)
  | loose i p hp hnone hloose hborder hfirst => exact filter_eraseIdx hp (hq.loose p hloose hborder)
  | missing hnone hborder => rfl

/-- **Nothing but the label changes** when it is written anew or taken out.  The
line is decided by selections that hold no label, and so are font, size and
extras. -/
theorem same_besides_label (font : Text) {parts before written after : List Text} {at? : Option Nat}
    (hat : LabelAt parts at?) (hplace : before ++ after = withoutAt parts at?)
    (hwritten : ∀ q, IgnoresLabels q → written.filter q = []) :
    EdgeStyle.SameLine (.ofBracket font (.ofParts (around isOther before written after)))
        (.ofBracket font (.ofParts parts)) ∧
      EdgeStyle.SameRest (.ofBracket font (.ofParts (around isOther before written after)))
        (.ofBracket font (.ofParts parts)) := by
  have hsame : ∀ q, IgnoresLabels q →
      (around isOther before written after).filter q = parts.filter q := by
    intro q hq
    rw [filter_around hq.isOther, hwritten q hq, List.nil_append, ← List.filter_append, hplace,
      hat.filter_withoutAt hq]
  exact ⟨sameLine_of_filters font (hsame _ ignoresLabels_border) (hsame _ ignoresLabels_drawsLoose),
    EdgeStyle.sameRest_of_filter font (hsame _ ignoresLabels_keyedBeside)⟩

/-- The keyed label that is read is the one that is written, for all others are
taken out. -/
theorem lastValue_label_around (before written after : List Text) :
    lastValue "label" (around isOther before written after) = lastValue "label" written := by
  unfold lastValue
  rw [filter_around_dropped (fun p hp => by simp [isOther, hp])]

/-- When the label is changed, all loose parts around the written one stay,
since only parts keyed as a label go. -/
theorem looseParts_around_label (before written after : List Text) :
    looseParts (around isOther before written after) =
      looseParts before ++ (looseParts written ++ looseParts after) := by
  apply filter_around
  intro p hp
  rw [Option.isNone_iff_eq_none] at hp
  simp [isOther, hasKey, hp]

/-- **A label that is written is read.**  If it is keyed it wins over loose
parts, and if it is loose no other loose part stands before it. -/
theorem labelOf_written {label part : Text} {before after : List Text}
    (hpart : WrittenLabel label part)
    (hne : label ≠ []) (hfirst : looseParts before = [] ∨ key? part = some "label".toList) :
    EdgeStyle.labelOf (around isOther before [part] after) = some label := by
  unfold EdgeStyle.labelOf
  rw [lastValue_label_around]
  cases hpart with
  | keyed part hkey hvalue =>
      have hlast : lastValue "label" [part] = label := by
        simp [lastValue, hasKey_iff.mpr hkey, hvalue]
      rw [hlast, if_neg (by simpa using hne)]
  | loose hloose hborder =>
      have hnokey := key?_of_not_mem hloose
      have hlast : lastValue "label" [label] = [] := by
        simp [lastValue, hasKey, hnokey]
      have hempty : looseParts before = [] := hfirst.resolve_right (by simp [hnokey])
      have hsingle : looseParts [label] = [label] := by
        simp [looseParts, hnokey]
      rw [hlast, List.isEmpty_nil, if_pos rfl, looseParts_around_label, hempty, hsingle]
      simp [EdgeStyle.splitLooseLabel, hborder]

/-- The part that is written for a label is in no selection that holds no
label. -/
theorem WrittenLabel.filter_eq_nil {label part : Text}
    (h : WrittenLabel label part) (q : Text → Bool)
    (hq : IgnoresLabels q) : [part].filter q = [] := by
  cases h with
  | keyed part hkey hvalue => simp [hq.keyed part (hasKey_iff.mpr hkey)]
  | loose hloose hborder => simp [hq.loose label (key?_of_not_mem hloose) hborder]

/-- The parts after the label was taken out. -/
theorem update_clear_label (inner : Text) :
    (ofInner inner).update (some []) none =
      joinParts ((withoutAt (splitParts inner) (ofInner inner).label).filter isOther) := by
  obtain ⟨hat, -⟩ := labelAt_ofInner inner
  have hparts : (ofInner inner).parts = splitParts inner := rfl
  have hne : ∀ p ∈ splitParts inner, p ≠ [] := fun p hp => (Text.mem_parts hp).2.1
  unfold update
  dsimp only
  rw [hparts]
  congr 1
  simp only [List.isEmpty_nil, Bool.not_true, Bool.and_false, Bool.false_eq_true, if_false,
    List.nil_append, List.append_nil]
  cases hlabelAt : (ofInner inner).label with
  | none =>
      apply filter_mapIdx hne
      intro i p hp
      rw [withLabel_eq [] hp, hlabelAt]
      simp
  | some k =>
      rw [hlabelAt] at hat
      obtain ⟨p, hp⟩ := hat.exists_part
      have hhere : (ofInner inner).withLabel [] k p = [] := by
        rw [withLabel_eq [] hp, if_pos hlabelAt]
        rfl
      rw [filter_mapIdx_at hp hne (fun i q hq hi => by
        rw [withLabel_eq [] hq, hlabelAt, if_neg]
        exact fun heq => hi (Option.some.inj heq).symm), hhere]
      simp only [withoutAt, List.eraseIdx_eq_take_drop_succ, List.filter_append]
      rfl

/-- The loose parts that are not the label. -/
def looseBeside (parts : List Text) : List Text :=
  if (lastValue "label" parts).isEmpty then (EdgeStyle.splitLooseLabel (looseParts parts)).2
  else looseParts parts

/-- A label that is taken out is gone exactly if the next loose part is part of
the border. -/
def LabelClears (parts : List Text) : Prop :=
  ∀ part ∈ (looseBeside parts).head?, Border.isPart part = true

instance (parts : List Text) : Decidable (LabelClears parts) :=
  inferInstanceAs (Decidable (∀ part ∈ (looseBeside parts).head?, Border.isPart part = true))

/-- The loose parts without the label: all of them if it was keyed, and all but
the first if it was loose. -/
theorem LabelAt.looseParts_withoutAt {parts : List Text} {at? : Option Nat}
    (hat : LabelAt parts at?) :
    looseParts (withoutAt parts at?) = looseBeside parts := by
  unfold looseBeside
  cases hat with
  | keyed i p hp hkey hvalue hlast =>
      rw [lastValue_of_last hp hkey hlast, if_neg (by simpa using hvalue)]
      apply filter_eraseIdx hp
      rw [hasKey_iff] at hkey
      simp [hkey]
  | loose i p hp hnone hloose hborder hfirst =>
      have hbefore : looseParts (parts.take i) = [] := by
        rw [looseParts, List.filter_eq_nil_iff]
        intro q hq
        simpa using hfirst q hq
      have hparts : looseParts parts = p :: looseParts (parts.drop (i + 1)) := by
        conv_lhs => rw [Text.eq_take_cons_drop hp]
        rw [looseParts_append, hbefore, List.nil_append, looseParts,
          List.filter_cons_of_pos (by simp [hloose])]
        rfl
      rw [hnone, List.isEmpty_nil, if_pos rfl, hparts]
      simp only [withoutAt, List.eraseIdx_eq_take_drop_succ, looseParts_append,
        hbefore, List.nil_append, EdgeStyle.splitLooseLabel, hborder, Bool.false_eq_true, if_false]
  | missing hnone hborder =>
      rw [hnone, List.isEmpty_nil, if_pos rfl]
      unfold withoutAt
      cases hloose : looseParts parts with
      | nil => rfl
      | cons p rest =>
          rw [hloose] at hborder
          simp [EdgeStyle.splitLooseLabel, hborder p rfl]

/-- **When a label that is taken out is gone.**  The next loose part takes its
place unless it draws. -/
theorem labelOf_cleared {parts : List Text} {at? : Option Nat} (hat : LabelAt parts at?) :
    EdgeStyle.labelOf ((withoutAt parts at?).filter isOther) = none ↔ LabelClears parts := by
  have haround :
      (withoutAt parts at?).filter isOther = around isOther (withoutAt parts at?) [] [] := by
    simp [around]
  have hlast : lastValue "label" ([] : List Text) = [] := rfl
  have hnil : looseParts ([] : List Text) = [] := rfl
  unfold EdgeStyle.labelOf LabelClears
  rw [haround, lastValue_label_around, hlast, List.isEmpty_nil, if_pos rfl, splitLooseLabel_fst,
    looseParts_around_label, hnil, List.append_nil, List.append_nil, hat.looseParts_withoutAt]
  cases (looseBeside parts).head? with
  | none => simp
  | some part => cases hpart : Border.isPart part <;> simp [hpart]

/-! ## What is written is read -/

/-- The part that is written for a label is one part, if the label is one and
makes one behind its key. -/
theorem onePart_labelPart {label : Text} (h : OnePart ['['] label) {key : Option Text}
    (hkey : ∀ k ∈ key, OnePart ['['] (k ++ '=' :: label)) :
    OnePart ['['] (labelPart label key) := by
  unfold labelPart
  cases key with
  | some k => simpa using hkey k rfl
  | none =>
      have hlabel : OnePart ['['] ("label".toList ++ '=' :: label) :=
        onePart_keyed (by decide) (by decide : OnePart ['['] "label".toList).toWritable h.toWritable
      dsimp only
      split
      · simpa using hlabel
      · exact h

/-- The part that is written for a border is one part, if the border makes one
behind its key. -/
theorem IsBorder.onePart_borderPart {border : Text} (h : IsBorder border) {key : Option Text}
    (hkey : ∀ k ∈ key, OnePart ['['] (k ++ '=' :: border)) :
    OnePart ['['] (borderPart border key) := by
  unfold borderPart
  cases key with
  | some k => simpa using hkey k rfl
  | none =>
      dsimp only
      rw [if_pos h.draws]
      exact h.piece

section Pieces

variable {inner : Text} (hopen : '[' ∉ inner)

include hopen

/-- After a change of the label each of the parts is still one part: the old
ones are, and so is the one that is written. -/
theorem onePart_relabelledParts {label : Text} (h : OnePart ['['] label) {at? : Option Nat}
    (hat : LabelAt (splitParts inner) at?) :
    ∀ q ∈ relabelledParts (splitParts inner) label at?, OnePart ['['] q := by
  have hparts : ∀ p ∈ splitParts inner, OnePart ['['] p :=
    fun p hp => onePart_of_mem (by simpa using hopen) hp
  refine forall_mem_relabelledParts hat hparts (onePart_labelPart h nofun) ?_
  intro p hp _
  exact onePart_labelPart h fun k hk => onePart_writtenKey (hparts p hp) hk h

/-- After a change of the border each of the parts is still one part in the same
way. -/
theorem onePart_reborderedParts {border : Text}
    (h : border = [] ∨ IsBorder border) {at? : Option Nat} (hat : BorderAt (splitParts inner) at?) :
    ∀ q ∈ reborderedParts (splitParts inner) border at?, OnePart ['['] q := by
  intro q hq
  rcases mem_around hq with hold | hnew
  · rw [before_append_after] at hold
    exact onePart_of_mem (by simpa using hopen) (mem_of_mem_withoutAt hold)
  · rcases h with rfl | h
    · cases hnew
    · rw [if_neg (by simpa using h.piece.ne_nil), List.mem_singleton] at hnew
      subst hnew
      refine h.onePart_borderPart ?_
      intro k hk
      obtain ⟨i, hi, hkey⟩ := Option.bind_eq_some_iff.mp hk
      have hmem : (splitParts inner).getD i [] ∈ splitParts inner := by
        subst hi
        cases hat with
        | keyed _ p hp => exact Text.getD_of_getElem? hp ▸ List.mem_of_getElem? hp
        | loose _ p hp => exact Text.getD_of_getElem? hp ▸ List.mem_of_getElem? hp
      exact onePart_writtenKey (onePart_of_mem (by simpa using hopen) hmem) hkey h.piece

end Pieces

end EdgeLayout

open EdgeLayout

namespace EdgeStyle

/-- What the graph reads off a bracket after an edit of it. -/
def edited (font inner : Text) (edit : EdgeEdit) : EdgeStyle :=
  ofBracket font (.ofText (edit.apply inner))

section Edited

variable (font : Text) {inner : Text} (hopen : '[' ∉ inner)

include hopen

/-- **A label that is set** is read, and nothing else changes: neither the line
nor font, size and extras of the label. -/
theorem edited_label {label : Text} (hlabel : Text.trim label ≠ []) (hbar : '|' ∉ label)
    (hbracket : '[' ∉ label) (hsign : '#' ∉ label) :
    (edited font inner { label := some (.text label) }).label = some (Text.trim label) ∧
      (edited font inner { label := some (.text label) }).SameLine
        (ofBracket font (.ofText inner)) ∧
      (edited font inner { label := some (.text label) }).SameRest
        (ofBracket font (.ofText inner)) := by
  have hsign' : '#' ∉ Text.trim label := fun hmem => hsign (Text.mem_of_mem_trim hmem)
  have hescape : Comment.escape (Text.trim label) = Text.trim label := by
    have hplain : Text.hasPart "\\#" (Text.trim label) = false := by
      rw [← Comment.unescape_eq_self_iff]
      exact Comment.unescape_of_not_mem hsign'
    have hback := Comment.unescape_escape hplain
    rwa [Comment.unescape_of_not_mem] at hback
    rwa [Comment.mem_escape (by decide)]
  have hpiece : OnePart ['['] (Text.trim label) :=
    onePart_of_no_open (Text.tight_trim label) hlabel (fun hmem => hbar (Text.mem_of_mem_trim hmem))
      (fun hmem => hbracket (Text.mem_of_mem_trim hmem))
  obtain ⟨hat, -⟩ := labelAt_ofInner inner
  have htight : Text.Tight (Comment.escape (Text.trim label)) :=
    Comment.tight_escape (Text.tight_trim label)
  obtain ⟨before, after, part, hparts, hpart, hfirst, -, hplace⟩ := relabelledParts_eq hat htight
  rw [hescape] at hparts hpart
  have hwritten : before ++ after = withoutAt (splitParts inner) (ofInner inner).label := by
    rcases hplace with ⟨hnone, hsame⟩ | ⟨i, hsome, hsame⟩
    · rw [hnone, hsame]
      rfl
    · rw [hsome, hsame]
      rfl
  have happly : EdgeEdit.apply { label := some (.text label) } inner =
      joinParts (relabelledParts (splitParts inner) (Text.trim label) (ofInner inner).label) := by
    have hfilled : Value.textIfFilled (.text label) = label := by
      cases label with
      | nil => rfl
      | cons c rest => rfl
    rw [← update_label hlabel]
    simp only [EdgeEdit.apply, Option.map_some, Option.map_none, hfilled, hescape]
  have hread : edited font inner { label := some (.text label) } =
      ofBracket font (.ofParts (around isOther before [part] after)) := by
    rw [edited, happly, ofText_joinParts (onePart_relabelledParts hopen hpiece hat), hparts]
    rfl
  rw [hread, ofText_eq hopen, label_ofParts]
  exact ⟨labelOf_written hpart hlabel hfirst,
    same_besides_label font hat hwritten fun q hq => hpart.filter_eq_nil q hq⟩

/-- What is read after the border was changed. -/
theorem edited_border_eq {v : Value} (h : writtenBorder v = [] ∨ IsBorder (writtenBorder v)) :
    edited font inner { border := some v } =
      ofBracket font (.ofParts (reborderedParts (splitParts inner) (writtenBorder v)
        (ofInner inner).border.head?)) := by
  obtain ⟨hat, -⟩ := borderAt_ofInner inner
  rw [← ofText_joinParts (onePart_reborderedParts hopen h hat), ← update_border]
  rfl

/-- **A border that is set** is drawn, and nothing else changes: neither the
label nor its font, its size and its extras. -/
theorem edited_border {v : Value} (h : IsBorder (writtenBorder v)) :
    (edited font inner { border := some v }).Draws (.ofPart (writtenBorder v)) ∧
      (edited font inner { border := some v }).label = (ofBracket font (.ofText inner)).label ∧
      (edited font inner { border := some v }).SameRest (ofBracket font (.ofText inner)) := by
  obtain ⟨hat, -⟩ := borderAt_ofInner inner
  have hline := sameLine_ofParts font (reborderedParts (splitParts inner) (writtenBorder v)
    (ofInner inner).border.head?)
  rw [borderOf_eq, hat.borderParts_set h, Border.ofParts_singleton] at hline
  rw [edited_border_eq font hopen (Or.inr h), ofText_eq hopen, label_ofParts, label_ofParts]
  exact ⟨(draws_iff hline fun word hword => Border.style_ofPart hword).mpr rfl, hat.labelOf_set h,
    sameRest_of_filter font (hat.filter_rebordered (Or.inr h) ignoresBorders_keyedBeside)⟩

/-- What is read after the label was taken out: the line stays as it was, and
whether the label is gone depends on the next loose part. -/
theorem edited_unlabelled {v : Value} (hv : v.isFilled = false) :
    (edited font inner { label := some v }).SameLine (ofBracket font (.ofText inner)) ∧
      ((edited font inner { label := some v }).label = none ↔ LabelClears (splitParts inner)) := by
  obtain ⟨hat, -⟩ := labelAt_ofInner inner
  have hnothing : v.textIfFilled = [] := by simp [Value.textIfFilled, hv]
  have happly : EdgeEdit.apply { label := some v } inner =
      joinParts ((withoutAt (splitParts inner) (ofInner inner).label).filter isOther) := by
    rw [← update_clear_label]
    simp only [EdgeEdit.apply, Option.map_some, Option.map_none, hnothing]
    rfl
  have hpieces : ∀ p ∈ (withoutAt (splitParts inner) (ofInner inner).label).filter isOther,
      OnePart ['['] p := fun p hp =>
    onePart_of_mem (by simpa using hopen) (mem_of_mem_withoutAt (List.mem_of_mem_filter hp))
  have haround : (withoutAt (splitParts inner) (ofInner inner).label).filter isOther =
      around isOther (withoutAt (splitParts inner) (ofInner inner).label) [] [] := by
    simp [around]
  rw [edited, happly, ofText_joinParts hpieces, ofText_eq hopen, label_ofParts]
  refine ⟨?_, labelOf_cleared hat⟩
  rw [haround]
  exact (same_besides_label font hat (List.append_nil _) fun q _ => rfl).1

/-- What is read after the border was taken out: when it is gone, and when the
label stays. -/
theorem edited_unbordered {v : Value} (hv : v.isFilled = false) :
    ((edited font inner { border := some v }).Draws {} ↔ BorderClears (splitParts inner)) ∧
      ((edited font inner { border := some v }).label = (ofBracket font (.ofText inner)).label ↔
        LabelStays (splitParts inner)) := by
  obtain ⟨hat, -⟩ := borderAt_ofInner inner
  have hnothing : writtenBorder v = [] := by
    simp only [writtenBorder, Value.textIfFilled, hv]
    rfl
  have hline := sameLine_ofParts font (reborderedParts (splitParts inner) []
    (ofInner inner).border.head?)
  rw [borderOf_eq, hat.borderParts_cleared] at hline
  rw [edited_border_eq font hopen (Or.inl hnothing), hnothing, ofText_eq hopen, label_ofParts,
    label_ofParts]
  refine ⟨?_, hat.labelOf_unbordered⟩
  rw [draws_iff hline fun word hword => Border.style_ofParts hword]
  unfold BorderClears
  by_cases hkeyed : lastValue "border" (splitParts inner) = []
  · rw [hkeyed, List.isEmpty_nil, if_pos rfl]
    simp [Border.ofParts]
  · rw [if_neg (by simpa using hkeyed), Border.ofParts_eq_empty_iff]
    simp only [hkeyed, false_or, List.mem_filter, and_imp]
    refine forall₂_congr fun part _ => ?_
    constructor
    · intro h
      rw [← Bool.not_eq_true]
      intro hdraws
      have hno := h hdraws
      simp [drawsLoose, hno] at hdraws
    · intro hno hdraws
      rw [hno] at hdraws
      cases hdraws

end Edited

end EdgeStyle

open EdgeStyle (edited)

/-- **A field of an edge that is set is read back, and the others stay.**  A
label is read as it is without blanks around it; of a border exactly what its
text says is drawn. -/
theorem setField_sets (font : Text) {inner : Text} (hopen : '[' ∉ inner) :
    (∀ label : Text, Text.trim label ≠ [] → '|' ∉ label → '[' ∉ label → '#' ∉ label →
      (edited font inner { label := some (.text label) }).label = some (Text.trim label) ∧
        (edited font inner { label := some (.text label) }).SameLine
          (.ofBracket font (.ofText inner)) ∧
        (edited font inner { label := some (.text label) }).SameRest
          (.ofBracket font (.ofText inner))) ∧
    ∀ v : Value, Border.isPart (writtenBorder v) = true → '|' ∉ writtenBorder v →
      '[' ∉ writtenBorder v → '=' ∉ writtenBorder v →
      (edited font inner { border := some v }).Draws (.ofPart (writtenBorder v)) ∧
        (edited font inner { border := some v }).label =
          (EdgeStyle.ofBracket font (.ofText inner)).label ∧
        (edited font inner { border := some v }).SameRest (.ofBracket font (.ofText inner)) := by
  constructor
  · intro label hlabel hbar hbracket hsign
    exact EdgeStyle.edited_label font hopen hlabel hbar hbracket hsign
  · intro v hpart hbar hbracket hequals
    have hne : writtenBorder v ≠ [] := by
      intro hnil
      rw [hnil, Border.isPart, Border.ofPart_nil] at hpart
      cases hpart
    exact EdgeStyle.edited_border font hopen
      ⟨hpart, hequals, onePart_of_no_open (tight_writtenBorder v) hne hbar hbracket⟩

/-- A label takes the place of the last one that is keyed, under the key as it
is spelled there, and a border takes the place of two loose parts. -/
theorem setField_sets_among_loose :
    '[' ∉ "label=old |2px | LABEL = plan | border= | dashed".toList ∧
      EdgeEdit.apply { label := some (.text " red ") }
        "label=old |2px | LABEL = plan | border= | dashed" =
        "2px | LABEL=red | border= | dashed".toList ∧
      (edited "Arial" "label=old |2px | LABEL = plan | border= | dashed"
        { label := some (.text " red ") }).label = some "red".toList ∧
      EdgeEdit.apply { border := some (.text "bold #F00") }
        "label=old |2px | LABEL = plan | border= | dashed" =
        "label=old | bold rgb(255,0,0) | LABEL = plan".toList ∧
      (edited "Arial" "label=old |2px | LABEL = plan | border= | dashed"
        { border := some (.text "bold #F00") }).Draws (.ofPart "bold rgb(255,0,0)") := by
  have hopen : '[' ∉ "label=old |2px | LABEL = plan | border= | dashed".toList := by decide
  obtain ⟨hlabel, hborder⟩ := setField_sets "Arial" hopen
  have hwritten :
      writtenBorder (.text "bold #F00") = "bold rgb(255,0,0)".toList := by decide +kernel
  have hpart : Border.isPart "bold rgb(255,0,0)" = true := by decide +kernel
  have hdraws :=
    (hborder (.text "bold #F00") (by rw [hwritten]; exact hpart) (by rw [hwritten]; decide)
    (by rw [hwritten]; decide) (by rw [hwritten]; decide)).1
  rw [hwritten] at hdraws
  exact ⟨hopen, by decide +kernel,
    (hlabel " red " (by decide) (by decide) (by decide) (by decide)).1, by decide +kernel, hdraws⟩

/-- **When a field of an edge that is cleared is gone.**  Clearing the label
never changes the line, and the label is gone unless the next loose part takes
its place.  Clearing the border leaves no line unless loose parts come to be
drawn that a keyed border had hidden, and it keeps the label unless a loose part
becomes one. -/
theorem clearField_clears_iff (font : Text) {inner : Text} (hopen : '[' ∉ inner) {v : Value}
    (hv : v.isFilled = false) :
    (edited font inner { label := some v }).SameLine (.ofBracket font (.ofText inner)) ∧
      ((edited font inner { label := some v }).label = none ↔ LabelClears (splitParts inner)) ∧
      ((edited font inner { border := some v }).Draws {} ↔ BorderClears (splitParts inner)) ∧
      ((edited font inner { border := some v }).label =
          (EdgeStyle.ofBracket font (.ofText inner)).label ↔ LabelStays (splitParts inner)) := by
  obtain ⟨hline, hlabel⟩ := EdgeStyle.edited_unlabelled font hopen hv
  obtain ⟨hborder, hstays⟩ := EdgeStyle.edited_unbordered font hopen hv
  exact ⟨hline, hlabel, hborder, hstays⟩

/-- Both fields are cleared where the label is keyed and every loose part
draws. -/
theorem clearField_clears_keyed :
    '[' ∉ "2px | Label=plan | n=1 | dashed".toList ∧
      EdgeEdit.apply { label := some .null } "2px | Label=plan | n=1 | dashed" =
        "2px | n=1 | dashed".toList ∧
      (edited "Arial" "2px | Label=plan | n=1 | dashed" { label := some .null }).label = none ∧
      EdgeEdit.apply { border := some .null } "2px | Label=plan | n=1 | dashed" =
        "Label=plan | n=1".toList ∧
      (edited "Arial" "2px | Label=plan | n=1 | dashed" { border := some .null }).Draws {} := by
  have hopen : '[' ∉ "2px | Label=plan | n=1 | dashed".toList := by decide
  obtain ⟨-, hlabel, hborder, -⟩ := clearField_clears_iff "Arial" hopen (v := .null) rfl
  exact ⟨hopen, by decide +kernel, hlabel.mpr (by decide +kernel), by decide +kernel,
    hborder.mpr (by decide +kernel)⟩

/-- A border that is cleared gives way to a loose part that it had hidden, a
label that is cleared to the next loose part, and without the border another
part becomes the label. -/
theorem clearField_gives_way :
    (¬ ∀ inner : Text, '[' ∉ inner → (edited "Arial" inner { border := some .null }).Draws {}) ∧
      (¬ ∀ inner : Text, '[' ∉ inner →
        (edited "Arial" inner { label := some .null }).label = none) ∧
      ¬ ∀ inner : Text, '[' ∉ inner → (edited "Arial" inner { border := some .null }).label =
        (EdgeStyle.ofBracket "Arial" (.ofText inner)).label := by
  have hnote : Border.isPart "note" = false := by decide +kernel
  refine ⟨?_, ?_, ?_⟩
  · intro hall
    exact absurd (hall "border=red | dashed" (by decide)) (by decide +kernel)
  · intro hall
    have hopen : '[' ∉ "label=x | note".toList := by decide
    have hclears := (EdgeStyle.edited_unlabelled "Arial" hopen rfl).2.mp (hall _ hopen)
    exact Bool.false_ne_true (hnote.symm.trans (hclears "note" (by decide)))
  · intro hall
    have hopen : '[' ∉ "2px | note".toList := by decide
    have hstays := (EdgeStyle.edited_unbordered "Arial" hopen rfl).2.mp (hall _ hopen)
    rcases hstays with hlabel | hborder | hall
    · exact hlabel (by decide)
    · exact hborder (by decide)
    · exact Bool.false_ne_true
        (hnote.symm.trans (hall "2px" (by decide) (by decide) "note" (by decide)))

end LineDiagram
