import LineDiagram.Proofs.EdgeLayout

/-!
# Two views of the bracket of an edge

The graph reads the bracket of an edge through a table of keys, in which a later
part overwrites an earlier one, and a list of loose parts.  An editor looks for
the positions of label and border instead.  Both rules are the same on every
bracket: keyed parts that are repeated or empty, loose parts in any place, words
that are part of a border and words that are not.

* `labelOf_labelAt` — the graph's label is the text of the part that an editor
  takes for the label;
* `border_ofInner` — the parts that an editor takes for the border are a keyed
  one, or all loose parts that draw something;
* `labelText_ofInner`, `borderText_ofInner` — the texts that an editor shows for
  them;
* `agrees_ofInner` — the two views of a bracket agree.
-/

namespace LineDiagram

open LineDiagram.Bracket

/-- Parts that are no part of a border may be left out: they set nothing. -/
theorem Border.ofParts_filter (parts : List Text) :
    Border.ofParts (parts.filter Border.isPart) = Border.ofParts parts := by
  induction parts with
  | nil => rfl
  | cons part parts ih =>
      cases hpart : Border.isPart part with
      | true => rw [List.filter_cons_of_pos hpart, Border.ofParts_cons, Border.ofParts_cons, ih]
      | false =>
          rw [List.filter_cons_of_neg (by simp [hpart]), ih, Border.ofParts_cons,
            Border.ofPart_eq_empty hpart, Border.empty_orElse]

namespace EdgeLayout

/-- The text of a part: its value when it is keyed, and the whole part when it
is loose. -/
def textOf (part : Text) : Text := if (key? part).isSome then value part else part

theorem textOf_of_hasKey {key : String} {part : Text} (h : hasKey key part = true) :
    textOf part = value part := by
  have hkey : key? part = some key.toList := by simpa [hasKey] using h
  simp [textOf, hkey]

theorem textOf_of_loose {part : Text} (h : key? part = none) : textOf part = part := by
  simp [textOf, h]

/-! ## The label -/

/-- The first loose part, when only keyed parts stand before it. -/
private theorem looseParts_at {parts : List Text} {i : Nat} {p : Text} (hp : parts[i]? = some p)
    (hloose : key? p = none) (hfirst : ∀ q ∈ parts.take i, key? q ≠ none) :
    ∃ rest, looseParts parts = p :: rest := by
  have hsplit := Text.eq_take_cons_drop hp
  have hbefore : looseParts (parts.take i) = [] := by
    rw [looseParts, List.filter_eq_nil_iff]
    intro q hq
    simpa using hfirst q hq
  refine ⟨looseParts (parts.drop (i + 1)), ?_⟩
  rw [hsplit, looseParts_append, hbefore, List.nil_append, looseParts, List.filter_cons,
    if_pos (by simp [hloose]), ← hsplit]
  rfl

/-- The graph reads the label off the part that an editor takes for it.  This
joins the two ways of finding a label. -/
theorem labelOf_labelAt {parts : List Text} {at? : Option Nat} (h : LabelAt parts at?) :
    EdgeStyle.labelOf parts = at?.bind fun i => parts[i]?.map textOf := by
  cases h with
  | keyed i p hp hkey hvalue hlast =>
      have hlabel := lastValue_of_last hp hkey hlast
      simp [EdgeStyle.labelOf, hlabel, hvalue, hp, textOf_of_hasKey hkey]
  | loose i p hp hnone hloose hborder hfirst =>
      obtain ⟨rest, hrest⟩ := looseParts_at hp hloose hfirst
      simp [EdgeStyle.labelOf, hnone, hrest, EdgeStyle.splitLooseLabel, hborder, hp,
        textOf_of_loose hloose]
  | missing hnone hborder =>
      have hno : (EdgeStyle.splitLooseLabel (looseParts parts)).1 = none := by
        cases hloose : looseParts parts with
        | nil => rfl
        | cons p rest =>
            rw [hloose] at hborder
            simp [EdgeStyle.splitLooseLabel, hborder p rfl]
      simp [EdgeStyle.labelOf, hnone, hno]

theorem LabelAt.exists_part {parts : List Text} {i : Nat} (h : LabelAt parts (some i)) :
    ∃ p, parts[i]? = some p := by
  cases h with
  | keyed _ p hp _ _ _ => exact ⟨p, hp⟩
  | loose _ p hp _ _ _ _ => exact ⟨p, hp⟩

/-! ## The border -/

/-- The positions of the loose parts. -/
def looseAt (parts : List Text) : List Nat :=
  (List.range parts.length).filter fun i => (key? (parts.getD i [])).isNone

/-- Without a keyed border it is all loose parts that draw something; the label
never does. -/
theorem border_of_loose (inner : Text)
    (h : (lastKeyed (splitParts inner) "border").1 = none) :
    (ofInner inner).border =
      (looseAt (splitParts inner)).filter fun i =>
        Border.isPart ((splitParts inner).getD i []) := by
  unfold ofInner
  dsimp only
  rw [h]
  dsimp only
  rw [← looseAt]
  split
  · rename_i first rest _ hloose
    split
    · rfl
    · rename_i hno
      rw [hloose]
      exact (List.filter_cons_of_neg (by exact hno)).symm
  · rfl

/-- A position list is one of parts that are there. -/
private theorem filterMap_getElem? {parts : List Text} {indexes : List Nat}
    (h : ∀ i ∈ indexes, i < parts.length) :
    (indexes.filterMap fun i => parts[i]?.map textOf) =
      indexes.map fun i => textOf (parts.getD i []) := by
  rw [← List.filterMap_eq_map]
  apply List.filterMap_congr
  intro i hi
  simp [List.getElem?_eq_getElem (h i hi)]

/-- **The parts that an editor takes for the border** draw what the graph
draws. -/
theorem border_ofInner (inner : Text) :
    (∀ i ∈ (ofInner inner).border, i < (splitParts inner).length) ∧
      Border.ofParts ((ofInner inner).border.filterMap fun i => (splitParts inner)[i]?.map textOf) =
        EdgeStyle.borderOf (splitParts inner) := by
  generalize hparts : splitParts inner = parts
  rcases lastKeyed_spec parts "border"
    with ⟨hnone, hkeyed, -⟩ | ⟨k, p, hp, hkeyed, hkey, hvalue, hlast, -⟩
  · have hborder := border_of_loose inner (by rw [hparts]; exact hkeyed)
    rw [hparts] at hborder
    have hin : ∀ i ∈ (ofInner inner).border, i < parts.length := by
      intro i hi
      rw [hborder, List.mem_filter, looseAt, List.mem_filter, List.mem_range] at hi
      exact hi.1.1
    refine ⟨hin, ?_⟩
    have hloose : ((looseAt parts).filter fun i => Border.isPart (parts.getD i [])).map
        (fun i => textOf (parts.getD i [])) = (looseParts parts).filter Border.isPart := by
      have hpositions := filter_eq_positions (fun p => (key? p).isNone) parts
      rw [← looseParts, ← looseAt] at hpositions
      rw [hpositions, List.filter_map]
      apply List.map_congr_left
      intro i hi
      rw [List.mem_filter, looseAt, List.mem_filter] at hi
      exact textOf_of_loose (by simpa using hi.1.2)
    rw [filterMap_getElem? hin, hborder, hloose, Border.ofParts_filter]
    simp [EdgeStyle.borderOf, hnone]
  · have hborder : (ofInner inner).border = [k] := by
      unfold ofInner
      dsimp only
      rw [hparts, hkeyed]
    have hvalueOf := lastValue_of_last hp hkey hlast
    rw [hborder]
    refine ⟨?_, ?_⟩
    · intro i hi
      rw [List.mem_singleton.mp hi]
      exact (List.getElem?_eq_some_iff.mp hp).1
    · simp [EdgeStyle.borderOf, hvalueOf, hvalue, hp, textOf_of_hasKey hkey, Border.ofParts,
        Border.orElse]

/-- The texts of the parts that are read as the border: that of a keyed one, or
all loose parts that draw something. -/
def borderParts (parts : List Text) : List Text :=
  if (lastValue "border" parts).isEmpty then (looseParts parts).filter Border.isPart
  else [lastValue "border" parts]

/-- The border that is read from the parts of a bracket is read from those that
are parts of a border. -/
theorem borderOf_eq (parts : List Text) :
    EdgeStyle.borderOf parts = Border.ofParts (borderParts parts) := by
  unfold EdgeStyle.borderOf borderParts
  split
  · exact (Border.ofParts_filter _).symm
  · exact (Border.ofParts_singleton _).symm

/-! ## The texts that are shown -/

/-- What an editor shows of a part with a key is its value. -/
private theorem partText_of_hasKey {key : String} (hkey : key.toList ≠ []) {part : Text}
    (h : hasKey key part = true) : partText part = value part := by
  have hfound : key? part = some key.toList := by simpa [hasKey] using h
  unfold partText
  rw [hfound]
  split
  · rfl
  · rename_i hno
    obtain ⟨c, rest, heq⟩ := List.exists_cons_of_ne_nil hkey
    exact absurd (congrArg some heq) (hno c rest)

private theorem partText_of_loose {part : Text} (h : key? part = none) : partText part = part := by
  unfold partText
  rw [h]

/-- The label that an editor shows is the one that the parts give, or nothing
where they give none. -/
theorem labelText_ofInner (inner : Text) :
    (ofInner inner).labelText = (EdgeStyle.labelOf (splitParts inner)).getD [] := by
  have hat := (labelAt_ofInner inner).1
  have hparts : (ofInner inner).parts = splitParts inner := rfl
  rw [labelOf_labelAt hat]
  unfold labelText
  rw [hparts]
  generalize (ofInner inner).label = at? at hat
  cases hat with
  | keyed i p hp hkey hvalue hlast =>
      simp [hp, partText_of_hasKey (by decide) hkey, textOf_of_hasKey hkey]
  | loose i p hp hnone hloose hborder hfirst =>
      simp [hp, partText_of_loose hloose, textOf_of_loose hloose]
  | missing hnone hborder => rfl

/-- The border that an editor shows is made of the parts that are read as
one. -/
theorem borderText_ofInner (inner : Text) :
    (ofInner inner).borderText = Text.join " " (borderParts (splitParts inner)) := by
  have hparts : (ofInner inner).parts = splitParts inner := rfl
  unfold borderText borderParts
  rw [hparts]
  rcases lastKeyed_spec (splitParts inner) "border" with ⟨hnone, hkeyed, -⟩ |
    ⟨k, p, hp, hkeyed, hkey, hvalue, hlast, -⟩
  · rw [border_of_loose inner hkeyed, hnone, List.isEmpty_nil, if_pos rfl]
    have hpositions := filter_eq_positions (fun p => (key? p).isNone) (splitParts inner)
    rw [← looseParts, ← looseAt] at hpositions
    rw [hpositions, List.filter_map]
    congr 1
    apply List.map_congr_left
    intro i hi
    rw [List.mem_filter, looseAt, List.mem_filter] at hi
    exact partText_of_loose (by simpa using hi.1.2)
  · have hborder : (ofInner inner).border = [k] := by
      unfold ofInner
      dsimp only
      rw [hkeyed]
    rw [hborder, lastValue_of_last hp hkey hlast, if_neg (by simpa using hvalue),
      List.map_singleton, Text.getD_of_getElem? hp, partText_of_hasKey (by decide) hkey]

/-! ## Both views -/

/-- The editor's view of a bracket, a layout, and the graph's view, a style, are
views of one thing. -/
structure Agrees (layout : EdgeLayout) (style : EdgeStyle) : Prop where
  /-- There is no label when no part is one. -/
  unlabelled : style.label = none ↔ layout.label = none
  /-- The label is the text of the part that is the label. -/
  labelled : ∀ i, layout.label = some i →
    ∃ part, layout.parts[i]? = some part ∧ style.label = some (textOf part)
  /-- The border stands in parts that are there. -/
  bordered : ∀ i ∈ layout.border, i < layout.parts.length
  /-- The line has the colour, the width and the style word that the texts of
  the parts of the border say, and no others. -/
  drawn : style.Draws (.ofParts (layout.border.filterMap fun i => layout.parts[i]?.map textOf))

end EdgeLayout

/-- **Editor and graph see the same label and border** in every bracket that
holds no other. -/
theorem agrees_ofInner (font : Text) {inner : Text} (hopen : '[' ∉ inner) :
    (EdgeLayout.ofInner inner).Agrees (.ofBracket font (.ofText inner)) := by
  have hparts : (EdgeLayout.ofInner inner).parts = splitParts inner := rfl
  have hat := (EdgeLayout.labelAt_ofInner inner).1
  obtain ⟨hin, hborder⟩ := EdgeLayout.border_ofInner inner
  have hlabel : (EdgeStyle.ofBracket font (.ofText inner)).label =
      (EdgeLayout.ofInner inner).label.bind fun i =>
        (EdgeLayout.ofInner inner).parts[i]?.map EdgeLayout.textOf := by
    rw [ofText_eq hopen, EdgeStyle.label_ofParts, EdgeLayout.labelOf_labelAt hat, hparts]
  refine ⟨?_, ?_, hin, ?_⟩
  · rw [hlabel]
    cases hnone : (EdgeLayout.ofInner inner).label with
    | none => simp
    | some i =>
        rw [hnone] at hat
        obtain ⟨p, hp⟩ := hat.exists_part
        simp [hparts, hp]
  · intro i hi
    rw [hi] at hat hlabel
    obtain ⟨p, hp⟩ := hat.exists_part
    exact ⟨p, hp, by rw [hlabel, Option.bind_some, hparts, hp, Option.map_some]⟩
  · have hline := EdgeStyle.sameLine_ofParts font (splitParts inner)
    rw [← hborder] at hline
    rw [ofText_eq hopen, hparts]
    exact (EdgeStyle.draws_iff hline fun word hword => Border.style_ofParts hword).mpr rfl

/-- Empty keys do not count, whatever stands around them: the label is the first
loose part, and the border is made of the other two, one of which says the width
and the other style and colour. -/
theorem agrees_ofInner_of_empty_keys :
    '[' ∉ " LABEL=no | z | 2px |label = | dashed red| border=".toList ∧
      (EdgeLayout.ofInner " LABEL=no | z | 2px |label = | dashed red| border=").label = some 1 ∧
      (EdgeLayout.ofInner " LABEL=no | z | 2px |label = | dashed red| border=").border = [2, 4] ∧
      (EdgeStyle.ofBracket "Arial" (.ofText
        " LABEL=no | z | 2px |label = | dashed red| border=")).Draws
          ⟨some 2, some "dashed".toList, some "red".toList⟩ ∧
      (EdgeLayout.ofInner " LABEL=no | z | 2px |label = | dashed red| border=").Agrees
        (.ofBracket "Arial" (.ofText " LABEL=no | z | 2px |label = | dashed red| border=")) :=
  ⟨by decide, by decide, by decide, by decide, agrees_ofInner "Arial" (by decide)⟩

end LineDiagram
