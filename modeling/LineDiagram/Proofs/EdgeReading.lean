import LineDiagram.Inspect
import LineDiagram.Proofs.BorderEscape
import LineDiagram.Proofs.BorderRow
import LineDiagram.Proofs.EdgeLabel
import LineDiagram.Proofs.EdgeView

/-!
# An edge as it is shown and as it is drawn

An editor shows label and border of an edge line as they are written in its
bracket.  The drawing reads the same bracket without its backslashes, and the
parts of a border one by one, where the editor shows them as one text.  So the
two differ on escaped number signs and on parts of a border that stand in
another order than width, style, colour.

* `EdgeStyle.label_unescape_iff` — a label is the same without its backslashes
  exactly if it has none;
* `EdgeLayout.borderParts_unescape` — when the parts of a border are the same
  without backslashes;
* `edgeView_shows` — when an editor shows what is drawn.
-/

namespace LineDiagram

open LineDiagram.Bracket LineDiagram.Comment LineDiagram.Border

namespace EdgeStyle

/-- **A label is the same without its backslashes exactly if it has none**
before a number sign.  In that case the same part is the label; in the other one
a part may even turn into one that draws. -/
theorem label_unescape_iff (parts : List Text) :
    (labelOf (parts.map unescape)).getD [] = (labelOf parts).getD [] ↔
      Text.hasPart "\\#" ((labelOf parts).getD []) = false := by
  have hempty :
      (unescape (lastValue "label" parts)).isEmpty = (lastValue "label" parts).isEmpty := by
    rw [Bool.eq_iff_iff, List.isEmpty_iff, List.isEmpty_iff, unescape_eq_nil]
  unfold labelOf
  rw [lastValue_unescape (by decide), looseParts_unescape, hempty]
  by_cases hkeyed : (lastValue "label" parts).isEmpty = true
  · rw [if_pos hkeyed, if_pos hkeyed]
    cases looseParts parts with
    | nil => simp [splitLooseLabel, Text.hasPart]
    | cons part rest =>
        rw [List.map_cons, splitLooseLabel, splitLooseLabel]
        by_cases hpart : isPart part = true
        · rw [if_pos hpart, if_pos (isPart_unescape hpart)]
          simp [Text.hasPart]
        · rw [if_neg hpart, ← unescape_eq_self_iff]
          by_cases hother : isPart (unescape part) = true
          · -- only without its backslashes it is part of a border, so it has one
            have hne : unescape part ≠ part := by
              intro heq
              rw [heq] at hother
              exact hpart hother
            rw [if_pos hother]
            simp only [Option.getD_none, Option.getD_some, hne, iff_false]
            rintro rfl
            exact hne rfl
          · rw [if_neg hother]
            rfl
  · rw [if_neg hkeyed, if_neg hkeyed, Option.getD_some, Option.getD_some, unescape_eq_self_iff]

end EdgeStyle

namespace EdgeLayout

/-- When backslashes do not matter for a border. -/
structure PlainBorder (parts : List Text) : Prop where
  /-- No number sign is escaped in it. -/
  plain : Text.hasPart "\\#" (Text.join " " (borderParts parts)) = false
  /-- Where it is not keyed, no other loose part becomes part of it without its
  backslashes. -/
  complete : lastValue "border" parts = [] →
    ∀ part ∈ looseParts parts, isPart (unescape part) = true → isPart part = true

instance (parts : List Text) : Decidable (PlainBorder parts) :=
  decidable_of_iff
    (Text.hasPart "\\#" (Text.join " " (borderParts parts)) = false ∧
      (lastValue "border" parts = [] →
        ∀ part ∈ looseParts parts, isPart (unescape part) = true → isPart part = true))
    ⟨fun ⟨hplain, hcomplete⟩ => ⟨hplain, hcomplete⟩, fun ⟨hplain, hcomplete⟩ => ⟨hplain, hcomplete⟩⟩

/-- The parts of a plain border are the same without backslashes. -/
theorem borderParts_unescape {parts : List Text} (h : PlainBorder parts) :
    borderParts (parts.map unescape) = borderParts parts := by
  have hsame : ∀ part ∈ borderParts parts, unescape part = part := by
    intro part hpart
    rw [unescape_eq_self_iff, ← Bool.not_eq_true, Text.hasPart_iff]
    intro hescaped
    have hjoined := hescaped.trans (Text.infix_join hpart)
    rw [← Text.hasPart_iff, h.plain] at hjoined
    cases hjoined
  have hempty :
      (unescape (lastValue "border" parts)).isEmpty = (lastValue "border" parts).isEmpty := by
    rw [Bool.eq_iff_iff, List.isEmpty_iff, List.isEmpty_iff, unescape_eq_nil]
  unfold borderParts at hsame ⊢
  rw [lastValue_unescape (by decide), looseParts_unescape, hempty]
  by_cases hkeyed : (lastValue "border" parts).isEmpty = true
  · rw [if_pos hkeyed] at hsame ⊢
    rw [if_pos hkeyed, List.filter_map]
    have hfilter : (looseParts parts).filter (isPart ∘ unescape) =
        (looseParts parts).filter isPart := by
      apply List.filter_congr
      intro part hpart
      rw [Function.comp_apply, Bool.eq_iff_iff]
      exact ⟨h.complete (List.isEmpty_iff.mp hkeyed) part hpart, isPart_unescape⟩
    rw [hfilter, List.map_congr_left hsame, List.map_id']
  · rw [if_neg hkeyed] at hsame ⊢
    rw [if_neg hkeyed, hsame _ (List.mem_singleton_self _)]

end EdgeLayout

/-! ## What is shown and what is drawn -/

/-- All edges of a line have one style, that of the bracket of the line; so it
is enough to look at that one. -/
theorem Content.forall_edges_iff {sources targets font : Text} {bracket : Option Text} {n : Nat}
    (hne : (Content.edge sources targets bracket).edges font n ≠ []) (P : EdgeStyle → Prop) :
    (∀ e ∈ (Content.edge sources targets bracket).edges font n, P e.style) ↔
      P (.ofInner? font bracket) := by
  have hstyle : ∀ e ∈ (Content.edge sources targets bracket).edges font n,
      e.style = .ofInner? font bracket := by
    intro e he
    simp only [Content.edges, List.mem_flatMap, List.mem_map] at he
    obtain ⟨source, -, target, -, rfl⟩ := he
    rfl
  obtain ⟨e, he⟩ := List.exists_mem_of_ne_nil _ hne
  constructor
  · intro h
    rw [← hstyle e he]
    exact h e he
  · intro h e' he'
    rw [hstyle e' he']
    exact h

namespace Edit

/-- Compiler and editor agree whether a line has a bracket. -/
def SharesBracket (raw : Text) : Prop :=
  (Line.contentOfRaw raw).bracket.isSome = (LineParts.ofText raw).inner.isSome

instance (raw : Text) : Decidable (SharesBracket raw) :=
  inferInstanceAs
    (Decidable ((Line.contentOfRaw raw).bracket.isSome = (LineParts.ofText raw).inner.isSome))

section Reading

variable (font : Text) {raw sources targets : Text} {bracket : Option Text}
  (h : Line.contentOfRaw raw = .edge sources targets bracket) (hraw : '\n' ∉ raw)

include h hraw

/-- What the compiler reads in a bracket that it shares with the editor. -/
theorem style_of_shared (hshared : SharesBracket raw) :
    (EdgeStyle.ofInner? font bracket).label =
        EdgeStyle.labelOf ((splitParts (innerOf raw)).map unescape) ∧
      (EdgeStyle.ofInner? font bracket).SameLine
        (.ofBorder
          (.ofParts (EdgeLayout.borderParts ((splitParts (innerOf raw)).map unescape)))) := by
  have hinner : bracket.getD [] = unescape (innerOf raw) := by
    rcases bracket_cases hraw h with ⟨-, hinner⟩ | ⟨hnone, hsome⟩
    · exact hinner
    · rw [SharesBracket, h, hsome, hnone] at hshared
      cases hshared
  have hline := (style_of_inner font hraw hinner).trans (EdgeStyle.sameLine_ofParts font _)
  rw [EdgeLayout.borderOf_eq] at hline
  refine ⟨?_, hline⟩
  cases bracket with
  | none =>
      have hnil : innerOf raw = [] := unescape_eq_nil.mp hinner.symm
      rw [hnil]
      rfl
  | some text =>
      rw [Option.getD_some] at hinner
      rw [hinner, style_of_text font (enclosed_innerOf hraw), EdgeStyle.label_ofParts]

/-- The compiler reads no bracket where it does not share one: the bracket that
the editor cuts opens before the arrow there. -/
theorem bracket_of_not_shared (hshared : ¬ SharesBracket raw) : bracket = none := by
  rcases bracket_cases hraw h with ⟨hsome, -⟩ | ⟨hnone, -⟩
  · refine absurd ?_ hshared
    unfold SharesBracket
    rw [h]
    exact hsome
  · exact hnone

end Reading

end Edit

open Edit (SharesBracket innerOf)

/-- When an editor shows the edges of a raw line as they are drawn. -/
structure EdgeView.Shows (view : EdgeView) (raw : Text) (edges : List Edge) : Prop where
  /-- The label is the one that is drawn exactly if no number sign is escaped in
  it, or if it is empty where the compiler reads no bracket. -/
  label_iff : (∀ e ∈ edges, e.style.label.getD [] = view.label) ↔
    if SharesBracket raw then Text.hasPart "\\#" view.label = false else view.label = []
  /-- Where the compiler reads no bracket, the border must draw nothing. -/
  border_unread : ¬ SharesBracket raw →
    ((∀ e ∈ edges, e.style.Draws (.ofPart view.border)) ↔ isPart view.border = false)
  /-- A border in one part is the one that is drawn. -/
  border_whole : SharesBracket raw → EdgeLayout.PlainBorder (splitParts (innerOf raw)) →
    (EdgeLayout.borderParts (splitParts (innerOf raw))).length ≤ 1 →
    ∀ e ∈ edges, e.style.Draws (.ofPart view.border)
  /-- A border in several parts is the one that is drawn exactly if all its
  pieces stand in order. -/
  border_iff : SharesBracket raw → EdgeLayout.PlainBorder (splitParts (innerOf raw)) →
    ∀ rows : List (List Piece), (∀ row ∈ rows, row ≠ [] ∧ inOrder (row.map Piece.kind) = true) →
    EdgeLayout.borderParts (splitParts (innerOf raw)) = rows.map rowText →
    ((∀ e ∈ edges, e.style.Draws (.ofPart view.border)) ↔
      inOrder (rows.flatten.map Piece.kind) = true)

/-- A line with an edge is shown with the texts of its bracket: that of the
label and that of the border. -/
theorem EdgeView.find?_of_edge {lines : List Text} {index : Nat} {raw sources targets : Text}
    {bracket : Option Text} (hline : lines[index]? = some raw)
    (h : Line.contentOfRaw raw = .edge sources targets bracket) :
    ∃ view, EdgeView.find? lines (.ofInt (index + 1 : Nat)) = some view ∧
      view.label = (EdgeLayout.ofInner (innerOf raw)).labelText ∧
      view.border = (EdgeLayout.ofInner (innerOf raw)).borderText := by
  have hindex : (LineRef.ofInt (index + 1 : Nat)).edgeIndex? lines = some index :=
    LineRef.edgeIndex?_eq_some.mpr ⟨rfl, raw, sources, targets, bracket, hline, h⟩
  unfold EdgeView.find? Edit.innerOf
  rw [hindex, Option.bind_eq_bind, Option.bind_some, Text.getD_of_getElem? hline]
  refine ⟨_, rfl, ?_, ?_⟩ <;> dsimp only

/-- What an editor shows of a line with an edge. -/
theorem EdgeView.shows_of_edge {view : EdgeView} {raw sources targets font : Text}
    {bracket : Option Text} {n : Nat} (h : Line.contentOfRaw raw = .edge sources targets bracket)
    (hraw : '\n' ∉ raw) (hne : (Line.contentOfRaw raw).edges font n ≠ [])
    (hlabel : view.label = (EdgeLayout.ofInner (innerOf raw)).labelText)
    (hborder : view.border = (EdgeLayout.ofInner (innerOf raw)).borderText) :
    view.Shows raw ((Line.contentOfRaw raw).edges font n) := by
  rw [EdgeLayout.labelText_ofInner] at hlabel
  rw [EdgeLayout.borderText_ofInner] at hborder
  rw [h] at hne ⊢
  have hdraws : SharesBracket raw → EdgeLayout.PlainBorder (splitParts (innerOf raw)) →
      ((∀ e ∈
        (Content.edge sources targets bracket).edges font n, e.style.Draws (.ofPart view.border)) ↔
        Border.ofParts (EdgeLayout.borderParts (splitParts (innerOf raw))) =
          Border.ofPart (Text.join " " (EdgeLayout.borderParts (splitParts (innerOf raw))))) := by
    intro hshared hplain
    have hline := (Edit.style_of_shared font h hraw hshared).2
    rw [EdgeLayout.borderParts_unescape hplain] at hline
    rw [Content.forall_edges_iff hne fun style => style.Draws (.ofPart view.border), hborder,
      EdgeStyle.draws_iff hline fun word hword => Border.style_ofParts hword]
  refine ⟨?_, ?_, ?_, ?_⟩
  · rw [Content.forall_edges_iff hne fun style => style.label.getD [] = view.label]
    by_cases hshared : SharesBracket raw
    · rw [if_pos hshared, (Edit.style_of_shared font h hraw hshared).1, hlabel]
      exact EdgeStyle.label_unescape_iff _
    · rw [if_neg hshared, Edit.bracket_of_not_shared h hraw hshared]
      exact eq_comm
  · intro hshared
    rw [Content.forall_edges_iff hne fun style => style.Draws (.ofPart view.border),
      Edit.bracket_of_not_shared h hraw hshared]
    have hnone : (EdgeStyle.ofInner? font none).SameLine (.ofBorder {}) := ⟨rfl, rfl, rfl⟩
    rw [EdgeStyle.draws_iff hnone nofun]
    constructor
    · intro hempty
      unfold isPart
      rw [← hempty]
      rfl
    · intro hpart
      exact (Border.ofPart_eq_empty hpart).symm
  · intro hshared hplain hlength
    rw [hdraws hshared hplain]
    generalize EdgeLayout.borderParts (splitParts (innerOf raw)) = parts at hlength
    cases parts with
    | nil =>
        have hjoin : Text.join " " [] = [] := rfl
        rw [hjoin, Border.ofPart_nil]
        rfl
    | cons part rest =>
        cases rest with
        | nil => simp [Border.ofParts_singleton, Text.join]
        | cons other rest => simp at hlength
  · intro hshared hplain rows hrows hparts
    rw [hdraws hshared hplain, hparts, eq_comm]
    exact Border.ofPart_rows_iff hrows

/-- **An edge as it is shown and as it is drawn.**  Every line that draws an
edge is shown by an editor, and `EdgeView.Shows` says when label and border are
those of the drawing. -/
theorem edgeView_shows (t : Text) (font : Option Text) (n : Nat) {g : Graph}
    (hg : (compile t font).graph = some g) (hedges : g.edgesOf n ≠ []) :
    ∃ raw view, (Document.split t)[n - 1]? = some raw ∧
      EdgeView.find? (Document.split t) (.ofInt n) = some view ∧ view.Shows raw (g.edgesOf n) := by
  rw [graph_compile] at hg
  cases hg
  obtain ⟨e, he⟩ := List.exists_mem_of_ne_nil _ hedges
  obtain ⟨hmem, hn⟩ := List.mem_filter.mp he
  obtain ⟨index, raw, hline, hnumber, hdrawn⟩ := Draft.mem_edges_ofLines _ hmem
  obtain rfl : n = index + 1 := by
    rw [← hnumber]
    exact (eq_of_beq hn).symm
  cases hcontent : Line.contentOfRaw raw with
  | edge sources targets bracket =>
      obtain ⟨view, hview, hlabel, hborder⟩ := EdgeView.find?_of_edge hline hcontent
      have hraw := Document.not_mem_split (List.mem_of_getElem? hline)
      unfold Graph.edgesOf at hedges ⊢
      rw [Draft.edges_of_line _ hline] at hedges ⊢
      refine ⟨raw, view, ?_, hview, EdgeView.shows_of_edge hcontent hraw hedges hlabel hborder⟩
      rwa [Nat.add_sub_cancel]
  | _ =>
      rw [hcontent] at hdrawn
      cases hdrawn

/-- A border in two parts is shown as it is drawn, and a label with an escaped
number sign is not. -/
theorem edgeView_shows_rows :
    ∃ g view,
      (compile "A -> B | C [label=see \\#3 | 2px | dashed rgb(1, 2, 3)] # so").graph = some g ∧
      EdgeView.find? (Document.split "A -> B | C [label=see \\#3 | 2px | dashed rgb(1, 2, 3)] # so")
        (.ofInt 1) = some view ∧
      view.label = "see \\#3".toList ∧ view.border = "2px dashed rgb(1, 2, 3)".toList ∧
      g.edgesOf 1 ≠ [] ∧ (¬ ∀ e ∈ g.edgesOf 1, e.style.label.getD [] = view.label) ∧
      ∀ e ∈ g.edgesOf 1, e.style.Draws (.ofPart view.border) := by
  obtain ⟨raw, view, hraw, hview, hshows⟩ :=
    edgeView_shows "A -> B | C [label=see \\#3 | 2px | dashed rgb(1, 2, 3)] # so"
      none 1 rfl (by decide)
  obtain rfl : "A -> B | C [label=see \\#3 | 2px | dashed rgb(1, 2, 3)] # so".toList = raw :=
    Option.some.inj (Eq.trans (by decide) hraw)
  have htexts : (some view).map (fun view => (view.label, view.border)) =
      some ("see \\#3".toList, "2px dashed rgb(1, 2, 3)".toList) := by
    rw [← hview]
    decide
  obtain ⟨hlabel, hborder⟩ := Prod.mk.inj (Option.some.inj htexts)
  refine ⟨_, view, rfl, hview, hlabel, hborder, by decide, ?_, ?_⟩
  · rw [hshows.label_iff, hlabel]
    decide
  · exact (hshows.border_iff (by decide) (by decide)
      [[⟨"2px", .width, by decide⟩],
        [⟨"dashed", .style, by decide⟩, ⟨"rgb(1, 2, 3)", .colour, by decide⟩]]
      (by simp [inOrder]) (by decide)).mpr (by decide)

/-- A label is shown with the backslash of its number sign, and a border whose
width stands after the style is shown in an order in which it is not read. -/
theorem edgeView_differs :
    (¬ ∀ (t : Text) (n : Nat) (g : Graph) (view : EdgeView), (compile t).graph = some g →
      EdgeView.find? (Document.split t) (.ofInt n) = some view →
      ∀ e ∈ g.edgesOf n, e.style.label.getD [] = view.label) ∧
    ¬ ∀ (t : Text) (n : Nat) (g : Graph) (view : EdgeView), (compile t).graph = some g →
      EdgeView.find? (Document.split t) (.ofInt n) = some view →
      ∀ e ∈ g.edgesOf n, e.style.Draws (.ofPart view.border) := by
  constructor
  · intro hall
    exact absurd (hall "A -> B [label=x \\# y]" 1 _ _ rfl rfl) (by decide)
  · intro hall
    exact absurd (hall "A -> B [dashed | 2px]" 1 _ _ rfl rfl) (by decide +kernel)

end LineDiagram
