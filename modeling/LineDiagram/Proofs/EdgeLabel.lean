import LineDiagram.Compilation
import LineDiagram.Edit.Edge
import LineDiagram.Proofs.Addresses
import LineDiagram.Proofs.Document
import LineDiagram.Proofs.EdgeLayout
import LineDiagram.Proofs.LineParts
import LineDiagram.Proofs.Reading

/-!
# Changing the label of an edge

The editor writes a label into the bracket at the end of the line, and the
compiler reads it from there.  They cut the line in different ways: the editor
looks for the bracket first and reads parts as they are written, the compiler
looks for the rule that fits first and reads them without backslashes.
`LabelShown` says when that makes no difference.

* `content_rebracketed` — what an edge says with another bracket;
* `edges_relabelled` — when the edges of a line carry a label and are otherwise
  the same;
* `setEdge_label` — an edit of the label is seen in the drawing exactly when
  `LabelShown` holds.
-/

namespace LineDiagram

open Comment

/-- The bracket of a line, as the compiler reads it. -/
def Content.bracket : Content → Option Text
  | .marker _ _ bracket => bracket
  | .node _ _ bracket => bracket
  | .edge _ _ bracket => bracket
  | _ => none

/-- What is drawn for an edge apart from its label: its ends, its colour, its
width and its style words. -/
def Edge.drawing (e : Edge) : Text × Text × Option Text × Option Int × List Text :=
  (e.source, e.target, e.style.colour, e.style.width, e.style.styles)

/-- The edges of a line. -/
def Graph.edgesOf (g : Graph) (n : Nat) : List Edge := g.edges.filter fun e => e.line == n

/-- Edges that carry a label, and are otherwise drawn like others. -/
def Relabelled (label : Text) (before after : List Edge) : Prop :=
  after.map Edge.drawing = before.map Edge.drawing ∧ ∀ e ∈ after, e.style.label = some label

/-- **When the edges of a line are relabelled.**  They all have the style of the
line. -/
theorem edges_relabelled (font : Text) (n : Nat) {sources targets label : Text}
    {old new : Option Text} (hne : (Content.edge sources targets old).edges font n ≠ []) :
    Relabelled label ((Content.edge sources targets old).edges font n)
        ((Content.edge sources targets new).edges font n) ↔
      (EdgeStyle.ofInner? font new).label = some label ∧
        (EdgeStyle.ofInner? font new).SameLine (.ofInner? font old) := by
  let ends := (splitEndpoints sources).flatMap fun source =>
    (splitEndpoints targets).map fun target => (source, target)
  have hedges : ∀ bracket, (Content.edge sources targets bracket).edges font n =
      ends.map fun pair =>
        ⟨Identifier.ofToken pair.1, Identifier.ofToken pair.2, n, .ofInner? font bracket⟩ := by
    intro bracket
    simp only [ends, Content.edges, List.map_flatMap, List.map_map]
    rfl
  rw [hedges] at hne
  obtain ⟨pair, hpair⟩ := List.exists_mem_of_ne_nil ends (fun hnil => hne (by rw [hnil]; rfl))
  unfold Relabelled
  rw [hedges, hedges, List.map_map, List.map_map, List.map_inj_left]
  constructor
  · rintro ⟨hdrawn, hlabel⟩
    refine ⟨hlabel _ (List.mem_map_of_mem hpair), ?_⟩
    have hsame := hdrawn pair hpair
    simp only [Function.comp, Edge.drawing, Prod.mk.injEq] at hsame
    exact hsame.2.2
  · rintro ⟨hlabel, hcolour, hwidth, hstyles⟩
    constructor
    · intro other _
      simp only [Function.comp, Edge.drawing, hcolour, hwidth, hstyles]
    · intro e he
      obtain ⟨other, -, rfl⟩ := List.mem_map.mp he
      exact hlabel

namespace Edit

/-- The inside of the bracket of a raw line, as an editor cuts it. -/
def innerOf (raw : Text) : Text := (LineParts.ofText raw).inner.getD []

/-- The inside of the bracket after the label was changed. -/
def relabelledInner (raw label : Text) : Text :=
  (EdgeLayout.ofInner (innerOf raw)).update (some (escape (Text.trim label))) none

/-- The line after the label of its edge was changed. -/
def relabelledEdge (raw label : Text) : Text :=
  (LineParts.ofText raw).assemble (some (relabelledInner raw label))
    (some (LineParts.ofText raw).before)

/-- An edit of the label alone puts the escaped label into the bracket and
touches no other field. -/
private theorem apply_label (label inner : Text) :
    EdgeEdit.apply { label := some (.text label) } inner =
      (EdgeLayout.ofInner inner).update (some (escape (Text.trim label))) none := by
  have hfilled : Value.textIfFilled (.text label) = label := by
    cases label with
    | nil => rfl
    | cons c rest => rfl
  unfold EdgeEdit.apply
  rw [Option.map_some, hfilled, Option.map_none]

/-- What is done when the label of an edge is changed: one line is replaced, and
the label breaks no bracket. -/
private theorem setEdge_done {lines : List Text} {n : Nat} {label : Text} {out : Outcome}
    (hout : setEdge lines (.ofInt n) { label := some (.text label) } = out)
    (hdone : out.patch.success = true) :
    ∃ index old sources targets bracket, n = index + 1 ∧ lines[index]? = some old ∧
      Line.contentOfRaw old = .edge sources targets bracket ∧
      (∀ c ∈ label, Text.isBracketBreaker c = false) ∧
      out.patch.before = some old ∧ out.patch.after = some (relabelledEdge old label) ∧
      out.lines = lines.set index (relabelledEdge old label) := by
  have hrefuse : ∀ refusal, Outcome.refuse lines .setEdge (LineRef.ofInt n).name refusal ≠ out := by
    rintro refusal rfl
    exact absurd (hdone : false = true) Bool.false_ne_true
  unfold setEdge at hout
  split at hout
  · exact absurd hout (hrefuse _)
  · rename_i index hindex
    obtain ⟨hnumber, old, sources, targets, bracket, hold, hedge⟩ :=
      LineRef.edgeIndex?_eq_some.mp hindex
    have hn : n = index + 1 := by
      have hint : (n : Int) = (index + 1 : Nat) := Option.some.inj hnumber
      omega
    have hget : lines.getD index [] = old := Text.getD_of_getElem? hold
    split at hout
    · exact absurd hout (hrefuse _)
    · rename_i hbroken
      have hbreak : ∀ c ∈ label, Text.isBracketBreaker c = false := by
        intro c hc
        have hnone : Field.isBroken (some (.text label)) = false := by
          cases hlabel : Field.isBroken (some (.text label)) with
          | false => rfl
          | true => simp [Field.firstBroken?, hlabel] at hbroken
        have hany : label.any Text.isBracketBreaker = false := hnone
        simpa using List.any_eq_false.mp hany c hc
      dsimp only at hout
      rw [hget] at hout
      have hends :
          replaceEndpoints (.ofInt n) {} old = .ok ((LineParts.ofText old).before, []) := rfl
      rw [hends, apply_label] at hout
      refine ⟨index, old, sources, targets, bracket, hn, hold, hedge, hbreak, ?_⟩
      rw [← hout]
      exact ⟨congrArg some hget, rfl, rfl⟩

/-! ## The line before and after -/

/-- A label as it is written may be a part of a bracket: its number signs are
escaped, and other signs that would break a bracket are refused. -/
theorem sound_label {label : Text} (hlabel : Text.trim label ≠ [])
    (hbreak : ∀ c ∈ label, Text.isBracketBreaker c = false) :
    Bracket.Sound (escape (Text.trim label)) := by
  have hnot : ∀ {c}, c ≠ '\\' → Text.isBracketBreaker c = true → c ∉ escape (Text.trim label) := by
    intro c hc hbreaks hmem
    have hfree := hbreak c (Text.mem_of_mem_trim ((mem_escape hc).mp hmem))
    rw [hbreaks] at hfree
    exact Bool.noConfusion hfree
  exact ⟨⟨tight_escape (Text.tight_trim label), plain_escape _, hnot (by decide) (by decide),
    hnot (by decide) (by decide)⟩, fun hnil => hlabel (escape_eq_nil.mp hnil),
    hnot (by decide) (by decide)⟩

/-- What is written into the bracket: the old parts with another label. -/
theorem relabelledInner_spec {raw label : Text} (hraw : '\n' ∉ raw) (hlabel : Text.trim label ≠ [])
    (hbreak : ∀ c ∈ label, Text.isBracketBreaker c = false) :
    Bracket.Enclosed (relabelledInner raw label) ∧ relabelledInner raw label ≠ [] ∧
      Bracket.splitParts (relabelledInner raw label) =
        EdgeLayout.relabelledParts (Bracket.splitParts (innerOf raw)) (escape (Text.trim label))
          (EdgeLayout.ofInner (innerOf raw)).label := by
  have hparts := LineParts.ofText_spec raw
  obtain ⟨-, hplain, hopen⟩ := hparts.inner_spec
  have hline : '\n' ∉ innerOf raw := fun hmem => hraw (hparts.subset.2 hmem)
  have hnew := sound_label hlabel hbreak
  have hsound := EdgeLayout.sound_relabelledParts (EdgeLayout.labelAt_ofInner (innerOf raw)).1
    (fun p hp => Bracket.sound_of_mem hplain hopen hline hp) hnew
  have hsplit := Bracket.splitParts_joinParts
    (fun q hq => ⟨(hsound q hq).tight, (hsound q hq).ne_nil, (hsound q hq).no_bar⟩)
  unfold relabelledInner
  rw [EdgeLayout.update_label hnew.ne_nil]
  refine ⟨Bracket.enclosed_joinParts fun p hp => ⟨(hsound p hp).toEnclosed,
    (hsound p hp).ne_nil⟩, ?_, hsplit⟩
  intro hnil
  rw [hnil] at hsplit
  exact EdgeLayout.relabelledParts_ne_nil _ _ _ hsplit.symm

/-- The line stays one line when its label is changed. -/
private theorem lineFeed_not_mem_relabelledEdge {raw label : Text} (hraw : '\n' ∉ raw)
    (hlabel : Text.trim label ≠ []) (hbreak : ∀ c ∈ label, Text.isBracketBreaker c = false) :
    '\n' ∉ relabelledEdge raw label := by
  have hparts := LineParts.ofText_spec raw
  obtain ⟨hwritten, -, -⟩ := relabelledInner_spec hraw hlabel hbreak
  apply LineParts.lineFeed_not_mem_assemble hparts hraw
  · rw [Option.getD_some]
    exact hwritten.one_line
  · rw [Option.getD_some]
    exact fun hmem => hraw (hparts.subset.1 hmem)

section Rebracketed

variable {raw text sources targets : Text} {bracket : Option Text} {parts : LineParts}

/-- What an edge says with another bracket, and whether the compiler reads the
bracket at all. -/
structure ReadsBracket (parts : LineParts) (text sources targets : Text) (bracket : Option Text) :
    Prop where
  /-- The compiler found a bracket where the editor did. -/
  isSome_eq : bracket.isSome = parts.inner.isSome
  /-- It is the same one. -/
  inner_eq : bracket.getD [] = unescape (parts.inner.getD [])
  /-- The new line says the same edge with the new bracket, unless it is a
  definition. -/
  content_eq :
    (Line.ofText (parts.assemble (some text) (some parts.before))).definedNode? = none →
      Line.contentOfRaw (parts.assemble (some text) (some parts.before)) =
        .edge sources targets (some (unescape text))

variable (hparts : LineParts.PartsOf raw parts) (hraw : '\n' ∉ raw) (htext : Bracket.Enclosed text)
  (hne : text ≠ []) (h : Line.contentOfRaw raw = .edge sources targets bracket)

include hparts hraw htext hne h

/-- An edge line without a bracket is read as the same edge with the bracket
that is added. -/
private theorem content_of_bare (hbody : LineParts.body raw = parts.before)
    (hinner : parts.inner = none)
    (hend : '[' ∈ LineParts.body raw → (LineParts.body raw).getLast? ≠ some ']') :
    ReadsBracket parts text sources targets bracket := by
  unfold Line.contentOfRaw at h
  rw [LineParts.strip_eq_body] at h
  have hblank : ¬ Text.AllBlank (unescape (LineParts.body raw)) := by
    intro hall
    rw [Text.trim_eq_nil.mpr hall] at h
    cases h
  obtain ⟨hstart, hlast⟩ := LineParts.code_bare hblank
  have hmem : ∀ {c}, c ≠ '\\' → c ∈ Text.trim (unescape (LineParts.body raw)) →
      c ∈ LineParts.body raw := fun hc hin => (mem_unescape hc).mp (Text.mem_of_mem_trim hin)
  have hnew : '\n' ∉ unescape text ∧ '[' ∉ unescape text := by
    rw [mem_unescape (by decide), mem_unescape (by decide)]
    exact ⟨htext.one_line, htext.no_open⟩
  have hspace : Text.AllBlank [' '] := Text.allBlank_singleton (by decide)
  have hcode : Comment.strip (parts.assemble (some text) (some parts.before)) =
      Text.trim (unescape (LineParts.body raw)) ++ ' ' :: '[' :: (unescape text ++ [']']) := by
    rw [LineParts.strip_assemble_bracket hparts htext.tight hne htext.plain, hinner,
      Option.isNone_none, if_pos rfl, ← hbody, unescape_append_blank hspace,
      Text.trimStart_append hblank, hstart]
    simp
  obtain ⟨rfl, hedge⟩ := Line.contentOf_add_bracket
    (fun hin => hraw (hparts.body_subset (hmem (by decide) hin))) (Text.tight_trim _)
    (fun hin => hlast ▸ hend (hmem (by decide) hin)) hnew h
  refine ⟨by rw [hinner], by rw [hinner]; rfl, fun hdefined => ?_⟩
  have hnode := Line.definedNode?_eq_none_iff.mp hdefined
  unfold Line.contentOfRaw at hnode ⊢
  rw [hcode] at hnode ⊢
  rw [hedge hnode, Text.trim_of_tight (tight_unescape htext.tight)]

/-- An edge line with a bracket is read as the same edge with the new one, or
else the compiler sees no bracket in it, neither before nor after the change. -/
private theorem content_of_bracketed {inside : Text}
    (hbody : LineParts.body raw = parts.before ++ '[' :: (inside ++ [']'])) (hopen : '[' ∉ inside)
    (hinner : parts.inner = some (Text.trim inside)) :
    ReadsBracket parts text sources targets bracket ∨
      bracket = none ∧ ∀ s t b, Line.contentOfRaw (parts.assemble (some text) (some parts.before)) =
        .edge s t b → b = none := by
  have hin : ∀ {c}, c ∈ parts.before ∨ c ∈ inside → c ∈ raw := by
    intro c hc
    apply hparts.body_subset
    rw [hbody]
    rcases hc with hc | hc
    · exact List.mem_append_left _ hc
    · simp [hc]
  have hstem : '\n' ∉ Text.trimStart (unescape parts.before) := by
    intro hmem
    exact hraw (hin (Or.inl ((mem_unescape (by decide)).mp (Text.mem_of_mem_trimStart hmem))))
  have hold : '\n' ∉ unescape inside ∧ '[' ∉ unescape inside := by
    rw [mem_unescape (by decide), mem_unescape (by decide)]
    exact ⟨fun hmem => hraw (hin (Or.inr hmem)), hopen⟩
  have hnew : '\n' ∉ unescape text ∧ '[' ∉ unescape text := by
    rw [mem_unescape (by decide), mem_unescape (by decide)]
    exact ⟨htext.one_line, htext.no_open⟩
  have hcode : Comment.strip (parts.assemble (some text) (some parts.before)) =
      Text.trimStart (unescape parts.before) ++ '[' :: (unescape text ++ [']']) := by
    rw [LineParts.strip_assemble_bracket hparts htext.tight hne htext.plain, hinner]
    rfl
  unfold Line.contentOfRaw at h
  rw [LineParts.strip_eq_body, hbody, LineParts.code_bracketed] at h
  rcases Line.contentOf_rebracket hstem hold hnew h with ⟨rfl, hedge⟩ | ⟨rfl, hnone⟩
  · refine Or.inl ⟨by rw [hinner]; rfl, ?_, fun hdefined => ?_⟩
    · rw [hinner, Option.getD_some, Option.getD_some, trim_unescape]
    · have hnode := Line.definedNode?_eq_none_iff.mp hdefined
      unfold Line.contentOfRaw at hnode ⊢
      rw [hcode] at hnode ⊢
      rw [hedge hnode, Text.trim_of_tight (tight_unescape htext.tight)]
  · refine Or.inr ⟨rfl, fun s t b hcontent => ?_⟩
    unfold Line.contentOfRaw at hcontent
    rw [hcode] at hcontent
    exact hnone s t b hcontent

/-- **What an edge says with another bracket.**  Either the compiler reads the
bracket that the editor writes, or it never reads one. -/
theorem content_rebracketed :
    ReadsBracket parts text sources targets bracket ∨
      bracket.isSome ≠ parts.inner.isSome ∧
        ∀ s t b, Line.contentOfRaw (parts.assemble (some text) (some parts.before)) =
          .edge s t b → b = none := by
  cases hparts.shape with
  | bare hbody hinner hend =>
    exact Or.inl (content_of_bare hparts hraw htext hne h hbody hinner hend)
  | bracketed inside hbody hopen hinner =>
      rcases content_of_bracketed hparts hraw htext hne h hbody hopen hinner
        with hreads | ⟨rfl, hnone⟩
      · exact Or.inl hreads
      · exact Or.inr ⟨by simp [hinner], hnone⟩

end Rebracketed

/-- **The bracket of an edge, for the compiler and for an editor.**  Either both
see it, and the compiler reads it without its backslashes, or only the editor
takes it for one. -/
theorem bracket_cases {raw sources targets : Text} {bracket : Option Text} (hraw : '\n' ∉ raw)
    (h : Line.contentOfRaw raw = .edge sources targets bracket) :
    (bracket.isSome = (LineParts.ofText raw).inner.isSome ∧
      bracket.getD [] = unescape (innerOf raw)) ∨
      (bracket = none ∧ (LineParts.ofText raw).inner.isSome = true) := by
  have hparts := LineParts.ofText_spec raw
  have hword : Bracket.Enclosed "x" :=
    ⟨Text.tight_of_all (by decide), plain_of_not_mem (by decide), by decide, by decide⟩
  cases hparts.shape with
  | bare hbody hinner hend =>
      have hreads := content_of_bare hparts hraw hword (by decide) h hbody hinner hend
      exact Or.inl ⟨hreads.isSome_eq, hreads.inner_eq⟩
  | bracketed inside hbody hopen hinner =>
      rcases content_of_bracketed hparts hraw hword (by decide) h hbody hopen hinner with
        hreads | ⟨hnone, -⟩
      · exact Or.inl ⟨hreads.isSome_eq, hreads.inner_eq⟩
      · exact Or.inr ⟨hnone, by rw [hinner]; rfl⟩

/-! ## When a new label is shown -/

/-- When a label that was written into the line of an edge is drawn, and nothing
else changes. -/
structure LabelShown (old new label : Text) : Prop where
  /-- Compiler and editor agree whether the old line has a bracket. -/
  same_bracket : (Line.contentOfRaw old).bracket.isSome = (LineParts.ofText old).inner.isSome
  /-- The new line defines no node. -/
  no_definition : (Line.ofText new).definedNode? = none
  /-- The new label is read as one. -/
  reads_back : EdgeLayout.ReadsBack (Bracket.splitParts (innerOf old)) (Text.trim label)
  /-- The part that it replaces did not draw anything. -/
  nothing_lost : EdgeLayout.DrawsNothing (Bracket.splitParts (innerOf old))
    (EdgeLayout.ofInner (innerOf old)).label

instance (old new label : Text) : Decidable (LabelShown old new label) :=
  decidable_of_iff
    ((Line.contentOfRaw old).bracket.isSome = (LineParts.ofText old).inner.isSome ∧
      (Line.ofText new).definedNode? = none ∧
      EdgeLayout.ReadsBack (Bracket.splitParts (innerOf old)) (Text.trim label) ∧
      EdgeLayout.DrawsNothing (Bracket.splitParts (innerOf old))
        (EdgeLayout.ofInner (innerOf old)).label)
    ⟨fun ⟨hsame, hnode, hback, hlost⟩ => ⟨hsame, hnode, hback, hlost⟩,
      fun ⟨hsame, hnode, hback, hlost⟩ => ⟨hsame, hnode, hback, hlost⟩⟩

/-- The inside of a bracket may stand in one. -/
theorem enclosed_innerOf {raw : Text} (hraw : '\n' ∉ raw) : Bracket.Enclosed (innerOf raw) := by
  have hparts := LineParts.ofText_spec raw
  obtain ⟨htight, hplain, hopen⟩ := hparts.inner_spec
  exact ⟨htight, hplain, hopen, fun hmem => hraw (hparts.subset.2 hmem)⟩

/-- The style that the compiler reads off the bracket of a text: its parts, each
without its backslashes. -/
theorem style_of_text (font : Text) {text : Text} (htext : Bracket.Enclosed text) :
    EdgeStyle.ofInner? font (some (unescape text)) =
      .ofBracket font (.ofParts ((Bracket.splitParts text).map unescape)) := by
  have hopen : '[' ∉ unescape text := by
    rw [mem_unescape (by decide)]
    exact htext.no_open
  unfold EdgeStyle.ofInner?
  dsimp only
  rw [Bracket.ofText_eq hopen, Bracket.splitParts_unescape]

/-- The line of an edge is drawn as the parts of its bracket say, also if it has
none. -/
theorem style_of_inner (font : Text) {raw : Text} {bracket : Option Text} (hraw : '\n' ∉ raw)
    (hinner : bracket.getD [] = unescape (innerOf raw)) :
    EdgeStyle.SameLine (.ofInner? font bracket)
      (.ofBracket font (.ofParts ((Bracket.splitParts (innerOf raw)).map unescape))) := by
  cases bracket with
  | none =>
      have hnil : innerOf raw = [] := unescape_eq_nil.mp hinner.symm
      rw [hnil]
      exact (EdgeStyle.sameLine_ofParts font []).symm
  | some text =>
      rw [Option.getD_some] at hinner
      rw [hinner, style_of_text font (enclosed_innerOf hraw)]
      exact ⟨rfl, rfl, rfl⟩

/-- A line that draws an edge with a label is an edge with that label in its
bracket. -/
private theorem exists_edge {font : Text} {n : Nat} {content : Content} {label : Text}
    (hne : content.edges font n ≠ []) (h : ∀ e ∈ content.edges font n, e.style.label = some label) :
    ∃ sources targets bracket, content = .edge sources targets bracket ∧
      (EdgeStyle.ofInner? font bracket).label = some label := by
  obtain ⟨e, he⟩ := List.exists_mem_of_ne_nil _ hne
  cases content with
  | edge sources targets bracket =>
      refine ⟨sources, targets, bracket, rfl, ?_⟩
      have hlabel := h e he
      simp only [Content.edges, List.mem_flatMap, List.mem_map] at he
      obtain ⟨source, -, target, -, rfl⟩ := he
      exact hlabel
  | _ => cases he

section Shown

variable (font : Text) (n : Nat) {old label sources targets : Text} {bracket : Option Text}
  (hold : '\n' ∉ old) (hlabel : Text.trim label ≠ []) (hescape : Text.hasPart "\\#" label = false)
  (hbreak : ∀ c ∈ label, Text.isBracketBreaker c = false)
  (h : Line.contentOfRaw old = .edge sources targets bracket)
  (hne : (Line.contentOfRaw old).edges font n ≠ [])

include hold hlabel hescape hbreak h hne

/-- Where the compiler reads the bracket that is written, what counts are the
styles. -/
private theorem relabelled_iff_styles
    (hreads :
    ReadsBracket (LineParts.ofText old) (relabelledInner old label) sources targets bracket)
    (hnode : (Line.ofText (relabelledEdge old label)).definedNode? = none) :
    Relabelled (Text.trim label) ((Line.contentOfRaw old).edges font n)
        ((Line.contentOfRaw (relabelledEdge old label)).edges font n) ↔
      EdgeLayout.ReadsBack (Bracket.splitParts (innerOf old)) (Text.trim label) ∧
        EdgeLayout.DrawsNothing (Bracket.splitParts (innerOf old))
          (EdgeLayout.ofInner (innerOf old)).label := by
  obtain ⟨hwritten, -, hsplit⟩ := relabelledInner_spec hold hlabel hbreak
  have hnew := style_of_text font hwritten
  rw [hsplit] at hnew
  have hsame := style_of_inner font hold hreads.inner_eq
  have hcontent : Line.contentOfRaw (relabelledEdge old label) = _ := hreads.content_eq hnode
  rw [h] at hne ⊢
  rw [hcontent, edges_relabelled font n hne,
    ← EdgeLayout.style_relabelled font (EdgeLayout.labelAt_ofInner (innerOf old)).1
      (Text.tight_trim label) hlabel (Text.hasPart_trim hescape) hnew]
  exact and_congr_right fun _ => ⟨fun hline => hline.trans hsame,
    fun hline => hline.trans hsame.symm⟩

/-- **When a line shows its new label.**  The conditions are about one old line
and one new line, and they are necessary: if one fails, the label or the line of
some edge differs. -/
theorem relabelled_iff :
    Relabelled (Text.trim label) ((Line.contentOfRaw old).edges font n)
        ((Line.contentOfRaw (relabelledEdge old label)).edges font n) ↔
      LabelShown old (relabelledEdge old label) label := by
  obtain ⟨hwritten, hfilled, -⟩ := relabelledInner_spec hold hlabel hbreak
  have hcases := content_rebracketed (LineParts.ofText_spec old) hold hwritten hfilled h
  have hstyles := relabelled_iff_styles font n hold hlabel hescape hbreak h hne
  have hbracket : (Line.contentOfRaw old).bracket = bracket := by
    rw [h]
    rfl
  constructor
  · intro heffect
    have hnew : (Line.contentOfRaw (relabelledEdge old label)).edges font n ≠ [] := by
      intro hnil
      have hdrawn := heffect.1
      rw [hnil, List.map_nil] at hdrawn
      exact hne (List.map_eq_nil_iff.mp hdrawn.symm)
    obtain ⟨s, t, b, hcontent, hlabelled⟩ := exists_edge hnew heffect.2
    have hnode : (Line.ofText (relabelledEdge old label)).definedNode? = none := by
      rw [Line.definedNode?_eq_none_iff, hcontent]
      exact nofun
    rcases hcases with hreads | ⟨-, hnone⟩
    · obtain ⟨hback, hdraws⟩ := (hstyles hreads hnode).mp heffect
      exact ⟨by rw [hbracket, hreads.isSome_eq], hnode, hback, hdraws⟩
    · rw [hnone s t b hcontent] at hlabelled
      cases hlabelled
  · intro hshown
    rcases hcases with hreads | ⟨hdiffer, -⟩
    · exact (hstyles hreads hshown.no_definition).mpr ⟨hshown.reads_back, hshown.nothing_lost⟩
    · exact absurd (by rw [← hbracket, hshown.same_bracket]) hdiffer

end Shown

end Edit

/-- **A new label of an edge.**  When the label of the edges of a line was
changed, the drawing shows the new label, and the old ends, colour, width and
style words, exactly when `LabelShown` holds of the line before and after. -/
theorem setEdge_label (t : Text) (font : Option Text) (n : Nat) (label : Text) {g : Graph}
    {out : Outcome} (hg : (compile t font).graph = some g) (hedges : g.edgesOf n ≠ [])
    (hlabel : Text.trim label ≠ []) (hescape : Text.hasPart "\\#" label = false)
    (hout : Edit.setEdge (Document.split t) (.ofInt n) { label := some (.text label) } = out)
    (hdone : out.patch.success = true) :
    ∃ g' old new, (compile (Document.join out.lines) font).graph = some g' ∧
      out.patch.before = some old ∧ out.patch.after = some new ∧
      (Relabelled (Text.trim label) (g.edgesOf n) (g'.edgesOf n) ↔
        Edit.LabelShown old new label) := by
  obtain ⟨index, old, sources, targets, bracket, rfl, hline, hedge, hbreak,
      hbefore, hafter, hlines⟩ :=
    Edit.setEdge_done hout hdone
  have hfree : ∀ raw ∈ Document.split t, '\n' ∉ raw := fun raw hraw => Document.not_mem_split hraw
  have hold : '\n' ∉ old := hfree old (List.mem_of_getElem? hline)
  have hnew := Edit.lineFeed_not_mem_relabelledEdge hold hlabel hbreak
  obtain ⟨again, hagain, hcontent⟩ := Document.content_replaced hfree hnew hline
  rw [← hlines] at hagain
  rw [graph_compile] at hg
  cases hg
  refine ⟨_, old, _, graph_compile _ font, hbefore, hafter, ?_⟩
  unfold Graph.edgesOf at hedges ⊢
  rw [Draft.edges_of_line _ hline] at hedges ⊢
  rw [Draft.edges_of_line _ hagain, hcontent]
  exact Edit.relabelled_iff _ _ hold hlabel hescape hbreak hedge hedges

/-- A label takes the place of the old one, next to a border and before a
comment. -/
theorem setEdge_label_replaced :
    ∃ g g', (compile "A -> B | C [old \\# 1 | 2px dashed] # so").graph = some g ∧
      (compile (Document.join (Edit.setEdge
        (Document.split "A -> B | C [old \\# 1 | 2px dashed] # so") (.ofInt 1)
        { label := some (.text " new # = red ") }).lines)).graph = some g' ∧
      Relabelled "new # = red" (g.edgesOf 1) (g'.edgesOf 1) := by
  obtain ⟨g', old, new, hg', hold, hnew, hshown⟩ :=
    setEdge_label "A -> B | C [old \\# 1 | 2px dashed] # so" none 1 " new # = red " rfl (by decide)
      (by decide) (by decide) rfl (by decide)
  obtain rfl : "A -> B | C [old \\# 1 | 2px dashed] # so".toList = old :=
    Option.some.inj (Eq.trans (by decide) hold)
  obtain rfl : "A -> B | C [label=new \\# = red | 2px dashed] # so".toList = new :=
    Option.some.inj (Eq.trans (by decide) hnew)
  exact ⟨_, g', rfl, hg', hshown.mpr (by decide)⟩

/-- A label that is a colour with a number sign is not taken for one when it is
written, and is drawn as one when it is read. -/
theorem setEdge_label_lost :
    ¬ ∀ (t : Text) (n : Nat) (label : Text) (g : Graph), (compile t).graph = some g →
      g.edgesOf n ≠ [] → Text.trim label ≠ [] → Text.hasPart "\\#" label = false →
      (Edit.setEdge (Document.split t) (.ofInt n)
        { label := some (.text label) }).patch.success = true →
      ∃ g', (compile (Document.join (Edit.setEdge (Document.split t) (.ofInt n)
          { label := some (.text label) }).lines)).graph = some g' ∧
        Relabelled (Text.trim label) (g.edgesOf n) (g'.edgesOf n) := by
  intro hall
  obtain ⟨g', hg', hdrawn, -⟩ :=
    hall "A -> B" 1 "#ff0000" _ rfl (by decide) (by decide) (by decide) (by decide)
  have hred : ((compile (Document.join (Edit.setEdge (Document.split "A -> B") (.ofInt (1 : Nat))
      { label := some (.text "#ff0000") }).lines)).graph.map fun g =>
        (g.edgesOf 1).map (·.style.colour)) = some [some "#ff0000".toList] := by
    decide
  rw [hg', Option.map_some, Option.some.injEq] at hred
  have hcolours := congrArg (List.map fun drawing => drawing.2.2.1) hdrawn
  rw [List.map_map, List.map_map] at hcolours
  exact absurd (hred.symm.trans hcolours) (by decide)

end LineDiagram
