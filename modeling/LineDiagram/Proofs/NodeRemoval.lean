import LineDiagram.Edit.Structure
import LineDiagram.Proofs.Addresses
import LineDiagram.Proofs.Document
import LineDiagram.Proofs.EdgeSides
import LineDiagram.Proofs.LineParts
import LineDiagram.Proofs.SingleLine
import Mathlib.Data.List.Infix

/-!
# Deleting a node

Deleting a node drops its definitions and takes its token off every edge line;
an edge line that loses a side goes.  What is left of an edge line is written
out from its tokens, which may say something else than before: a number sign in
a token opens a comment, a token may look like a marker, a definition or a
bracket.

* `contentOfRaw_shorten` — what a shortened edge line says, where none of that
  happens;
* `deleteNode_links` — the edges and the nodes of the compiled graph after the
  node is deleted.
-/

namespace LineDiagram

/-- An edge without its line. -/
def Edge.link (e : Edge) : Text × Text × EdgeStyle := (e.source, e.target, e.style)

/-- Whether a link neither starts nor ends at a node. -/
def avoids (id : Text) (link : Text × Text × EdgeStyle) : Bool :=
  !(link.1 == id) && !(link.2.1 == id)

namespace Content

/-- The links that a line draws. -/
def links (font : Text) (content : Content) : List (Text × Text × EdgeStyle) :=
  (content.edges font 0).map Edge.link

/-- The links of a line do not depend on its number. -/
theorem link_edges (font : Text) (number : Nat) (content : Content) :
    (content.edges font number).map Edge.link = content.links font := by
  cases content with
  | edge sources targets bracket =>
      simp only [links, edges, List.map_flatMap, List.map_map]
      rfl
  | _ => rfl

/-- An edge line links each node on the left with each node on the right, in one
style. -/
theorem links_edge (font sources targets : Text) (bracket : Option Text) :
    (Content.edge sources targets bracket).links font =
      (splitEndpoints sources).flatMap fun source => (splitEndpoints targets).map fun target =>
        (Identifier.ofToken source, Identifier.ofToken target, .ofInner? font bracket) := by
  simp only [links, edges, List.map_flatMap, List.map_map]
  rfl

end Content

namespace Draft

/-- The links of a document are those of its lines, in order, whatever numbers
the lines have. -/
theorem links_ofLines (font : Text) (lines : List Text) :
    (ofLines font lines).graph.edges.map Edge.link =
      (lines.map Line.contentOfRaw).flatMap (Content.links font) := by
  apply ofLines_induction font (P := fun lines d => d.graph.edges.map Edge.link =
    (lines.map Line.contentOfRaw).flatMap (Content.links font))
  · rfl
  · intro lines raw d h
    have hline : (Line.ofText raw).content = Line.contentOfRaw raw := rfl
    rw [edges_addLine, List.map_append, h, Content.link_edges, hline, List.map_append,
      List.map_singleton, List.flatMap_append, List.flatMap_singleton]

end Draft

/-! ## One line -/

/-- What is left of a line draws the links that avoid a node, and does not
mention it. -/
structure LeavesOut (font id : Text) (old : Content) (left : List Content) : Prop where
  links : left.flatMap (Content.links font) = (old.links font).filter (avoids id)
  mentions : ∀ content ∈ left, id ∉ content.mentions.map Identifier.ofToken

/-- The tokens of a side that do not stand for a node. -/
def keptTokens (id side : Text) : List Text :=
  (writtenEndpoints side).filter fun t => !isTokenOf id t

/-- The tokens that are kept are tokens of the side: each is one token, is not
empty and has no blanks around it. -/
theorem mem_keptTokens {id side token : Text} (h : token ∈ keptTokens id side) :
    Text.Tight token ∧ token ≠ [] ∧ '|' ∉ token := mem_writtenEndpoints (List.mem_filter.mp h).1

theorem oneLine_keptTokens {id side : Text} (h : Text.OneLine side) :
    ∀ token ∈ keptTokens id side, Text.OneLine token := by
  intro token htoken
  exact Text.oneLine_parts h token (List.mem_filter.mp htoken).1

/-- Whether a token stands for another node. -/
def isOther (id token : Text) : Bool := !(Identifier.ofToken token == id)

/-- The links between the other tokens of two sides are those that avoid the
node. -/
private theorem links_filter (id : Text) (style : EdgeStyle) (sources targets : List Text) :
    ((sources.filter (isOther id)).flatMap fun source =>
      (targets.filter (isOther id)).map fun target =>
        (Identifier.ofToken source, Identifier.ofToken target, style)) =
      (sources.flatMap fun source => targets.map fun target =>
        (Identifier.ofToken source, Identifier.ofToken target, style)).filter (avoids id) := by
  induction sources with
  | nil => rfl
  | cons source rest ih =>
      rw [List.flatMap_cons, List.filter_append, ← ih, List.filter_map, List.filter_cons]
      by_cases hsource : isOther id source = true
      · have hsame : avoids id ∘ (fun target =>
            (Identifier.ofToken source, Identifier.ofToken target, style)) = isOther id := by
          unfold isOther at hsource
          funext target
          simp only [Function.comp, avoids, hsource, Bool.true_and, isOther]
        rw [if_pos hsource, List.flatMap_cons, hsame]
      · have hnone : targets.filter (avoids id ∘ fun target =>
            (Identifier.ofToken source, Identifier.ofToken target, style)) = [] := by
          rw [List.filter_eq_nil_iff]
          intro target _
          unfold isOther at hsource
          simp only [Function.comp, avoids, hsource, Bool.false_and, Bool.false_eq_true,
            not_false_eq_true]
        rw [if_neg hsource, hnone, List.map_nil, List.nil_append]

/-- An edge between the other tokens of an edge draws the links that avoid the
node. -/
theorem leavesOut_sides (font : Text) {id sources targets sources' targets' : Text}
    {bracket bracket' : Option Text}
    (hsources : splitEndpoints sources' = (splitEndpoints sources).filter (isOther id))
    (htargets : splitEndpoints targets' = (splitEndpoints targets).filter (isOther id))
    (hstyle : EdgeStyle.ofInner? font bracket' = EdgeStyle.ofInner? font bracket) :
    LeavesOut font id (.edge sources targets bracket) [.edge sources' targets' bracket'] := by
  refine ⟨?_, ?_⟩
  · rw [List.flatMap_singleton, Content.links_edge, Content.links_edge, hstyle, hsources, htargets,
      links_filter]
  · intro content hcontent hmem
    rw [List.mem_singleton.mp hcontent] at hmem
    simp only [Content.mentions, hsources, htargets] at hmem
    split at hmem
    · simp at hmem
    · obtain ⟨token, htoken, heq⟩ := List.mem_map.mp hmem
      simp only [List.mem_flatMap, List.mem_cons, List.mem_filter, isOther, Bool.not_eq_true',
        beq_eq_false_iff_ne] at htoken
      obtain ⟨source, hsource, rfl | htarget⟩ := htoken
      · exact hsource.2 heq
      · exact htarget.2 heq

/-- An edge that goes has no tokens of other nodes on one of its sides, so each
of its links meets the node. -/
theorem leavesOut_none (font : Text) {id sources targets : Text} {bracket : Option Text}
    (h : (splitEndpoints sources).filter (isOther id) = [] ∨
      (splitEndpoints targets).filter (isOther id) = []) :
    LeavesOut font id (.edge sources targets bracket) [] := by
  refine ⟨?_, by simp⟩
  rw [Content.links_edge, ← links_filter]
  rcases h with hnone | hnone
  · rw [hnone]
    rfl
  · rw [hnone]
    simp

/-! ## Shortened edge lines -/

namespace Edit

/-- The tokens that are left of an edge line can be written out as they are
read. -/
structure ReadsBack (raw : Text) (sources targets : List Text) (bracket : Option Text) : Prop where
  /-- No number sign is in the tokens, where it would open a comment. -/
  signs : ∀ token ∈ sources ++ targets, '#' ∉ token
  /-- The first token does not make the line a marker. -/
  dashes : ¬ ['-', '-'] <+: sources.headD []
  /-- The first token does not make the line a definition. -/
  colons : ¬ [':', ':'] <:+: sources.headD []
  /-- The bracket of the raw line, which is kept, is the bracket of the edge. -/
  kept : (LineParts.ofText raw).inner.isSome = bracket.isSome
  /-- Without a bracket the targets do not end in one. -/
  bare : bracket.getD [] = [] → (Bracket.splitTrailing (Text.join " | " targets)).2 = none

instance (raw : Text) (sources targets : List Text) (bracket : Option Text) :
    Decidable (ReadsBack raw sources targets bracket) :=
  decidable_of_iff
    ((∀ token ∈ sources ++ targets, '#' ∉ token) ∧ ¬ ['-', '-'] <+: sources.headD [] ∧
      ¬ [':', ':'] <:+: sources.headD [] ∧ (LineParts.ofText raw).inner.isSome = bracket.isSome ∧
      (bracket.getD [] = [] → (Bracket.splitTrailing (Text.join " | " targets)).2 = none))
    ⟨fun ⟨signs, dashes, colons, kept, bare⟩ => ⟨signs, dashes, colons, kept, bare⟩,
      fun h => ⟨h.signs, h.dashes, h.colons, h.kept, h.bare⟩⟩

/-- The bracket of an edge is the bracket of the raw line without its
backslashes. -/
theorem bracket_eq {raw sources targets : Text} {bracket : Option Text} (hraw : '\n' ∉ raw)
    (hedge : Line.contentOfRaw raw = .edge sources targets bracket)
    (hsome : (LineParts.ofText raw).inner.isSome = bracket.isSome) :
    bracket = (LineParts.ofText raw).inner.map Comment.unescape := by
  have hparts := LineParts.ofText_spec raw
  cases hparts.shape with
  | bare hbody hinner hend =>
      rw [hinner] at hsome ⊢
      cases bracket with
      | none => rfl
      | some inside => cases hsome
  | bracketed inside hbody hopen hinner =>
      have hline : '\n' ∉ LineParts.body raw := fun hmem => hraw (hparts.body_subset hmem)
      rw [hbody] at hline
      simp only [List.mem_append, List.mem_cons, not_or] at hline
      have hlineInside : '\n' ∉ Comment.unescape inside ∧ '[' ∉ Comment.unescape inside :=
        ⟨fun hmem => hline.2.2.1 ((Comment.mem_unescape (by decide)).mp hmem),
          fun hmem => hopen ((Comment.mem_unescape (by decide)).mp hmem)⟩
      have hstem :
          '\n' ∉ Text.trimStart (Comment.unescape (LineParts.ofText raw).before) := fun hmem =>
        hline.1 ((Comment.mem_unescape (by decide)).mp (Text.mem_of_mem_trimStart hmem))
      unfold Line.contentOfRaw at hedge
      rw [LineParts.strip_eq_body, hbody, LineParts.code_bracketed] at hedge
      rw [hinner] at hsome ⊢
      rcases Line.contentOf_rebracket hstem hlineInside hlineInside hedge with ⟨hsame, -⟩ | ⟨rfl, -⟩
      · rw [hsame, Option.map_some, Comment.trim_unescape]
      · cases hsome

/-- The sides that are written are the only text before the bracket. -/
theorem writeSides_eq (raw : Text) (sources targets : List Text) :
    writeSides raw sources targets = Text.margin raw ++
      (Text.join " | " sources ++ ' ' :: '-' :: '>' :: ' ' :: Text.join " | " targets) := by
  unfold writeSides
  simp

section Shorten

variable {raw code : Text} {sources targets : List Text} {bracket : Option Text}

/-- The code of a line that is put together anew and has no bracket. -/
theorem strip_bare {inner : Option Text} (htight : Text.Tight code) (hsigns : '#' ∉ code)
    (hempty : inner.getD [] = []) :
    Comment.strip ((LineParts.ofText raw).assemble inner
      (some ((LineParts.ofText raw).spaced (Text.margin raw ++ code)))) = code := by
  have hparts := LineParts.ofText_spec raw
  have hmargin := Text.allBlank_margin raw
  generalize LineParts.ofText raw = parts at *
  obtain ⟨gap, hblank, hspaced⟩ :
      ∃ gap, Text.AllBlank gap ∧ parts.spaced (Text.margin raw ++ code) =
      Text.margin raw ++ code ++ gap := by
    unfold LineParts.spaced
    split
    · exact ⟨[' '], Text.allBlank_singleton (by decide), rfl⟩
    · exact ⟨[], Text.allBlank_nil, by simp⟩
  have hnew : parts.newCode (inner.getD []) (parts.spaced (Text.margin raw ++ code)) =
      Text.trimEnd (Text.margin raw ++ code ++ gap) := by
    unfold LineParts.newCode
    rw [hempty, hspaced]
    rfl
  have hend : '#' ∉ Text.trimEnd (Text.margin raw ++ code ++ gap) := by
    intro hmem
    have hin := Text.mem_of_mem_trimEnd hmem
    simp only [List.mem_append] at hin
    rcases hin with (hin | hin) | hin
    · exact hmargin.not_mem (by decide) hin
    · exact hsigns hin
    · exact hblank.not_mem (by decide) hin
  rw [LineParts.strip_assemble hparts (by
    rw [Option.getD_some, hnew]
    exact Comment.plain_of_not_mem hend), Option.getD_some, hnew,
    Comment.unescape_of_not_mem hend, Text.trim_trimEnd, Text.trim_of_blanks_around hmargin hblank,
    Text.trim_of_tight htight]

/-- The code of a line that is put together anew and has a bracket, as it had
before. -/
theorem strip_bracketed {inner : Text} (htight : Text.Tight code) (hne : code ≠ [])
    (hsigns : '#' ∉ code)
    (hsome : (LineParts.ofText raw).inner.isSome = true) (hinner : Bracket.Enclosed inner)
    (hfilled : inner ≠ []) :
    Comment.strip ((LineParts.ofText raw).assemble (some inner)
      (some ((LineParts.ofText raw).spaced (Text.margin raw ++ code)))) =
        code ++ ' ' :: '[' :: (Comment.unescape inner ++ [']']) := by
  have hparts := LineParts.ofText_spec raw
  have hmargin := Text.allBlank_margin raw
  generalize LineParts.ofText raw = parts at *
  have hspaced : parts.spaced (Text.margin raw ++ code) = Text.margin raw ++ code ++ [' '] := by
    unfold LineParts.spaced
    rw [hsome]
    rfl
  have hbefore : '#' ∉ Text.margin raw ++ code ++ [' '] := by
    simp only [List.mem_append, not_or]
    exact ⟨⟨hmargin.not_mem (by decide), hsigns⟩, by decide⟩
  have hnew : parts.newCode inner (parts.spaced (Text.margin raw ++ code)) =
      Text.margin raw ++ code ++ [' '] ++ '[' :: (inner ++ [']']) := by
    have hnone : parts.inner.isNone = false := by rw [← Option.not_isSome, hsome]; rfl
    unfold LineParts.newCode
    rw [Text.trim_of_tight hinner.tight, hspaced, hnone]
    simp [hfilled]
  have hplain : Comment.Plain (Text.margin raw ++ code ++ [' '] ++ '[' :: (inner ++ [']'])) := by
    have hopen : Comment.Plain ['['] := Comment.plain_of_not_mem (by decide)
    exact (Comment.plain_of_not_mem hbefore).append
      (hopen.append (hinner.plain.append (Comment.plain_of_not_mem (by decide))))
  have hstart : ¬ Text.AllBlank code := by
    intro hall
    rw [← Text.trim_eq_nil, Text.trim_of_tight htight] at hall
    exact hne hall
  rw [LineParts.strip_assemble hparts (by
    rw [Option.getD_some, Option.getD_some, hnew]
    exact hplain), Option.getD_some, Option.getD_some, hnew, LineParts.code_bracketed,
    Comment.unescape_of_not_mem hbefore, List.append_assoc, Text.trimStart_of_blank_append hmargin,
    Text.trimStart_append hstart, Text.trimStart_eq_self htight.start]
  simp

/-- Sides that are written anew without a bracket are read again, if the targets
do not end in one. -/
theorem contentOfRaw_bare {inner : Option Text} (h : ReadableSides sources targets)
    (hempty : inner.getD [] = [])
    (hnone : (Bracket.splitTrailing (Text.join " | " targets)).2 = none) :
    Line.contentOfRaw ((LineParts.ofText raw).assemble inner
        (some ((LineParts.ofText raw).spaced (writeSides raw sources targets)))) =
      .edge (Text.join " | " sources) (Text.join " | " targets) none := by
  obtain ⟨htight, hsigns⟩ := sides_code h.left h.right h.signs
  unfold Line.contentOfRaw
  rw [writeSides_eq, strip_bare htight hsigns hempty]
  exact h.contentOf_bare hnone

/-- Sides that are written anew before a bracket are read again, and so is the
bracket. -/
theorem contentOfRaw_bracketed {inner : Text} (h : ReadableSides sources targets)
    (hsome : (LineParts.ofText raw).inner.isSome = true) (hinner : Bracket.Enclosed inner)
    (hfilled : inner ≠ []) :
    Line.contentOfRaw ((LineParts.ofText raw).assemble (some inner)
        (some ((LineParts.ofText raw).spaced (writeSides raw sources targets)))) =
      .edge (Text.join " | " sources) (Text.join " | " targets)
        (some (Comment.unescape inner)) := by
  obtain ⟨htight, hsigns⟩ := sides_code h.left h.right h.signs
  have hread : '\n' ∉ Comment.unescape inner ∧ '[' ∉ Comment.unescape inner :=
    ⟨fun hmem => hinner.one_line ((Comment.mem_unescape (by decide)).mp hmem),
      fun hmem => hinner.no_open ((Comment.mem_unescape (by decide)).mp hmem)⟩
  unfold Line.contentOfRaw
  rw [writeSides_eq, strip_bracketed htight (by simp) hsigns hsome hinner hfilled,
    h.contentOf_bracketed hread, Comment.trim_unescape, Text.trim_of_tight hinner.tight]

/-- What stands in the bracket of a raw line may stand there again. -/
theorem enclosed_inner (hraw : '\n' ∉ raw) :
    Bracket.Enclosed ((LineParts.ofText raw).inner.getD []) := by
  have hparts := LineParts.ofText_spec raw
  obtain ⟨htight, hplain, hopen⟩ := hparts.inner_spec
  exact ⟨htight, hplain, hopen, fun hmem => hraw (hparts.subset.2 hmem)⟩

/-- **Sides that are written anew are read again**, with the bracket that the
raw line has. -/
theorem contentOfRaw_writeSides (hsources : IsSide sources) (htargets : IsSide targets)
    (harrow : ArrowFree (Text.join " | " sources).tail) (hraw : '\n' ∉ raw)
    (hback : ReadsBack raw sources targets bracket)
    (hbracket : bracket = (LineParts.ofText raw).inner.map Comment.unescape) (font : Text) :
    ∃ bracket', Line.contentOfRaw ((LineParts.ofText raw).assemble (LineParts.ofText raw).inner
        (some ((LineParts.ofText raw).spaced (writeSides raw sources targets)))) =
        .edge (Text.join " | " sources) (Text.join " | " targets) bracket' ∧
      EdgeStyle.ofInner? font bracket' = EdgeStyle.ofInner? font bracket := by
  have hsides : ReadableSides sources targets :=
    ⟨hsources, htargets, harrow, hback.signs, hback.dashes, Line.not_cut_of_colons hback.colons⟩
  have henclosed := enclosed_inner hraw
  cases hinner : (LineParts.ofText raw).inner with
  | none =>
      rw [hinner, Option.map_none] at hbracket
      exact ⟨none,
        contentOfRaw_bare hsides rfl (hback.bare (by rw [hbracket]; rfl)), by rw [hbracket]⟩
  | some inner =>
      rw [hinner, Option.map_some] at hbracket
      rw [hinner, Option.getD_some] at henclosed
      by_cases hfilled : inner = []
      · -- a bracket with nothing in it is not written again, and styles nothing
        exact ⟨none, contentOfRaw_bare hsides hfilled (hback.bare (by rw [hbracket, hfilled]; rfl)),
          by rw [hbracket, hfilled]; rfl⟩
      · exact ⟨_,
          contentOfRaw_bracketed hsides (by rw [hinner]; rfl) henclosed hfilled, by rw [hbracket]⟩

end Shorten

/-- **A shortened edge line** says an edge between the tokens that are left,
with the same style. -/
theorem contentOfRaw_shorten {id raw sources targets : Text} {bracket : Option Text}
    (hraw : '\n' ∉ raw) (hedge : Line.contentOfRaw raw = .edge sources targets bracket)
    (hsources : keptTokens id sources ≠ []) (htargets : keptTokens id targets ≠ [])
    (hback : ReadsBack raw (keptTokens id sources) (keptTokens id targets) bracket) (font : Text) :
    ∃ bracket', Line.contentOfRaw ((LineParts.ofText raw).assemble (LineParts.ofText raw).inner
        (some ((LineParts.ofText raw).spaced
          (writeSides raw (keptTokens id sources) (keptTokens id targets))))) =
        .edge (Text.join " | " (keptTokens id sources)) (Text.join " | " (keptTokens id targets))
          bracket' ∧
      EdgeStyle.ofInner? font bracket' = EdgeStyle.ofInner? font bracket := by
  have hcodeLine : '\n' ∉ Comment.strip raw := Line.oneLine_strip hraw
  have honeLine : (Line.contentOf (Comment.strip raw)).OneLine := Line.oneLine_contentOf hcodeLine
  have hlines : '\n' ∉ sources ∧ '\n' ∉ targets := by
    unfold Line.contentOfRaw at hedge
    rw [hedge] at honeLine
    exact ⟨honeLine.1, honeLine.2.1⟩
  have hside : ∀ {side : Text}, '\n' ∉ side → keptTokens id side ≠ [] →
      IsSide (keptTokens id side) := by
    intro side hside hne
    exact ⟨hne, fun token htoken => ⟨(mem_keptTokens htoken).1, (mem_keptTokens htoken).2.1⟩,
      oneLine_keptTokens hside⟩
  obtain ⟨-, -, -, side, value, harrow, hsources', -⟩ := Line.contentOf_eq_edge_iff.mp hedge
  obtain ⟨hsideTight, hsideArrow⟩ := Line.arrowFree_sources hcodeLine (Text.tight_trim _) harrow
  rw [Text.trim_of_tight hsideTight] at hsources'
  subst hsources'
  have harrowFree : ArrowFree (Text.join " | " (keptTokens id sources)).tail :=
    ((arrowless_parts hsideTight hsideArrow).filter _).join fun token htoken =>
      (mem_keptTokens htoken).2.1
  exact contentOfRaw_writeSides (hside hlines.1 hsources) (hside hlines.2 htargets)
    harrowFree hraw hback
    (bracket_eq hraw hedge hback.kept) font

/-- When a node is taken out of a line, the rest of it can be written out as it
is read. -/
def Shortenable (id raw : Text) : Prop :=
  match Line.contentOfRaw raw, NodeDeletion.ofLine id raw with
  | .edge sources targets bracket, .shorten _ =>
      ReadsBack raw (keptTokens id sources) (keptTokens id targets) bracket
  | _, _ => True

instance (id raw : Text) : Decidable (Shortenable id raw) := by
  unfold Shortenable
  split
  · infer_instance
  · infer_instance

/-- A line that draws and mentions nothing stays. -/
private theorem leavesOut_silent {font id raw : Text} {content : Content}
    (hkeep : NodeDeletion.ofLine id raw = .keep) (hcontent : Line.contentOfRaw raw = content)
    (hlinks : content.links font = []) (hmentions : content.mentions = []) :
    LeavesOut font id content
      (((NodeDeletion.ofLine id raw).linesLeft raw).map Line.contentOfRaw) := by
  rw [hkeep]
  simp only [NodeDeletion.linesLeft, List.map_singleton, hcontent]
  refine ⟨?_, ?_⟩
  · rw [List.flatMap_singleton, hlinks]
    rfl
  · intro left hleft
    rw [List.mem_singleton.mp hleft, hmentions]
    simp

/-- An edge line: it stays, goes, or is shortened, and the links that are left
are those that avoid the node. -/
theorem leavesOut_edge {id raw sources targets : Text} {bracket : Option Text}
    (hid : Identifier.ofToken id = Text.trim id) (hraw : '\n' ∉ raw)
    (hcontent : Line.contentOfRaw raw = .edge sources targets bracket)
    (hback : Shortenable (Text.trim id) raw) (font : Text) :
    LeavesOut font (Text.trim id) (.edge sources targets bracket)
      (((NodeDeletion.ofLine (Text.trim id) raw).linesLeft raw).map Line.contentOfRaw) := by
  have hkept : ∀ side : Text, splitEndpoints (Text.join " | " (keptTokens (Text.trim id) side)) =
      (splitEndpoints side).filter (isOther (Text.trim id)) := splitEndpoints_kept hid
  have hall : ∀ side : Text, keptTokens (Text.trim id) side = writtenEndpoints side →
      splitEndpoints side = (splitEndpoints side).filter (isOther (Text.trim id)) := by
    intro side hsame
    rw [← hkept, hsame, splitEndpoints_eq, splitEndpoints_eq,
      writtenEndpoints_join (fun token htoken => mem_writtenEndpoints htoken)]
  have hshape : NodeDeletion.ofLine (Text.trim id) raw =
      if keptTokens (Text.trim id) sources == writtenEndpoints sources &&
        keptTokens (Text.trim id) targets == writtenEndpoints targets then .keep
      else if (keptTokens (Text.trim id) sources).isEmpty ||
        (keptTokens (Text.trim id) targets).isEmpty then .dropEdge
      else .shorten ((LineParts.ofText raw).assemble (LineParts.ofText raw).inner
        (some ((LineParts.ofText raw).spaced (writeSides raw (keptTokens (Text.trim id) sources)
          (keptTokens (Text.trim id) targets))))) := by
    simp only [NodeDeletion.ofLine, hcontent]
    rfl
  by_cases hsame : (keptTokens (Text.trim id) sources == writtenEndpoints sources &&
      keptTokens (Text.trim id) targets == writtenEndpoints targets) = true
  · rw [hshape, if_pos hsame]
    simp only [Bool.and_eq_true, beq_iff_eq] at hsame
    simp only [NodeDeletion.linesLeft, List.map_singleton, hcontent]
    exact leavesOut_sides font (hall sources hsame.1) (hall targets hsame.2) rfl
  · rw [if_neg hsame] at hshape
    by_cases hempty : ((keptTokens (Text.trim id) sources).isEmpty ||
        (keptTokens (Text.trim id) targets).isEmpty) = true
    · rw [hshape, if_pos hempty]
      apply leavesOut_none
      rw [← hkept, ← hkept]
      simp only [Bool.or_eq_true, List.isEmpty_iff] at hempty
      rcases hempty with hnil | hnil
      · exact Or.inl (by rw [hnil]; rfl)
      · exact Or.inr (by rw [hnil]; rfl)
    · rw [if_neg hempty] at hshape
      have hreads : ReadsBack raw (keptTokens (Text.trim id) sources)
          (keptTokens (Text.trim id) targets) bracket := by
        unfold Shortenable at hback
        rw [hcontent, hshape] at hback
        exact hback
      simp only [Bool.or_eq_true, List.isEmpty_iff, not_or] at hempty
      obtain ⟨bracket', hnew, hstyle⟩ :=
        contentOfRaw_shorten hraw hcontent hempty.1 hempty.2 hreads font
      rw [hshape]
      simp only [NodeDeletion.linesLeft, List.map_singleton, hnew]
      exact leavesOut_sides font (hkept sources) (hkept targets) hstyle

/-- **One line**: what deleting a node leaves of it.  The line is kept, dropped
or shortened, and in each case the links that avoid the node are drawn as
before. -/
theorem leavesOut_ofLine {id raw : Text} (hid : Identifier.ofToken id = Text.trim id)
    (hraw : '\n' ∉ raw) (hback : Shortenable (Text.trim id) raw) (font : Text) :
    LeavesOut font (Text.trim id) (Line.contentOfRaw raw)
      (((NodeDeletion.ofLine (Text.trim id) raw).linesLeft raw).map Line.contentOfRaw) := by
  cases hcontent : Line.contentOfRaw raw with
  | edge sources targets bracket => exact leavesOut_edge hid hraw hcontent hback font
  | node token label bracket =>
      by_cases htoken : (Identifier.ofToken token == Text.trim id) = true
      · simp only [NodeDeletion.ofLine, hcontent, if_pos htoken,
          NodeDeletion.linesLeft, List.map_nil]
        exact ⟨rfl, by simp⟩
      · simp only [NodeDeletion.ofLine, hcontent, if_neg htoken, NodeDeletion.linesLeft,
          List.map_singleton]
        refine ⟨rfl, ?_⟩
        intro content hmem hmention
        rw [List.mem_singleton.mp hmem] at hmention
        have heq : Text.trim id = Identifier.ofToken token := List.mem_singleton.mp hmention
        exact htoken (by rw [heq]; exact beq_self_eq_true _)
  | marker depth label bracket =>
      exact leavesOut_silent (by simp only [NodeDeletion.ofLine, hcontent]) hcontent rfl rfl
  | setting phrase known value =>
      exact leavesOut_silent (by simp only [NodeDeletion.ofLine, hcontent]) hcontent rfl rfl
  | blank => exact leavesOut_silent (by simp only [NodeDeletion.ofLine, hcontent]) hcontent rfl rfl
  | unrecognised =>
    exact leavesOut_silent (by simp only [NodeDeletion.ofLine, hcontent]) hcontent rfl rfl

/-! ## The document that is left -/

/-- Deleting a node leaves of the lines what it leaves of each of them, also
when it is refused. -/
theorem lines_deleteNode (lines : List Text) (id : Text) : (deleteNode lines id).lines =
    lines.flatMap fun raw => (NodeDeletion.ofLine (Text.trim id) raw).linesLeft raw := by
  have hzip : ∀ lines : List Text,
      (lines.zip (lines.map (NodeDeletion.ofLine (Text.trim id)))).flatMap
        (fun p => p.2.linesLeft p.1) =
      lines.flatMap fun raw => (NodeDeletion.ofLine (Text.trim id) raw).linesLeft raw := by
    intro lines
    induction lines with
    | nil => rfl
    | cons raw lines ih => simp only [List.map_cons, List.zip_cons_cons, List.flatMap_cons, ih]
  unfold deleteNode
  dsimp only
  split
  · -- nothing is changed, so every line stays
    rename_i hchanges
    rw [List.isEmpty_iff, List.filterMap_eq_nil_iff] at hchanges
    have hkeep : ∀ raw ∈ lines, NodeDeletion.ofLine (Text.trim id) raw = .keep := by
      intro raw hraw
      obtain ⟨i, hi⟩ := List.mem_iff_getElem?.mp hraw
      have hnone :=
        hchanges ((NodeDeletion.ofLine (Text.trim id) raw).change? (Text.trim id) (i + 1)) (by
        rw [List.mem_iff_getElem?]
        refine ⟨i, ?_⟩
        rw [List.getElem?_mapIdx, List.getElem?_map, hi]
        rfl)
      cases hdeletion : NodeDeletion.ofLine (Text.trim id) raw with
      | keep => rfl
      | dropDefinition => simp [hdeletion, NodeDeletion.change?] at hnone
      | dropEdge => simp [hdeletion, NodeDeletion.change?] at hnone
      | shorten line => simp [hdeletion, NodeDeletion.change?] at hnone
    have hsame : lines.flatMap (fun raw => (NodeDeletion.ofLine (Text.trim id) raw).linesLeft raw) =
        lines.flatMap fun raw => [raw] := by
      rw [List.flatMap_def, List.flatMap_def]
      congr 1
      apply List.map_congr_left
      intro raw hraw
      rw [hkeep raw hraw]
      rfl
    rw [hsame, List.flatMap_singleton']
    rfl
  · exact hzip lines

/-- Sides that are written anew hold a line feed only where a token does. -/
theorem oneLine_writeSides {raw : Text} (hraw : Text.OneLine raw) {sources targets : List Text}
    (hsources : ∀ token ∈ sources, Text.OneLine token)
    (htargets : ∀ token ∈ targets, Text.OneLine token) :
    Text.OneLine (writeSides raw sources targets) := by
  have hmargin : Text.OneLine (Text.margin raw) := hraw.sublist (List.takeWhile_sublist _)
  unfold writeSides
  simp only [Text.oneLine_append]
  exact ⟨⟨⟨hmargin, Text.oneLine_join (by decide) hsources⟩, by decide⟩,
    Text.oneLine_join (by decide) htargets⟩

/-- Deleting a node puts no line feed into a line. -/
theorem oneLine_linesLeft {id raw : Text} (hraw : Text.OneLine raw) :
    ∀ left ∈ (NodeDeletion.ofLine id raw).linesLeft raw, Text.OneLine left := by
  have hcontent : (Line.contentOfRaw raw).OneLine :=
    Line.oneLine_contentOf (Line.oneLine_strip hraw)
  have hparts := LineParts.ofText_spec raw
  unfold NodeDeletion.ofLine
  split
  · split <;> simp [NodeDeletion.linesLeft, hraw]
  · rename_i sources targets bracket hedge
    rw [hedge] at hcontent
    dsimp only
    split
    · simp [NodeDeletion.linesLeft, hraw]
    · split
      · simp [NodeDeletion.linesLeft]
      · intro left hleft
        rw [NodeDeletion.linesLeft, List.mem_singleton] at hleft
        subst hleft
        have hsides :
            Text.OneLine (writeSides raw (keptTokens id sources) (keptTokens id targets)) :=
          oneLine_writeSides hraw (oneLine_keptTokens hcontent.1) (oneLine_keptTokens hcontent.2.1)
        refine LineParts.lineFeed_not_mem_assemble hparts hraw
          (fun hmem => hraw (hparts.subset.2 hmem)) ?_
        rw [Option.getD_some]
        unfold LineParts.spaced
        split
        · exact Text.oneLine_append.mpr ⟨hsides, by decide⟩
        · exact hsides
  · simp [NodeDeletion.linesLeft, hraw]

/-- **All lines**: what deleting a node leaves of them draws the links that
avoid it, in order, and does not mention it. -/
theorem leavesOut_lines {font id : Text} {lines : List Text}
    (hlines : ∀ raw ∈ lines, LeavesOut font id (Line.contentOfRaw raw)
      (((NodeDeletion.ofLine id raw).linesLeft raw).map Line.contentOfRaw)) :
    ((lines.flatMap fun raw => (NodeDeletion.ofLine id raw).linesLeft raw).map
        Line.contentOfRaw).flatMap (Content.links font) =
      ((lines.map Line.contentOfRaw).flatMap (Content.links font)).filter (avoids id) ∧
    id ∉ ((lines.flatMap fun raw => (NodeDeletion.ofLine id raw).linesLeft raw).map
        Line.contentOfRaw).flatMap fun content => content.mentions.map Identifier.ofToken := by
  induction lines with
  | nil => simp
  | cons raw lines ih =>
      obtain ⟨hlinks, hmentions⟩ := ih fun raw hraw => hlines raw (List.mem_cons_of_mem _ hraw)
      have hfirst := hlines raw List.mem_cons_self
      rw [List.flatMap_cons, List.map_append, List.flatMap_append,
        List.flatMap_append, hfirst.links, hlinks]
      refine ⟨by rw [List.map_cons, List.flatMap_cons, List.filter_append], ?_⟩
      rw [List.mem_append, not_or]
      refine ⟨fun hmem => ?_, hmentions⟩
      obtain ⟨content, hcontent, hid⟩ := List.mem_flatMap.mp hmem
      exact hfirst.mentions content hcontent hid

end Edit

/-- **A deleted node takes its own links along and no others.**  After the
deletion the node is gone, and the edges are those of before that neither start
nor end at it, in order, with their styles. -/
theorem deleteNode_links (t : Text) (font : Option Text) {id : Text}
    (hid : Identifier.ofToken id = Text.trim id)
    (hback : ∀ raw ∈ Document.split t, Edit.Shortenable (Text.trim id) raw) :
    ∃ g g', (compile t font).graph = some g ∧
      (compile (Document.join (Edit.deleteNode (Document.split t) id).lines) font).graph = some g' ∧
      Text.trim id ∉ g'.ids ∧
      g'.edges.map Edge.link = (g.edges.map Edge.link).filter (avoids (Text.trim id)) := by
  have hlines : ∀ raw ∈ Document.split t, Text.OneLine raw :=
    fun raw hraw => Document.not_mem_split hraw
  obtain ⟨hlinks, hmentions⟩ := Edit.leavesOut_lines fun raw hraw =>
    Edit.leavesOut_ofLine hid (hlines raw hraw) (hback raw hraw)
      ((filled? font).getD Label.defaultFont)
  have hleft : ∀ left ∈ (Edit.deleteNode (Document.split t) id).lines, '\n' ∉ left := by
    intro left hleft
    rw [Edit.lines_deleteNode] at hleft
    obtain ⟨raw, hraw, hmem⟩ := List.mem_flatMap.mp hleft
    exact Edit.oneLine_linesLeft (hlines raw hraw) left hmem
  refine ⟨_, _, graph_compile t font, graph_compile _ font, ?_, ?_⟩
  · rw [Draft.mem_ids_ofLines, Document.flatMap_contents hleft rfl, Edit.lines_deleteNode]
    exact hmentions
  · rw [Draft.links_ofLines, Draft.links_ofLines, Document.flatMap_contents hleft rfl,
      Edit.lines_deleteNode]
    exact hlinks

/-- The other ends of a line stay, with its bracket and its comment. -/
theorem deleteNode_links_of_shared_line :
    (Edit.deleteNode (Document.split "A:: X\nA | Free text -> C | D [red, calls] # A \\#1\nC -> A")
        "A").lines = ["Free text -> C | D [red, calls] # A \\#1".toList] ∧
    ∃ g g', (compile "A:: X\nA | Free text -> C | D [red, calls] # A \\#1\nC -> A").graph = some g ∧
      (compile (Document.join (Edit.deleteNode (Document.split
        "A:: X\nA | Free text -> C | D [red, calls] # A \\#1\nC -> A") "A").lines)).graph =
          some g' ∧
      "A".toList ∉ g'.ids ∧
      g'.edges.map Edge.link = (g.edges.map Edge.link).filter (avoids "A") :=
  ⟨by decide +kernel, deleteNode_links _ none (by decide +kernel) (by decide +kernel)⟩

/-- A number sign that a backslash keeps in a token is written out without it,
and the rest of the line becomes a comment: the links of the other tokens are
lost. -/
theorem deleteNode_loses_links :
    ¬ ∀ t id : Text, Identifier.ofToken id = Text.trim id →
      (Edit.deleteNode (Document.split t) id).patch.success = true →
      ∃ g g', (compile t).graph = some g ∧
        (compile (Document.join (Edit.deleteNode (Document.split t) id).lines)).graph = some g' ∧
        Text.trim id ∉ g'.ids ∧
        g'.edges.map Edge.link = (g.edges.map Edge.link).filter (avoids (Text.trim id)) := by
  intro hall
  obtain ⟨g, g', hg, hg', -, hlinks⟩ :=
    hall "A | B \\#1 -> C" "A" (by decide +kernel) (by decide +kernel)
  have hbefore : (compile "A | B \\#1 -> C").graph.map
      (fun g => ((g.edges.map Edge.link).filter (avoids "A")).length) = some 1 := by decide +kernel
  have hafter : (compile (Document.join (Edit.deleteNode (Document.split "A | B \\#1 -> C")
      "A").lines)).graph.map (fun g => (g.edges.map Edge.link).length) = some 0 := by decide +kernel
  rw [hg, Option.map_some, Option.some.injEq] at hbefore
  rw [hg', Option.map_some, Option.some.injEq, hlinks] at hafter
  exact absurd (hbefore.symm.trans hafter) (by decide)

end LineDiagram
