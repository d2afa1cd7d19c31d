import LineDiagram.Proofs.LineParts
import LineDiagram.Proofs.Reading
import LineDiagram.Proofs.SingleLine

/-!
# One bracket, cut twice

An editor cuts the bracket off the raw line, with its backslashes and blanks.
The reader of a line takes the code first, finds out what kind of line it is,
and cuts the bracket off the last part of it.  Both find the bracket that ends
the code: what stands before the last part opens no bracket, unless the head of
the line does.

* `splitTrailing_append`, `splitTrailing_trimmed` — the bracket of a text is
  that of its end;
* `inner_eq_splitTrailing` — the bracket that an editor cuts is that of the
  code;
* `splitTrailing_of_marker`, `splitTrailing_of_node`, `splitTrailing_of_edge` —
  so is the one that is read;
* `bracket_eq_inner` — the two are the same, but for backslashes.
-/

namespace LineDiagram

/-! ## The bracket of a text -/

namespace Text

/-- Text in front without the character does not move the last cut; it is added
to what stands before it. -/
theorem cutLast?_append_left {c : Char} {front : Text} (h : c ∉ front) (t : Text) :
    cutLast? c (front ++ t) = (cutLast? c t).map fun cut => (front ++ cut.1, cut.2) := by
  cases hcut : cutLast? c t with
  | none =>
      rw [Option.map_none, cutLast?_eq_none_iff, List.mem_append, not_or]
      exact ⟨h, cutLast?_eq_none_iff.mp hcut⟩
  | some cut =>
      obtain ⟨rfl, hrest⟩ := cutLast?_eq_some_iff.mp hcut
      rw [Option.map_some, cutLast?_eq_some_iff, List.append_assoc]
      exact ⟨rfl, hrest⟩

/-- Text at the end without the character does not move the last cut; it is
added to what stands behind it. -/
theorem cutLast?_append_right {c : Char} {back : Text} (h : c ∉ back) (t : Text) :
    cutLast? c (t ++ back) = (cutLast? c t).map fun cut => (cut.1, cut.2 ++ back) := by
  cases hcut : cutLast? c t with
  | none =>
      rw [Option.map_none, cutLast?_eq_none_iff, List.mem_append, not_or]
      exact ⟨cutLast?_eq_none_iff.mp hcut, h⟩
  | some cut =>
      obtain ⟨rfl, hrest⟩ := cutLast?_eq_some_iff.mp hcut
      rw [Option.map_some, cutLast?_eq_some_iff, List.append_assoc, List.cons_append,
        List.mem_append, not_or]
      exact ⟨rfl, hrest, h⟩

end Text

namespace Bracket

/-- What stands before the last part of a text and opens no bracket does not
change the bracket. -/
theorem splitTrailing_append {front : Text} (h : '[' ∉ front) (t : Text) :
    (splitTrailing (front ++ t)).2 = (splitTrailing t).2 := by
  unfold splitTrailing
  rw [Text.cutLast?_append_left h]
  cases Text.cutLast? '[' t with
  | none => rfl
  | some cut =>
      dsimp only [Option.map_some]
      split <;> rfl

/-- Blanks behind a text do not change which bracket ends it. -/
theorem splitTrailing_append_blank {back : Text} (h : Text.AllBlank back) (t : Text) :
    (splitTrailing (t ++ back)).2 = (splitTrailing t).2 := by
  unfold splitTrailing
  rw [Text.cutLast?_append_right (h.not_mem (by decide))]
  cases Text.cutLast? '[' t with
  | none => rfl
  | some cut =>
      dsimp only [Option.map_some]
      rw [Text.trimEnd_append_blank h]
      split <;> rfl

/-- Blanks around a text do not change its bracket. -/
theorem splitTrailing_trimmed (t : Text) :
    (splitTrailing (Text.trim t)).2 = (splitTrailing t).2 := by
  obtain ⟨a, b, ht, ha, hb⟩ := Text.exists_trim t
  conv_rhs => rw [ht, splitTrailing_append_blank hb, splitTrailing_append (ha.not_mem (by decide))]

end Bracket

/-! ## The bracket of a raw line -/

/-- **The bracket that an editor cuts** off a raw line, without its backslashes,
is the bracket of the code. -/
theorem LineParts.inner_eq_splitTrailing (raw : Text) :
    (ofText raw).inner.map Comment.unescape = (Bracket.splitTrailing (Comment.strip raw)).2 := by
  have hcode : (Bracket.splitTrailing (Comment.strip raw)).2 =
      (Bracket.splitTrailing (Comment.unescape (body raw))).2 := by
    rw [strip_eq_body, Bracket.splitTrailing_trimmed]
  rw [hcode]
  cases (ofText_spec raw).shape with
  | bracketed inside hbody hopen hinner =>
      have hinside : '[' ∉ Comment.unescape inside := fun hmem =>
        hopen ((Comment.mem_unescape (by decide)).mp hmem)
      rw [← Bracket.splitTrailing_trimmed, hinner, hbody, code_bracketed,
        Bracket.splitTrailing_bracketed _ hinside, Option.map_some, Comment.trim_unescape]
  | bare hbody hinner hend =>
      rw [hinner, Option.map_none]
      by_cases hopen : '[' ∈ body raw
      · have hsolid : Text.trimEnd (Comment.unescape (body raw)) = Comment.unescape (body raw) := by
          apply Text.trimEnd_eq_self
          intro c hc
          rw [Comment.last_unescape] at hc
          exact Text.last_trimEnd hc
        have hlast : (Text.trimEnd (Comment.unescape (body raw))).getLast? ≠ some ']' := by
          rw [hsolid, Comment.last_unescape]
          exact hend hopen
        rw [Bracket.splitTrailing_bare hlast]
      · rw [Bracket.splitTrailing_of_not_mem fun hmem =>
          hopen ((Comment.mem_unescape (by decide)).mp hmem)]

/-! ## The bracket that is read -/

/-- The head of a line that may have a bracket, and the bracket: a marker has no
head, a definition has its token, an edge its sources. -/
def Content.headAndBracket? : Content → Option (Text × Option Text)
  | .marker _ _ bracket => some ([], bracket)
  | .node token _ bracket => some (token, bracket)
  | .edge sources _ bracket => some (sources, bracket)
  | _ => none

namespace Line

variable {code : Text} {bracket : Option Text}

/-- The bracket of a marker is the one that ends its code, whatever dashes and
label come before it. -/
theorem splitTrailing_of_marker {depth : Nat} {label : Text}
    (h : contentOf code = .marker depth label bracket) :
    bracket = (Bracket.splitTrailing code).2 := by
  obtain ⟨-, -, -, -, rfl⟩ := contentOf_eq_marker_iff.mp h
  have hdashes : '[' ∉ code.takeWhile (· == '-') := fun hmem =>
    absurd (List.mem_takeWhile_imp hmem) (by decide)
  conv_rhs => rw [← List.takeWhile_append_dropWhile (p := (· == '-')) (l := code)]
  rw [Bracket.splitTrailing_append hdashes, Bracket.splitTrailing_trimmed]

/-- The bracket of a definition is the one that ends its code, if none opens in
its token. -/
theorem splitTrailing_of_node {token label : Text} (h : contentOf code = .node token label bracket)
    (htoken : '[' ∉ token) : bracket = (Bracket.splitTrailing code).2 := by
  obtain ⟨-, -, word, value, hparts, rfl, -, rfl⟩ := contentOf_eq_node_iff.mp h
  obtain ⟨gap, blanks, hcode, hgap, hblanks⟩ := (definitionParts?_defines hparts).code_eq
  have hfront : '[' ∉ word ++ gap ++ ':' :: ':' :: blanks := by
    simp only [List.mem_append, List.mem_cons, not_or]
    exact ⟨⟨fun hmem => htoken (Text.mem_trim (by decide) hmem),
      hgap.not_mem (by decide)⟩, by decide, by decide, hblanks.not_mem (by decide)⟩
  have hwhole : code = (word ++ gap ++ ':' :: ':' :: blanks) ++ value := by simp [hcode]
  rw [hwhole, Bracket.splitTrailing_append hfront, Bracket.splitTrailing_trimmed]

/-- The bracket of an edge is the one that ends its code, if none opens in its
sources. -/
theorem splitTrailing_of_edge {sources targets : Text} (hfree : '\n' ∉ code)
    (h : contentOf code = .edge sources targets bracket) (hsources : '[' ∉ sources) :
    bracket = (Bracket.splitTrailing code).2 := by
  obtain ⟨-, -, -, side, value, hparts, rfl, -, rfl⟩ := contentOf_eq_edge_iff.mp h
  obtain ⟨pre, more, rfl, -, -, rfl, rfl⟩ := arrowParts?_cut List.not_mem_nil hfree hparts
  rw [Text.trim_trimEnd] at hsources
  have hfront : '[' ∉ pre ++ ['-', '>'] := by
    simp only [List.mem_append, List.mem_cons, not_or]
    exact ⟨fun hmem => hsources (Text.mem_trim (by decide) hmem), by decide,
      by decide, List.not_mem_nil⟩
  have hwhole : pre ++ '-' :: '>' :: more = (pre ++ ['-', '>']) ++ more := by simp
  rw [hwhole, Bracket.splitTrailing_append hfront, Text.trim_trimStart,
    Bracket.splitTrailing_trimmed]

/-- **The bracket that is read** is the bracket of the code, unless the head of
the line opens one. -/
theorem bracket_eq_splitTrailing {head : Text} (hfree : '\n' ∉ code)
    (h : (contentOf code).headAndBracket? = some (head, bracket)) (hhead : '[' ∉ head) :
    bracket = (Bracket.splitTrailing code).2 := by
  cases hcontent : contentOf code with
  | marker depth label written =>
      rw [hcontent] at h
      cases h
      exact splitTrailing_of_marker hcontent
  | node token label written =>
      rw [hcontent] at h
      cases h
      exact splitTrailing_of_node hcontent hhead
  | edge sources targets written =>
      rw [hcontent] at h
      cases h
      exact splitTrailing_of_edge hfree hcontent hhead
  | blank => simp [hcontent, Content.headAndBracket?] at h
  | setting phrase known value => simp [hcontent, Content.headAndBracket?] at h
  | unrecognised => simp [hcontent, Content.headAndBracket?] at h

end Line

/-- **Editor and reader cut the same bracket.**  On one line that is read as a
marker, or as a definition or an edge whose head holds no `[`, there is a
bracket for the one exactly when there is one for the other.  What is read is
what the editor cuts with a number sign for each escaped one, and both find the
same comment. -/
theorem bracket_eq_inner {raw head : Text} {bracket : Option Text} (hfree : '\n' ∉ raw)
    (h : (Line.ofText raw).content.headAndBracket? = some (head, bracket)) (hhead : '[' ∉ head) :
    ((LineParts.ofText raw).inner = none ↔ bracket = none) ∧
      bracket = (LineParts.ofText raw).inner.map Comment.unescape ∧
      (LineParts.ofText raw).comment = (Line.ofText raw).comment := by
  have hcode : '\n' ∉ Comment.strip raw := Line.oneLine_strip hfree
  have hbracket : bracket = (LineParts.ofText raw).inner.map Comment.unescape := by
    rw [LineParts.inner_eq_splitTrailing]
    exact Line.bracket_eq_splitTrailing hcode h hhead
  refine ⟨?_, hbracket, LineParts.ofText_comment raw⟩
  rw [hbracket, Option.map_eq_none_iff]

/-- Blanks, escaped number signs, a bracket in the comment. -/
theorem bracket_eq_inner_of_escaped_edge :
    (Line.ofText "  A | C -> B \\#2 [ red | label=\\# 1 ]  # see [x]").content.headAndBracket? =
      some ("A | C".toList, some "red | label=# 1".toList) ∧
    some "red | label=# 1".toList =
      (LineParts.ofText "  A | C -> B \\#2 [ red | label=\\# 1 ]  # see [x]").inner.map
        Comment.unescape ∧
    (LineParts.ofText "  A | C -> B \\#2 [ red | label=\\# 1 ]  # see [x]").comment =
      "# see [x]".toList := by
  have hread :
      (Line.ofText "  A | C -> B \\#2 [ red | label=\\# 1 ]  # see [x]").content.headAndBracket? =
      some ("A | C".toList, some "red | label=# 1".toList) := by decide +kernel
  obtain ⟨-, hinner, hcomment⟩ := bracket_eq_inner (by decide) hread (by decide)
  exact ⟨hread, hinner, hcomment⟩

end LineDiagram
