import LineDiagram.Edit.Node
import LineDiagram.Proofs.Addresses
import LineDiagram.Proofs.DefinitionCut
import LineDiagram.Proofs.Document
import LineDiagram.Proofs.LineParts
import LineDiagram.Proofs.StyleBracket

/-!
# Changing the style of a node

The style of a node is written into the bracket of its definition; the text
before the bracket and the comment are put back as they were.  Still the line is
read anew, and the new bracket can change what is read before and behind it: a
number sign in the fill opens a comment, a bracket that goes can uncover another
one or leave no label, and a bracket that comes can give a value to colons that
had none, or hold colons of its own.  `NodeStyleEdit.Fits` says when nothing of
this happens.

* `comment_restyled_iff` — when the comment stays;
* `keeps_restyled_iff` — when token, label and comment stay;
* `setNodeStyle_definition` — the edit of a whole document.
-/

namespace LineDiagram

open Comment

namespace NodeStyleEdit

/-- The inside of the bracket that is written for a node. -/
def innerAfter (edit : NodeStyleEdit) (raw : Text) : Text :=
  Text.trim (edit.apply ((LineParts.ofText raw).inner.getD []))

/-- The line of a definition with another style. -/
def restyled (edit : NodeStyleEdit) (raw : Text) : Text :=
  (LineParts.ofText raw).assemble (edit.apply ((LineParts.ofText raw).inner.getD []))

/-- An edit fits a definition with a given label: nothing but the style is read
differently after it. -/
structure Fits (edit : NodeStyleEdit) (raw label : Text) : Prop where
  /-- No comment opens in the fill. -/
  plain : Plain ((edit.fill.toText? writtenColour).getD [])
  /-- A new bracket is not the value of two colons at the end of the code. -/
  added : (LineParts.ofText raw).inner = none → edit.innerAfter raw ≠ [] →
    ∀ word, ¬ Line.Cut (Comment.strip raw) word []
  /-- If the code up to the bracket is one word, no two colons are reached in
  the bracket. -/
  replaced : (LineParts.ofText raw).inner ≠ none → edit.innerAfter raw ≠ [] →
    ¬ ((∀ c ∈ Text.trimStart (unescape (LineParts.ofText raw).before), Text.isBlank c = false) ∧
      Line.ReachesColons (unescape (edit.innerAfter raw)))
  /-- A bracket that goes leaves a label, and this does not end in a bracket. -/
  removed : (LineParts.ofText raw).inner ≠ none → edit.innerAfter raw = [] →
    label ≠ [] ∧ (Bracket.splitTrailing label).2 = none

/-! ## The new line -/

section Restyled

variable {edit : NodeStyleEdit} {raw token label : Text} {bracket : Option Text}

/-- What stands in the bracket of a line may stand in a bracket. -/
private theorem fit_inner (hraw : '\n' ∉ raw) :
    Bracket.Fit ((LineParts.ofText raw).inner.getD []) := by
  have hparts := LineParts.ofText_spec raw
  exact Bracket.fit_iff.mpr ⟨hparts.inner_spec.2.2, fun hmem => hraw (hparts.subset.2 hmem)⟩

/-- And so may what is written there. -/
private theorem fit_innerAfter (hraw : '\n' ∉ raw) (hfill : edit.fill.isBroken = false)
    (hborder : edit.border.isBroken = false) : Bracket.Fit (edit.innerAfter raw) :=
  (fit_apply (fit_inner hraw) hfill hborder).of_subset fun _ hc => Text.mem_of_mem_trim hc

/-- It may also stand there as it is read: dropping backslashes adds no
character. -/
private theorem free_unescape {t : Text} (h : Bracket.Fit t) :
    '\n' ∉ unescape t ∧ '[' ∉ unescape t := by
  rw [mem_unescape (by decide), mem_unescape (by decide)]
  exact (Bracket.fit_iff.mp h).symm

/-- Blanks around a text make no difference to whether a comment opens in it: a
blank is neither a number sign nor a backslash. -/
private theorem plain_trim_iff {t : Text} : Plain (Text.trim t) ↔ Plain t := by
  constructor
  · intro h
    obtain ⟨a, b, ht, ha, hb⟩ := Text.exists_trim t
    rw [ht]
    exact ((plain_of_not_mem (ha.not_mem (by decide))).append h).append
      (plain_of_not_mem (hb.not_mem (by decide)))
  · exact Plain.trim

/-- No comment opens in the code of the new line exactly when none opens in its
bracket. -/
private theorem plain_newCode_iff {parts : LineParts} (hparts : LineParts.PartsOf raw parts)
    (inner : Text) : Plain (parts.newCode inner parts.before) ↔ Plain (Text.trim inner) := by
  have hbefore := hparts.before_plain
  have hend : Plain (Text.trimEnd parts.before) := by
    obtain ⟨gap, hsplit, -⟩ := Text.exists_trimEnd parts.before
    rw [hsplit] at hbefore
    exact hbefore.left
  unfold LineParts.newCode
  split
  · rename_i hnil
    rw [List.isEmpty_iff.mp hnil]
    exact ⟨fun _ => trivial, fun _ => hend⟩
  · have hstem :
        Plain (if parts.inner.isNone then Text.trimEnd parts.before ++ [' ']
          else parts.before) := by
      split
      · exact hend.append (plain_of_not_mem (by decide))
      · exact hbefore
    constructor
    · intro h
      exact (h.right (by decide)).left
    · intro h
      have hopen : Plain ['['] := plain_of_not_mem (by decide)
      exact hstem.append (hopen.append (h.append (plain_of_not_mem (by decide))))

/-- **The comment stays** exactly when none opens in the fill.  Nothing else
that an edit writes can open one. -/
theorem comment_restyled_iff (hraw : '\n' ∉ raw) :
    (Comment.split (edit.restyled raw)).2 = (Comment.split raw).2 ↔
      Plain ((edit.fill.toText? writtenColour).getD []) := by
  have hparts := LineParts.ofText_spec raw
  rw [← LineParts.ofText_comment raw, ← plain_apply_iff hparts.inner_spec.2.1 (fit_inner hraw),
    ← plain_trim_iff, ← plain_newCode_iff hparts]
  exact LineParts.comment_assemble_iff hparts

/-- The code of the new line when a bracket is written: what stood before the
old one, and then the new inside between brackets. -/
private theorem strip_restyled (hplain : Plain (edit.innerAfter raw))
    (hne : edit.innerAfter raw ≠ []) :
    Comment.strip (edit.restyled raw) =
      Text.trimStart (unescape (if (LineParts.ofText raw).inner.isNone
        then (LineParts.ofText raw).before ++ [' '] else (LineParts.ofText raw).before)) ++
        '[' :: (unescape (edit.innerAfter raw) ++ [']']) := by
  have hread := @LineParts.strip_assemble_bracket raw (edit.innerAfter raw) _
    (LineParts.ofText_spec raw) (Text.tight_trim _) hne hplain
  rw [← hread]
  simp [restyled, innerAfter, LineParts.assemble]

/-- The code of the new line when no bracket is written: what stood before the
old one, and nothing else. -/
private theorem strip_restyled_of_nil (hnil : edit.innerAfter raw = []) :
    Comment.strip (edit.restyled raw) =
      Text.trimEnd (Text.trimStart (unescape (LineParts.ofText raw).before)) := by
  have hparts := LineParts.ofText_spec raw
  have hcode : (LineParts.ofText raw).newCode (edit.apply ((LineParts.ofText raw).inner.getD []))
      (LineParts.ofText raw).before = Text.trimEnd (LineParts.ofText raw).before := by
    unfold innerAfter at hnil
    simp [LineParts.newCode, hnil]
  have hplain := (plain_newCode_iff hparts (edit.apply ((LineParts.ofText raw).inner.getD []))).mpr
    (by unfold innerAfter at hnil; rw [hnil]; trivial)
  have hstrip : Comment.strip (edit.restyled raw) =
      Text.trim (unescape (Text.trimEnd (LineParts.ofText raw).before)) := by
    rw [← hcode]
    exact @LineParts.strip_assemble raw _ hparts _ none hplain
  rw [hstrip, trim_unescape, Text.trim_trimEnd, ← trim_unescape]
  rfl

/-- What is known of a line without a bracket at its end, as it is read: its
code is tight, not blank, and on one line. -/
private theorem bare_free (hraw : '\n' ∉ raw)
    (hend : '[' ∈ LineParts.body raw → (LineParts.body raw).getLast? ≠ some ']')
    (h : Line.contentOfRaw raw = .node token label bracket) :
    ¬ Text.AllBlank (unescape (LineParts.body raw)) ∧ '\n' ∉ Comment.strip raw ∧
      Text.Tight (Comment.strip raw) ∧
      ('[' ∈ Comment.strip raw → (Comment.strip raw).getLast? ≠ some ']') := by
  have hcode := LineParts.strip_eq_body raw
  have hblank : ¬ Text.AllBlank (unescape (LineParts.body raw)) := by
    intro hall
    unfold Line.contentOfRaw at h
    rw [hcode, Text.trim_eq_nil.mpr hall] at h
    cases h
  have hmem : ∀ {c}, c ≠ '\\' → c ∈ Comment.strip raw → c ∈ LineParts.body raw := by
    intro c hc hin
    rw [hcode] at hin
    exact (mem_unescape hc).mp (Text.mem_of_mem_trim hin)
  refine ⟨hblank, ?_, hcode ▸ Text.tight_trim _, ?_⟩
  · exact fun hin => hraw ((LineParts.ofText_spec raw).body_subset (hmem (by decide) hin))
  · intro hin
    rw [hcode, (LineParts.code_bare hblank).2]
    exact hend (hmem (by decide) hin)

/-- A definition without a bracket keeps its token and its label when it gets
one, exactly if its code does not end in two colons behind a token: a bracket
would be read as the value there. -/
private theorem content_restyled_bare (hraw : '\n' ∉ raw) (hfit : Bracket.Fit (edit.innerAfter raw))
    (hplain : Plain (edit.innerAfter raw))
    (hbody : LineParts.body raw = (LineParts.ofText raw).before)
    (hinner : (LineParts.ofText raw).inner = none)
    (hend : '[' ∈ LineParts.body raw → (LineParts.body raw).getLast? ≠ some ']')
    (h : Line.contentOfRaw raw = .node token label bracket) :
    (∃ new, Line.contentOfRaw (edit.restyled raw) = .node token label new) ↔
      (edit.innerAfter raw ≠ [] → ∀ word, ¬ Line.Cut (Comment.strip raw) word []) := by
  obtain ⟨hblank, hfree, htight, hlast⟩ := bare_free hraw hend h
  have hcode := LineParts.strip_eq_body raw
  unfold Line.contentOfRaw at h ⊢
  by_cases hnil : edit.innerAfter raw = []
  · have hsame : Comment.strip (edit.restyled raw) = Comment.strip raw := by
      rw [strip_restyled_of_nil hnil, ← hbody, hcode]
      rfl
    rw [hsame]
    exact ⟨fun _ hne => absurd hnil hne, fun _ => ⟨bracket, h⟩⟩
  · have hspace : Text.AllBlank [' '] := Text.allBlank_singleton (by decide)
    have hnew : Comment.strip (edit.restyled raw) =
        Comment.strip raw ++ ' ' :: '[' :: (unescape (edit.innerAfter raw) ++ [']']) := by
      rw [strip_restyled hplain hnil, hinner, Option.isNone_none, if_pos rfl, ← hbody,
        unescape_append_blank hspace, Text.trimStart_append hblank,
        ← (LineParts.code_bare hblank).1,
        ← hcode]
      simp
    rw [hnew, Line.node_add_bracket_iff hfree htight hlast (free_unescape hfit) h]
    exact ⟨fun hnone _ => hnone, fun hnone => hnone hnil⟩

/-- What is known of a line with a bracket at its end, as it is read. -/
private theorem bracketed_free (hraw : '\n' ∉ raw) {inside : Text}
    (hbody : LineParts.body raw = (LineParts.ofText raw).before ++ '[' :: (inside ++ [']']))
    (hopen : '[' ∉ inside) :
    Comment.strip raw = Text.trimStart (unescape (LineParts.ofText raw).before) ++
        '[' :: (unescape inside ++ [']']) ∧
      '\n' ∉ Text.trimStart (unescape (LineParts.ofText raw).before) ∧
      '\n' ∉ unescape inside ∧ '[' ∉ unescape inside := by
  have hparts := LineParts.ofText_spec raw
  have hin : '\n' ∉ inside := by
    intro hmem
    refine hraw (hparts.body_subset ?_)
    rw [hbody]
    simp [hmem]
  refine ⟨by rw [LineParts.strip_eq_body, hbody, LineParts.code_bracketed], ?_, ?_⟩
  · intro hmem
    exact hraw (hparts.subset.1 ((mem_unescape (by decide)).mp (Text.mem_of_mem_trimStart hmem)))
  · rw [mem_unescape (by decide), mem_unescape (by decide)]
    exact ⟨hin, hopen⟩

/-- A definition whose bracket is read keeps its token and its label when the
bracket is written anew, unless the new one moves the cut.  When the bracket
goes, the label must be there and end in no further bracket. -/
private theorem content_restyled_bracketed (hraw : '\n' ∉ raw)
    (hfit : Bracket.Fit (edit.innerAfter raw)) (hplain : Plain (edit.innerAfter raw))
    {inside inner : Text}
    (hbody : LineParts.body raw = (LineParts.ofText raw).before ++ '[' :: (inside ++ [']']))
    (hopen : '[' ∉ inside) (hsome : (LineParts.ofText raw).inner.isNone = false)
    (h : Line.contentOfRaw raw = .node token label (some inner)) :
    (∃ new, Line.contentOfRaw (edit.restyled raw) = .node token label new) ↔
      (edit.innerAfter raw ≠ [] →
        ¬ ((∀ c ∈ Text.trimStart (unescape (LineParts.ofText raw).before), Text.isBlank c = false) ∧
          Line.ReachesColons (unescape (edit.innerAfter raw)))) ∧
      (edit.innerAfter raw = [] → label ≠ [] ∧ (Bracket.splitTrailing label).2 = none) := by
  obtain ⟨hcode, hbefore, hinside⟩ := bracketed_free hraw hbody hopen
  unfold Line.contentOfRaw at h ⊢
  rw [hcode] at h
  by_cases hnil : edit.innerAfter raw = []
  · rw [strip_restyled_of_nil hnil, Line.node_drop_bracket_iff hbefore hinside h]
    exact ⟨fun hlabel => ⟨fun hne => absurd hnil hne, fun _ => hlabel⟩, fun hall => hall.2 hnil⟩
  · rw [strip_restyled hplain hnil, hsome, if_neg (by simp),
      Line.node_rebracket_iff hbefore hinside (free_unescape hfit) h]
    exact ⟨fun hnone => ⟨fun _ => hnone, fun heq => absurd heq hnil⟩, fun hall => hall.1 hnil⟩

/-- **A definition with another style** keeps comment, token and label exactly
when the edit fits, if compiler and editor agree whether it has a bracket. -/
theorem keeps_restyled_iff (hraw : '\n' ∉ raw) (hfill : edit.fill.isBroken = false)
    (hborder : edit.border.isBroken = false) (h : Line.contentOfRaw raw = .node token label bracket)
    (hsame : bracket.isSome = (LineParts.ofText raw).inner.isSome) :
    ((∃ new, Line.contentOfRaw (edit.restyled raw) = .node token label new) ∧
        (Comment.split (edit.restyled raw)).2 = (Comment.split raw).2) ↔
      edit.Fits raw label := by
  have hparts := LineParts.ofText_spec raw
  have hfit := fit_innerAfter hraw hfill hborder
  rw [comment_restyled_iff hraw]
  have hplain : Plain ((edit.fill.toText? writtenColour).getD []) → Plain (edit.innerAfter raw) :=
    fun hcolour => ((plain_apply_iff hparts.inner_spec.2.1 (fit_inner hraw)).mpr hcolour).trim
  cases hparts.shape with
  | bare hbody hnone hend =>
      have hiff := fun hcolour =>
        content_restyled_bare hraw hfit (hplain hcolour) hbody hnone hend h
      constructor
      · rintro ⟨hcontent, hcolour⟩
        exact ⟨hcolour, fun _ => (hiff hcolour).mp hcontent, fun hne => absurd hnone hne,
          fun hne => absurd hnone hne⟩
      · intro hfits
        exact ⟨(hiff hfits.plain).mpr (hfits.added hnone), hfits.plain⟩
  | bracketed inside hbody hopen hsome =>
      obtain ⟨inner, rfl⟩ : ∃ inner, bracket = some inner := by
        rw [hsome] at hsame
        exact Option.isSome_iff_exists.mp hsame
      have hne : (LineParts.ofText raw).inner ≠ none := by simp [hsome]
      have hiff := fun hcolour =>
        content_restyled_bracketed hraw hfit (hplain hcolour) hbody hopen (by rw [hsome]; rfl) h
      constructor
      · rintro ⟨hcontent, hcolour⟩
        obtain ⟨hreplaced, hremoved⟩ := (hiff hcolour).mp hcontent
        exact ⟨hcolour, fun hnone => absurd hnone hne, fun _ => hreplaced, fun _ => hremoved⟩
      · intro hfits
        exact ⟨(hiff hfits.plain).mpr ⟨hfits.replaced hne, hfits.removed hne⟩, hfits.plain⟩

/-- **A bracket that is not read**, because the definition is cut in it, is not
read after an edit either. -/
theorem hidden_restyled {label' : Text} {new : Option Text} (hraw : '\n' ∉ raw)
    (hfill : edit.fill.isBroken = false) (hborder : edit.border.isBroken = false)
    (h : Line.contentOfRaw raw = .node token label bracket)
    (hdiffer : bracket.isSome ≠ (LineParts.ofText raw).inner.isSome)
    (hcontent : Line.contentOfRaw (edit.restyled raw) = .node token label' new)
    (hcomment : (Comment.split (edit.restyled raw)).2 = (Comment.split raw).2) :
    bracket = none ∧ new = none := by
  have hparts := LineParts.ofText_spec raw
  have hfit := fit_innerAfter hraw hfill hborder
  have hplain : Plain (edit.innerAfter raw) :=
    ((plain_apply_iff hparts.inner_spec.2.1 (fit_inner hraw)).mpr
      ((comment_restyled_iff hraw).mp hcomment)).trim
  cases hparts.shape with
  | bare hbody hnone hend =>
      obtain ⟨-, hfree, htight, hlast⟩ := bare_free hraw hend h
      rw [Line.node_bare hfree htight hlast h, hnone] at hdiffer
      exact absurd rfl hdiffer
  | bracketed inside hbody hopen hsome =>
      obtain rfl : bracket = none := by
        rw [hsome] at hdiffer
        simpa using hdiffer
      obtain ⟨hcode, hbefore, hinside⟩ := bracketed_free hraw hbody hopen
      unfold Line.contentOfRaw at h hcontent
      rw [hcode] at h
      obtain ⟨hread, hdropped⟩ :=
        Line.node_hidden_bracket hbefore hinside (free_unescape hfit) h label' new
      by_cases hnil : edit.innerAfter raw = []
      · rw [strip_restyled_of_nil hnil] at hcontent
        exact absurd hcontent hdropped
      · rw [strip_restyled hplain hnil, hsome, Option.isNone_some, if_neg (by simp)] at hcontent
        exact ⟨rfl, hread hcontent⟩

end Restyled

end NodeStyleEdit

/-! ## The edit -/

/-- What the editor has found when it changes the style of a node, and what it
writes. -/
theorem Edit.setNodeStyle_done {lines : List Text} {id : Text} {edit : NodeStyleEdit}
    (h : (setNodeStyle lines id edit).patch.success = true) :
    edit.fill.isBroken = false ∧ edit.border.isBroken = false ∧
      ∃ (index : Nat) (old token label : Text) (bracket : Option Text), lines[index]? = some old ∧
        Line.contentOfRaw old = .node token label bracket ∧
        Identifier.ofToken token = Text.trim id ∧
        (setNodeStyle lines id edit).lines = lines.set index (edit.restyled old) := by
  unfold setNodeStyle at h ⊢
  split at h
  · cases h
  · rename_i index hfind
    dsimp only at h ⊢
    split at h
    · cases h
    · rename_i hbroken
      have hfields := List.find?_eq_none.mp (Option.map_eq_none_iff.mp hbroken)
      refine ⟨by simpa using hfields ("fill", edit.fill) (by simp),
        by simpa using hfields ("border", edit.border) (by simp), index, ?_⟩
      obtain ⟨old, hold, hdefined⟩ := findDefinition?_eq_some hfind
      cases hcontent : (Line.ofText old).content with
      | node token label bracket =>
          unfold Line.definedNode? at hdefined
          rw [hcontent] at hdefined
          refine ⟨old, token, label, bracket, hold, hcontent, Option.some.inj hdefined, ?_⟩
          rw [Text.getD_of_getElem? hold]
          rfl
      | blank | marker _ _ _ | setting _ _ _ | edge _ _ _ | unrecognised =>
          unfold Line.definedNode? at hdefined
          rw [hcontent] at hdefined
          cases hdefined

/-- What a change of style does to a definition. -/
structure NodeStyleEdit.Restyles (edit : NodeStyleEdit) (old token label : Text)
    (bracket : Option Text) : Prop where
  /-- If compiler and editor agree whether the line has a bracket, token, label
  and comment stay exactly when the edit fits. -/
  keeps_iff : bracket.isSome = (LineParts.ofText old).inner.isSome →
    ((∃ new, Line.contentOfRaw (edit.restyled old) = .node token label new) ∧
        (Line.ofText (edit.restyled old)).comment = (Line.ofText old).comment ↔
      edit.Fits old label)
  /-- If they do not agree, the bracket is not read, before and after. -/
  hidden : bracket.isSome ≠ (LineParts.ofText old).inner.isSome → ∀ label' new,
    Line.contentOfRaw (edit.restyled old) = .node token label' new →
      (Line.ofText (edit.restyled old)).comment = (Line.ofText old).comment →
        bracket = none ∧ new = none

/-- **Changing the style of a node** rewrites one definition of the node, which
keeps its token, its label and its comment exactly when the edit fits. -/
theorem setNodeStyle_definition (t : Text) {id : Text} {edit : NodeStyleEdit}
    (hdone : (Edit.setNodeStyle (Document.split t) id edit).patch.success = true) :
    ∃ (index : Nat) (old token label : Text) (bracket : Option Text),
      (Document.split t)[index]? = some old ∧ Line.contentOfRaw old = .node token label bracket ∧
      Identifier.ofToken token = Text.trim id ∧
      (Edit.setNodeStyle (Document.split t) id edit).lines =
        (Document.split t).set index (edit.restyled old) ∧
      edit.Restyles old token label bracket := by
  obtain ⟨hfill, hborder, index, old, token, label, bracket, hold, hcontent, hid, hlines⟩ :=
    Edit.setNodeStyle_done hdone
  have hraw : '\n' ∉ old := Document.not_mem_split (List.mem_of_getElem? hold)
  refine ⟨index, old, token, label, bracket, hold, hcontent, hid, hlines, ?_, ?_⟩
  · exact NodeStyleEdit.keeps_restyled_iff hraw hfill hborder hcontent
  · intro hdiffer label' new hnew hcomment
    exact NodeStyleEdit.hidden_restyled hraw hfill hborder hcontent hdiffer hnew hcomment

/-- A fill with a number sign that is escaped, for a label that ends in a
bracket of its own. -/
theorem setNodeStyle_definition_of_bracket :
    (Edit.setNodeStyle (Document.split "A -> B\n A:: x [y] [Color=red|shape=rounded] # c") " A "
      { fill := some (.text "\\#1"), rounded := some (.flag false) }).patch.success = true ∧
    ∃ (index : Nat) (old token label : Text) (bracket : Option Text),
      (Document.split "A -> B\n A:: x [y] [Color=red|shape=rounded] # c")[index]? = some old ∧
      Line.contentOfRaw old = .node token label bracket ∧
        Identifier.ofToken token = Text.trim " A " ∧
      (Edit.setNodeStyle (Document.split "A -> B\n A:: x [y] [Color=red|shape=rounded] # c") " A "
          { fill := some (.text "\\#1"), rounded := some (.flag false) }).lines =
        (Document.split "A -> B\n A:: x [y] [Color=red|shape=rounded] # c").set index
          (NodeStyleEdit.restyled
            { fill := some (.text "\\#1"), rounded := some (.flag false) } old) ∧
      NodeStyleEdit.Restyles { fill := some (.text "\\#1"), rounded := some (.flag false) }
        old token label bracket := by
  have hdone : (Edit.setNodeStyle
      (Document.split "A -> B\n A:: x [y] [Color=red|shape=rounded] # c") " A "
      { fill := some (.text "\\#1"), rounded := some (.flag false) }).patch.success = true := by
    decide +kernel
  exact ⟨hdone, setNodeStyle_definition _ hdone⟩

/-- A fill with a number sign is written as it is, and the rest of the bracket
is a comment then. -/
theorem setNodeStyle_opens_comment :
    ¬ ∀ (t id : Text) (edit : NodeStyleEdit),
      (Edit.setNodeStyle (Document.split t) id edit).patch.success = true →
      ∃ (index : Nat) (old new token label : Text) (bracket bracket' : Option Text),
        (Document.split t)[index]? = some old ∧ Line.contentOfRaw old = .node token label bracket ∧
        (Edit.setNodeStyle (Document.split t) id edit).lines = (Document.split t).set index new ∧
        Line.contentOfRaw new = .node token label bracket' ∧
        (Line.ofText new).comment = (Line.ofText old).comment := by
  intro hall
  obtain ⟨index, old, new, token, label, bracket, bracket', hold, -, hlines, -, hcomment⟩ :=
    hall "A:: x" "A" { fill := some (.text "#zzz") } (by decide +kernel)
  have hsplit : Document.split "A:: x" = ["A:: x".toList] := by decide +kernel
  have hnew : (Edit.setNodeStyle (Document.split "A:: x") "A"
      { fill := some (.text "#zzz") }).lines = ["A:: x [colour=#zzz]".toList] := by decide +kernel
  rw [hnew, hsplit] at hlines
  rw [hsplit] at hold
  obtain rfl : index = 0 := by simpa using (List.getElem?_eq_some_iff.mp hold).1
  obtain rfl : "A:: x".toList = old := by simpa using hold
  obtain rfl : "A:: x [colour=#zzz]".toList = new := by simpa using hlines
  exact absurd hcomment (by decide +kernel)

end LineDiagram
