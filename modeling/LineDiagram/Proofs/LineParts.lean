import LineDiagram.Line.Parts
import LineDiagram.Proofs.Comment

/-!
# Laws of the parts of a raw line

Cutting a raw line and putting it together are inverse: the body of the line is
what stands before the bracket, the bracket if there is one, and nothing else;
blanks and a comment may follow it.

* `ofText_spec` — what the parts of a raw line are;
* `strip_eq_body` — the code of a line is its body without backslashes;
* `strip_assemble` — the code of a line that was put together is the code that
  was written.
-/

namespace LineDiagram.LineParts

open Comment

/-- The code of a raw line without the blanks at its end. -/
def body (raw : Text) : Text := Text.trimEnd (Comment.split raw).1

/-- The two shapes of the body of a line: a bracket ends it, opened by the last
`[`, or none does. -/
inductive BodyShape (parts : LineParts) (body : Text) : Prop
  | bracketed (inside : Text) (hbody : body = parts.before ++ '[' :: (inside ++ [']']))
      (hopen : '[' ∉ inside) (hinner : parts.inner = some (Text.trim inside))
  | bare (hbody : body = parts.before) (hinner : parts.inner = none)
      (hend : '[' ∈ body → body.getLast? ≠ some ']')

/-- What the parts of a raw line are. -/
structure PartsOf (raw : Text) (parts : LineParts) : Prop where
  /-- Put together they are the line. -/
  raw_eq : raw = body raw ++ parts.gap ++ parts.comment
  /-- The body opens no comment. -/
  plain : Plain (body raw)
  /-- The gap is blank. -/
  gap_blank : Text.AllBlank parts.gap
  /-- A comment starts with a number sign. -/
  comment_start : parts.comment = [] ∨ ∃ rest, parts.comment = '#' :: rest
  /-- The body is the text before the bracket and the bracket. -/
  shape : BodyShape parts (body raw)

/-- The code of a raw line is its body and a blank end, which is the gap before
a comment. -/
private theorem exists_gap (raw : Text) :
    ∃ gap, (Comment.split raw).1 = body raw ++ gap ∧ Text.AllBlank gap ∧
      (Comment.split raw).1.drop (body raw).length = gap := by
  obtain ⟨gap, hcode, hblank⟩ := Text.exists_trimEnd (Comment.split raw).1
  refine ⟨gap, hcode, hblank, ?_⟩
  conv_lhs => rw [hcode]
  exact List.drop_left

/-- **The cut of a raw line.**  It is code, a gap and a comment, and the code
ends in a bracket that was opened last, or in none. -/
theorem ofText_spec (raw : Text) : PartsOf raw (ofText raw) := by
  obtain ⟨hraw, hplain, hend⟩ := split_eq_iff.mp (rfl : Comment.split raw = (_, _))
  obtain ⟨gap, hcode, hblank, hdrop⟩ := exists_gap raw
  have hbody : Plain (body raw) := (hcode ▸ hplain).left
  have hstart : (Comment.split raw).2 = [] ∨ ∃ rest, (Comment.split raw).2 = '#' :: rest :=
    hend.imp id And.left
  have hjoin : raw = body raw ++ gap ++ (Comment.split raw).2 := by
    rw [← hcode]
    exact hraw
  -- Gap and comment are the same in every branch; only the shape of the body differs.
  have hparts : ∀ parts : LineParts, parts.gap = gap → parts.comment = (Comment.split raw).2 →
      BodyShape parts (body raw) → PartsOf raw parts := by
    intro parts hg hc hshape
    exact ⟨by rw [hg, hc]; exact hjoin, hbody, by rw [hg]; exact hblank, by rw [hc]; exact hstart,
      hshape⟩
  unfold ofText
  simp only [show Text.trimEnd (Comment.split raw).1 = body raw from rfl, hdrop]
  cases hcut : Text.cutLast? '[' (body raw) with
  | none =>
      have hopen := Text.cutLast?_eq_none_iff.mp hcut
      exact hparts _ rfl rfl (.bare rfl rfl (fun hmem => absurd hmem hopen))
  | some cut =>
      obtain ⟨before, inside⟩ := cut
      obtain ⟨hwhole, hopen⟩ := Text.cutLast?_eq_some_iff.mp hcut
      dsimp only
      split
      · rename_i inner hrev
        have hinside : inside = inner.reverse ++ [']'] := by
          have := congrArg List.reverse hrev
          simpa using this
        refine hparts _ rfl rfl (.bracketed inner.reverse ?_ ?_ rfl)
        · rw [hwhole, hinside]
        · intro hmem
          exact hopen (by rw [hinside]; exact List.mem_append_left _ hmem)
      · rename_i hrev
        refine hparts _ rfl rfl (.bare rfl rfl ?_)
        intro _ hlast
        rw [hwhole, List.getLast?_append_of_ne_nil _ (by simp), List.getLast?_cons] at hlast
        rcases List.eq_nil_or_concat inside with rfl | ⟨init, last, rfl⟩
        · simp at hlast
        · simp only [List.concat_eq_append, List.getLast?_concat, Option.getD_some,
            Option.some.injEq] at hlast
          exact hrev init.reverse (by simp [hlast])

/-- The body of a line ends with no blank. -/
theorem trimEnd_body (raw : Text) : Text.trimEnd (body raw) = body raw :=
  Text.trimEnd_eq_self (fun _ hc => Text.last_trimEnd hc)

/-- The code of a line is its body without backslashes, trimmed. -/
theorem strip_eq_body (raw : Text) : Comment.strip raw = Text.trim (unescape (body raw)) := by
  obtain ⟨gap, hcode, hblank, -⟩ := exists_gap raw
  unfold Comment.strip
  rw [hcode, unescape_append_blank hblank, Text.trim_append_blank hblank]

/-- The comment of a line is what the compiler takes for its comment. -/
theorem ofText_comment (raw : Text) : (ofText raw).comment = (Comment.split raw).2 := by
  unfold ofText
  dsimp only
  split
  · split <;> rfl
  · rfl

/-- No comment opens in the code before the bracket. -/
theorem PartsOf.before_plain {raw : Text} {parts : LineParts} (hparts : PartsOf raw parts) :
    Plain parts.before := by
  have hplain := hparts.plain
  cases hparts.shape with
  | bare hbody hinner hend => rwa [hbody] at hplain
  | bracketed inside hbody hopen hinner =>
      rw [hbody] at hplain
      exact hplain.left

/-- The inside of a bracket is trimmed, and opens no comment and no bracket. -/
theorem PartsOf.inner_spec {raw : Text} {parts : LineParts} (hparts : PartsOf raw parts) :
    Text.Tight (parts.inner.getD []) ∧ Plain (parts.inner.getD []) ∧ '[' ∉ parts.inner.getD [] := by
  cases hparts.shape with
  | bare hbody hinner hend =>
      rw [hinner]
      exact ⟨⟨nofun, nofun⟩, trivial, nofun⟩
  | bracketed inside hbody hopen hinner =>
      have hplain := hparts.plain
      rw [hbody] at hplain
      rw [hinner]
      exact ⟨Text.tight_trim inside, (hplain.right (by decide)).left.trim,
        fun hmem => hopen (Text.mem_of_mem_trim hmem)⟩

/-- Code without a bracket starts and ends as the line does, once the blanks
around it are taken off. -/
theorem code_bare {raw : Text} (h : ¬ Text.AllBlank (unescape (body raw))) :
    Text.trim (unescape (body raw)) = Text.trimStart (unescape (body raw)) ∧
      (Text.trim (unescape (body raw))).getLast? = (body raw).getLast? := by
  have hne : Text.trimStart (unescape (body raw)) ≠ [] :=
    fun hnil => h (Text.trimStart_eq_nil.mp hnil)
  have hlast : (Text.trimStart (unescape (body raw))).getLast? = (body raw).getLast? := by
    rw [← last_unescape (body raw), ← List.getLast?_append_of_ne_nil _ hne,
      Text.margin_append_trimStart]
  have hwhole : Text.trim (unescape (body raw)) = Text.trimStart (unescape (body raw)) := by
    apply Text.trimEnd_eq_self
    intro c hc
    rw [hlast] at hc
    exact Text.last_trimEnd hc
  rw [hwhole]
  exact ⟨rfl, hlast⟩

/-- The code of a body with a bracket at its end: the backslashes go on both
sides of it, and the bracket stays in its place. -/
theorem code_bracketed (before inside : Text) :
    Text.trim (unescape (before ++ '[' :: (inside ++ [']']))) =
      Text.trimStart (unescape before) ++ '[' :: (unescape inside ++ [']']) := by
  have hwhole : unescape (before ++ '[' :: (inside ++ [']'])) =
      unescape before ++ '[' :: (unescape inside ++ [']']) := by
    rw [unescape_append (by simp), unescape_cons (by simp), unescape_append (by simp)]
    rfl
  rw [hwhole]
  exact Text.trim_append_solid (by decide) (by decide) _ _

/-! ## Putting a line together -/

/-- The code that is written in front of the gap and the comment. -/
def newCode (parts : LineParts) (inner before : Text) : Text :=
  if (Text.trim inner).isEmpty then Text.trimEnd before
  else
    (if parts.inner.isNone then Text.trimEnd before ++ [' '] else before) ++ '[' ::
      (Text.trim inner ++ [']'])

/-- A line that is put together is its new code alone, if there was no comment.
Otherwise the old comment follows behind the old gap, or behind one blank where
there was no gap. -/
theorem assemble_eq (parts : LineParts) (inner before : Option Text) :
    parts.assemble inner before =
      let code := parts.newCode (inner.getD []) (before.getD parts.before)
      if parts.comment.isEmpty then code
      else code ++ (if parts.gap.isEmpty then [' '] else parts.gap) ++ parts.comment := by
  unfold assemble newCode
  simp

/-- A line that is put together is the code that is written, a gap and the old
comment. -/
private theorem exists_assemble {raw : Text} {parts : LineParts} (hparts : PartsOf raw parts)
    (inner before : Option Text) :
    ∃ gap, Text.AllBlank gap ∧
      (parts.comment = [] ∨ (∃ rest, parts.comment = '#' :: rest) ∧ gap ≠ []) ∧
      parts.assemble inner before =
        parts.newCode (inner.getD []) (before.getD parts.before) ++ gap ++ parts.comment := by
  rw [assemble_eq]
  rcases hparts.comment_start with hnil | ⟨rest, hrest⟩
  · exact ⟨[], Text.allBlank_nil, Or.inl hnil, by simp [hnil]⟩
  · refine ⟨if parts.gap.isEmpty then [' '] else parts.gap, ?_, Or.inr ⟨⟨rest, hrest⟩, ?_⟩, ?_⟩
    · split
      · exact Text.allBlank_singleton (by decide)
      · exact hparts.gap_blank
    · split
      · simp
      · rename_i hgap
        simpa using hgap
    · simp [hrest]

/-- **The code of a line that was put together.**  Gap and comment of the old
line are still gap and comment, so that the code is what was written. -/
theorem strip_assemble {raw : Text} {parts : LineParts} (hparts : PartsOf raw parts)
    {inner before : Option Text}
    (hplain : Plain (parts.newCode (inner.getD []) (before.getD parts.before))) :
    Comment.strip (parts.assemble inner before) =
      Text.trim (unescape (parts.newCode (inner.getD []) (before.getD parts.before))) := by
  obtain ⟨gap, hgap, hend, hline⟩ := exists_assemble hparts inner before
  unfold Comment.strip
  rw [hline, split_of_gap hplain hgap hend, unescape_append_blank hgap, Text.trim_append_blank hgap]

/-- A line that was put together has the old comment if no comment opens in what
was written. -/
theorem comment_assemble_iff {raw : Text} {parts : LineParts} (hparts : PartsOf raw parts)
    {inner before : Option Text} :
    (Comment.split (parts.assemble inner before)).2 = parts.comment ↔
      Plain (parts.newCode (inner.getD []) (before.getD parts.before)) := by
  obtain ⟨gap, hgap, hend, hline⟩ := exists_assemble hparts inner before
  constructor
  · intro hcomment
    obtain ⟨code, hsplit⟩ :
        ∃ code, Comment.split (parts.assemble inner before) = (code, parts.comment) :=
      ⟨_, Prod.ext rfl hcomment⟩
    obtain ⟨hraw, hplain, -⟩ := split_eq_iff.mp hsplit
    rw [hline] at hraw
    rw [← List.append_cancel_right hraw] at hplain
    exact hplain.left
  · intro hplain
    rw [hline, split_of_gap hplain hgap hend]

/-- The code of a line with another inside of its bracket, or with a bracket if
it had none. -/
theorem strip_assemble_bracket {raw text : Text} {parts : LineParts} (hparts : PartsOf raw parts)
    (htight : Text.Tight text) (hne : text ≠ []) (hplain : Plain text) :
    Comment.strip (parts.assemble (some text) (some parts.before)) =
      Text.trimStart
        (unescape (if parts.inner.isNone then parts.before ++ [' '] else parts.before)) ++
        '[' :: (unescape text ++ [']']) := by
  have hend : parts.inner.isNone = true → Text.trimEnd parts.before = parts.before := by
    intro hnone
    cases hparts.shape with
    | bare hbody hinner hend => rw [← hbody, trimEnd_body]
    | bracketed inside hbody hopen hinner => simp [hinner] at hnone
  have hcode : parts.newCode text parts.before =
      (if parts.inner.isNone then parts.before ++ [' '] else parts.before) ++
        '[' :: (text ++ [']']) := by
    unfold newCode
    rw [Text.trim_of_tight htight, if_neg (by simpa using hne)]
    by_cases hnone : parts.inner.isNone = true
    · rw [if_pos hnone, if_pos hnone, hend hnone]
    · rw [if_neg hnone, if_neg hnone]
  have hbracket : Plain ('[' :: (text ++ [']'])) := by
    have hopen : Plain ['['] := plain_of_not_mem (by decide)
    exact hopen.append (hplain.append (plain_of_not_mem (by decide)))
  have hwhole : Plain (parts.newCode text parts.before) := by
    rw [hcode]
    split
    · exact (hparts.before_plain.append (plain_of_not_mem (by decide))).append hbracket
    · exact hparts.before_plain.append hbracket
  rw [@strip_assemble raw parts hparts (some text) (some parts.before) hwhole, Option.getD_some,
    Option.getD_some, hcode, code_bracketed]

theorem PartsOf.body_subset {raw : Text} {parts : LineParts} (hparts : PartsOf raw parts) :
    body raw ⊆ raw := by
  intro c hc
  rw [hparts.raw_eq]
  exact List.mem_append_left _ (List.mem_append_left _ hc)

/-- Characters of the text before the bracket and of the inside of the bracket
are characters of the line. -/
theorem PartsOf.subset {raw : Text} {parts : LineParts} (hparts : PartsOf raw parts) :
    parts.before ⊆ raw ∧ parts.inner.getD [] ⊆ raw := by
  have hbody := hparts.body_subset
  cases hparts.shape with
  | bare hwhole hinner hend =>
      refine ⟨hwhole ▸ hbody, ?_⟩
      simp [hinner]
  | bracketed inside hwhole hopen hinner =>
      rw [hwhole] at hbody
      refine ⟨fun c hc => hbody (List.mem_append_left _ hc), fun c hc => hbody ?_⟩
      rw [hinner, Option.getD_some] at hc
      simp [Text.mem_of_mem_trim hc]

/-- A line that is put together of texts without line feeds holds none. -/
theorem lineFeed_not_mem_assemble {raw : Text} {parts : LineParts} (hparts : PartsOf raw parts)
    (hraw : '\n' ∉ raw) {inner before : Option Text} (hinner : '\n' ∉ inner.getD [])
    (hbefore : '\n' ∉ before.getD parts.before) : '\n' ∉ parts.assemble inner before := by
  have hgap : '\n' ∉ parts.gap := by
    intro hmem
    rw [hparts.raw_eq] at hraw
    exact hraw (List.mem_append_left _ (List.mem_append_right _ hmem))
  have hcomment : '\n' ∉ parts.comment := by
    intro hmem
    rw [hparts.raw_eq] at hraw
    exact hraw (List.mem_append_right _ hmem)
  have htrim : '\n' ∉ Text.trim (inner.getD []) := fun hmem => hinner (Text.mem_of_mem_trim hmem)
  have htrimEnd : '\n' ∉ Text.trimEnd (before.getD parts.before) :=
    fun hmem => hbefore (Text.mem_of_mem_trimEnd hmem)
  have hcode : '\n' ∉ parts.newCode (inner.getD []) (before.getD parts.before) := by
    unfold newCode
    split
    · exact htrimEnd
    · split
      · simp [htrim, htrimEnd]
      · simp [htrim, hbefore]
  rw [assemble_eq]
  dsimp only
  split
  · exact hcode
  · split
    · simp [hcode, hcomment]
    · simp [hcode, hcomment, hgap]

end LineDiagram.LineParts
